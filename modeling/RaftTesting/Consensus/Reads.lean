import RaftTesting.Consensus.Succession

namespace RaftTesting.Consensus

section

variable {E : Type}

namespace Hist

/-- What was on record still is, whoever has acted since. -/
structure Since (h h' : Hist E) : Prop where
  voted : ∀ T v c, h.voted T v c → h'.voted T v c
  lead : ∀ T, (h.lead T).isSome → (h'.lead T).isSome
  elog : ∀ T, (h.lead T).isSome → h'.elog T=h.elog T
  electors : ∀ T, (h.lead T).isSome → h'.electors T=h.electors T
  comm : ∀ T, h.comm T≤h'.comm T

theorem Since.refl (h : Hist E) : Since h h :=
  ⟨fun _ _ _ => id,fun _ => id,fun _ _ => rfl,fun _ _ => rfl,fun _ => le_rfl⟩

theorem Since.grown {h h' h'' : Hist E} {i : Nat} (s : Since h h') (g : h'.Grown i h'') :
    Since h h'' where
  voted := fun T v c hv => g.voted T v c (s.voted T v c hv)
  lead := fun T hl => g.lead_isSome (s.lead T hl)
  elog := fun T hl => (g.elog T (s.lead T hl)).trans (s.elog T hl)
  electors := fun T hl => (g.electors T (s.lead T hl)).trans (s.electors T hl)
  comm := fun T => (s.comm T).trans (g.comm T)

/-- Node v has voted in no term behind T. -/
def Behind (h : Hist E) (T v : Nat) : Prop := ∀ T' c, h.voted T' v c → T'≤T

end Hist

end

variable {E C : Type} [Termed E] {M : Succession E C} {B : Base E} {h s : Hist E} {i : Nat}
  {n : Node E}

theorem NodeInv.behind (hn : NodeInv B h i n) (hs : s.Since h) : s.Behind n.term i :=
  fun T c hv => (hn.voted T c (hs.voted T i c hv)).1

omit [Termed E] in
theorem Hist.Seat.since (hs : s.Since h) {T m : Nat} {c : C} (hl : (s.lead T).isSome)
    (hseat : s.Seat M T m c) : h.Seat M T m c := by
  refine ⟨?_,?_,?_⟩
  · rw [hs.elog T hl]
    exact hseat.path
  · rw [hs.electors T hl]
    exact hseat.quorum
  · rw [hs.elog T hl]
    exact hseat.trim

/-- Nothing is committed in a term without a leader. -/
theorem HistInv.comm_unled (hh : HistInv B h) {T : Nat} (hT : B.term<T) (hl : h.lead T=none) :
    h.comm T=0 := by
  have hlen := hh.commLen T
  rw [hh.idle T hT hl] at hlen
  exact Nat.le_zero.mp hlen

/-- A leader that has committed an entry of its term has committed all that was committed up
to that term. -/
theorem NodeInv.own_commit (hh : HistInv B h) (hn : NodeInv B h i n) (hr : n.role=.leader)
    (ht : termAt n.log n.commit=n.term) {T : Nat} (hT : T≤n.term) : h.comm T≤n.commit := by
  obtain ⟨hlead,hlog,hcm⟩ := hn.leader hr
  rcases hT.eq_or_lt with rfl | hlt
  · exact hcm
  have hl : (h.lead n.term).isSome := hlead ▸ rfl
  have hcov := (hh.complete T n.term hlt hl).length_le
  by_contra hgt
  -- the entries that the leader was elected with are of earlier terms
  obtain ⟨hb,helog⟩ := hh.lead_isSome hl
  have hle : n.commit≤(h.elog n.term).length := by omega
  have hbound := helog.bound n.commit
  rw [hlog,(Covers.of_isPrefix (hh.elog_isPrefix hl) hle).termAt_eq le_rfl] at ht
  omega

section

variable (hhs : HistInv B s) (hgs : s.Governed M B) (hs : s.Since h) (hh : HistInv B h)
  (hn : NodeInv B h i n)
include hhs hgs hs hh hn

/-- A leader that hears from a group that decides, none of which had voted in a later term at
some moment: there was no later leader then. -/
theorem NodeInv.unled_since (hr : n.role=.leader) {A : Nat → Prop} {c : C} {a : Nat}
    (hp : M.Path (M.confs (n.log.take a)) c) (hq : M.quorum c A) (htrim : M.Trim a n.log)
    (ha : a≤n.commit) (hA : ∀ v, A v → s.Behind n.term v) (T : Nat) (hT : n.term<T) :
    s.lead T=none := by
  induction T using Nat.strong_induction_on with
  | _ T ih =>
    cases hj : s.lead T with
    | none => rfl
    | some j =>
      exfalso
      have hl : (s.lead T).isSome := hj ▸ rfl
      obtain ⟨hlead,hlog,-⟩ := hn.leader hr
      have hln : (h.lead n.term).isSome := hlead ▸ rfl
      have hb := (hh.lead_isSome hln).1
      obtain ⟨T0,m,c',hT0,hm,hseat⟩ := hgs.seated T hl
      have hcov : Covers m (h.elog T) n.log := by
        by_cases hle : T0≤n.term
        · have hmh := hm.trans (hs.comm T0)
          rw [hlog]
          exact ((hh.complete T0 T hT0 (hs.lead T hl)).mono hmh).trans
            ((hh.covers_comm hle hln).mono hmh).symm
        · have hlt := Nat.not_le.mp hle
          rw [hhs.comm_unled (hb.trans hlt) (ih T0 hT0 hlt)] at hm
          rw [Nat.le_zero.mp hm]
          exact .zero _ _
      -- a node of the group had voted for the later leader
      obtain ⟨v,hAv,hVv⟩ := hn.meets_seat hh hp hq htrim ha hT (hs.lead T hl) (hseat.since hs hl)
        hcov
      rw [hs.electors T hl] at hVv
      exact absurd (hA v hAv T j (hhs.electors T v j hj hVv)) (Nat.not_le.mpr hT)

theorem NodeInv.comm_since (hr : n.role=.leader) {A : Nat → Prop} {c : C} {a : Nat}
    (hp : M.Path (M.confs (n.log.take a)) c) (hq : M.quorum c A) (htrim : M.Trim a n.log)
    (ha : a≤n.commit) (hA : ∀ v, A v → s.Behind n.term v) {T : Nat} (hT : n.term<T) :
    s.comm T=0 := by
  have hl := (hn.leader hr).1
  have hb := (hh.lead_isSome (hl ▸ rfl : (h.lead n.term).isSome)).1
  exact hhs.comm_unled (hb.trans hT) (hn.unled_since hhs hgs hs hh hr hp hq htrim ha hA T hT)

end

end RaftTesting.Consensus
