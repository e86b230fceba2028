import RaftTesting.Consensus.Safety

namespace RaftTesting.Consensus

/-- How some entries of a log lead from one configuration to the next, and which groups of
nodes decide under a configuration. Groups that decide under one configuration, or under
two that follow each other, have a node in common. -/
structure Succession (E C : Type) where
  conf : E → Bool
  next : C → E → C → Prop
  quorum : C → (Nat → Prop) → Prop
  start : C
  usable : C → Prop
  usable_start : usable start
  usable_next : ∀ {c e c'}, usable c → next c e c' → usable c'
  unique : ∀ {c e c₁ c₂}, next c e c₁ → next c e c₂ → c₁=c₂
  meet : ∀ {c S T}, usable c → quorum c S → quorum c T → ∃ v, S v ∧ T v
  meet_next : ∀ {c e c' S T}, usable c → next c e c' → quorum c S → quorum c' T → ∃ v, S v ∧ T v

namespace Succession

variable {E C : Type} (M : Succession E C)

def confs (l : List E) : List E := l.filter M.conf

/-- The configuration that the entries lead to. -/
inductive Path : List E → C → Prop
  | start : Path [] M.start
  | step {es c e c'} : Path es c → M.next c e c' → Path (es++[e]) c'

/-- Behind the first k entries the log changes the configuration at most once. -/
def Trim (k : Nat) (l : List E) : Prop := (M.confs (l.drop k)).length≤1

variable {M} {l l' es es' : List E} {c c' : C} {k k' : Nat} {S T : Nat → Prop}

theorem confs_append (l l' : List E) : M.confs (l++l')=M.confs l++M.confs l' :=
  List.filter_append ..

theorem confs_split (k : Nat) (l : List E) : M.confs l=M.confs (l.take k)++M.confs (l.drop k) := by
  rw [← confs_append,List.take_append_drop]

theorem confs_isPrefix (h : l<+:l') : M.confs l<+:M.confs l' := h.filter M.conf

theorem Path.usable (h : M.Path es c) : M.usable c := by
  induction h with
  | start => exact M.usable_start
  | step _ hn ih => exact M.usable_next ih hn

theorem Path.snoc {e : E} (h : M.Path (es++[e]) c') : ∃ c, M.Path es c ∧ M.next c e c' := by
  cases hes : es++[e] with
  | nil => simp at hes
  | cons a as =>
    rw [hes] at h
    generalize has : a::as=x at h
    cases h with
    | start => cases has
    | @step es' c e' _ hp hn =>
      obtain ⟨rfl,he⟩ := List.append_inj' (hes.trans has) rfl
      cases he
      exact ⟨c,hp,hn⟩

theorem Path.eq (h : M.Path es c) (h' : M.Path es c') : c=c' := by
  induction h generalizing c' with
  | start =>
    generalize hes : ([] : List E)=x at h'
    cases h' with
    | start => rfl
    | step => simp at hes
  | step _ hn ih =>
    obtain ⟨c1,hp,hn'⟩ := h'.snoc
    cases ih hp
    exact M.unique hn hn'

/-- Decisions under configurations that are at most one change apart. -/
theorem Path.meet (h : M.Path es c) (h' : M.Path es' c') (hpre : es<+:es')
    (hlen : es'.length≤es.length+1) (hS : M.quorum c S) (hT : M.quorum c' T) :
    ∃ v, S v ∧ T v := by
  obtain ⟨x,rfl⟩ := hpre
  rw [List.length_append] at hlen
  match x with
  | [] =>
    rw [List.append_nil] at h'
    cases h.eq h'
    exact M.meet h.usable hS hT
  | [e] =>
    obtain ⟨c1,hp,hn⟩ := h'.snoc
    cases h.eq hp
    exact M.meet_next h.usable hn hS hT
  | _::_::_ =>
    simp only [List.length_cons] at hlen
    omega

theorem Trim.mono (h : M.Trim k l) (hk : k≤k') : M.Trim k' l := by
  refine ((List.Sublist.filter M.conf ?_).length_le).trans h
  exact List.drop_sublist_drop_left l hk

theorem Trim.take (h : M.Trim k l) (m : Nat) : M.Trim k (l.take m) := by
  refine ((List.Sublist.filter M.conf ?_).length_le).trans h
  exact (List.take_sublist m l).drop k

/-- No change where the log goes on is one more reason to look at less of it. -/
theorem Trim.lower {a : Nat} (h : M.Trim k l) (hnone : M.confs ((l.take k).drop a)=[]) :
    M.Trim a l := by
  have hsplit : l.drop a=(l.take k).drop a++(l.drop k).drop (a-(l.take k).length) := by
    rw [← List.drop_append,List.take_append_drop]
  unfold Trim
  rw [hsplit,confs_append,hnone,List.nil_append]
  exact (((List.drop_sublist _ _).filter M.conf).length_le).trans h

theorem Trim.append_nil (h : M.Trim k l) (hes : M.confs es=[]) : M.Trim k (l++es) := by
  have hsub := (List.drop_sublist (k-l.length) es).filter M.conf
  unfold confs at hes
  rw [hes] at hsub
  unfold Trim
  rw [List.drop_append,confs_append,List.length_append]
  have hnil : M.confs (es.drop (k-l.length))=[] := List.sublist_nil.mp hsub
  rw [hnil]
  exact h

theorem Trim.append_few (h : M.confs (l.drop k)=[]) (hes : (M.confs es).length≤1) :
    M.Trim k (l++es) := by
  unfold Trim
  rw [List.drop_append,confs_append,h,List.nil_append]
  exact (((List.drop_sublist _ _).filter M.conf).length_le).trans hes

theorem confs_drop_eq_nil : M.confs (l.drop k)=[] ↔
    ∀ j e, k≤j → l[j]?=some e → M.conf e=false := by
  unfold confs
  rw [List.filter_eq_nil_iff]
  constructor
  · intro h j e hj he
    have hmem : e ∈ l.drop k := by
      refine List.mem_iff_getElem?.mpr ⟨j-k,?_⟩
      rw [List.getElem?_drop,Nat.add_sub_cancel' hj]
      exact he
    exact eq_false_of_ne_true (h e hmem)
  · intro h e he
    obtain ⟨j,hj⟩ := List.mem_iff_getElem?.mp he
    rw [List.getElem?_drop] at hj
    rw [h _ e (Nat.le_add_right k j) hj]
    exact Bool.false_ne_true

theorem confs_drop_mono (h : M.confs (l.drop k)=[]) (hk : k≤k') : M.confs (l.drop k')=[] :=
  confs_drop_eq_nil.mpr (fun j e hj => confs_drop_eq_nil.mp h j e (hk.trans hj))

theorem Trim.confs_length (h : M.Trim k l) : (M.confs l).length≤(M.confs (l.take k)).length+1 := by
  rw [confs_split k l,List.length_append]
  exact Nat.add_le_add_left h _

/-- Two logs that agree up to a and b, the second log trimmed at b and the first one, as far
as b, at a: the configurations at a and b are at most one change apart. -/
theorem meet_of_covers {m a b : Nat} (ha : Covers a l' l) (hb : Covers b l' l) (hm : b ≤ m)
    (hl : M.Trim a (l.take m)) (hl' : M.Trim b l') (hc : M.Path (M.confs (l.take a)) c)
    (hc' : M.Path (M.confs (l'.take b)) c') (hS : M.quorum c S) (hT : M.quorum c' T) :
    ∃ v, S v ∧ T v := by
  have htake : ∀ {j k : Nat} (x : List E), j≤k → M.confs (x.take j)<+:M.confs (x.take k) :=
    fun x hjk => confs_isPrefix ((List.take_prefix_take_left hjk))
  rw [hb.2] at hc'
  rcases Nat.le_total a b with hab | hba
  · refine hc.meet hc' (htake l hab) ?_ hS hT
    have hlen := hl.confs_length
    rw [List.take_take,Nat.min_eq_left (hab.trans hm)] at hlen
    exact ((htake l hm).length_le).trans hlen
  · obtain ⟨v,hv,hv'⟩ := hc'.meet hc (htake l hba) (by
      have hlen := hl'.confs_length
      rw [hb.2] at hlen
      rw [← ha.2]
      exact ((confs_isPrefix (List.take_prefix a l')).length_le).trans hlen) hT hS
    exact ⟨v,hv',hv⟩

end Succession

namespace Hist

variable {E C : Type} [Termed E] (M : Succession E C)

/-- The leader of term T was elected under the configuration of the m entries that it had
committed by then, and its log had at most one change behind them. -/
structure Seat (h : Hist E) (T m : Nat) (c : C) : Prop where
  path : M.Path (M.confs ((h.elog T).take m)) c
  quorum : M.quorum c (h.electors T)
  trim : M.Trim m (h.elog T)

/-- Index k was committed in term T under the configuration of entries that had been
committed before, and the log changed the configuration at most once between them. -/
inductive Settled (B : Base E) (h : Hist E) : Nat → Nat → Prop
  | nothing {T} : Settled B h T 0
  | base {T k} : T≤B.term → k≤h.comm T → Settled B h T k
  | made {T k T' k' a c A} : (h.lead T).isSome → 0<k → k≤h.comm T → termAt (h.llog T) k=T →
      (∀ v, A v → k≤h.ack T v) → M.quorum c A → M.Path (M.confs ((h.llog T).take a)) c →
      M.Trim a ((h.llog T).take k) → T'≤T → a≤k' → Settled B h T' k' → Settled B h T k

/-- Every decision so far was made under a configuration that its log gave rise to. -/
structure Governed (B : Base E) (h : Hist E) : Prop where
  seated : ∀ T, (h.lead T).isSome → ∃ T0 m c, T0<T ∧ m≤h.comm T0 ∧ h.Seat M T m c
  settled : ∀ T, h.Settled M B T (h.comm T)

variable {M} {B : Base E} {h h' : Hist E} {i : Nat}

theorem Settled.le_comm {T k : Nat} (hs : h.Settled M B T k) : k≤h.comm T := by
  cases hs with
  | nothing => exact Nat.zero_le _
  | base _ hk => exact hk
  | made _ _ hk => exact hk

theorem Settled.grown (hh : HistInv B h) (g : h.Grown i h') {T k : Nat} (hs : h.Settled M B T k) :
    h'.Settled M B T k := by
  induction hs with
  | nothing => exact .nothing
  | base hT hk => exact .base hT (hk.trans (g.comm _))
  | @made T k T' k' a c A hl h0 hk ht hA hq hp htrim hT ha hs ih =>
    have htake : ∀ {n}, n≤(h.llog T).length → (h'.llog T).take n=(h.llog T).take n :=
      fun hn => (Covers.of_isPrefix (g.llog T) hn).2
    have hkl := hk.trans (hh.commLen T)
    have hal : a≤(h.llog T).length :=
      (ha.trans hs.le_comm).trans (hh.covers_comm hT hl).length_le
    refine .made (g.lead_isSome hl) h0 (hk.trans (g.comm T)) ?_ (fun v hv => (hA v hv).trans
      (g.ack T v)) hq ?_ ?_ hT ha ih
    · rw [(Covers.of_isPrefix (g.llog T) hkl).termAt_eq le_rfl]
      exact ht
    · rw [htake hal]
      exact hp
    · rw [htake hkl]
      exact htrim

omit [Termed E] in
theorem Seat.grown (g : h.Grown i h') {T m : Nat} {c : C} (hl : (h.lead T).isSome)
    (hs : h.Seat M T m c) : h'.Seat M T m c := by
  refine ⟨?_,?_,?_⟩
  · rw [g.elog T hl]
    exact hs.path
  · rw [g.electors T hl]
    exact hs.quorum
  · rw [g.elog T hl]
    exact hs.trim

end Hist

section

variable {E C : Type} [Termed E] {M : Succession E C} {B : Base E} {h : Hist E} {i : Nat}
  {n : Node E} (hh : HistInv B h) (hn : NodeInv B h i n)
include hh hn

/-- A candidate that has committed under the configuration it is elected by, with the votes
of that configuration, has everything that was committed before. -/
theorem NodeInv.settled_covers {V : Nat → Prop} {c : C} (hr : n.role=.candidate)
    (hV : ∀ v, V v → n.votes v) (hp : M.Path (M.confs (n.log.take n.commit)) c)
    (hq : M.quorum c V) (htrim : M.Trim n.commit n.log) {T k : Nat} (hs : h.Settled M B T k)
    (hT : T<n.term) : Covers k n.log (h.llog T) := by
  have hcand := (hn.candidate hr).2.2.1
  induction hs with
  | nothing => exact .zero _ _
  | base hb hk => exact (hh.cand_base hcand hb).mono hk
  | @made T k T' k' a c' A hl h0 hk ht hA hq' hp' htrim' hle ha hs ih =>
    obtain ⟨T0,_,hcm,hcov⟩ := hn.commit
    by_cases hkc : k≤n.commit
    · exact (hcov.mono hkc).trans (hh.comm_covers (hkc.trans hcm) hk)
    have hprev := hs.le_comm
    have hca : Covers a n.log (h.llog T) :=
      ((ih (by omega)).mono ha).trans ((hh.covers_comm hle hl).mono (ha.trans hprev)).symm
    have hcb : Covers n.commit n.log (h.llog T) :=
      hcov.trans (hh.comm_covers hcm ((Nat.not_le.mp hkc).le.trans hk))
    -- the group behind the commit and the voters have a node in common
    obtain ⟨v,hAv,hVv⟩ := Succession.meet_of_covers hca hcb (Nat.not_le.mp hkc).le htrim' htrim hp'
      hp hq' hq
    exact hh.cand_covers hcand (hn.votes hr v (hV v hVv)) hT h0 hk ht (hA v hAv)

/-- A candidate has committed nothing of the term it stands for. -/
theorem NodeInv.commit_covers_elog (hr : n.role=.candidate) (hl : (h.lead n.term).isSome) :
    Covers n.commit n.log (h.elog n.term) := by
  obtain ⟨T0,hT0,hcm,hcov⟩ := hn.commit
  rcases hT0.eq_or_lt with rfl | hlt
  · have hcand := (hn.candidate hr).2.2.1
    obtain ⟨hb,hlog⟩ := hh.cand _ i _ hcand
    refine hcov.shrink (hh.elog_isPrefix hl) ?_
    by_contra hgt
    -- an entry behind the leader's first log is of this term
    obtain ⟨x,hx,hterm⟩ := hh.llog _ hl
    rw [hx] at hcov
    obtain ⟨e,he,heq⟩ := termAt_append_right (Nat.not_le.mp hgt) hcov.1
    have hbound := hlog.bound n.commit
    rw [hcov.termAt_eq le_rfl,heq,hterm e he] at hbound
    omega
  · exact hcov.trans ((hh.complete T0 n.term hlt hl).mono hcm).symm

/-- So it is the first leader of its term and has all that is committed. -/
theorem NodeInv.wins_governed (hg : h.Governed M B) {V : Nat → Prop} {c : C}
    (hr : n.role=.candidate) (hV : ∀ v, V v → n.votes v)
    (hp : M.Path (M.confs (n.log.take n.commit)) c)
    (hq : M.quorum c V) (htrim : M.Trim n.commit n.log) :
    h.lead n.term=none ∧ ∀ T, T<n.term → Covers (h.comm T) n.log (h.llog T) := by
  have hcomp : ∀ T, T<n.term → Covers (h.comm T) n.log (h.llog T) :=
    fun T hT => hn.settled_covers hh hr hV hp hq htrim (hg.settled T) hT
  refine ⟨hn.unled hh hr hV (fun j hj => ?_),hcomp⟩
  have hl : (h.lead n.term).isSome := hj ▸ rfl
  obtain ⟨T0,m,c',hT0,hm,hseat⟩ := hg.seated _ hl
  have hca := (hn.commit_covers_elog hh hr hl).symm
  have hcb : Covers m (h.elog n.term) n.log :=
    ((hh.complete T0 _ hT0 hl).mono hm).trans ((hcomp T0 hT0).mono hm).symm
  refine Succession.meet_of_covers hca hcb hcb.1 ?_ hseat.trim hp hseat.path hq hseat.quorum
  exact htrim.take _

/-- A group that decides under the configuration of a leader meets the electors of a later
leader, if that one had committed nothing that this leader lacks. -/
theorem NodeInv.meets_seat {A : Nat → Prop} {c : C} {a : Nat}
    (hp : M.Path (M.confs (n.log.take a)) c) (hq : M.quorum c A) (htrim : M.Trim a n.log)
    (ha : a≤n.commit) {T m : Nat} {c' : C} (hT : n.term<T) (hl : (h.lead T).isSome)
    (hseat : h.Seat M T m c') (hm : Covers m (h.elog T) n.log) : ∃ v, A v ∧ h.electors T v := by
  obtain ⟨T1,hT1,hcm,hcov⟩ := hn.commit
  have hca : Covers a (h.elog T) n.log :=
    ((hh.complete T1 T (by omega) hl).mono (ha.trans hcm)).trans (hcov.mono ha).symm
  exact Succession.meet_of_covers hca hm hm.1 (htrim.take _) hseat.trim hp hseat.path hq
    hseat.quorum

/-- What a leader commits, every later leader was elected with. -/
theorem NodeInv.decides_governed (hg : h.Governed M B) {A : Nat → Prop} {c : C} {a k : Nat}
    (hr : n.role=.leader) (hp : M.Path (M.confs (n.log.take a)) c) (hq : M.quorum c A)
    (htrim : M.Trim a n.log)
    (ha : a≤n.commit) (hlt : n.commit<k) (ht : termAt n.log k=n.term)
    (hm : ∀ v, A v → k≤n.matched v) {T : Nat} (hT : n.term<T) (hl : (h.lead T).isSome) :
    Covers k (h.elog T) (h.llog n.term) := by
  obtain ⟨hlead,hlog,_⟩ := hn.leader hr
  have hbase := (hh.lead _ i hlead).1
  refine hh.complete_of_meet (by omega) (hlog ▸ ht) (fun v hv => (hm v hv).trans
    (hn.matched hr v)) ?_ T hT hl
  intro T' hT' hl' ih
  obtain ⟨T0,m,c',hT0,hmc,hseat⟩ := hg.seated T' hl'
  have hcov0 : Covers m (h.elog T') (h.llog T0) := (hh.complete T0 T' hT0 hl').mono hmc
  by_cases hle : T0≤n.term
  · have hcm := (hh.covers_comm hle (hlead ▸ rfl : (h.lead n.term).isSome)).mono hmc
    refine .inr (hn.meets_seat hh hp hq htrim ha hT' hl' hseat ?_)
    rw [hlog]
    exact hcov0.trans hcm.symm
  -- the later leader has committed on the word of a leader in between
  have hlt0 := Nat.not_le.mp hle
  cases hl0 : h.lead T0 with
  | none =>
    have hz := hmc.trans (hh.commLen T0)
    rw [hh.idle T0 (by omega) hl0,List.length_nil] at hz
    refine .inr (hn.meets_seat hh hp hq htrim ha hT' hl' hseat ?_)
    rw [Nat.le_zero.mp hz]
    exact .zero _ _
  | some j =>
    have hl0 : (h.lead T0).isSome := hl0 ▸ rfl
    have hk0 := ih T0 hlt0 hT0 hl0
    have hk0 : Covers k (h.llog T0) (h.llog n.term) :=
      (Covers.of_isPrefix (hh.elog_isPrefix hl0) hk0.length_le).trans hk0
    rcases Nat.le_total k m with hkm | hmk
    · exact .inl ((hcov0.mono hkm).trans hk0)
    · refine .inr (hn.meets_seat hh hp hq htrim ha hT' hl' hseat ?_)
      rw [hlog]
      exact hcov0.trans (hk0.mono hmk)

end

section

variable {E C : Type} [Termed E] {M : Succession E C} {B : Base E} {Q : (Nat → Prop) → Prop}
  {h h' : Hist E} {i : Nat} {n n' : Node E}

/-- A step that makes no leader and commits nothing. -/
theorem Act.calm (a : Act B Q i h n h' n') (hr : n.role=.candidate → n'.role≠.leader)
    (hc : n.role=.leader → n'.commit=n.commit) :
    (∀ T, h'.lead T=h.lead T) ∧ ∀ T, h'.comm T=h.comm T := by
  cases a with
  | win hcand => exact absurd rfl (hr hcand)
  | commit hlead hlt => exact absurd (hc hlead) hlt.ne'
  | adopt | rest | stand | tally | extend | track | vote | accept | stale | beat =>
    exact ⟨fun _ => rfl,fun _ => rfl⟩

theorem Hist.Governed.calm (hg : h.Governed M B) (hh : HistInv B h) (g : h.Grown i h')
    (hlead : ∀ T, h'.lead T=h.lead T) (hcomm : ∀ T, h'.comm T=h.comm T) : h'.Governed M B where
  seated := by
    intro T hl
    rw [hlead] at hl
    obtain ⟨T0,m,c,hT0,hm,hseat⟩ := hg.seated T hl
    exact ⟨T0,m,c,hT0,hm.trans (g.comm T0),hseat.grown g hl⟩
  settled := by
    intro T
    rw [hcomm]
    exact (hg.settled T).grown hh g

theorem Hist.Governed.win (hg : h.Governed M B) (hh : HistInv B h) (hn : NodeInv B h i n)
    {V : Nat → Prop} {c : C} (hr : n.role=.candidate) (hnone : h.lead n.term=none)
    (hp : M.Path (M.confs (n.log.take n.commit)) c) (hq : M.quorum c V)
    (htrim : M.Trim n.commit n.log) : (h.win n.term i n.log V).Governed M B := by
  have hcand := hh.cand _ i _ (hn.candidate hr).2.2.1
  have hnil := hh.idle n.term hcand.1 hnone
  have g : h.Grown i (h.win n.term i n.log V) :=
    (Hist.grown_crown hnone hnil).trans (Hist.grown_ackTo _ _ i _)
  refine ⟨?_,fun T => (hg.settled T).grown hh g⟩
  intro T hl
  by_cases he : T=n.term
  · subst he
    have hseat : (h.win n.term i n.log V).Seat M n.term n.commit c := by
      have helog : (h.win n.term i n.log V).elog n.term=n.log := Function.update_self ..
      have helect : (h.win n.term i n.log V).electors n.term=V := Function.update_self ..
      refine ⟨?_,?_,?_⟩
      · rw [helog]
        exact hp
      · rw [helect]
        exact hq
      · rw [helog]
        exact htrim
    obtain ⟨T0,hT0,hcm,_⟩ := hn.commit
    rcases hT0.eq_or_lt with rfl | hlt
    · -- nothing is committed in a term without a leader
      have hz := hcm.trans (hh.commLen n.term)
      rw [hnil,List.length_nil] at hz
      exact ⟨0,_,c,by omega,hz.trans (Nat.zero_le _),hseat⟩
    · exact ⟨T0,_,c,hlt,hcm,hseat⟩
  · have hl : (h.lead T).isSome := by
      have hsame : (h.win n.term i n.log V).lead T=h.lead T := Function.update_of_ne he ..
      rwa [hsame] at hl
    obtain ⟨T0,m,c',hT0,hm,hseat⟩ := hg.seated T hl
    exact ⟨T0,m,c',hT0,hm,hseat.grown g hl⟩

theorem Hist.Governed.commit (hg : h.Governed M B) (hh : HistInv B h) (hn : NodeInv B h i n)
    {A : Nat → Prop} {c : C} {a k : Nat} (hr : n.role=.leader) (hlt : n.commit<k)
    (ht : termAt n.log k=n.term) (hm : ∀ v, A v → k≤n.matched v)
    (hp : M.Path (M.confs (n.log.take a)) c) (hq : M.quorum c A) (htrim : M.Trim a n.log)
    (ha : a≤n.commit) : (h.commit n.term k A).Governed M B := by
  obtain ⟨hlead,hlog,hcm⟩ := hn.leader hr
  have hself : (h.commit n.term k A).comm n.term=k := Function.update_self ..
  have g : h.Grown i (h.commit n.term k A) := Hist.grown_commit hlead (by omega)
  refine ⟨?_,?_⟩
  · intro T hl
    obtain ⟨T0,m,c',hT0,hm,hseat⟩ := hg.seated T hl
    exact ⟨T0,m,c',hT0,hm.trans (g.comm T0),hseat.grown g hl⟩
  · intro T
    by_cases he : T=n.term
    · subst he
      obtain ⟨T1,hT1,hc1,_⟩ := hn.commit
      rw [hself]
      refine .made (hlead ▸ rfl) (by omega) hself.ge (hlog ▸ ht)
        (fun v hv => (hm v hv).trans (hn.matched hr v)) hq (hlog ▸ hp) ?_ hT1 (ha.trans hc1)
        ((hg.settled T1).grown hh g)
      exact hlog ▸ htrim.take k
    · have hsame : (h.commit n.term k A).comm T=h.comm T := Function.update_of_ne he ..
      rw [hsame]
      exact (hg.settled T).grown hh g

theorem Hist.governed_init (M : Succession E C) (B : Base E) : (Hist.init B).Governed M B where
  seated := nofun
  settled := by
    intro T
    by_cases hT : T≤B.term
    · exact .base hT le_rfl
    · have hz : (Hist.init B).comm T=0 := if_neg (by omega)
      rw [hz]
      exact .nothing

end

end RaftTesting.Consensus
