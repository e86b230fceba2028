import RaftTesting.Consensus.Machine

namespace RaftTesting.Consensus

variable {E : Type}

/-- A log made of entries that the leaders of terms up to t created. -/
structure LogInv [Termed E] (B : Base E) (lead : Nat → Option Nat) (llog : Nat → List E) (t : Nat)
    (l : List E) : Prop where
  coherent : Coherent llog l
  base : B.log<+:l
  bound : ∀ k, termAt l k≤t
  led : ∀ k, B.term<termAt l k → (lead (termAt l k)).isSome

namespace Hist

/-- Some leader after term T, up to term b, was elected without the first k entries of
the leader of term T. -/
def Bad (h : Hist E) (T k b : Nat) : Prop :=
  ∃ T', T<T' ∧ T'≤b ∧ (h.lead T').isSome ∧ ¬Covers k (h.elog T') (h.llog T)

/-- What node i adds to the history: nothing is taken back, and the new facts are
about i alone. -/
structure Grown (i : Nat) (h h' : Hist E) : Prop where
  voted : ∀ T v c, h.voted T v c → h'.voted T v c
  votedNew : ∀ T v c, h'.voted T v c → h.voted T v c ∨ v=i
  cand : ∀ T c l, h.cand T c=some l → h'.cand T c=some l
  candNew : ∀ T c, c≠i → h'.cand T c=h.cand T c
  lead : ∀ T, h'.lead T=h.lead T ∨ h.lead T=none ∧ h'.lead T=some i
  elog : ∀ T, (h.lead T).isSome → h'.elog T=h.elog T
  electors : ∀ T, (h.lead T).isSome → h'.electors T=h.electors T
  llog : ∀ T, h.llog T<+:h'.llog T
  llogNew : ∀ T j, h.lead T=some j → j≠i → h'.llog T=h.llog T
  ack : ∀ T p, h.ack T p≤h'.ack T p
  ackNew : ∀ T p, p≠i → h'.ack T p=h.ack T p
  comm : ∀ T, h.comm T≤h'.comm T
  commNew : ∀ T j, h.lead T=some j → j≠i → h'.comm T=h.comm T

namespace Grown

variable {i : Nat} {h h' h'' : Hist E}

theorem refl (i : Nat) (h : Hist E) : Grown i h h where
  voted := fun _ _ _ => id
  votedNew := fun _ _ _ => .inl
  cand := fun _ _ _ => id
  candNew := fun _ _ _ => rfl
  lead := fun _ => .inl rfl
  elog := fun _ _ => rfl
  electors := fun _ _ => rfl
  llog := fun _ => List.prefix_refl _
  llogNew := fun _ _ _ _ => rfl
  ack := fun _ _ => le_rfl
  ackNew := fun _ _ _ => rfl
  comm := fun _ => le_rfl
  commNew := fun _ _ _ _ => rfl

theorem lead_some (g : Grown i h h') {T j : Nat} (hT : h.lead T=some j) : h'.lead T=some j := by
  rcases g.lead T with he | ⟨hn,_⟩
  · exact he.trans hT
  · cases hn.symm.trans hT

theorem lead_isSome (g : Grown i h h') {T : Nat} (hT : (h.lead T).isSome) :
    (h'.lead T).isSome := by
  obtain ⟨j,hj⟩ := Option.isSome_iff_exists.mp hT
  rw [g.lead_some hj]
  rfl

theorem trans (g : Grown i h h') (g' : Grown i h' h'') : Grown i h h'' where
  voted := fun T v c hv => g'.voted T v c (g.voted T v c hv)
  votedNew := fun T v c hv => (g'.votedNew T v c hv).elim (g.votedNew T v c) .inr
  cand := fun T c l hc => g'.cand T c l (g.cand T c l hc)
  candNew := fun T c hc => (g'.candNew T c hc).trans (g.candNew T c hc)
  lead := by
    intro T
    rcases g.lead T with he | ⟨hn,hi⟩
    · rw [← he]
      exact g'.lead T
    · exact .inr ⟨hn,g'.lead_some hi⟩
  elog := fun T hT => (g'.elog T (g.lead_isSome hT)).trans (g.elog T hT)
  electors := fun T hT => (g'.electors T (g.lead_isSome hT)).trans (g.electors T hT)
  llog := fun T => (g.llog T).trans (g'.llog T)
  llogNew := fun T j hT hj => (g'.llogNew T j (g.lead_some hT) hj).trans (g.llogNew T j hT hj)
  ack := fun T p => (g.ack T p).trans (g'.ack T p)
  ackNew := fun T p hp => (g'.ackNew T p hp).trans (g.ackNew T p hp)
  comm := fun T => (g.comm T).trans (g'.comm T)
  commNew := fun T j hT hj => (g'.commNew T j (g.lead_some hT) hj).trans (g.commNew T j hT hj)

end Grown

section

variable (h : Hist E) (T i : Nat)

theorem grown_vote (c : Nat) : Grown i h (h.vote T i c) :=
  { Grown.refl i h with
    voted := fun _ _ _ => .inl
    votedNew := fun _ _ _ hv => hv.imp_right (·.2.1) }

theorem grown_nominate {l : List E} (hn : h.cand T i=none) : Grown i h (h.nominate T i l) :=
  { Grown.refl i h with
    cand := by
      intro T' c l' hc
      simp only [nominate]
      split_ifs with he
      · rw [he.1,he.2,hn] at hc
        cases hc
      · exact hc
    candNew := fun T' c hc => if_neg (fun he => hc he.2) }

theorem grown_ackTo (k : Nat) : Grown i h (h.ackTo T i k) :=
  { Grown.refl i h with
    ack := by
      intro T' p
      simp only [ackTo]
      split_ifs
      · exact Nat.le_max_left _ _
      · exact le_rfl
    ackNew := fun T' p hp => if_neg (fun he => hp he.2) }

variable {h T i}

theorem grown_crown {l : List E} {V : Nat → Prop} (hl : h.lead T=none) (hg : h.llog T=[]) :
    Grown i h (h.crown T i l V) := by
  have hne : ∀ {T'}, (h.lead T').isSome → T'≠T := by
    rintro T' hT rfl
    rw [hl] at hT
    cases hT
  exact { Grown.refl i h with
    lead := by
      intro T'
      by_cases he : T'=T
      · subst he
        exact .inr ⟨hl,Function.update_self ..⟩
      · exact .inl (Function.update_of_ne he ..)
    elog := fun T' hT => Function.update_of_ne (hne hT) ..
    electors := fun T' hT => Function.update_of_ne (hne hT) ..
    llog := by
      intro T'
      by_cases he : T'=T
      · rw [he,hg]
        exact List.nil_prefix
      · change _<+:Function.update h.llog T l T'
        rw [Function.update_of_ne he]
    llogNew := fun T' j hT _ => Function.update_of_ne (hne (hT ▸ rfl)) .. }

theorem grown_grow {l : List E} (hl : h.lead T=some i) (hg : h.llog T<+:l) :
    Grown i h (h.grow T l) :=
  { Grown.refl i h with
    llog := by
      intro T'
      change _<+:Function.update h.llog T l T'
      by_cases he : T'=T
      · subst he
        rwa [Function.update_self]
      · rw [Function.update_of_ne he]
    llogNew := by
      intro T' j hT hj
      refine Function.update_of_ne ?_ ..
      rintro rfl
      exact hj (Option.some.inj (hT.symm.trans hl)) }

theorem grown_commit {k : Nat} {A : Nat → Prop} (hl : h.lead T=some i) (hk : h.comm T≤k) :
    Grown i h (h.commit T k A) :=
  { Grown.refl i h with
    comm := by
      intro T'
      by_cases he : T'=T
      · subst he
        change _≤Function.update h.comm T' k T'
        rwa [Function.update_self]
      · exact (Function.update_of_ne he ..).ge
    commNew := by
      intro T' j hT hj
      refine Function.update_of_ne ?_ ..
      rintro rfl
      exact hj (Option.some.inj (hT.symm.trans hl)) }

end

theorem Bad.mono {i : Nat} {h h' : Hist E} (g : Grown i h h') {T k b b' : Nat} (hb : b≤b')
    (hk : k≤(h.llog T).length) : Bad h T k b → Bad h' T k b' := by
  rintro ⟨T',hT,hT',hl,hc⟩
  refine ⟨T',hT,hT'.trans hb,g.lead_isSome hl,?_⟩
  rw [g.elog T' hl]
  exact fun hc' => hc (hc'.shrink (g.llog T) hk)

theorem Bad.later {h : Hist E} {T k b b' : Nat} (hb : b≤b') : Bad h T k b → Bad h T k b' := by
  rintro ⟨T',hT,hT',hl,hc⟩
  exact ⟨T',hT,hT'.trans hb,hl,hc⟩

end Hist

variable [Termed E]

theorem LogInv.mono {B : Base E} {i : Nat} {h h' : Hist E} (g : h.Grown i h') {t t' : Nat}
    {l : List E} (ht : t≤t') (hl : LogInv B h.lead h.llog t l) :
    LogInv B h'.lead h'.llog t' l where
  coherent := fun k h0 hk => (hl.coherent k h0 hk).grow (g.llog _)
  base := hl.base
  bound := fun k => (hl.bound k).trans ht
  led := fun k hk => g.lead_isSome (hl.led k hk)

theorem LogInv.take {B : Base E} {lead : Nat → Option Nat} {llog : Nat → List E} {t m : Nat}
    {l : List E} (hl : LogInv B lead llog t l) (hm : B.log.length ≤ m) :
    LogInv B lead llog t (l.take m) where
  coherent := hl.coherent.take m
  base := List.prefix_take_iff.mpr ⟨hl.base,hm⟩
  bound := by
    intro k
    by_cases hk : k ≤ m
    · exact (termAt_take hk).trans_le (hl.bound k)
    · rw [termAt_past (by rw [List.length_take]; omega)]
      exact Nat.zero_le _
  led := by
    intro k
    by_cases hk : k ≤ m
    · rw [termAt_take hk]
      exact hl.led k
    · rw [termAt_past (by rw [List.length_take]; omega)]
      intro h
      omega

/-- What the history alone satisfies. -/
structure HistInv (B : Base E) (h : Hist E) : Prop where
  lead : ∀ T i, h.lead T=some i → B.term<T ∧ h.cand T i=some (h.elog T)
  llog : ∀ T, (h.lead T).isSome → ∃ x, h.llog T=h.elog T++x ∧ ∀ e ∈ x, termOf e=T
  base : ∀ T, T≤B.term → h.llog T=B.log
  idle : ∀ T, B.term<T → h.lead T=none → h.llog T=[]
  cand : ∀ T c l, h.cand T c=some l → B.term<T ∧ LogInv B h.lead h.llog (T-1) l
  votedCand : ∀ T v c, h.voted T v c → ∃ l, h.cand T c=some l
  votedOnce : ∀ T v c c', h.voted T v c → h.voted T v c' → c=c'
  electors : ∀ T v c, h.lead T=some c → h.electors T v → h.voted T v c
  ackLen : ∀ T p, h.ack T p≤(h.llog T).length
  ackLed : ∀ T p, 0<h.ack T p → (h.lead T).isSome
  commLen : ∀ T, h.comm T≤(h.llog T).length
  commTerm : ∀ T, B.term<T → 0<h.comm T → termAt (h.llog T) (h.comm T)=T
  ackers : ∀ T v, h.ackers T v → h.comm T≤h.ack T v
  -- a vote after an acknowledgement goes to a log that has what was acknowledged,
  -- unless a leader in between already lacked it
  votes : ∀ T T' v c l k, h.voted T' v c → T<T' → 0<k → k≤h.ack T v → termAt (h.llog T) k=T →
    h.cand T' c=some l → Covers k l (h.llog T) ∨ h.Bad T k T'
  -- for the votes that decided an election that leader is an earlier one
  elected : ∀ T T' v k, h.electors T' v → (h.lead T').isSome → T<T' → 0<k → k≤h.ack T v →
    termAt (h.llog T) k=T → Covers k (h.elog T') (h.llog T) ∨ h.Bad T k (T'-1)
  complete : ∀ T T', T<T' → (h.lead T').isSome → Covers (h.comm T) (h.elog T') (h.llog T)

namespace HistInv

variable {B : Base E} {h : Hist E}

theorem lead_isSome (hi : HistInv B h) {T : Nat} (hT : (h.lead T).isSome) :
    B.term<T ∧ LogInv B h.lead h.llog (T-1) (h.elog T) := by
  obtain ⟨i,hl⟩ := Option.isSome_iff_exists.mp hT
  exact hi.cand T i _ (hi.lead T i hl).2

theorem elog_isPrefix (hi : HistInv B h) {T : Nat} (hT : (h.lead T).isSome) :
    h.elog T<+:h.llog T := by
  obtain ⟨x,hx,_⟩ := hi.llog T hT
  exact ⟨x,hx.symm⟩

/-- The terms of a leader's log are its own behind the log it was elected with. -/
theorem termAt_llog (hi : HistInv B h) {T k : Nat} (hT : (h.lead T).isSome)
    (hk : (h.elog T).length<k) (hk' : k≤(h.llog T).length) : termAt (h.llog T) k=T := by
  obtain ⟨x,hx,hterm⟩ := hi.llog T hT
  rw [hx] at hk' ⊢
  obtain ⟨e,he,ht⟩ := termAt_append_right hk hk'
  rw [ht,hterm e he]

theorem llog_inv (hi : HistInv B h) {T : Nat} (hT : (h.lead T).isSome) :
    LogInv B h.lead h.llog T (h.llog T) := by
  obtain ⟨_,he⟩ := hi.lead_isSome hT
  have hpre := hi.elog_isPrefix hT
  have hcases : ∀ k, k≤(h.elog T).length ∧ termAt (h.llog T) k=termAt (h.elog T) k ∨
      (h.elog T).length<k ∧ k≤(h.llog T).length ∧ termAt (h.llog T) k=T ∨
      (h.llog T).length<k ∧ termAt (h.llog T) k=0 := by
    intro k
    by_cases hk : k≤(h.elog T).length
    · exact .inl ⟨hk,(Covers.of_isPrefix hpre hk).termAt_eq le_rfl⟩
    by_cases hk' : k≤(h.llog T).length
    · exact .inr (.inl ⟨by omega,hk',hi.termAt_llog hT (by omega) hk'⟩)
    · exact .inr (.inr ⟨by omega,termAt_past (by omega)⟩)
  refine ⟨?_,he.base.trans hpre,?_,?_⟩
  · intro k h0 hk
    rcases hcases k with ⟨hlt,ht⟩ | ⟨_,_,ht⟩ | ⟨hlt,_⟩
    · rw [ht]
      exact (Covers.of_isPrefix hpre hlt).trans (he.coherent k h0 hlt)
    · rw [ht]
      exact .refl hk
    · omega
  · intro k
    rcases hcases k with ⟨_,ht⟩ | ⟨_,_,ht⟩ | ⟨_,ht⟩
    · have := he.bound k
      omega
    · omega
    · omega
  · intro k hk
    rcases hcases k with ⟨_,ht⟩ | ⟨_,_,ht⟩ | ⟨_,ht⟩
    · rw [ht] at hk ⊢
      exact he.led k hk
    · rwa [ht]
    · omega

/-- Terms do not decrease along a log. -/
theorem sorted (hi : HistInv B h) {t j k : Nat} {l : List E} (hl : LogInv B h.lead h.llog t l)
    (hjk : j≤k) (hk : k≤l.length) : termAt l j≤termAt l k := by
  rcases Nat.eq_zero_or_pos k with rfl | h0
  · exact (congrArg (termAt l) (Nat.le_zero.mp hjk)).le
  have hc := hl.coherent k h0 hk
  by_cases hb : termAt l k≤B.term
  · rw [hi.base _ hb] at hc
    rw [hc.termAt_eq hjk,hc.termAt_eq le_rfl]
    exact B.sorted j k hjk hc.1
  · rw [hc.termAt_eq hjk]
    exact (hi.llog_inv (hl.led k (by omega))).bound j

theorem termAt_pos (hi : HistInv B h) {t k : Nat} {l : List E}
    (hl : LogInv B h.lead h.llog t l) (h0 : 0<k) (hk : k≤l.length) : 0<termAt l k := by
  by_cases hb : termAt l k≤B.term
  · have hc := hl.coherent k h0 hk
    rw [hi.base _ hb] at hc
    rw [hc.termAt_eq le_rfl]
    exact B.pos k h0 hc.1
  · omega

theorem covers_comm (hi : HistInv B h) {T T' : Nat} (hT : T≤T') (hl : (h.lead T').isSome) :
    Covers (h.comm T) (h.llog T') (h.llog T) := by
  rcases hT.eq_or_lt with rfl | hlt
  · exact .refl (hi.commLen T)
  · have hc := hi.complete T T' hlt hl
    exact (Covers.of_isPrefix (hi.elog_isPrefix hl) hc.length_le).trans hc

/-- Two leaders' logs agree on what both terms have committed. -/
theorem comm_covers (hi : HistInv B h) {T T' k : Nat} (hk : k≤h.comm T) (hk' : k≤h.comm T') :
    Covers k (h.llog T) (h.llog T') := by
  wlog hle : T≤T' generalizing T T'
  · exact (this hk' hk (Nat.le_of_not_le hle)).symm
  by_cases hb : T'≤B.term
  · have hlen := hk.trans (hi.commLen T)
    rw [hi.base T (hle.trans hb)] at hlen
    rw [hi.base T (hle.trans hb),hi.base T' hb]
    exact .refl hlen
  cases hl : h.lead T' with
  | none =>
    have h0 := hk'.trans (hi.commLen T')
    rw [hi.idle T' (by omega) hl,List.length_nil] at h0
    rw [Nat.le_zero.mp h0]
    exact .zero _ _
  | some j => exact ((hi.covers_comm hle (hl ▸ rfl)).mono hk).symm

/-- A log that is at least as up to date as one that holds an entry of term T holds it
as well, or the leader that its last entry comes from lacked it. -/
theorem upToDate (hi : HistInv B h) {T T' t k : Nat} {l v : List E} (hT' : 0<T')
    (hl : LogInv B h.lead h.llog (T'-1) l) (hv : LogInv B h.lead h.llog t v)
    (hup : UpToDate l v) (hT : (h.lead T).isSome) (hc : Covers k v (h.llog T))
    (ht : termAt (h.llog T) k=T) : Covers k l (h.llog T) ∨ h.Bad T k T' := by
  have hbase := (hi.lead_isSome hT).1
  have hkv := hc.length_le
  have hlv : T≤lastTerm v := by
    calc T=termAt v k := by rw [hc.termAt_eq le_rfl,ht]
      _≤lastTerm v := hi.sorted hv hkv le_rfl
  have hpos : ∀ {x : List E}, T≤lastTerm x → 0<x.length := by
    intro x hx
    by_contra h0
    have : lastTerm x=0 := by
      unfold lastTerm
      rw [Nat.eq_zero_of_not_pos h0]
      rfl
    omega
  have hll : T≤lastTerm l := by
    rcases hup with hlt | ⟨heq,_⟩ <;> omega
  have hlast := hl.coherent l.length (hpos hll) le_rfl
  change Covers l.length l (h.llog (lastTerm l)) at hlast
  have hbound : lastTerm l≤T'-1 := hl.bound l.length
  rcases hll.eq_or_lt with heq | hlt
  · -- both logs end in term T, and the candidate's is not the shorter one
    have hlen : v.length≤l.length := by
      rcases hup with h' | ⟨_,h'⟩
      · omega
      · exact h'
    rw [← heq] at hlast
    exact .inl (hlast.mono (hkv.trans hlen))
  · have hled : (h.lead (lastTerm l)).isSome :=
      hl.led l.length (show B.term<lastTerm l by omega)
    by_cases hcov : Covers k (h.elog (lastTerm l)) (h.llog T)
    · -- the entry of the later term stands behind the log its leader was elected with
      have hlen : (h.elog (lastTerm l)).length<l.length := by
        by_contra hle
        have hle := Nat.not_lt.mp hle
        have h1 : lastTerm l=termAt (h.llog (lastTerm l)) l.length := hlast.termAt_eq le_rfl
        have h2 := (Covers.of_isPrefix (hi.elog_isPrefix hled) hle).termAt_eq le_rfl
        have h3 := (hi.lead_isSome hled).2.bound l.length
        omega
      have hk := hcov.length_le
      refine .inl ((hlast.mono (hk.trans hlen.le)).trans ?_)
      exact (Covers.of_isPrefix (hi.elog_isPrefix hled) hk).trans hcov
    · exact .inr ⟨lastTerm l,hlt,by omega,hled,hcov⟩

theorem vote (hi : HistInv B h) {T v c : Nat} {l : List E} (hc : h.cand T c=some l)
    (honce : ∀ c', h.voted T v c' → c'=c)
    (hvote : ∀ T1 k, T1<T → 0<k → k≤h.ack T1 v → termAt (h.llog T1) k=T1 →
      Covers k l (h.llog T1) ∨ h.Bad T1 k T) : HistInv B (h.vote T v c) :=
  { hi with
    votedCand := by
      rintro T' v' c' (hv | ⟨rfl,_,rfl⟩)
      · exact hi.votedCand T' v' c' hv
      · exact ⟨l,hc⟩
    votedOnce := by
      rintro T' v' c1 c2 (h1 | ⟨rfl,rfl,rfl⟩) (h2 | ⟨h2,h3,rfl⟩)
      · exact hi.votedOnce T' v' c1 c2 h1 h2
      · subst h2 h3
        exact honce c1 h1
      · exact (honce c2 h2).symm
      · rfl
    electors := fun T' v' c' hl he => .inl (hi.electors T' v' c' hl he)
    votes := by
      rintro T1 T' v' c' l' k (hv | ⟨rfl,rfl,rfl⟩) hT h0 hk ht hl
      · exact hi.votes T1 T' v' c' l' k hv hT h0 hk ht hl
      · cases Option.some.inj (hc.symm.trans hl)
        exact hvote T1 k hT h0 hk ht }

theorem nominate (hi : HistInv B h) {T c : Nat} {l : List E} (hn : h.cand T c=none)
    (hT : B.term<T) (hl : LogInv B h.lead h.llog (T-1) l) : HistInv B (h.nominate T c l) := by
  have g := Hist.grown_nominate h T c (l := l) hn
  refine { hi with
    lead := fun T' i hl' => ⟨(hi.lead T' i hl').1,g.cand T' i _ (hi.lead T' i hl').2⟩
    cand := ?_
    votedCand := fun T' v' c' hv =>
      (hi.votedCand T' v' c' hv).imp (fun l' => g.cand T' c' l')
    votes := ?_ }
  · intro T' c' l' hc
    simp only [Hist.nominate] at hc
    split_ifs at hc with he
    · obtain ⟨rfl,_⟩ := he
      cases hc
      exact ⟨hT,hl⟩
    · exact hi.cand T' c' l' hc
  · intro T1 T' v' c' l' k hv hT' h0 hk ht hc
    obtain ⟨l'',hl''⟩ := hi.votedCand T' v' c' hv
    cases Option.some.inj ((g.cand T' c' l'' hl'').symm.trans hc)
    exact hi.votes T1 T' v' c' l' k hv hT' h0 hk ht hl''

/-- Only a node that has not voted in a later term may acknowledge the leader of T. -/
theorem ackTo (hi : HistInv B h) {T p m : Nat} (hT : (h.lead T).isSome)
    (hm : m≤(h.llog T).length) (hlate : ∀ T' c, h.voted T' p c → T'≤T) :
    HistInv B (h.ackTo T p m) := by
  have hsame : ∀ T' T1 v c, h.voted T' v c → T1<T' → (h.ackTo T p m).ack T1 v=h.ack T1 v := by
    intro T' T1 v c hv hlt
    refine if_neg ?_
    rintro ⟨rfl,rfl⟩
    exact absurd (hlate T' c hv) (by omega)
  refine { hi with
    ackLen := ?_
    ackLed := ?_
    ackers := fun T' v hv => (hi.ackers T' v hv).trans ((h.grown_ackTo T p m).ack T' v)
    votes := ?_
    elected := ?_ }
  · intro T' p'
    change (if _ then _ else _)≤_
    split_ifs with he
    · exact Nat.max_le.mpr ⟨hi.ackLen T' p',he.1 ▸ hm⟩
    · exact hi.ackLen T' p'
  · intro T' p' hpos
    change 0<(if _ then _ else _) at hpos
    split_ifs at hpos with he
    · exact he.1 ▸ hT
    · exact hi.ackLed T' p' hpos
  · intro T1 T' v c l k hv hlt h0 hk ht hc
    rw [hsame T' T1 v c hv hlt] at hk
    exact hi.votes T1 T' v c l k hv hlt h0 hk ht hc
  · intro T1 T' v k he hl hlt h0 hk ht
    obtain ⟨c,hc⟩ := Option.isSome_iff_exists.mp hl
    rw [hsame T' T1 v c (hi.electors T' v c hc he) hlt] at hk
    exact hi.elected T1 T' v k he hl hlt h0 hk ht

/-- The leader of T adds entries of its own term. -/
theorem grow (hi : HistInv B h) {T i : Nat} {es : List E} (hl : h.lead T=some i)
    (hes : ∀ e ∈ es, termOf e=T) : HistInv B (h.grow T (h.llog T++es)) := by
  have hT : (h.lead T).isSome := hl ▸ rfl
  have hb := (hi.lead_isSome hT).1
  have g := Hist.grown_grow (i := i) hl (List.prefix_append (h.llog T) es)
  have hself : (h.grow T (h.llog T++es)).llog T=h.llog T++es := Function.update_self ..
  have hother : ∀ T', T'≠T → (h.grow T (h.llog T++es)).llog T'=h.llog T' :=
    fun T' hne => Function.update_of_ne hne ..
  -- what was known of the first k entries stays known
  have hcov : ∀ {l : List E} {T' k : Nat}, k≤(h.llog T').length →
      (Covers k l ((h.grow T (h.llog T++es)).llog T') ↔ Covers k l (h.llog T')) :=
    fun hk => ⟨fun hc => hc.shrink (g.llog _) hk,fun hc => hc.grow (g.llog _)⟩
  have hterm : ∀ {T' k : Nat}, k≤(h.llog T').length →
      termAt ((h.grow T (h.llog T++es)).llog T') k=termAt (h.llog T') k :=
    fun hk => (Covers.of_isPrefix (g.llog _) hk).termAt_eq le_rfl
  refine { hi with
    llog := ?_
    base := fun T' hT' => (hother T' (by omega)).trans (hi.base T' hT')
    idle := ?_
    cand := fun T' c l hc => ⟨(hi.cand T' c l hc).1,(hi.cand T' c l hc).2.mono g le_rfl⟩
    ackLen := fun T' p => (hi.ackLen T' p).trans (g.llog T').length_le
    commLen := fun T' => (hi.commLen T').trans (g.llog T').length_le
    commTerm := fun T' hT' h0 => (hterm (hi.commLen T')).trans (hi.commTerm T' hT' h0)
    votes := ?_
    elected := ?_
    complete := fun T1 T' hlt hl' => (hcov (hi.commLen T1)).mpr (hi.complete T1 T' hlt hl') }
  · intro T' hT'
    by_cases he : T'=T
    · subst he
      obtain ⟨x,hx,hxt⟩ := hi.llog T' hT'
      refine ⟨x++es,?_,?_⟩
      · rw [hself,hx,List.append_assoc]
        rfl
      · intro e he
        exact (List.mem_append.mp he).elim (hxt e) (hes e)
    · rw [hother T' he]
      exact hi.llog T' hT'
  · intro T' hT' hn
    rw [hother T' (by rintro rfl; cases hn.symm.trans hl)]
    exact hi.idle T' hT' hn
  · intro T1 T' v c l k hv hlt h0 hk ht hc
    have hlen := hk.trans (hi.ackLen T1 v)
    rw [hterm hlen] at ht
    exact (hi.votes T1 T' v c l k hv hlt h0 hk ht hc).imp (hcov hlen).mpr (.mono g le_rfl hlen)
  · intro T1 T' v k he hl' hlt h0 hk ht
    have hlen := hk.trans (hi.ackLen T1 v)
    rw [hterm hlen] at ht
    exact (hi.elected T1 T' v k he hl' hlt h0 hk ht).imp (hcov hlen).mpr (.mono g le_rfl hlen)

/-- A vote by a node that acknowledged what an earlier leader has committed goes to a log
that has it. -/
theorem cand_covers (hi : HistInv B h) {T T1 i v k : Nat} {l : List E}
    (hc : h.cand T i=some l) (hv : h.voted T v i) (hT1 : T1<T) (h0 : 0<k) (hk : k≤h.comm T1)
    (ht : termAt (h.llog T1) k=T1) (hack : k≤h.ack T1 v) : Covers k l (h.llog T1) := by
  rcases hi.votes T1 T v i l k hv hT1 h0 hack ht hc with hcov | ⟨T',hlt,_,hl,hbad⟩
  · exact hcov
  · exact absurd ((hi.complete T1 T' hlt hl).mono hk) hbad

/-- What all nodes start from is in the log of every candidate. -/
theorem cand_base (hi : HistInv B h) {T T1 i : Nat} {l : List E} (hc : h.cand T i=some l)
    (hT1 : T1≤B.term) : Covers (h.comm T1) l (h.llog T1) := by
  have hlen := hi.commLen T1
  rw [hi.base T1 hT1] at hlen ⊢
  exact .of_isPrefix (hi.cand T i l hc).2.base hlen

/-- The log of a candidate that wins has all that earlier leaders have committed. -/
theorem cand_complete (hi : HistInv B h) {T i : Nat} {l : List E} {V : Nat → Prop}
    (hc : h.cand T i=some l) (hV : ∀ v, V v → h.voted T v i)
    (hmeet : ∀ T1, B.term<T1 → T1<T → h.comm T1≠0 → ∃ v, V v ∧ h.ackers T1 v) {T1 : Nat}
    (hT1 : T1<T) : Covers (h.comm T1) l (h.llog T1) := by
  by_cases hb : T1≤B.term
  · exact hi.cand_base hc hb
  by_cases h0 : h.comm T1=0
  · rw [h0]
    exact .zero _ _
  obtain ⟨v,hv,hack⟩ := hmeet T1 (by omega) hT1 h0
  have hpos := Nat.pos_of_ne_zero h0
  exact hi.cand_covers hc (hV v hv) hT1 hpos le_rfl (hi.commTerm T1 (by omega) hpos)
    (hi.ackers T1 v hack)

/-- What a group has acknowledged is in the log of every later leader, if the first leader
without it would have been elected by one of the group. -/
theorem complete_of_meet (hi : HistInv B h) {T k : Nat} {A : Nat → Prop} (h0 : 0<k)
    (ht : termAt (h.llog T) k=T) (hA : ∀ v, A v → k≤h.ack T v)
    (hmeet : ∀ T', T<T' → (h.lead T').isSome →
      (∀ T2, T<T2 → T2<T' → (h.lead T2).isSome → Covers k (h.elog T2) (h.llog T)) →
      Covers k (h.elog T') (h.llog T) ∨ ∃ v, A v ∧ h.electors T' v) :
    ∀ T', T<T' → (h.lead T').isSome → Covers k (h.elog T') (h.llog T) := by
  intro T'
  induction T' using Nat.strong_induction_on with
  | _ T' ih =>
    intro hlt hl
    rcases hmeet T' hlt hl (fun T2 h1 h2 h3 => ih T2 h2 h1 h3) with hcov | ⟨v,hv,he⟩
    · exact hcov
    rcases hi.elected T T' v k he hl hlt h0 (hA v hv) ht with hcov | ⟨T2,h1,h2,h3,h4⟩
    · exact hcov
    · exact absurd (ih T2 (by omega) h1 h3) h4

theorem crown (hi : HistInv B h) {T i : Nat} {l : List E} {V : Nat → Prop}
    (hc : h.cand T i=some l) (hn : h.lead T=none) (hV : ∀ v, V v → h.voted T v i)
    (hcomp : ∀ T1, T1<T → Covers (h.comm T1) l (h.llog T1)) : HistInv B (h.crown T i l V) := by
  have hb := (hi.cand T i l hc).1
  have hnil := hi.idle T hb hn
  have g := Hist.grown_crown (i := i) (l := l) (V := V) hn hnil
  have hlead : (h.crown T i l V).lead T=some i := Function.update_self ..
  have helog : (h.crown T i l V).elog T=l := Function.update_self ..
  have hllog : (h.crown T i l V).llog T=l := Function.update_self ..
  have hother : ∀ {T'}, T'≠T → (h.crown T i l V).lead T'=h.lead T' ∧
      (h.crown T i l V).elog T'=h.elog T' ∧ (h.crown T i l V).llog T'=h.llog T' ∧
      (h.crown T i l V).electors T'=h.electors T' :=
    fun hne => ⟨Function.update_of_ne hne ..,Function.update_of_ne hne ..,
      Function.update_of_ne hne ..,Function.update_of_ne hne ..⟩
  have hcov : ∀ {l' : List E} {T' k : Nat}, Covers k l' (h.llog T') →
      Covers k l' ((h.crown T i l V).llog T') := fun hc => hc.grow (g.llog _)
  have hterm : ∀ {T' k : Nat}, k≤(h.llog T').length →
      termAt ((h.crown T i l V).llog T') k=termAt (h.llog T') k :=
    fun hk => (Covers.of_isPrefix (g.llog _) hk).termAt_eq le_rfl
  refine { hi with
    lead := ?_
    llog := ?_
    base := fun T' hT' => (hother (by omega)).2.2.1.trans (hi.base T' hT')
    idle := ?_
    cand := fun T' c l hc => ⟨(hi.cand T' c l hc).1,(hi.cand T' c l hc).2.mono g le_rfl⟩
    electors := ?_
    ackLen := fun T' p => (hi.ackLen T' p).trans (g.llog T').length_le
    ackLed := fun T' p h0 => g.lead_isSome (hi.ackLed T' p h0)
    commLen := fun T' => (hi.commLen T').trans (g.llog T').length_le
    commTerm := fun T' hT' h0 => (hterm (hi.commLen T')).trans (hi.commTerm T' hT' h0)
    votes := ?_
    elected := ?_
    complete := ?_ }
  · intro T' i' hl'
    by_cases he : T'=T
    · subst he
      cases Option.some.inj (hlead.symm.trans hl')
      rw [helog]
      exact ⟨hb,hc⟩
    · rw [(hother he).1] at hl'
      rw [(hother he).2.1]
      exact hi.lead T' i' hl'
  · intro T' hl'
    by_cases he : T'=T
    · subst he
      refine ⟨[],?_,nofun⟩
      rw [helog,hllog,List.append_nil]
    · rw [(hother he).1] at hl'
      rw [(hother he).2.1,(hother he).2.2.1]
      exact hi.llog T' hl'
  · intro T' hT' hn'
    have he : T'≠T := by
      rintro rfl
      cases hlead.symm.trans hn'
    rw [(hother he).1] at hn'
    rw [(hother he).2.2.1]
    exact hi.idle T' hT' hn'
  · intro T' v c hl' hv
    by_cases he : T'=T
    · subst he
      cases Option.some.inj (hlead.symm.trans hl')
      exact hV v (Function.update_self T' V h.electors ▸ hv)
    · rw [(hother he).1] at hl'
      rw [(hother he).2.2.2] at hv
      exact hi.electors T' v c hl' hv
  · intro T1 T' v c l' k hv hlt h0 hk ht hc'
    have hlen := hk.trans (hi.ackLen T1 v)
    rw [hterm hlen] at ht
    exact (hi.votes T1 T' v c l' k hv hlt h0 hk ht hc').imp hcov (.mono g le_rfl hlen)
  · intro T1 T' v k hv hl' hlt h0 hk ht
    have hlen := hk.trans (hi.ackLen T1 v)
    rw [hterm hlen] at ht
    by_cases he : T'=T
    · subst he
      have hv := hV v (Function.update_self T' V h.electors ▸ hv)
      rw [helog]
      rcases hi.votes T1 T' v i l k hv hlt h0 hk ht hc with hcv | ⟨T2,h1,h2,h3,h4⟩
      · exact .inl (hcov hcv)
      · -- the leader that lacked the entries is not the one elected just now
        have hne : T2≠T' := by
          rintro rfl
          rw [hn] at h3
          cases h3
        exact .inr (Hist.Bad.mono g le_rfl hlen ⟨T2,h1,by omega,h3,h4⟩)
    · rw [(hother he).1] at hl'
      rw [(hother he).2.2.2] at hv
      rw [(hother he).2.1]
      exact (hi.elected T1 T' v k hv hl' hlt h0 hk ht).imp hcov (.mono g le_rfl hlen)
  · intro T1 T' hlt hl'
    by_cases he : T'=T
    · subst he
      rw [helog]
      exact hcov (hcomp T1 hlt)
    · rw [(hother he).1] at hl'
      rw [(hother he).2.1]
      exact hcov (hi.complete T1 T' hlt hl')

theorem commit (hi : HistInv B h) {T k : Nat} {A : Nat → Prop}
    (hk : k≤(h.llog T).length) (ht : termAt (h.llog T) k=T) (hA : ∀ v, A v → k≤h.ack T v)
    (hcomp : ∀ T', T<T' → (h.lead T').isSome → Covers k (h.elog T') (h.llog T)) :
    HistInv B (h.commit T k A) := by
  have hcomm : (h.commit T k A).comm T=k := Function.update_self ..
  have hother : ∀ {T'}, T'≠T → (h.commit T k A).comm T'=h.comm T' ∧
      (h.commit T k A).ackers T'=h.ackers T' :=
    fun hne => ⟨Function.update_of_ne hne ..,Function.update_of_ne hne ..⟩
  refine { hi with commLen := ?_, commTerm := ?_, ackers := ?_, complete := ?_ }
  · intro T'
    by_cases he : T'=T
    · subst he
      rw [hcomm]
      exact hk
    · rw [(hother he).1]
      exact hi.commLen T'
  · intro T' hT' h0'
    by_cases he : T'=T
    · subst he
      rw [hcomm]
      exact ht
    · rw [(hother he).1] at h0' ⊢
      exact hi.commTerm T' hT' h0'
  · intro T' v hv
    by_cases he : T'=T
    · subst he
      rw [hcomm]
      exact hA v (Function.update_self T' A h.ackers ▸ hv)
    · rw [(hother he).2] at hv
      rw [(hother he).1]
      exact hi.ackers T' v hv
  · intro T1 T' hlt hl
    by_cases he : T1=T
    · subst he
      rw [hcomm]
      exact hcomp T' hlt hl
    · rw [(hother he).1]
      exact hi.complete T1 T' hlt hl

theorem init (B : Base E) : HistInv B (Hist.init B) where
  lead := nofun
  llog := nofun
  base := fun _ hT => if_pos hT
  idle := fun _ hT _ => if_neg (Nat.not_le.mpr hT)
  cand := nofun
  votedCand := nofun
  votedOnce := nofun
  electors := nofun
  ackLen := fun _ _ => Nat.zero_le _
  ackLed := fun _ _ h => absurd h (Nat.lt_irrefl 0)
  commLen := by
    intro T
    by_cases he : T=B.term
    · subst he
      simp [Hist.init]
    · exact (if_neg he).trans_le (Nat.zero_le _)
  commTerm := by
    intro T hT h0
    rw [show (Hist.init B).comm T=0 from if_neg (by omega)] at h0
    omega
  ackers := nofun
  votes := nofun
  elected := nofun
  complete := nofun

end HistInv

end RaftTesting.Consensus
