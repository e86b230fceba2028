import RaftTesting.Log.Whole

namespace RaftTesting

open Consensus (Termed termOf termAt termAt_past termAt_append_left Covers Coherent)

/-- The entries are those of L at the positions p+1, p+2 and so on. -/
structure Segment (L : List Entry) (p : Nat) (ents : List Entry) : Prop where
  numbered : Numbered p ents
  fits : p+ents.length≤L.length
  take : L.take (p+ents.length)=L.take p++ents

namespace Segment

variable {L L' : List Entry} {p : Nat} {ents : List Entry}

/-- What a prefix of the rest of a numbered log is. -/
theorem of_isPrefix (hn : Numbered 0 L) (hp : p≤L.length) (h : ents<+:L.drop p) :
    Segment L p ents := by
  have hlen := h.length_le
  rw [List.length_drop] at hlen
  have heq : ents=(L.drop p).take ents.length := List.prefix_iff_eq_take.mp h
  refine ⟨?_,by omega,?_⟩
  · rw [heq]
    have := (hn.drop p).take ents.length
    rwa [Nat.zero_add] at this
  · rw [List.take_add,← heq]

theorem grow (h : Segment L p ents) (hL : L<+:L') : Segment L' p ents := by
  obtain ⟨x,rfl⟩ := hL
  have hfit := h.fits
  refine ⟨h.numbered,?_,?_⟩
  · rw [List.length_append]
    omega
  · rw [List.take_append_of_le_length hfit,List.take_append_of_le_length (by omega)]
    exact h.take

theorem getElem (h : Segment L p ents) {k : Nat} (hk : k<ents.length) : L[p+k]?=ents[k]? := by
  have hfit := h.fits
  have hL : (L.take (p+ents.length))[p+k]?=L[p+k]? := List.getElem?_take_of_lt (by omega)
  have hlen : (L.take p).length=p := by
    rw [List.length_take]
    omega
  rw [← hL,h.take,List.getElem?_append_right (by omega),hlen,Nat.add_sub_cancel_left]

theorem termAt_eq (h : Segment L p ents) {k : Nat} {e : Entry} (hk : ents[k]?=some e) :
    termAt L (p+k+1)=e.term := by
  obtain ⟨hlt,_⟩ := List.getElem?_eq_some_iff.mp hk
  simp only [termAt,h.getElem hlt,hk]
  rfl

theorem drop (h : Segment L p ents) {j : Nat} (hj : j≤ents.length) :
    L.take (p+j)++ents.drop j=L.take (p+ents.length) := by
  have hfit := h.fits
  have hjoin := congrArg (List.take (p+j)) h.take
  rw [List.take_take,Nat.min_eq_left (by omega),List.take_append,List.take_take,
    Nat.min_eq_right (by omega),List.length_take,Nat.min_eq_left (by omega),
    Nat.add_sub_cancel_left] at hjoin
  rw [hjoin,List.append_assoc,List.take_append_drop,h.take]

end Segment

namespace RaftLog

namespace Whole

variable {l l' : RaftLog} (h : l.Whole)
include h

/-- findConflict answers 0 when all terms agree, else the first position that differs. -/
theorem findConflict_spec {ents : List Entry} {p : Nat} (hn : Numbered p ents) :
    (l.findConflict ents=0 ∧ ∀ k e, ents[k]?=some e → termAt l.all (p+k+1)=e.term) ∨
    ∃ j e, ents[j]?=some e ∧ l.findConflict ents=p+j+1 ∧ termAt l.all (p+j+1)≠e.term ∧
      ∀ k e, k<j → ents[k]?=some e → termAt l.all (p+k+1)=e.term := by
  induction ents generalizing p with
  | nil => exact .inl ⟨rfl,by simp⟩
  | cons e es ih =>
    have hi := hn.head
    unfold findConflict
    by_cases hm : l.matchTerm e.index e.term=true
    · rw [if_pos hm]
      have h0 := (h.matchTerm_eq _ _).mp hm
      rw [hi] at h0
      rcases ih hn.tail with ⟨hz,hall⟩ | ⟨j,e',hj,hc,hne,hlt⟩
      · refine .inl ⟨hz,?_⟩
        intro k e' hk
        cases k with
        | zero =>
          cases hk
          exact h0
        | succ k =>
          have := hall k e' hk
          rwa [show p+1+k=p+(k+1) by omega] at this
      · rw [show p+1+j=p+(j+1) by omega] at hc hne
        refine .inr ⟨j+1,e',hj,hc,hne,?_⟩
        intro k e' hlt' hk
        cases k with
        | zero =>
          cases hk
          exact h0
        | succ k =>
          have := hlt k e' (by omega) hk
          rwa [show p+1+k=p+(k+1) by omega] at this
    · rw [if_neg hm]
      refine .inr ⟨0,e,rfl,hi,?_,fun _ _ hk => absurd hk (Nat.not_lt_zero _)⟩
      rw [← hi]
      exact fun he => hm ((h.matchTerm_eq _ _).mpr he)

section

variable {T : Nat → List Entry} {L ents : List Entry} {p : Nat}

/-- The term check at the position before the entries makes the logs agree up to it. -/
theorem matchTerm_covers (hc : Coherent T l.all) (hL : Coherent T L)
    (hpos : ∀ k, 0<k → k≤L.length → 0<termAt L k) (hp : p≤L.length)
    (hm : l.matchTerm p (termAt L p)=true) : Covers p l.all L := by
  have ht := (h.matchTerm_eq _ _).mp hm
  refine hc.covers hL ?_ hp ht
  by_contra hlt
  rw [termAt_past (by omega)] at ht
  exact absurd (hpos p (by omega) hp) (by omega)

/-- findConflict finds out whether the log already has all that the segment offers. -/
theorem findConflict_covers (hc : Coherent T l.all) (hL : Coherent T L)
    (hpos : ∀ k, 0<k → k≤L.length → 0<termAt L k) (hs : Segment L p ents)
    (hm : Covers p l.all L) :
    l.findConflict ents=0 ∧ Covers (p+ents.length) l.all L ∨
    ∃ j, j<ents.length ∧ l.findConflict ents=p+j+1 ∧ Covers (p+j) l.all L ∧
      termAt l.all (p+j+1)≠termAt L (p+j+1) := by
  have hfit := hs.fits
  have hprev := hm.length_le
  have hpoint : ∀ k, k<ents.length → termAt l.all (p+k+1)=termAt L (p+k+1) →
      Covers (p+k+1) l.all L := by
    intro k hk ht
    refine hc.covers hL ?_ (by omega) ht
    by_contra hlt
    rw [termAt_past (by omega)] at ht
    exact absurd (hpos (p+k+1) (by omega) (by omega)) (by omega)
  have hupto : ∀ j, j≤ents.length →
      (∀ k e, k<j → ents[k]?=some e → termAt l.all (p+k+1)=e.term) → Covers (p+j) l.all L := by
    intro j hj hall
    cases j with
    | zero => exact hm
    | succ k =>
      have he := List.getElem?_eq_getElem (show k<ents.length by omega)
      exact hpoint k hj ((hall k _ (Nat.lt_succ_self k) he).trans (hs.termAt_eq he).symm)
  rcases h.findConflict_spec hs.numbered with ⟨hz,hall⟩ | ⟨j,e,hj,hci,hne,hlt⟩
  · exact .inl ⟨hz,hupto _ le_rfl (fun k e _ hk => hall k e hk)⟩
  · obtain ⟨hjl,_⟩ := List.getElem?_eq_some_iff.mp hj
    refine .inr ⟨j,hjl,hci,hupto j hjl.le hlt,?_⟩
    rwa [hs.termAt_eq hj]

/-- A successful maybeAppend leaves the log alone or cuts it to the sender's. -/
theorem maybeAppend (hc : Coherent T l.all) (hL : Coherent T L)
    (hpos : ∀ k, 0<k → k≤L.length → 0<termAt L k) (hs : Segment L p ents) {cm last : Nat}
    (ha : l.maybeAppend p (termAt L p) cm ents=.ok (l',some last)) :
    last=p+ents.length ∧ l'.Whole ∧ l'.storage=l.storage ∧
    (Covers last l.all L ∧ l'.all=l.all ∨ ¬Covers last l.all L ∧ l'.all=L.take last) ∧
    l'.committed=max l.committed (min cm last) ∧ l'.unstable.offset≤l.unstable.offset ∧
    (l.unstable.entries≠[] → l'.unstable.entries≠[]) := by
  obtain ⟨hm,rfl,l1,h1,rfl⟩ := maybeAppend_spec ha
  have hfit := hs.fits
  have hmc := h.matchTerm_covers hc hL hpos (by omega) hm
  have hl1 : l1.Whole ∧ l1.storage=l.storage ∧ l1.committed=l.committed ∧
      (Covers (p+ents.length) l.all L ∧ l1.all=l.all ∨
        ¬Covers (p+ents.length) l.all L ∧ l1.all=L.take (p+ents.length)) ∧
      l1.unstable.offset≤l.unstable.offset ∧
      (l.unstable.entries≠[] → l1.unstable.entries≠[]) := by
    have hsame := appendFrom_spec h1
    have hst : l1.storage=l.storage := by rw [hsame]
    have hcm : l1.committed=l.committed := by rw [hsame]
    unfold appendFrom at h1
    rcases h.findConflict_covers hc hL hpos hs hmc with ⟨hz,hcov⟩ | ⟨j,hj,hci,hcov,hne⟩
    · rw [if_pos hz] at h1
      cases h1
      exact ⟨h,rfl,rfl,.inl ⟨hcov,rfl⟩,le_rfl,id⟩
    · rw [if_neg (by omega)] at h1
      split at h1
      · cases h1
      rw [hci,usub_of_le (by omega),show p+j+1-(p+1)=j by omega,if_neg (by omega)] at h1
      have hlen := hcov.length_le
      have hnil : ents.drop j=[] → p+j=l.all.length := by
        intro hn
        have := List.drop_eq_nil_iff.mp hn
        omega
      obtain ⟨hw,hall,hoff,hents⟩ := h.append h1 (hs.numbered.drop j) hlen hnil
      refine ⟨hw,hst,hcm,.inr ⟨?_,?_⟩,hoff,hents⟩
      · exact fun hcov' => hne (hcov'.termAt_eq (by omega))
      · rw [hall,hcov.2]
        exact hs.drop hj.le
  obtain ⟨hw,hst,hcm,hall,hoff,hents⟩ := hl1
  have hle : p+ents.length≤l1.all.length := by
    rcases hall with ⟨hcov,he⟩ | ⟨_,he⟩
    · rw [he]
      exact hcov.length_le
    · rw [he,List.length_take]
      omega
  rw [commitTo_fst]
  refine ⟨rfl,hw.congr rfl rfl,hst,hall,?_,hoff,hents⟩
  dsimp only
  rw [hw.lastIndex_eq,hcm]
  split_ifs <;> omega

/-- The panics of maybeAppend do not occur when the sender has all that is committed here. -/
theorem maybeAppend_ok (hc : Coherent T l.all) (hL : Coherent T L)
    (hpos : ∀ k, 0<k → k≤L.length → 0<termAt L k) (hs : Segment L p ents)
    (hcov : Covers l.committed l.all L) (cm : Nat) :
    ∃ res, l.maybeAppend p (termAt L p) cm ents=.ok res := by
  unfold RaftLog.maybeAppend
  split_ifs with hm
  · have hfit := hs.fits
    have hmc := h.matchTerm_covers hc hL hpos (by omega) hm
    have h1 : ∃ l1, l.appendFrom p (l.findConflict ents) ents=.ok l1 := by
      unfold appendFrom
      rcases h.findConflict_covers hc hL hpos hs hmc with ⟨hz,_⟩ | ⟨j,hj,hci,hcj,hne⟩
      · exact ⟨l,if_pos hz⟩
      · have hlt : l.committed<p+j+1 := by
          by_contra hle
          exact hne (hcov.termAt_eq (by omega))
        have hlen := hcj.length_le
        rw [hci,if_neg (by omega),if_neg (by omega),usub_of_le (by omega),
          show p+j+1-(p+1)=j by omega,if_neg (by omega)]
        have hn := hs.numbered.drop j
        cases hd : ents.drop j with
        | nil => exact ⟨l,rfl⟩
        | cons e es =>
          rw [hd] at hn
          exact h.append_ok hn.head hlen (by omega)
    obtain ⟨l1,h1⟩ := h1
    simp only [h1]
    exact ⟨_,rfl⟩
  · exact ⟨_,rfl⟩

end

end Whole

end RaftLog

end RaftTesting
