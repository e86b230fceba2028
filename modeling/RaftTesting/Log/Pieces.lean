import RaftTesting.Log.Whole

namespace RaftTesting

namespace MemoryStorage

variable {ms ms' : MemoryStorage} {i k q : Nat} {e : Entry} {es ents : List Entry}

/-- The stored entry at a position behind the dummy. -/
def entryAt (ms : MemoryStorage) (i : Nat) : Option Entry :=
  if i ≤ ms.dummy.index then none else ms.stored[i-ms.dummy.index-1]?

theorem lastIndex_eq (ms : MemoryStorage) : ms.lastIndex=ms.dummy.index+ms.stored.length := by
  unfold lastIndex
  rw [ms.ents_eq,List.length_cons]
  omega

theorem dummy_le_lastIndex (ms : MemoryStorage) : ms.dummy.index ≤ ms.lastIndex := by
  rw [lastIndex_eq]
  omega

theorem entryAt_of_le (h : i ≤ ms.dummy.index) : ms.entryAt i=none := if_pos h

theorem entryAt_of_lt (h : ms.dummy.index < i) : ms.entryAt i=ms.stored[i-ms.dummy.index-1]? :=
  if_neg (Nat.not_le.mpr h)

theorem entryAt_isSome : (ms.entryAt i).isSome ↔ ms.dummy.index < i ∧ i ≤ ms.lastIndex := by
  rw [lastIndex_eq]
  unfold entryAt
  split_ifs with h
  · simp
    omega
  · rw [Option.isSome_iff_ne_none,ne_eq,List.getElem?_eq_none_iff]
    omega

/-- ents[i-offset], with the dummy at its own position. -/
theorem getElem_ents (h : ms.dummy.index < i) : ms.ents[i-ms.dummy.index]?=ms.entryAt i := by
  rw [entryAt_of_lt h,ms.ents_eq]
  obtain ⟨j,hj⟩ : ∃ j, i-ms.dummy.index=j+1 := ⟨i-ms.dummy.index-1,by omega⟩
  rw [hj,List.getElem?_cons_succ,Nat.add_sub_cancel]

theorem term_eq (h : ms.dummy.index < i) (he : ms.entryAt i=some e) :
    ms.term i=.ok (.ok e.term) :=
  term_of_getElem h.le ((getElem_ents h).trans he)

theorem term_dummy (ms : MemoryStorage) :
    ms.term ms.dummy.index=.ok (.ok ms.dummy.term) := by
  refine term_of_getElem le_rfl ?_
  rw [Nat.sub_self,ms.ents_eq]
  rfl

/-- What Append does to entries that stand at the positions behind q: nothing when the
dummy covers them all, otherwise they replace what is stored from there on. -/
theorem append_cases (hn : Numbered q ents) (hne : ents≠[]) (h : ms.append ents=.ok ms') :
    ms'=ms ∧ q+ents.length ≤ ms.dummy.index ∨
    ms.dummy.index<q+ents.length ∧ q ≤ ms.lastIndex ∧ ms'.dummy=ms.dummy ∧
      ms'.snapshot=ms.snapshot ∧ ms'.hardState=ms.hardState ∧
      ms'.stored=ms.stored.take (q-ms.dummy.index)++ents.drop (ms.dummy.index-q) := by
  cases ents with
  | nil => exact absurd rfl hne
  | cons e es =>
    have hi : e.index=q+1 := hn.head
    unfold append at h
    dsimp only at h
    split at h
    · rename_i hlt
      cases h
      left
      refine ⟨rfl,?_⟩
      simp only [firstIndex,hi] at hlt
      omega
    · rename_i hge
      simp only [firstIndex,hi] at hge h
      have hfirst : ms.dummy.index+1-(q+1)=ms.dummy.index-q := by omega
      rw [hfirst] at h
      right
      cases hd : (e::es).drop (ms.dummy.index-q) with
      | nil =>
        rw [hd] at h
        cases h
      | cons e' es' =>
        rw [hd] at h
        have hi' : e'.index=q+(ms.dummy.index-q)+1 := (hd ▸ hn.drop (ms.dummy.index-q)).head
        have hoff : usub e'.index ms.dummy.index=q-ms.dummy.index+1 := by
          rw [hi',usub_of_le (by omega)]
          omega
        unfold appendAt at h
        dsimp only at h
        split at h
        · rename_i hle
          rw [hoff,ms.ents_eq,List.length_cons] at hle
          have hents : ms'.ents=ms.dummy::(ms.stored.take (q-ms.dummy.index)++e'::es') := by
            cases h
            change ms.ents.take (usub e'.index ms.dummy.index)++e'::es'=_
            rw [hoff,ms.ents_eq]
            rfl
          obtain ⟨hdummy,hstored⟩ := split_ents hents
          cases h
          exact ⟨by omega,by rw [lastIndex_eq]; omega,hdummy,rfl,rfl,hstored⟩
        · cases h

/-- Append does not panic on entries that leave no gap. -/
theorem append_ok (hn : Numbered q ents) (hq : q ≤ ms.lastIndex) : ∃ ms', ms.append ents=.ok ms' := by
  cases ents with
  | nil => exact ⟨ms,rfl⟩
  | cons e es =>
    have hi : e.index=q+1 := hn.head
    unfold append
    dsimp only
    split
    · exact ⟨ms,rfl⟩
    · rename_i hge
      simp only [firstIndex,hi] at hge ⊢
      cases hd : (e::es).drop (ms.dummy.index+1-(q+1)) with
      | nil =>
        have hlen := List.drop_eq_nil_iff.mp hd
        simp only [List.length_cons] at hlen hge
        omega
      | cons e' es' =>
        have hi' : e'.index=q+(ms.dummy.index+1-(q+1))+1 :=
          (hd ▸ hn.drop (ms.dummy.index+1-(q+1))).head
        unfold appendAt
        dsimp only
        rw [if_pos]
        · exact ⟨_,rfl⟩
        · rw [hi',usub_of_le (by omega),ms.ents_eq,List.length_cons]
          rw [lastIndex_eq] at hq
          omega

theorem append_entryAt (hlt : ms.dummy.index<q+ents.length)
    (hq : q ≤ ms.lastIndex) (hd : ms'.dummy=ms.dummy)
    (hs : ms'.stored=ms.stored.take (q-ms.dummy.index)++ents.drop (ms.dummy.index-q)) :
    ms'.lastIndex=q+ents.length ∧ (∀ i≤q, ms'.entryAt i=ms.entryAt i) ∧
      ∀ i, q < i → ms.dummy.index < i → ms'.entryAt i=ents[i-q-1]? := by
  rw [lastIndex_eq] at hq
  have htake : (ms.stored.take (q-ms.dummy.index)).length=q-ms.dummy.index := by
    rw [List.length_take]
    omega
  refine ⟨?_,fun i hi => ?_,fun i hi hdi => ?_⟩
  · rw [lastIndex_eq,hd,hs,List.length_append,htake,List.length_drop]
    omega
  · unfold entryAt
    rw [hd,hs]
    split_ifs with hle
    · rfl
    · rw [List.getElem?_append_left (by omega),List.getElem?_take_of_lt (by omega)]
  · rw [entryAt_of_lt (by rw [hd]; exact hdi),hd,hs,
      List.getElem?_append_right (by omega),htake,List.getElem?_drop]
    congr 1
    omega

/-- The entries reach behind the dummy, so Append places them. -/
theorem append_placed (hst : Numbered ms.dummy.index ms.stored) (hn : Numbered q ents)
    (hlt : ms.dummy.index<q+ents.length) (hne : ents≠[]) (h : ms.append ents=.ok ms') :
    q ≤ ms.lastIndex ∧ ms'.dummy=ms.dummy ∧ ms'.snapshot=ms.snapshot ∧
      ms'.hardState=ms.hardState ∧ Numbered ms.dummy.index ms'.stored ∧
      ms'.lastIndex=q+ents.length ∧ (∀ i≤q, ms'.entryAt i=ms.entryAt i) ∧
      ∀ i, q < i → ms.dummy.index < i → ms'.entryAt i=ents[i-q-1]? := by
  rcases append_cases hn hne h with ⟨-,hle⟩ | ⟨-,hq,hd,hsnap,hhard,hs⟩
  · omega
  · refine ⟨hq,hd,hsnap,hhard,?_,append_entryAt hlt hq hd hs⟩
    rw [lastIndex_eq] at hq
    rw [hs]
    refine (hst.take _).append ?_
    have hdrop := hn.drop (ms.dummy.index-q)
    rw [List.length_take,Nat.min_eq_left (by omega)]
    have heq : ms.dummy.index+(q-ms.dummy.index)=q+(ms.dummy.index-q) := by omega
    rwa [heq]

theorem applySnapshot_spec {s : Snapshot} (h : ms.snapshot.index<s.index) :
    ∃ ms', ms.applySnapshot s=.ok ms' ∧ ms'.dummy.index=s.index ∧ ms'.dummy.term=s.term ∧
      ms'.stored=[] ∧ ms'.snapshot=s ∧ ms'.hardState=ms.hardState := by
  unfold applySnapshot
  rw [if_neg (Nat.not_le.mpr h)]
  exact ⟨_,rfl,rfl,rfl,rfl,rfl,rfl⟩

/-- Compact moves the dummy up to a stored entry. -/
theorem compact_spec (hn : Numbered ms.dummy.index ms.stored)
    (h : ms.compact k=.ok (.ok ms')) : ms.dummy.index<k ∧ k ≤ ms.lastIndex ∧
      ms'.dummy.index=k ∧ (∃ e, ms.entryAt k=some e ∧ ms'.dummy.term=e.term) ∧
      ms'.lastIndex=ms.lastIndex ∧ ms'.snapshot=ms.snapshot ∧ ms'.hardState=ms.hardState ∧
      Numbered k ms'.stored ∧ ∀ i, k < i → ms'.entryAt i=ms.entryAt i := by
  unfold compact at h
  dsimp only at h
  split at h
  · cases h
  rename_i hlt
  have hlt : ms.dummy.index<k := Nat.not_le.mp hlt
  split at h
  · cases h
  rename_i hle
  have hle : k ≤ ms.lastIndex := Nat.not_lt.mp hle
  rw [getElem_ents hlt] at h
  split at h
  · cases h
  rename_i e he
  cases h
  have hindex : e.index=k := by
    have hget := he
    rw [entryAt_of_lt hlt] at hget
    rw [hn _ e hget]
    omega
  have hstored : ms.ents.drop (k-ms.dummy.index+1)=ms.stored.drop (k-ms.dummy.index) := by
    rw [ms.ents_eq,List.drop_succ_cons]
  have hle' := hle
  rw [lastIndex_eq] at hle'
  refine ⟨hlt,hle,hindex,⟨e,he,rfl⟩,?_,rfl,rfl,?_,fun i hi => ?_⟩
  · rw [lastIndex_eq,lastIndex_eq]
    simp only [dummy,stored,List.head_cons,List.tail_cons,hindex]
    change k+(ms.ents.drop (k-ms.dummy.index+1)).length=ms.dummy.index+ms.stored.length
    rw [hstored,List.length_drop]
    omega
  · change Numbered k (ms.ents.drop (k-ms.dummy.index+1))
    rw [hstored]
    have hdrop := hn.drop (k-ms.dummy.index)
    rwa [Nat.add_sub_cancel' hlt.le] at hdrop
  · rw [entryAt_of_lt (hlt.trans hi)]
    unfold entryAt
    change (if i≤e.index then none else (ms.ents.drop (k-ms.dummy.index+1))[i-e.index-1]?)=_
    rw [hindex,if_neg (Nat.not_le.mpr hi),hstored,List.getElem?_drop]
    congr 1
    omega

/-- The error that Compact returns says that the front is already cut off. -/
theorem compact_error {err : StorageErr} (h : ms.compact k=.ok (.error err)) :
    k ≤ ms.dummy.index := by
  unfold compact at h
  dsimp only at h
  split at h
  · rename_i hle
    exact hle
  split at h
  · cases h
  split at h <;> cases h

end MemoryStorage

namespace Unstable

variable {u u' : Unstable} {i q t : Nat} {e : Entry} {es : List Entry}

/-- The unstable entry at a position. -/
def entryAt (u : Unstable) (i : Nat) : Option Entry :=
  if i<u.offset then none else u.entries[i-u.offset]?

theorem entryAt_of_lt (h : i<u.offset) : u.entryAt i=none := if_pos h

theorem entryAt_of_le (h : u.offset ≤ i) : u.entryAt i=u.entries[i-u.offset]? :=
  if_neg (Nat.not_lt.mpr h)

theorem entryAt_isSome : (u.entryAt i).isSome ↔ u.offset ≤ i ∧ i<u.offset+u.entries.length := by
  unfold entryAt
  split_ifs with h
  · simp
    omega
  · rw [Option.isSome_iff_ne_none,ne_eq,List.getElem?_eq_none_iff]
    omega

/-- The three cases of truncateAndAppend in one: what stands before the first new entry
stays. -/
theorem truncateAndAppend_spec (hi : e.index=q+1) (h : u.truncateAndAppend e es=.ok u') :
    q+1≤u.offset+u.entries.length ∧ u'.snapshot=u.snapshot ∧ u'.offset=min u.offset (q+1) ∧
      u'.entries=u.entries.take (q+1-u.offset)++e::es := by
  unfold truncateAndAppend at h
  dsimp only at h
  rw [hi] at h
  split at h
  · cases h
    refine ⟨by omega,rfl,by dsimp only; omega,?_⟩
    rw [List.take_of_length_le (by omega)]
  split at h
  · cases h
    refine ⟨by omega,rfl,by dsimp only; omega,?_⟩
    have hzero : q+1-u.offset=0 := by omega
    rw [hzero]
    rfl
  · obtain ⟨kept,hk,h⟩ := bind_eq_ok.mp h
    cases h
    obtain ⟨_,hc,hk⟩ := bind_eq_ok.mp hk
    cases hk
    unfold mustCheckOutOfBounds at hc
    split at hc
    · cases hc
    split at hc
    · cases hc
    refine ⟨by omega,rfl,by dsimp only; omega,?_⟩
    rw [Nat.sub_self,List.drop_zero]

theorem truncateAndAppend_ok (hi : e.index=q+1) (h : q+1≤u.offset+u.entries.length) :
    ∃ u', u.truncateAndAppend e es=.ok u' := by
  unfold truncateAndAppend
  dsimp only
  rw [hi]
  split
  · exact ⟨_,rfl⟩
  split
  · exact ⟨_,rfl⟩
  · simp only [slice,mustCheckOutOfBounds]
    rw [if_neg (by omega),if_neg (by omega)]
    exact ⟨_,rfl⟩

/-- The entry that stableTo looks for is an unstable one. -/
theorem maybeTerm_eq (h : u.offset ≤ i) : u.maybeTerm i=(u.entryAt i).map Entry.term := by
  unfold maybeTerm maybeLastIndex
  rw [if_neg (Nat.not_lt.mpr h),entryAt_of_le h]
  by_cases he : u.entries.length=0
  · rw [if_neg (not_not.mpr he),List.eq_nil_of_length_eq_zero he]
    cases u.snapshot with
    | none => rfl
    | some s =>
      simp only [Option.map_some]
      split_ifs <;> rfl
  · rw [if_pos he]
    dsimp only
    split_ifs with hlast
    · rw [List.getElem?_eq_none (by omega)]
      rfl
    · rfl

/-- stableTo moves the offset behind a matching unstable entry, or does nothing. -/
theorem stableTo_cases (u : Unstable) (i t : Nat) :
    (u.stableTo i t=u ∧ ¬(u.offset ≤ i ∧ (u.entryAt i).map Entry.term=some t)) ∨
    (u.offset ≤ i ∧ (u.entryAt i).map Entry.term=some t ∧
      u.stableTo i t={ u with entries := u.entries.drop (i+1-u.offset), offset := i+1 }) := by
  unfold stableTo
  by_cases hle : u.offset ≤ i
  · rw [maybeTerm_eq hle]
    cases hm : (u.entryAt i).map Entry.term with
    | none =>
      left
      exact ⟨rfl,fun h => by cases h.2⟩
    | some gt =>
      dsimp only
      by_cases ht : gt=t
      · right
        exact ⟨hle,by rw [ht],if_pos ⟨ht,hle⟩⟩
      · left
        exact ⟨if_neg (fun h => ht h.1),fun h => ht (Option.some.inj h.2)⟩
  · left
    refine ⟨?_,fun h => hle h.1⟩
    split
    · rfl
    · exact if_neg (fun h => hle h.2)

end Unstable

/-- What append does: the entries before the first new one stay as they are. -/
theorem RaftLog.append_cases {l l' : RaftLog} {q : Nat} {ents : List Entry}
    (hu : Numbered (l.unstable.offset-1) l.unstable.entries) (hpos : 1≤l.unstable.offset)
    (hn : Numbered q ents) (hne : ents≠[]) (h : l.append ents=.ok l') :
    ∃ u, l'={ l with unstable := u } ∧ l.committed≤q ∧
      q+1≤l.unstable.offset+l.unstable.entries.length ∧ u.snapshot=l.unstable.snapshot ∧
      u.offset=min l.unstable.offset (q+1) ∧ Numbered (u.offset-1) u.entries ∧
      u.offset+u.entries.length=q+1+ents.length ∧ (∀ i≤q, u.entryAt i=l.unstable.entryAt i) ∧
      ∀ i, q < i → u.entryAt i=ents[i-q-1]? := by
  cases ents with
  | nil => exact absurd rfl hne
  | cons e es =>
    have hi : e.index=q+1 := hn.head
    unfold append at h
    dsimp only at h
    rw [hi,usub_of_le (by omega),Nat.add_sub_cancel] at h
    split at h
    · cases h
    rename_i hc
    obtain ⟨u,htr,h⟩ := bind_eq_ok.mp h
    obtain ⟨hend,hsnap,hoff,hents⟩ := Unstable.truncateAndAppend_spec hi htr
    have htake : (l.unstable.entries.take (q+1-l.unstable.offset)).length=q+1-l.unstable.offset := by
      rw [List.length_take]
      omega
    refine ⟨u,(Except.ok.inj h).symm,Nat.not_lt.mp hc,hend,hsnap,hoff,?_,?_,fun i hiq => ?_,
      fun i hiq => ?_⟩
    · rw [hents]
      by_cases hle : q+1≤l.unstable.offset
      · have hzero : q+1-l.unstable.offset=0 := by omega
        have hq : u.offset-1=q := by omega
        rw [hzero,hq]
        exact hn
      · have hkeep : u.offset-1=l.unstable.offset-1 := by omega
        rw [hkeep]
        refine (hu.take _).append ?_
        have hq : l.unstable.offset-1+(q+1-l.unstable.offset)=q := by omega
        rwa [htake,hq]
    · rw [hents,List.length_append,htake]
      omega
    · by_cases hlt : i<l.unstable.offset
      · rw [Unstable.entryAt_of_lt hlt,Unstable.entryAt_of_lt (by omega)]
      · have hkeep : u.offset=l.unstable.offset := by omega
        rw [Unstable.entryAt_of_le (by omega),Unstable.entryAt_of_le (Nat.not_lt.mp hlt),hkeep,
          hents,List.getElem?_append_left (by omega),List.getElem?_take_of_lt (by omega)]
    · rw [Unstable.entryAt_of_le (by omega),hents,List.getElem?_append_right (by omega),htake]
      congr 1
      omega

namespace RaftLog

variable {l : RaftLog}

/-- Whatever the log was, after an append it ends with the last of the entries. -/
theorem append_lastIndex {l' : RaftLog} {q : Nat} {ents : List Entry} (hn : Numbered q ents)
    (hne : ents≠[]) (h : l.append ents=.ok l') : l'.lastIndex=q+ents.length := by
  cases ents with
  | nil => exact absurd rfl hne
  | cons e es =>
    unfold append at h
    dsimp only at h
    split at h
    · cases h
    obtain ⟨u,htr,h⟩ := bind_eq_ok.mp h
    cases h
    obtain ⟨hend,-,hoff,hents⟩ := Unstable.truncateAndAppend_spec hn.head htr
    have hlen := congrArg List.length hents
    rw [List.length_append,List.length_take] at hlen
    have hue : u.entries.length≠0 := by
      rw [List.length_cons] at hlen
      omega
    unfold lastIndex Unstable.maybeLastIndex
    rw [if_pos hue]
    dsimp only [Option.getD_some]
    omega

/-- An entry goes behind all that is committed, and to the end of the log. -/
theorem append_one {l' : RaftLog} {q : Nat} {e : Entry} (hi : e.index=q+1)
    (h : l.append [e]=.ok l') : l.committed≤q ∧ ∃ x, l'.all=x++[e] := by
  unfold append at h
  dsimp only at h
  split at h
  · cases h
  rename_i hcm
  obtain ⟨u,htr,h⟩ := bind_eq_ok.mp h
  cases h
  obtain ⟨-,-,-,hents⟩ := Unstable.truncateAndAppend_spec hi htr
  rw [hi,usub_of_le (Nat.le_add_left 1 q),Nat.add_sub_cancel] at hcm
  refine ⟨Nat.not_lt.mp hcm,?_⟩
  unfold all
  rw [hents,← List.append_assoc]
  exact ⟨_,rfl⟩

/-- findConflict answers 0 or the position of one of the entries. -/
theorem findConflict_cases (l : RaftLog) {p : Nat} {ents : List Entry} (hn : Numbered p ents) :
    l.findConflict ents=0 ∨ ∃ j<ents.length, l.findConflict ents=p+j+1 := by
  induction ents generalizing p with
  | nil => exact .inl rfl
  | cons e es ih =>
    unfold findConflict
    split_ifs with hm
    · rcases ih hn.tail with hz | ⟨j,hj,hc⟩
      · exact .inl hz
      · refine .inr ⟨j+1,by simpa using hj,?_⟩
        rw [hc]
        omega
    · exact .inr ⟨0,by simp,hn.head⟩

/-- maybeAppend appends what follows on the entries that the log has, if anything, and
then commits. -/
theorem maybeAppend_cases {l' : RaftLog} {index logTerm committed : Nat} {ents : List Entry}
    {last : Option Nat} (hn : Numbered index ents)
    (h : l.maybeAppend index logTerm committed ents=.ok (l',last)) :
    l'=l ∨ ∃ j l1, l.append (ents.drop j)=.ok l1 ∧
      l'=(l1.commitTo (min committed (index+ents.length))).1 := by
  unfold maybeAppend at h
  split at h
  · right
    obtain ⟨l1,h1,h⟩ := bind_eq_ok.mp h
    cases h
    unfold appendFrom at h1
    rcases l.findConflict_cases hn with hz | ⟨j,hj,hc⟩
    · rw [if_pos hz] at h1
      cases h1
      refine ⟨ents.length,l,?_,rfl⟩
      rw [List.drop_length]
      rfl
    · have hdrop : usub (index+j+1) (index+1)=j := by
        rw [usub_of_le (by omega)]
        omega
      rw [hc,if_neg (by omega)] at h1
      split at h1
      · cases h1
      rw [hdrop,if_neg (by omega)] at h1
      exact ⟨j,l1,h1,rfl⟩
  · cases h
    exact .inl rfl

/-- The entry at a position: an unstable one from the offset on, below a stored one. -/
def entryAt (l : RaftLog) (i : Nat) : Option Entry :=
  if i<l.unstable.offset then l.storage.entryAt i else l.unstable.entryAt i

theorem entryAt_of_lt {i : Nat} (h : i<l.unstable.offset) : l.entryAt i=l.storage.entryAt i :=
  if_pos h

theorem entryAt_of_le {i : Nat} (h : l.unstable.offset ≤ i) : l.entryAt i=l.unstable.entryAt i :=
  if_neg (Nat.not_lt.mpr h)

theorem entryAt_index {i : Nat} {e : Entry} (hpos : 1≤l.unstable.offset)
    (hs : Numbered l.storage.dummy.index l.storage.stored)
    (hu : Numbered (l.unstable.offset-1) l.unstable.entries) (h : l.entryAt i=some e) :
    e.index=i := by
  by_cases hlt : i<l.unstable.offset
  · rw [entryAt_of_lt hlt] at h
    have hd := (MemoryStorage.entryAt_isSome.mp (Option.isSome_of_mem h)).1
    rw [MemoryStorage.entryAt_of_lt hd] at h
    have := hs _ e h
    omega
  · have hle := Nat.not_lt.mp hlt
    rw [entryAt_of_le hle,Unstable.entryAt_of_le hle] at h
    have := hu _ e h
    omega

/-- With unstable entries the last of them is the last of the log. -/
theorem lastIndex_of_entries (h : l.unstable.entries≠[]) :
    l.lastIndex=l.unstable.offset+l.unstable.entries.length-1 := by
  have hlen : l.unstable.entries.length≠0 := fun h0 => h (List.eq_nil_of_length_eq_zero h0)
  simp [lastIndex,Unstable.maybeLastIndex,hlen]

theorem lastIndex_of_snapshot {s : Snapshot} (h : l.unstable.entries=[])
    (hs : l.unstable.snapshot=some s) : l.lastIndex=s.index := by
  simp [lastIndex,Unstable.maybeLastIndex,h,hs]

theorem lastIndex_of_stable (h : l.unstable.entries=[]) (hs : l.unstable.snapshot=none) :
    l.lastIndex=l.storage.lastIndex := by
  simp [lastIndex,Unstable.maybeLastIndex,h,hs]

theorem firstIndex_of_snapshot {s : Snapshot} (hs : l.unstable.snapshot=some s) :
    l.firstIndex=s.index+1 := by
  simp [firstIndex,Unstable.maybeFirstIndex,hs]

theorem firstIndex_of_stable (hs : l.unstable.snapshot=none) :
    l.firstIndex=l.storage.dummy.index+1 := by
  simp [firstIndex,Unstable.maybeFirstIndex,hs,MemoryStorage.firstIndex]

section

variable [Raftpb]

/-- A list that is read off the log from a position on. -/
def Reads (l : RaftLog) (lo : Nat) (ents : List Entry) : Prop :=
  ∀ k e, ents[k]?=some e → l.entryAt (lo+k)=some e

omit [Raftpb] in
theorem Reads.of_isPrefix {lo : Nat} {ents ents' : List Entry} (h : l.Reads lo ents)
    (hp : ents'<+:ents) : l.Reads lo ents' := by
  intro k e hk
  obtain ⟨rest,rfl⟩ := hp
  refine h k e ?_
  obtain ⟨hlt,-⟩ := List.getElem?_eq_some_iff.mp hk
  rwa [List.getElem?_append_left hlt]

theorem sliceStable_reads {lo hi maxSize : Nat} {stored : List Entry} {reached : Bool}
    (h : l.sliceStable lo hi maxSize=.ok (.ok (stored,reached))) :
    l.Reads lo stored ∧ stored.length ≤ min hi l.unstable.offset-lo ∧
      (reached=false → stored.length=min hi l.unstable.offset-lo) := by
  unfold sliceStable at h
  split at h
  · rename_i hlt
    dsimp only at h
    split at h <;> cases h
    rename_i hents
    unfold MemoryStorage.entries at hents
    dsimp only at hents
    split at hents
    · cases hents
    rename_i hlo
    split at hents
    · cases hents
    split at hents
    · cases hents
    split at hents
    · cases hents
    cases hents
    have hpre := limitSize_isPrefix ((l.storage.ents.drop (lo-l.storage.dummy.index)).take
      (min hi l.unstable.offset-lo)) maxSize
    have hlen := hpre.length_le.trans (List.length_take_le _ _)
    refine ⟨?_,hlen,fun hr => le_antisymm hlen (Nat.not_lt.mp (decide_eq_false_iff_not.mp hr))⟩
    refine Reads.of_isPrefix (fun k e hk => ?_) hpre
    rw [List.getElem?_take] at hk
    split_ifs at hk with hkl
    rw [List.getElem?_drop] at hk
    rw [entryAt_of_lt (by omega),← MemoryStorage.getElem_ents (by omega),← hk]
    congr 1
    omega
  · cases h
    refine ⟨fun k e hk => by simp at hk,by simp,fun _ => ?_⟩
    simp only [List.length_nil]
    omega

/-- What slice returns is read off the log. -/
theorem slice_reads {lo hi maxSize : Nat} {ents : List Entry}
    (h : l.slice lo hi maxSize=.ok (.ok ents)) :
    l.firstIndex≤lo ∧ lo≤hi ∧ hi≤l.firstIndex+(l.lastIndex+1-l.firstIndex) ∧ l.Reads lo ents ∧
      ents.length≤hi-lo := by
  obtain ⟨chk,hchk,h⟩ := bind_eq_ok.mp h
  unfold mustCheckOutOfBounds at hchk
  split at hchk
  · cases hchk
  rename_i hle
  dsimp only at hchk
  split at hchk
  · cases hchk
    cases h
  rename_i hfirst
  split at hchk
  · cases hchk
  rename_i hlast
  cases hchk
  refine ⟨Nat.not_lt.mp hfirst,Nat.not_lt.mp hle,Nat.not_lt.mp hlast,?_⟩
  dsimp only at h
  split at h
  · cases h
    exact ⟨fun k e hk => by simp at hk,by simp⟩
  obtain ⟨res,hst,h⟩ := bind_eq_ok.mp h
  cases res with
  | error e => cases h
  | ok res =>
    obtain ⟨stored,reached⟩ := res
    obtain ⟨hreads,hlen,hall⟩ := sliceStable_reads hst
    dsimp only at h
    split at h
    · cases h
      exact ⟨hreads,by omega⟩
    · rename_i hr
      have hall := hall (Bool.eq_false_iff.mpr hr)
      split at h
      · rename_i hoff
        obtain ⟨us,hus,h⟩ := bind_eq_ok.mp h
        cases h
        obtain ⟨_,hc,hus⟩ := bind_eq_ok.mp hus
        cases hus
        unfold Unstable.mustCheckOutOfBounds at hc
        split at hc
        · cases hc
        split at hc
        · cases hc
        have hpre := limitSize_isPrefix (stored++(l.unstable.entries.drop
          (max lo l.unstable.offset-l.unstable.offset)).take (hi-max lo l.unstable.offset)) maxSize
        refine ⟨Reads.of_isPrefix (fun k e hk => ?_) hpre,?_⟩
        · by_cases hk' : k<stored.length
          · rw [List.getElem?_append_left hk'] at hk
            exact hreads k e hk
          · rw [List.getElem?_append_right (Nat.not_lt.mp hk'),List.getElem?_take] at hk
            split_ifs at hk with hkl
            rw [List.getElem?_drop] at hk
            rw [entryAt_of_le (by omega),Unstable.entryAt_of_le (by omega),← hk]
            congr 1
            omega
        · refine hpre.length_le.trans ?_
          rw [List.length_append,List.length_take]
          omega
      · cases h
        have hpre := limitSize_isPrefix stored maxSize
        exact ⟨hreads.of_isPrefix hpre,hpre.length_le.trans (by omega)⟩

/-- The entries to apply are read off the log from behind the applied index on, up to
the commit index, which the log then reaches. -/
theorem nextEnts_reads {ents : List Entry} (h : l.nextEnts=.ok ents) :
    l.Reads (max (l.applied+1) l.firstIndex) ents ∧
      (ents≠[] → max (l.applied+1) l.firstIndex+ents.length≤l.committed+1) ∧
      (l.committed ≤ max l.applied (l.firstIndex-1) ∨ l.committed≤l.lastIndex) := by
  unfold nextEnts at h
  dsimp only at h
  split at h
  · rename_i hlt
    obtain ⟨res,hs,h⟩ := bind_eq_ok.mp h
    cases res with
    | error e => cases h
    | ok res =>
      cases h
      obtain ⟨hfirst,hle,hlast,hreads,hlen⟩ := slice_reads hs
      refine ⟨hreads,fun _ => by omega,?_⟩
      omega
  · cases h
    refine ⟨fun k e hk => by simp at hk,fun hne => absurd rfl hne,.inl ?_⟩
    omega

end

end RaftLog

end RaftTesting
