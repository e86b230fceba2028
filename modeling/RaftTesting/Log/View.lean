import RaftTesting.Log.Cursors

namespace RaftTesting

/-- A log as one sequence: the position and the term before the first entry, and the
entries. -/
@[ext]
structure LogView where
  index : Nat
  term : Nat
  entries : List Entry
  deriving DecidableEq

namespace LogView

def lastIndex (v : LogView) : Nat := v.index+v.entries.length

def entryAt (v : LogView) (i : Nat) : Option Entry :=
  if i≤v.index then none else v.entries[i-v.index-1]?

/-- The term is 0 outside of the log. -/
def termAt (v : LogView) (i : Nat) : Nat :=
  if i=v.index then v.term else (v.entryAt i).elim 0 Entry.term

/-- Truncate and append: the entries replace everything from the first of them on. -/
def put (v : LogView) : List Entry → LogView
  | [] => v
  | e::es => { v with entries := v.entries.take (e.index-1-v.index)++e::es }

/-- What the log has already is left out. -/
def maybeAppend (v : LogView) (index logTerm : Nat) (ents : List Entry) : LogView :=
  if v.termAt index=logTerm then
    v.put (ents.dropWhile (fun e => decide (v.termAt e.index=e.term)))
  else v

def compact (v : LogView) (k : Nat) : LogView :=
  if k≤v.index then v else ⟨k,v.termAt k,v.entries.drop (k-v.index)⟩

/-- An entry is known by its index and term: it and what stands before it are those of
the log that L has for this index and term. -/
def Follows (L : Nat → Nat → List Entry) (v : LogView) : Prop :=
  ∀ i e, v.entryAt i=some e → ∀ j ≤ i, v.index<j → v.entryAt j=(L i e.term)[j-1]?

variable {v w : LogView} {i : Nat}

theorem entryAt_of_lt (h : v.index < i) : v.entryAt i=v.entries[i-v.index-1]? :=
  if_neg (Nat.not_le.mpr h)

theorem entryAt_isSome : (v.entryAt i).isSome ↔ v.index < i ∧ i≤v.lastIndex := by
  unfold entryAt lastIndex
  split_ifs with h
  · simp
    omega
  · rw [Option.isSome_iff_ne_none,ne_eq,List.getElem?_eq_none_iff]
    omega

theorem getElem_entries (v : LogView) (k : Nat) : v.entries[k]?=v.entryAt (v.index+1+k) := by
  rw [entryAt_of_lt (by omega)]
  congr 1
  omega

instance (L : Nat → Nat → List Entry) (v : LogView) : Decidable (v.Follows L) :=
  decidable_of_iff (∀ i<v.lastIndex+1, ∀ e ∈ v.entryAt i, ∀ j < i+1, v.index<j →
      v.entryAt j=(L i e.term)[j-1]?)
    ⟨fun h i e he j hj hlt =>
      h i (Nat.lt_succ_of_le (entryAt_isSome.mp (Option.isSome_of_mem he)).2) e he j
        (Nat.lt_succ_of_le hj) hlt,
      fun h i _ e he j hj hlt => h i e he j (Nat.le_of_lt_succ hj) hlt⟩

/-- Two views are the same when they read the same. -/
theorem ext_entryAt (hi : v.index=w.index) (ht : v.term=w.term) (hl : v.lastIndex=w.lastIndex)
    (he : ∀ i, v.index < i → i≤v.lastIndex → v.entryAt i=w.entryAt i) : v=w := by
  refine LogView.ext hi ht (List.ext_getElem? (fun k => ?_))
  rw [getElem_entries,getElem_entries,← hi]
  by_cases hk : v.index+1+k≤v.lastIndex
  · exact he _ (by omega) hk
  · have hv : ¬(v.entryAt (v.index+1+k)).isSome := fun h => hk (entryAt_isSome.mp h).2
    have hw : ¬(w.entryAt (v.index+1+k)).isSome := fun h =>
      hk (hl ▸ (entryAt_isSome.mp h).2)
    rw [Option.not_isSome_iff_eq_none] at hv hw
    rw [hv,hw]

/-- The view after truncate-and-append, read by position. -/
theorem put_spec {q : Nat} {ents : List Entry} (hn : Numbered q ents) (hne : ents≠[])
    (hlow : v.index≤q) (hhigh : q≤v.lastIndex) : (v.put ents).index=v.index ∧
      (v.put ents).term=v.term ∧ (v.put ents).lastIndex=q+ents.length ∧
      (∀ i≤q, (v.put ents).entryAt i=v.entryAt i) ∧
      ∀ i, q < i → (v.put ents).entryAt i=ents[i-q-1]? := by
  unfold lastIndex at hhigh
  cases ents with
  | nil => exact absurd rfl hne
  | cons e es =>
    have hi : e.index-1-v.index=q-v.index := by
      rw [hn.head]
      omega
    have htake : (v.entries.take (q-v.index)).length=q-v.index := by
      rw [List.length_take]
      omega
    have hput : v.put (e::es)={ v with entries := v.entries.take (q-v.index)++e::es } := by
      rw [← hi]
      rfl
    rw [hput]
    refine ⟨rfl,rfl,?_,fun i hi => ?_,fun i hi => ?_⟩
    · unfold lastIndex
      dsimp only
      rw [List.length_append,htake]
      omega
    · unfold entryAt
      dsimp only
      split_ifs with hle
      · rfl
      · rw [List.getElem?_append_left (by omega),List.getElem?_take_of_lt (by omega)]
    · rw [entryAt_of_lt (by dsimp only; omega)]
      dsimp only
      rw [List.getElem?_append_right (by omega),htake]
      congr 1
      omega

end LogView

section

variable [Raftpb] {es es' : List Entry} {maxSize size : Nat}

/-- When the limit is reached within a list, what follows on it does not matter. -/
theorem limitLoop_append (h : (limitLoop maxSize size es).length<es.length) :
    limitLoop maxSize size (es++es')=limitLoop maxSize size es := by
  induction es generalizing size with
  | nil => exact absurd h (lt_irrefl 0)
  | cons e es ih =>
    simp only [limitLoop,List.cons_append] at h ⊢
    split_ifs at h ⊢ with hs
    · rfl
    · rw [ih (by simpa using h)]

theorem limitSize_append (h : (limitSize es maxSize).length<es.length) :
    limitSize (es++es') maxSize=limitSize es maxSize := by
  cases es with
  | nil => exact absurd h (lt_irrefl 0)
  | cons e es =>
    simp only [limitSize,List.cons_append] at h ⊢
    rw [limitLoop_append (by simpa using h)]

theorem limitSize_full (h : ¬(limitSize es maxSize).length<es.length) : limitSize es maxSize=es :=
  (limitSize_isPrefix es maxSize).eq_of_length_le (Nat.not_lt.mp h)

end

/-- What a restart reads. -/
def MemoryStorage.view (ms : MemoryStorage) : LogView :=
  ⟨ms.dummy.index,ms.dummy.term,ms.stored⟩

theorem MemoryStorage.view_lastIndex (ms : MemoryStorage) : ms.view.lastIndex=ms.lastIndex :=
  ms.lastIndex_eq.symm

theorem MemoryStorage.view_entryAt (ms : MemoryStorage) (i : Nat) :
    ms.view.entryAt i=ms.entryAt i := rfl

namespace RaftLog

/-- The stored entries up to the offset and then the unstable ones; behind a pending
snapshot the unstable ones alone. -/
def view (l : RaftLog) : LogView :=
  match l.unstable.snapshot with
  | some s => ⟨s.index,s.term,l.unstable.entries⟩
  | none => ⟨l.storage.dummy.index,l.storage.dummy.term,
      l.storage.stored.take (l.unstable.offset-1-l.storage.dummy.index)++
        l.unstable.entries.drop (l.storage.dummy.index+1-l.unstable.offset)⟩

/-- What the accessors of a log rely on. -/
structure Readable (l : RaftLog) : Prop where
  pos : 1≤l.unstable.offset
  snap : ∀ s, l.unstable.snapshot=some s → s.index<l.unstable.offset ∧
    (l.unstable.entries≠[] → l.unstable.offset=s.index+1)
  stable : l.unstable.snapshot=none → l.unstable.entries≠[] →
    l.unstable.offset≤l.storage.lastIndex+1
  beyond : l.unstable.entries=[] → l.lastIndex<l.unstable.offset
  dummy : l.unstable.snapshot=none → l.unstable.offset≤l.storage.dummy.index →
    (l.unstable.entryAt l.storage.dummy.index).map Entry.term=some l.storage.dummy.term

theorem view_of_snapshot {l : RaftLog} {s : Snapshot} (h : l.unstable.snapshot=some s) :
    l.view=⟨s.index,s.term,l.unstable.entries⟩ := by
  unfold view
  rw [h]

theorem view_of_stable {l : RaftLog} (h : l.unstable.snapshot=none) :
    l.view=⟨l.storage.dummy.index,l.storage.dummy.term,
      l.storage.stored.take (l.unstable.offset-1-l.storage.dummy.index)++
        l.unstable.entries.drop (l.storage.dummy.index+1-l.unstable.offset)⟩ := by
  unfold view
  rw [h]

theorem firstIndex_eq_view (l : RaftLog) : l.firstIndex=l.view.index+1 := by
  cases hs : l.unstable.snapshot with
  | some s => rw [firstIndex_of_snapshot hs,view_of_snapshot hs]
  | none => rw [firstIndex_of_stable hs,view_of_stable hs]

theorem baseTerm_eq_view (l : RaftLog) : l.baseTerm=l.view.term := by
  cases hs : l.unstable.snapshot with
  | some s => rw [baseTerm_of_snapshot hs,view_of_snapshot hs]
  | none => rw [baseTerm_of_stable hs,view_of_stable hs]

namespace Readable

variable {l : RaftLog} (h : l.Readable)
include h

/-- The dummy of storage is not ahead of the unstable entries. -/
theorem dummy_le (hs : l.unstable.snapshot=none) :
    l.storage.dummy.index+1≤l.unstable.offset+l.unstable.entries.length := by
  by_cases ho : l.unstable.offset≤l.storage.dummy.index
  · have hd := h.dummy hs ho
    have hsome : (l.unstable.entryAt l.storage.dummy.index).isSome := by
      cases he : l.unstable.entryAt l.storage.dummy.index with
      | none =>
        rw [he] at hd
        cases hd
      | some e => rfl
    have := (Unstable.entryAt_isSome.mp hsome).2
    omega
  · omega

theorem lastIndex_eq : l.lastIndex=l.view.lastIndex := by
  have hpos := h.pos
  unfold LogView.lastIndex
  cases hs : l.unstable.snapshot with
  | some s =>
    rw [view_of_snapshot hs]
    dsimp only
    by_cases hnil : l.unstable.entries=[]
    · rw [lastIndex_of_snapshot hnil hs,hnil]
      rfl
    · rw [lastIndex_of_entries hnil,(h.snap s hs).2 hnil]
      omega
  | none =>
    have hd := h.dummy_le hs
    rw [view_of_stable hs]
    dsimp only
    rw [List.length_append,List.length_take,List.length_drop]
    by_cases hnil : l.unstable.entries=[]
    · have hb := h.beyond hnil
      rw [lastIndex_of_stable hnil hs,MemoryStorage.lastIndex_eq] at hb ⊢
      rw [hnil,List.length_nil]
      omega
    · have hst := h.stable hs hnil
      rw [MemoryStorage.lastIndex_eq] at hst
      rw [lastIndex_of_entries hnil]
      omega

/-- The accessor of the view and the accessor of the log read the same entries. -/
theorem entryAt_view {i : Nat} (hi : l.view.index < i) (hl : i≤l.lastIndex) :
    l.view.entryAt i=l.entryAt i := by
  have hpos := h.pos
  rw [LogView.entryAt_of_lt hi]
  cases hs : l.unstable.snapshot with
  | some s =>
    rw [view_of_snapshot hs] at hi ⊢
    dsimp only at hi ⊢
    have hnil : l.unstable.entries≠[] := by
      intro hnil
      rw [lastIndex_of_snapshot hnil hs] at hl
      omega
    have hoff := (h.snap s hs).2 hnil
    have hle : l.unstable.offset ≤ i := by omega
    rw [entryAt_of_le hle,Unstable.entryAt_of_le hle]
    congr 1
    omega
  | none =>
    rw [view_of_stable hs] at hi ⊢
    dsimp only at hi ⊢
    by_cases hlt : i<l.unstable.offset
    · have hlen : i-l.storage.dummy.index-1<l.storage.stored.length := by
        by_cases hnil : l.unstable.entries=[]
        · rw [lastIndex_of_stable hnil hs,MemoryStorage.lastIndex_eq] at hl
          omega
        · have hst := h.stable hs hnil
          rw [MemoryStorage.lastIndex_eq] at hst
          omega
      rw [entryAt_of_lt hlt,MemoryStorage.entryAt_of_lt hi,
        List.getElem?_append_left (by rw [List.length_take]; omega),
        List.getElem?_take_of_lt (by omega)]
    · have hle : l.unstable.offset ≤ i := Nat.not_lt.mp hlt
      have hnil : l.unstable.entries≠[] := by
        intro hnil
        have := h.beyond hnil
        omega
      have hst := h.stable hs hnil
      rw [MemoryStorage.lastIndex_eq] at hst
      have htake : (l.storage.stored.take (l.unstable.offset-1-l.storage.dummy.index)).length=
          l.unstable.offset-1-l.storage.dummy.index := by
        rw [List.length_take]
        omega
      rw [entryAt_of_le hle,Unstable.entryAt_of_le hle,
        List.getElem?_append_right (by omega),htake,List.getElem?_drop]
      congr 1
      omega

/-- The term before the first entry. -/
theorem base_term : l.unstable.maybeTerm l.view.index=some l.view.term ∨
    l.unstable.maybeTerm l.view.index=none ∧
      l.storage.term l.view.index=.ok (.ok l.view.term) := by
  cases hs : l.unstable.snapshot with
  | some s =>
    left
    rw [view_of_snapshot hs]
    dsimp only
    unfold Unstable.maybeTerm
    rw [if_pos (h.snap s hs).1,hs]
    dsimp only
    rw [if_pos rfl]
  | none =>
    rw [view_of_stable hs]
    dsimp only
    by_cases ho : l.unstable.offset≤l.storage.dummy.index
    · rw [Unstable.maybeTerm_eq ho,h.dummy hs ho]
      exact .inl rfl
    · refine .inr ⟨?_,l.storage.term_dummy⟩
      unfold Unstable.maybeTerm
      rw [if_pos (Nat.not_le.mp ho),hs]

omit h in
theorem entry_term {i : Nat} {e : Entry} (hi : l.view.index < i) (he : l.entryAt i=some e) :
    l.unstable.maybeTerm i=some e.term ∨
      l.unstable.maybeTerm i=none ∧ l.storage.term i=.ok (.ok e.term) := by
  by_cases ho : l.unstable.offset ≤ i
  · rw [Unstable.maybeTerm_eq ho,← entryAt_of_le ho,he]
    exact .inl rfl
  · have hlt := Nat.not_le.mp ho
    rw [entryAt_of_lt hlt] at he
    refine .inr ⟨?_,MemoryStorage.term_eq (MemoryStorage.entryAt_isSome.mp (he ▸ rfl)).1 he⟩
    unfold Unstable.maybeTerm
    rw [if_pos hlt]
    cases hs : l.unstable.snapshot with
    | none => rfl
    | some s =>
      rw [view_of_snapshot hs] at hi
      dsimp only at hi ⊢
      rw [if_neg (by omega)]

/-- The log asks its storage for a term only where the storage has one. -/
theorem storage_term {i : Nat} (hi : l.view.index ≤ i) (hl : i≤l.lastIndex) :
    l.unstable.maybeTerm i=some (l.view.termAt i) ∨
      l.unstable.maybeTerm i=none ∧ l.storage.term i=.ok (.ok (l.view.termAt i)) := by
  unfold LogView.termAt
  by_cases hne : i=l.view.index
  · subst hne
    rw [if_pos rfl]
    exact h.base_term
  · have hlt : l.view.index < i := by omega
    have hlast := h.lastIndex_eq
    obtain ⟨e,he⟩ : ∃ e, l.view.entryAt i=some e := by
      rw [← Option.isSome_iff_exists,LogView.entryAt_isSome]
      omega
    rw [if_neg hne,he]
    exact entry_term hlt ((h.entryAt_view hlt hl).symm.trans he)

theorem term_eq (i : Nat) : l.term i=.ok (l.view.termAt i) := by
  have hpos := h.pos
  have hlast := h.lastIndex_eq
  unfold RaftLog.term
  rw [firstIndex_eq_view,Nat.add_sub_cancel]
  by_cases hout : i<l.view.index ∨ l.lastIndex < i
  · rw [if_pos hout]
    have hne : i≠l.view.index := by
      rintro rfl
      unfold LogView.lastIndex at hlast
      omega
    have hnone : l.view.entryAt i=none := by
      rw [← Option.not_isSome_iff_eq_none,LogView.entryAt_isSome]
      omega
    unfold LogView.termAt
    rw [if_neg hne,hnone]
    rfl
  rw [if_neg hout]
  rw [not_or,Nat.not_lt,Nat.not_lt] at hout
  obtain hu | ⟨hu,hst⟩ := h.storage_term hout.1 hout.2
  · rw [hu]
  · rw [hu,hst]

theorem view_length {lo hi : Nat} (hlo : l.view.index<lo) (hle : lo≤hi) (hhi : hi≤l.lastIndex+1) :
    ((l.view.entries.drop (lo-l.view.index-1)).take (hi-lo)).length=hi-lo := by
  have hlast := h.lastIndex_eq
  unfold LogView.lastIndex at hlast
  rw [List.length_take,List.length_drop]
  omega

/-- A list that is read off the log is the part of the view at that place. -/
theorem eq_of_reads {lo hi : Nat} {ents : List Entry} (hlo : l.view.index<lo) (hle : lo≤hi)
    (hhi : hi≤l.lastIndex+1) (hr : l.Reads lo ents) (hlen : ents.length=hi-lo) :
    ents=(l.view.entries.drop (lo-l.view.index-1)).take (hi-lo) := by
  have hview := h.view_length hlo hle hhi
  refine List.ext_getElem (by rw [hlen,hview]) (fun k hk hk' => ?_)
  have hread := hr k ents[k] (List.getElem?_eq_getElem hk)
  rw [← h.entryAt_view (by omega) (by omega)] at hread
  rw [LogView.entryAt_of_lt (by omega)] at hread
  apply Option.some.inj
  rw [← hread,← List.getElem?_eq_getElem hk',List.getElem?_take_of_lt (by omega),
    List.getElem?_drop]
  congr 1
  omega

section

variable [Raftpb]

/-- The entries that slice takes from storage, before the size limit. -/
theorem sliceStable_eq {lo hi : Nat} (maxSize : Nat) (hlo : l.view.index<lo) (hlt : lo<hi)
    (hhi : hi≤l.lastIndex+1) : ∃ stored, stored.length=min hi l.unstable.offset-lo ∧
      l.Reads lo stored ∧ l.sliceStable lo hi maxSize=.ok (.ok (limitSize stored maxSize,
        decide ((limitSize stored maxSize).length<stored.length))) := by
  have hpos := h.pos
  by_cases ho : lo<l.unstable.offset
  · have hs : l.unstable.snapshot=none := by
      cases hs : l.unstable.snapshot with
      | none => rfl
      | some s =>
        rw [view_of_snapshot hs] at hlo
        dsimp only at hlo
        by_cases hnil : l.unstable.entries=[]
        · rw [lastIndex_of_snapshot hnil hs] at hhi
          omega
        · have := (h.snap s hs).2 hnil
          omega
    rw [view_of_stable hs] at hlo
    dsimp only at hlo
    have hupper : min hi l.unstable.offset≤l.storage.lastIndex+1 := by
      by_cases hnil : l.unstable.entries=[]
      · rw [lastIndex_of_stable hnil hs] at hhi
        omega
      · have := h.stable hs hnil
        omega
    have hlast := l.storage.lastIndex_eq
    have hents : (l.storage.ents.drop (lo-l.storage.dummy.index))=
        l.storage.stored.drop (lo-l.storage.dummy.index-1) := by
      obtain ⟨j,hj⟩ : ∃ j, lo-l.storage.dummy.index=j+1 := ⟨lo-l.storage.dummy.index-1,by omega⟩
      rw [hj,l.storage.ents_eq]
      rfl
    have hlen : ((l.storage.ents.drop (lo-l.storage.dummy.index)).take
        (min hi l.unstable.offset-lo)).length=min hi l.unstable.offset-lo := by
      rw [hents,List.length_take,List.length_drop]
      omega
    refine ⟨(l.storage.ents.drop (lo-l.storage.dummy.index)).take (min hi l.unstable.offset-lo),
      hlen,?_,?_⟩
    · intro k e hk
      rw [List.getElem?_take] at hk
      split_ifs at hk with hkl
      rw [hents,List.getElem?_drop] at hk
      rw [entryAt_of_lt (by omega),MemoryStorage.entryAt_of_lt (by omega),← hk]
      congr 1
      omega
    · have hone : l.storage.ents.length≠1 := by
        rw [l.storage.ents_eq,List.length_cons]
        omega
      unfold RaftLog.sliceStable MemoryStorage.entries
      dsimp only
      rw [if_pos ho,if_neg (by omega),if_neg (by omega),if_neg hone,if_neg (by omega)]
      dsimp only
      rw [hlen]
  · refine ⟨[],?_,fun k e hk => by simp at hk,?_⟩
    · rw [List.length_nil]
      omega
    · unfold RaftLog.sliceStable
      rw [if_neg ho]
      rfl

omit [Raftpb] in
theorem unstable_slice_eq {lo hi : Nat} (ho : l.unstable.offset≤lo) (hle : lo≤hi)
    (hoff : l.unstable.offset<hi) (hhi : hi≤l.lastIndex+1) : ∃ ents, ents.length=hi-lo ∧
      l.Reads lo ents ∧ l.unstable.slice lo hi=.ok ents := by
  have hpos := h.pos
  have hnil : l.unstable.entries≠[] := by
    intro hnil
    have := h.beyond hnil
    omega
  rw [lastIndex_of_entries hnil] at hhi
  refine ⟨(l.unstable.entries.drop (lo-l.unstable.offset)).take (hi-lo),?_,?_,?_⟩
  · rw [List.length_take,List.length_drop]
    omega
  · intro k e hk
    rw [List.getElem?_take] at hk
    split_ifs at hk with hkl
    rw [List.getElem?_drop] at hk
    rw [entryAt_of_le (by omega),Unstable.entryAt_of_le (by omega),← hk]
    congr 1
    omega
  · unfold Unstable.slice Unstable.mustCheckOutOfBounds
    rw [if_neg (by omega),if_neg (by omega)]
    rfl

/-- A slice is the part of the view at its place, as far as the size limit allows. -/
theorem slice_eq {lo hi : Nat} (maxSize : Nat) (hlo : l.view.index<lo) (hle : lo≤hi)
    (hhi : hi≤l.lastIndex+1) : l.slice lo hi maxSize=
      .ok (.ok (limitSize ((l.view.entries.drop (lo-l.view.index-1)).take (hi-lo)) maxSize)) := by
  have hchk : l.mustCheckOutOfBounds lo hi=.ok (.ok ()) := by
    have hlast := h.lastIndex_eq
    unfold LogView.lastIndex at hlast
    unfold RaftLog.mustCheckOutOfBounds
    dsimp only
    rw [firstIndex_eq_view,if_neg (by omega),if_neg (by omega),if_neg (by omega)]
  unfold RaftLog.slice
  rw [hchk]
  change (if lo=hi then _ else _)=_
  by_cases heq : lo=hi
  · rw [if_pos heq,heq,Nat.sub_self,List.take_zero]
    rfl
  rw [if_neg heq]
  have hlt : lo<hi := by omega
  obtain ⟨stored,hlen,hreads,hst⟩ := h.sliceStable_eq maxSize hlo hlt hhi
  rw [hst]
  change (if decide ((limitSize stored maxSize).length<stored.length)=true then _ else _)=_
  by_cases hoff : l.unstable.offset<hi
  · obtain ⟨us,hulen,hureads,hus⟩ :=
      h.unstable_slice_eq (le_max_right lo l.unstable.offset) (by omega) hoff hhi
    have hall : stored++us=(l.view.entries.drop (lo-l.view.index-1)).take (hi-lo) := by
      refine h.eq_of_reads hlo hle hhi ?_ (by rw [List.length_append]; omega)
      intro k e hk
      by_cases hk' : k<stored.length
      · rw [List.getElem?_append_left hk'] at hk
        exact hreads k e hk
      · rw [List.getElem?_append_right (Nat.not_lt.mp hk')] at hk
        have hread := hureads _ e hk
        have hpos : max lo l.unstable.offset+(k-stored.length)=lo+k := by omega
        rwa [hpos] at hread
    rw [← hall]
    by_cases hr : (limitSize stored maxSize).length<stored.length
    · rw [if_pos (decide_eq_true hr),limitSize_append hr]
    · rw [if_neg (by simpa using hr),if_pos hoff,hus,limitSize_full hr]
      rfl
  · have hall : stored=(l.view.entries.drop (lo-l.view.index-1)).take (hi-lo) :=
      h.eq_of_reads hlo hle hhi hreads (by omega)
    rw [← hall]
    by_cases hr : (limitSize stored maxSize).length<stored.length
    · rw [if_pos (decide_eq_true hr)]
    · rw [if_neg (by simpa using hr),if_neg hoff,limitSize_full hr,limitSize_full hr]

/-- What entries returns from a position of the log on. -/
theorem entries_eq {i : Nat} (maxSize : Nat) (hi : l.view.index < i) : l.entries i maxSize=
    .ok (.ok (limitSize (l.view.entries.drop (i-l.view.index-1)) maxSize)) := by
  have hlast := h.lastIndex_eq
  unfold LogView.lastIndex at hlast
  unfold RaftLog.entries
  split_ifs with hlt
  · rw [List.drop_eq_nil_of_le (by omega)]
    rfl
  · rw [h.slice_eq maxSize hi (by omega) le_rfl,List.take_of_length_le]
    rw [List.length_drop]
    omega

/-- Whenever there is something to apply, it can be read. -/
theorem nextEnts_ok (hc : l.committed≤l.lastIndex) :
    ∃ ents, l.nextEnts=.ok ents ∧ (l.hasNextEnts=true ↔ ents≠[]) := by
  have hview := l.firstIndex_eq_view
  unfold RaftLog.nextEnts RaftLog.hasNextEnts
  dsimp only
  rw [decide_eq_true_eq]
  split
  · rename_i hlt
    have hlow : l.view.index < max (l.applied+1) l.firstIndex := by omega
    have hhigh : l.committed+1≤l.lastIndex+1 := by omega
    rw [h.slice_eq l.maxNextEntsSize hlow hlt.le hhigh]
    refine ⟨_,rfl,iff_of_true hlt (fun hnil => ?_)⟩
    have hlen := h.view_length hlow hlt.le hhigh
    cases hents : (l.view.entries.drop (max (l.applied+1) l.firstIndex-l.view.index-1)).take
        (l.committed+1-max (l.applied+1) l.firstIndex) with
    | nil =>
      rw [hents,List.length_nil] at hlen
      omega
    | cons e es =>
      rw [hents] at hnil
      cases hnil
  · rename_i hlt
    exact ⟨_,rfl,iff_of_false hlt (fun hne => hne rfl)⟩

end

/-- Truncate-and-append on the sequence is what append does. -/
theorem append_view {l' : RaftLog} {q : Nat} {ents : List Entry} (h' : l'.Readable)
    (hu : Numbered (l.unstable.offset-1) l.unstable.entries) (hindex : l.view.index≤l.committed)
    (hn : Numbered q ents) (hq : q≤l.lastIndex) (happ : l.append ents=.ok l') :
    l'.view=l.view.put ents := by
  by_cases hne : ents=[]
  · subst hne
    cases happ
    rfl
  have hlast := h.lastIndex_eq
  obtain ⟨u,heq,hc,hend,hsnap,hoff,-,hlen,hbelow,habove⟩ :=
    RaftLog.append_cases hu h.pos hn hne happ
  have hu' : l'.unstable=u := by rw [heq]
  have hms : l'.storage=l.storage := by rw [heq]
  obtain ⟨hi,ht,hl,hlow,hhigh⟩ := LogView.put_spec hn hne (hindex.trans hc) (hlast ▸ hq)
  have hf : l'.firstIndex=l.firstIndex := by
    unfold RaftLog.firstIndex Unstable.maybeFirstIndex
    rw [hu',hms,hsnap]
  have hb : l'.baseTerm=l.baseTerm := by
    unfold RaftLog.baseTerm
    rw [hu',hms,hsnap]
  rw [firstIndex_eq_view,firstIndex_eq_view] at hf
  rw [baseTerm_eq_view,baseTerm_eq_view] at hb
  have hlast' : l'.lastIndex=q+ents.length := by
    have hue : l'.unstable.entries≠[] := by
      intro hnil
      have hpos := List.length_pos_of_ne_nil hne
      rw [hu'] at hnil
      rw [hnil,List.length_nil] at hlen
      omega
    rw [lastIndex_of_entries hue,hu']
    omega
  refine LogView.ext_entryAt (by omega) (hb.trans ht.symm) ?_ (fun i hvi hil => ?_)
  · rw [hl,← hlast']
    exact h'.lastIndex_eq.symm
  · have hil' : i≤l'.lastIndex := h'.lastIndex_eq.symm ▸ hil
    refine (h'.entryAt_view hvi hil').trans ?_
    by_cases hiq : i≤q
    · rw [hlow i hiq,h.entryAt_view (by omega) (hiq.trans hq)]
      unfold RaftLog.entryAt
      rw [hu',hms,hbelow i hiq]
      split_ifs <;> first | rfl | omega
    · rw [hhigh i (by omega),← habove i (by omega),entryAt_of_le (by rw [hu']; omega),hu']

end Readable

theorem commitTo_view (l : RaftLog) (n : Nat) : (l.commitTo n).1.view=l.view := by
  rw [commitTo_fst]
  rfl

theorem maybeAppend_storage {l l' : RaftLog} {index logTerm committed : Nat} {ents : List Entry}
    {last : Option Nat} (hn : Numbered index ents)
    (h : l.maybeAppend index logTerm committed ents=.ok (l',last)) : l'.storage=l.storage := by
  rcases maybeAppend_cases hn h with rfl | ⟨j,l1,h1,rfl⟩
  · rfl
  · rw [commitTo_storage,append_spec h1]

end RaftLog

theorem MemoryStorage.append_setHardState (ms : MemoryStorage) (st : HardState)
    (es : List Entry) : (ms.setHardState st).append es=(ms.append es).map (·.setHardState st) := by
  cases es with
  | nil => rfl
  | cons e es =>
    have hfirst : (ms.setHardState st).firstIndex=ms.firstIndex := rfl
    simp only [append,hfirst]
    split_ifs
    · rfl
    · cases (e::es).drop (ms.firstIndex-e.index) with
      | nil => rfl
      | cons e' es' =>
        have hsame : (ms.setHardState st).dummy=ms.dummy ∧ (ms.setHardState st).ents=ms.ents :=
          ⟨rfl,rfl⟩
        simp only [appendAt,hsame]
        split_ifs <;> rfl

theorem MemoryStorage.install_setHardState (ms : MemoryStorage) (st : HardState)
    (sn : Snapshot) : (ms.setHardState st).install sn=(ms.install sn).setHardState st := by
  have hsame : (ms.setHardState st).snapshot=ms.snapshot := rfl
  simp only [install,applySnapshot,hsame]
  split_ifs <;> rfl

/-- What an operation means for the one sequence. The application's own steps, but for
a compaction, mean nothing. -/
def LogOp.onView (v : LogView) : LogOp → LogView
  | .append ents => v.put ents
  | .maybeAppend index logTerm _ ents => v.maybeAppend index logTerm ents
  | .restore s => ⟨s.index,s.term,[]⟩
  | .compact k => v.compact k
  | _ => v

namespace LogSession

variable {x : LogSession}

theorem Joined.readable (hx : x.Joined) : x.log.Readable where
  pos := hx.base.pos
  snap := fun s hs => ⟨(hx.base.snap s hs).2.1,fun _ => hx.snap s hs⟩
  stable := fun hs _ => hx.stable hs
  beyond := hx.base.beyond
  dummy := fun _ => hx.base.agreeDummy

/-- A log that reads the same has the same view. -/
theorem view_congr {l l' : RaftLog} (h : l.Readable) (h' : l'.Readable)
    (hf : l'.firstIndex=l.firstIndex) (ht : l'.baseTerm=l.baseTerm)
    (hl : l'.lastIndex=l.lastIndex) (he : ∀ i, l'.logged i=l.logged i) : l'.view=l.view := by
  rw [RaftLog.firstIndex_eq_view,RaftLog.firstIndex_eq_view] at hf
  rw [RaftLog.baseTerm_eq_view,RaftLog.baseTerm_eq_view] at ht
  have hl' := hl
  rw [h.lastIndex_eq,h'.lastIndex_eq] at hl'
  refine LogView.ext_entryAt (by omega) ht hl' (fun i hi hil => ?_)
  rw [← h'.lastIndex_eq] at hil
  rw [h'.entryAt_view hi hil,h.entryAt_view (by omega) (by omega)]
  have heq := he i
  unfold RaftLog.logged at heq
  rwa [RaftLog.firstIndex_eq_view,RaftLog.firstIndex_eq_view,if_neg (by omega),
    if_neg (by omega)] at heq

theorem Joined.append_view {q : Nat} {ents : List Entry} {l : RaftLog} (hx : x.Joined)
    (hn : Numbered q ents) (h : x.log.append ents=.ok l) : l.view=x.log.view.put ents := by
  by_cases hne : ents=[]
  · subst hne
    cases h
    rfl
  have hindex : x.log.view.index≤x.log.committed := by
    cases hs : x.log.unstable.snapshot with
    | some s =>
      rw [RaftLog.view_of_snapshot hs]
      exact (hx.base.snap s hs).2.2.1
    | none =>
      rw [RaftLog.view_of_stable hs]
      exact hx.base.base.trans hx.base.reach
  obtain ⟨u,-,-,hend,-⟩ := RaftLog.append_cases hx.base.unstable hx.base.pos hn hne h
  have hq : q≤x.log.lastIndex := by
    by_cases hnil : x.log.unstable.entries=[]
    · rw [hnil,List.length_nil] at hend
      cases hs : x.log.unstable.snapshot with
      | some s =>
        have := hx.snap s hs
        rw [RaftLog.lastIndex_of_snapshot hnil hs]
        omega
      | none =>
        have := hx.stable hs
        rw [RaftLog.lastIndex_of_stable hnil hs]
        omega
    · have hpos := hx.base.pos
      rw [RaftLog.lastIndex_of_entries hnil]
      omega
  exact hx.readable.append_view (hx.append hn h).1.readable hx.base.unstable hindex hn hq h

/-- The search for a conflict skips the entries that the log has. -/
theorem findConflict_dropWhile {l : RaftLog} {v : LogView} (hm : ∀ i, l.term i=.ok (v.termAt i))
    {p : Nat} {ents : List Entry} (hn : Numbered p ents) :
    l.findConflict ents=0 ∧ ents.dropWhile (fun e => decide (v.termAt e.index=e.term))=[] ∨
    ∃ j<ents.length, l.findConflict ents=p+j+1 ∧
      ents.dropWhile (fun e => decide (v.termAt e.index=e.term))=ents.drop j := by
  induction ents generalizing p with
  | nil => exact .inl ⟨rfl,rfl⟩
  | cons e es ih =>
    have hmatch : l.matchTerm e.index e.term=decide (v.termAt e.index=e.term) := by
      unfold RaftLog.matchTerm
      rw [hm]
    unfold RaftLog.findConflict
    rw [hmatch,List.dropWhile_cons]
    by_cases ht : v.termAt e.index=e.term
    · rw [if_pos (decide_eq_true ht),if_pos (decide_eq_true ht)]
      rcases ih hn.tail with hz | ⟨j,hj,hc,hd⟩
      · exact .inl hz
      · refine .inr ⟨j+1,by simpa using hj,?_,hd⟩
        rw [hc]
        omega
    · have hf : ¬decide (v.termAt e.index=e.term)=true := by simpa using ht
      rw [if_neg hf,if_neg hf]
      exact .inr ⟨0,by simp,hn.head,rfl⟩

theorem Joined.maybeAppend_view {index logTerm committed : Nat} {ents : List Entry} {l : RaftLog}
    {last : Option Nat} (hx : x.Joined) (hn : Numbered index ents)
    (h : x.log.maybeAppend index logTerm committed ents=.ok (l,last)) :
    l.view=x.log.view.maybeAppend index logTerm ents := by
  have hterm := hx.readable.term_eq
  have hmatch : x.log.matchTerm index logTerm=decide (x.log.view.termAt index=logTerm) := by
    unfold RaftLog.matchTerm
    rw [hterm]
  unfold RaftLog.maybeAppend at h
  unfold LogView.maybeAppend
  rw [hmatch] at h
  by_cases ht : x.log.view.termAt index=logTerm
  · rw [if_pos ht]
    rw [if_pos (decide_eq_true ht)] at h
    obtain ⟨l1,h1,h⟩ := bind_eq_ok.mp h
    cases h
    rw [RaftLog.commitTo_view]
    unfold RaftLog.appendFrom at h1
    rcases findConflict_dropWhile hterm hn with ⟨hz,hd⟩ | ⟨j,hj,hc,hd⟩
    · rw [if_pos hz] at h1
      cases h1
      rw [hd]
      rfl
    · have hskip : usub (index+j+1) (index+1)=j := by
        rw [usub_of_le (by omega)]
        omega
      rw [hc,if_neg (by omega)] at h1
      split at h1
      · cases h1
      rw [hskip,if_neg (by omega)] at h1
      rw [hd]
      exact hx.append_view (hn.drop j) h1
  · rw [if_neg ht]
    rw [if_neg (by simpa using ht)] at h
    cases h
    rfl

theorem Joined.compact_view {k : Nat} {ms : MemoryStorage} (hx : x.Joined) (hk : k≤x.settled)
    (hst : x.pending≠none → x.stage=.stored) (hms : x.log.storage.compact k=.ok (.ok ms)) :
    (x.write ms x.stage).log.view=x.log.view.compact k := by
  have hr := hx.readable
  have hr' := (hx.compact hk hst hms).1.readable
  obtain ⟨hd,hle,hdummy,⟨e,he,hterm⟩,hlast,-,-,-,hat⟩ :=
    MemoryStorage.compact_spec hx.base.stored hms
  unfold LogView.compact
  cases hs : x.log.unstable.snapshot with
  | some s =>
    -- behind the pending snapshot storage is not read
    have hview : (x.write ms x.stage).log.view=x.log.view := by
      rw [RaftLog.view_of_snapshot hs]
      exact RaftLog.view_of_snapshot hs
    have hbehind := (hx.base.snap s hs).2.2.2
    have hindex : x.log.view.index=s.index := by rw [RaftLog.view_of_snapshot hs]
    rw [hview,if_pos (by omega)]
  | none =>
    have hindex : x.log.view.index=x.log.storage.dummy.index := by rw [RaftLog.view_of_stable hs]
    have hindex' : (x.write ms x.stage).log.view.index=k := by
      rw [← hdummy]
      exact congrArg LogView.index (RaftLog.view_of_stable (l := (x.write ms x.stage).log) hs)
    have hterm' : (x.write ms x.stage).log.view.term=e.term := by
      rw [← hterm]
      exact congrArg LogView.term (RaftLog.view_of_stable (l := (x.write ms x.stage).log) hs)
    have hlast' : (x.write ms x.stage).log.lastIndex=x.log.lastIndex := by
      unfold write RaftLog.lastIndex
      dsimp only
      rw [hlast]
    have hkl : k≤x.log.lastIndex := by
      have h1 := x.settled_le_reach
      have h2 := hx.base.reach
      have h3 := hx.committed
      omega
    have hke : x.log.entryAt k=some e := by
      by_cases ho : k<x.log.unstable.offset
      · rw [RaftLog.entryAt_of_lt ho,he]
      · have hle := Nat.not_lt.mp ho
        rw [RaftLog.entryAt_of_le hle,← hx.base.agree k hd (hk.trans x.settled_le_reach) hle,he]
    have hklen := hkl
    rw [hr.lastIndex_eq] at hklen
    unfold LogView.lastIndex at hklen
    rw [if_neg (by omega)]
    refine LogView.ext_entryAt hindex' ?_ ?_ (fun i hi hil => ?_)
    · rw [hterm']
      unfold LogView.termAt
      rw [if_neg (by omega),hr.entryAt_view (by omega) hkl,hke]
      rfl
    · rw [← hr'.lastIndex_eq,hlast',hr.lastIndex_eq]
      unfold LogView.lastIndex
      dsimp only
      rw [List.length_drop]
      omega
    · rw [← hr'.lastIndex_eq] at hil
      rw [hr'.entryAt_view hi hil]
      rw [hindex'] at hi
      have hsame : (x.write ms x.stage).log.entryAt i=x.log.entryAt i := by
        unfold write RaftLog.entryAt
        dsimp only
        rw [hat i hi]
      rw [hsame,← hr.entryAt_view (by omega) (by omega),LogView.entryAt_of_lt (by omega),
        LogView.entryAt_of_lt hi,List.getElem?_drop]
      congr 1
      dsimp only
      omega

section

variable [Raftpb]

/-- Storage ends where the log does, once the entries handed out are written. -/
theorem Base.written_lastIndex {y : LogSession} {h : Handout} {ms : MemoryStorage} (hx : x.Base)
    (hh : x.log.handout=.ok h) (hw : Hand.Written y h ms) (hne : h.entries≠[]) :
    ms.lastIndex=x.log.lastIndex := by
  obtain ⟨he,-,ho,-⟩ := hx.cursor hh
  have hend := (hw.ents hne).2.1
  rw [RaftLog.lastIndex_of_entries (he.symm.trans_ne hne),← he,← ho]
  omega

theorem Base.persisted_stable {h : Handout} {ms : MemoryStorage} (hx : x.Base)
    (hp : x.pending=none) (hlast : x.log.committed≤x.log.lastIndex) (hh : x.log.handout=.ok h)
    (hms : (x.log.storage.install h.snapshot).append h.entries=.ok ms)
    (hs : x.log.unstable.snapshot=none) :
    x.log.Readable ∧ ms.view=x.log.view ∧ Numbered ms.dummy.index ms.stored := by
  obtain ⟨he,-,ho,-⟩ := hx.cursor hh
  have hw := ((hx.ready hp hlast hh).install rfl rfl).written rfl rfl hms
  have hsame : x.log.storage.install h.snapshot=x.log.storage :=
    install_empty _ (source_isEmpty.mp ((hx.handout_source hh).symm.trans hs))
  have hwd : ms.dummy=x.log.storage.dummy := hw.dummy.trans (congrArg MemoryStorage.dummy hsame)
  have hr : x.log.Readable := by
    refine ⟨hx.pos,fun s hs' => ?_,fun _ hne => ?_,hx.beyond,fun _ => hx.agreeDummy⟩
    · rw [hs] at hs'
      cases hs'
    · have hq : h.offset-1≤(x.log.storage.install h.snapshot).lastIndex :=
        (hw.ents (he.trans_ne hne)).1
      rw [hsame] at hq
      omega
  have hindex : x.log.view.index=ms.dummy.index := by rw [RaftLog.view_of_stable hs,hwd]
  have hterm : x.log.view.term=ms.dummy.term := by rw [RaftLog.view_of_stable hs,hwd]
  have hsm : h.entries=[] → ms=x.log.storage := fun hnil => (hw.none hnil).trans hsame
  have hend : ms.lastIndex=x.log.lastIndex := by
    by_cases hnil : h.entries=[]
    · rw [RaftLog.lastIndex_of_stable (he.symm.trans hnil) hs,hsm hnil]
    · exact hx.written_lastIndex hh hw hnil
  refine ⟨hr,LogView.ext_entryAt hindex.symm hterm.symm ?_ (fun i hi hil => ?_),hw.stored⟩
  · rw [ms.view_lastIndex,← hr.lastIndex_eq]
    exact hend
  · change ms.dummy.index < i at hi
    rw [ms.view_lastIndex,hend] at hil
    rw [ms.view_entryAt,hr.entryAt_view (by omega) hil]
    by_cases hnil : h.entries=[]
    · have hbeyond := hx.beyond (he.symm.trans hnil)
      rw [RaftLog.entryAt_of_lt (by omega),hsm hnil]
    · obtain ⟨-,-,hlow,hhigh⟩ := hw.ents hnil
      by_cases hi' : i<h.offset
      · rw [hlow i hi',RaftLog.entryAt_of_lt (by omega)]
        exact congrArg (MemoryStorage.entryAt · i) hsame
      · rw [hhigh i (by omega) hi,RaftLog.entryAt_of_le (by omega),
          Unstable.entryAt_of_le (by omega),he,ho]

theorem Base.persisted_snapshot {h : Handout} {ms : MemoryStorage} {s : Snapshot} (hx : x.Base)
    (hp : x.pending=none) (hlast : x.log.committed≤x.log.lastIndex) (hh : x.log.handout=.ok h)
    (hms : (x.log.storage.install h.snapshot).append h.entries=.ok ms)
    (hs : x.log.unstable.snapshot=some s) :
    x.log.Readable ∧ ms.view=x.log.view ∧ Numbered ms.dummy.index ms.stored := by
  obtain ⟨he,-,ho,-⟩ := hx.cursor hh
  have hw := ((hx.ready hp hlast hh).install rfl rfl).written rfl rfl hms
  obtain ⟨rfl,hne⟩ := source_eq_some ((hx.handout_source hh).symm.trans hs)
  have hnew : x.log.storage.snapshot.index<h.snapshot.index := by
    rcases hx.newest _ hs with hlt | ⟨hstage,-⟩
    · exact hlt
    · exact absurd (hx.idle hp) hstage
  obtain ⟨hd,ht,-,-,hl,-⟩ := install_spec hne hnew
  have hwd : ms.dummy=(x.log.storage.install h.snapshot).dummy := hw.dummy
  have hoff := (hx.snap _ hs).2.1
  have hplace : x.log.unstable.entries≠[] → x.log.unstable.offset=h.snapshot.index+1 := by
    intro hnil
    have hq : h.offset-1≤(x.log.storage.install h.snapshot).lastIndex :=
      (hw.ents (he.trans_ne hnil)).1
    omega
  have hr : x.log.Readable := by
    refine ⟨hx.pos,fun s hs' => ?_,fun hs' => ?_,hx.beyond,fun hs' => ?_⟩
    · cases hs.symm.trans hs'
      exact ⟨hoff,hplace⟩
    · rw [hs] at hs'
      cases hs'
    · rw [hs] at hs'
      cases hs'
  have hindex : x.log.view.index=ms.dummy.index := by rw [RaftLog.view_of_snapshot hs,hwd,hd]
  have hterm : x.log.view.term=ms.dummy.term := by rw [RaftLog.view_of_snapshot hs,hwd,ht]
  have hbare : h.entries=[] → ms.lastIndex=h.snapshot.index :=
    fun hnil => (congrArg MemoryStorage.lastIndex (hw.none hnil)).trans hl
  have hend : ms.lastIndex=x.log.lastIndex := by
    by_cases hnil : h.entries=[]
    · rw [RaftLog.lastIndex_of_snapshot (he.symm.trans hnil) hs,hbare hnil]
    · exact hx.written_lastIndex hh hw hnil
  refine ⟨hr,LogView.ext_entryAt hindex.symm hterm.symm ?_ (fun i hi hil => ?_),hw.stored⟩
  · rw [ms.view_lastIndex,← hr.lastIndex_eq]
    exact hend
  · change ms.dummy.index < i at hi
    rw [ms.view_lastIndex] at hil
    have hhi := hi
    rw [hwd,hd] at hhi
    by_cases hnil : h.entries=[]
    · have := hbare hnil
      omega
    · obtain ⟨-,-,-,hhigh⟩ := hw.ents hnil
      have hp1 := hplace (he.symm.trans_ne hnil)
      rw [ms.view_entryAt,hr.entryAt_view (by omega) (by omega),hhigh i (by omega) hi,
        RaftLog.entryAt_of_le (by omega),Unstable.entryAt_of_le (by omega),he,ho]

/-- Once a handout is written, storage reads as the log did when it was handed out. -/
theorem Base.persisted {h : Handout} {ms : MemoryStorage} (hx : x.Base)
    (hp : x.pending=none) (hlast : x.log.committed≤x.log.lastIndex) (hh : x.log.handout=.ok h)
    (hms : (x.log.storage.install h.snapshot).append h.entries=.ok ms) :
    x.log.Readable ∧ ms.view=x.log.view ∧ Numbered ms.dummy.index ms.stored := by
  cases hs : x.log.unstable.snapshot with
  | none => exact hx.persisted_stable hp hlast hh hms hs
  | some s => exact hx.persisted_snapshot hp hlast hh hms hs

end

/-- A restored snapshot is newer than the one in storage, and Advance finds its last entry
only in the log that it was handed out from, not behind another snapshot. -/
def Owned (x : LogSession) : LogOp → Prop
  | .restore s => x.log.storage.snapshot.index<s.index
  | .advance => ∀ h, x.pending=some h → x.stage=.stored → x.log.confirms h.entries=true →
      x.log.unstable.snapshot=h.source
  | _ => True

/-- Index and term identify the entries of the log, of storage, and of what is about to be
stored. -/
structure Known (L : Nat → Nat → List Entry) (x : LogSession) : Prop where
  view : x.log.view.Follows L
  handed : ∀ h, x.pending=some h → x.stage=.handed → ∀ ms,
    (x.log.storage.install h.snapshot).append h.entries=.ok ms → ms.view.Follows L
  installed : ∀ h, x.pending=some h → x.stage=.installed → ∀ ms,
    x.log.storage.append h.entries=.ok ms → ms.view.Follows L
  stored : ∀ h, x.pending=some h → x.stage=.stored → x.log.storage.view.Follows L

section

variable {L : Nat → Nat → List Entry}

theorem Known.setLog {l : RaftLog} (hk : x.Known L) (hs : l.storage=x.log.storage)
    (hv : l.view.Follows L) : (x.setLog l).Known L where
  view := hv
  handed := by
    intro h hp hst ms hms
    change (l.storage.install h.snapshot).append h.entries=.ok ms at hms
    rw [hs] at hms
    exact hk.handed h hp hst ms hms
  installed := by
    intro h hp hst ms hms
    change l.storage.append h.entries=.ok ms at hms
    rw [hs] at hms
    exact hk.installed h hp hst ms hms
  stored := by
    intro h hp hst
    change l.storage.view.Follows L
    rw [hs]
    exact hk.stored h hp hst

/-- The last entry handed out carries everything before it: storage holds what the log
holds there. -/
theorem Known.agree {h : Handout} (hx : x.Base) (hr : x.log.Readable) (hk : x.Known L)
    (hp : x.pending=some h) (hst : x.stage=.stored) (hyes : x.log.confirms h.entries=true)
    (hown : x.log.unstable.snapshot=h.source) :
    ∀ i<h.offset+h.entries.length, x.log.unstable.offset ≤ i → x.log.storage.dummy.index < i →
      x.log.storage.entryAt i=x.log.unstable.entryAt i := by
  intro i hi ho hd
  have hh := hx.hand h hp
  have hne : h.entries≠[] := by
    intro hnil
    rw [hnil] at hyes
    cases hyes
  obtain ⟨e,hlast,hget,hidx⟩ := numbered_getLast hh.numbered hne
  obtain ⟨hle,hterm⟩ := (confirms_of_last hlast).mp hyes
  obtain ⟨e',he',ht⟩ := Option.map_eq_some_iff.mp hterm
  have hpos := hh.pos
  have hlen := List.length_pos_of_ne_nil hne
  have hindex : x.log.view.index=x.log.storage.dummy.index := by
    cases hs : x.log.unstable.snapshot with
    | none => rw [RaftLog.view_of_stable hs]
    | some s =>
      obtain ⟨rfl,hsn⟩ := source_eq_some (hown.symm.trans hs)
      rw [RaftLog.view_of_snapshot hs]
      exact (hh.dummy (by rw [hst]; decide) hsn).1.symm
  have hin : e.index≤x.log.lastIndex := by
    have hsome := (Unstable.entryAt_isSome.mp (Option.isSome_of_mem he')).2
    have hnil : x.log.unstable.entries≠[] := by
      intro hnil
      rw [hnil,List.length_nil] at hsome
      omega
    rw [RaftLog.lastIndex_of_entries hnil]
    omega
  -- both logs hold the entry at its position, so both follow L below it
  have hstored : x.log.storage.view.entryAt e.index=some e := by
    have hcontent := hh.content hst hne e.index (by omega) (by omega)
    have hlen' : e.index-h.offset=h.entries.length-1 := by omega
    rwa [hlen',hget] at hcontent
  have hlogged : x.log.view.entryAt e.index=some e' := by
    rw [hr.entryAt_view (by omega) hin,RaftLog.entryAt_of_le hle,he']
  have h1 := hk.stored h hp hst e.index e hstored i (by omega) hd
  have h2 := hk.view e.index e' hlogged i (by omega) (by omega)
  rw [ht,hr.entryAt_view (by omega) (by omega),RaftLog.entryAt_of_le ho] at h2
  rw [h2]
  exact h1

theorem Known.sound (hx : x.Joined) (hk : x.Known L) {op : LogOp} (ho : x.Owned op) :
    x.Sound op := by
  cases op with
  | restore s => exact ho
  | advance =>
    intro h hp hst hyes
    have hown := ho h hp hst hyes
    exact ⟨hown,fun i hi hoff hd _ =>
      hk.agree hx.base hx.readable hp hst hyes hown i hi hoff hd⟩
  | append | maybeAppend | commitTo | maybeCommit | appliedTo | ready | applySnapshot | store
  | compact => exact trivial

theorem Joined.advance_view {h : Handout} (hx : x.Joined) (hk : x.Known L) (hp : x.pending=some h)
    (hst : x.stage=.stored)
    (hown : x.log.confirms h.entries=true → x.log.unstable.snapshot=h.source) :
    (x.log.stabilize h.entries h.snapshot).view=x.log.view := by
  obtain ⟨hf,ht,hlogged⟩ := hx.advance_logged hp hst hown
  refine view_congr hx.readable (hx.advance hp hst hown).readable hf ht
    (hx.base.advance_lastIndex hp hst hown) (fun i => ?_)
  exact hlogged i (fun hyes ho hi hd =>
    hk.agree hx.base hx.readable hp hst hyes (hown hyes) i hi ho hd)

theorem Follows.compact {k : Nat} {ms ms' : MemoryStorage} (hn : Numbered ms.dummy.index ms.stored)
    (h : ms.view.Follows L) (hms : ms.compact k=.ok (.ok ms')) : ms'.view.Follows L := by
  obtain ⟨hd,-,hdummy,-,-,-,-,-,hat⟩ := MemoryStorage.compact_spec hn hms
  intro i e he j hj hlt
  change ms'.dummy.index<j at hlt
  rw [hdummy] at hlt
  have hij : k < i := hlt.trans_le hj
  rw [ms'.view_entryAt] at he ⊢
  rw [hat i hij] at he
  rw [hat j hlt]
  exact h i e he j hj (hd.trans hlt)

section

variable [Raftpb]

omit [Raftpb] in
theorem Joined.install_view {h : Handout} (hx : x.Joined) (hp : x.pending=some h)
    (hst : x.stage=.handed) :
    (x.write (x.log.storage.install h.snapshot) .installed).log.view=x.log.view := by
  obtain ⟨hf,ht,hlogged⟩ := hx.install_logged hp
  exact view_congr hx.readable (hx.install hp hst).readable hf ht
    ((hx.base.hand h hp).lastIndex_write (fun _ hempty => install_empty x.log.storage hempty))
    hlogged

omit [Raftpb] in
theorem Joined.store_view {h : Handout} {ms : MemoryStorage} (hx : x.Joined)
    (hp : x.pending=some h) (hst : x.stage=.installed)
    (hms : x.log.storage.append h.entries=.ok ms) : (x.write ms .stored).log.view=x.log.view := by
  obtain ⟨hf,ht,hlogged⟩ := hx.store_logged hp hst hms
  exact view_congr hx.readable (hx.store hp hst hms).readable hf ht
    (hx.base.store_lastIndex hp hst hms) hlogged

omit [Raftpb] in
/-- A compaction that fails is one of a position in front of the log. -/
theorem Joined.compact_error_view {k : Nat} {e : StorageErr} (hx : x.Joined) (hk : k≤x.settled)
    (hms : x.log.storage.compact k=.ok (.error e)) : x.log.view.compact k=x.log.view := by
  refine if_pos ?_
  cases hs : x.log.unstable.snapshot with
  | none =>
    rw [RaftLog.view_of_stable hs]
    exact MemoryStorage.compact_error hms
  | some s =>
    rw [RaftLog.view_of_snapshot hs]
    exact hk.trans (hx.base.snap s hs).2.2.2.le

omit [Raftpb] in
theorem Known.hardState (hk : x.Known L) (st : HardState) :
    (x.write (x.log.storage.setHardState st) x.stage).Known L where
  view := hk.view
  handed := by
    intro h hp hst ms hms
    change ((x.log.storage.setHardState st).install h.snapshot).append h.entries=.ok ms at hms
    rw [MemoryStorage.install_setHardState,MemoryStorage.append_setHardState] at hms
    obtain ⟨ms',hms',rfl⟩ := map_eq_ok.mp hms
    exact hk.handed h hp hst ms' hms'
  installed := by
    intro h hp hst ms hms
    change (x.log.storage.setHardState st).append h.entries=.ok ms at hms
    rw [MemoryStorage.append_setHardState] at hms
    obtain ⟨ms',hms',rfl⟩ := map_eq_ok.mp hms
    exact hk.installed h hp hst ms' hms'
  stored := hk.stored

omit [Raftpb] in
theorem Known.compact {k : Nat} {ms : MemoryStorage} (hx : x.Base) (hk : x.Known L)
    (hst : x.pending≠none → x.stage=.stored) (hms : x.log.storage.compact k=.ok (.ok ms))
    (hL : (x.write ms x.stage).log.view.Follows L) : (x.write ms x.stage).Known L := by
  have hstored : ∀ h, x.pending=some h → x.stage=.stored :=
    fun h hp => hst (by rw [hp]; exact Option.some_ne_none h)
  refine ⟨hL,fun h hp hs => ?_,fun h hp hs => ?_,fun h hp hs => ?_⟩
  · cases (hstored h hp).symm.trans hs
  · cases (hstored h hp).symm.trans hs
  · exact Follows.compact hx.stored (hk.stored h hp hs) hms

/-- What is stored has been in the log before, so only the log itself is to be looked at. -/
theorem Known.change {P : LogSession → Handout → Prop} {C : Nat → Prop} {x' : LogSession}
    (hx : x.Base) (hk : x.Known L) (h : Change P x C x') (hL : x'.log.view.Follows L) :
    x'.Known L := by
  cases h with
  | append _ h => exact hk.setLog (by rw [RaftLog.append_spec h]) hL
  | cursors | restore => exact hk.setLog rfl hL
  | ready hp hlast hh =>
    refine ⟨hL,fun h' hp' _ ms hms => ?_,nofun,nofun⟩
    cases hp'
    rw [(hx.persisted hp hlast hh hms).2.1]
    exact hk.view
  | @install h hp hst =>
    refine ⟨hL,nofun,fun h' hp' _ ms hms => ?_,nofun⟩
    cases hp.symm.trans hp'
    exact hk.handed h hp hst ms hms
  | store hp hst hms => exact ⟨hL,nofun,nofun,fun _ _ _ => hk.installed _ hp hst _ hms⟩
  | hardState st => exact hk.hardState st
  | compact _ hst hms => exact hk.compact hx hst hms hL
  | advance => exact ⟨hL,nofun,nofun,nofun⟩

/-- One operation acts on the log as it does on the one sequence. -/
theorem Joined.act_view {op : LogOp} {x' : LogSession} (hx : x.Joined) (hk : x.Known L)
    (hf : x.Fits op) (ho : x.Owned op) (hL : (op.onView x.log.view).Follows L)
    (h : x.act op=.ok x') : x'.log.view=op.onView x.log.view ∧ x'.Known L := by
  have hsame : op.onView x.log.view=x.log.view → x.log.view=op.onView x.log.view ∧ x.Known L :=
    fun heq => ⟨heq.symm,hk⟩
  have hset : ∀ {l : RaftLog}, l.storage=x.log.storage → l.view=op.onView x.log.view →
      (x.setLog l).log.view=op.onView x.log.view ∧ (x.setLog l).Known L :=
    fun hs hv => ⟨hv,hk.setLog hs (hv.symm ▸ hL)⟩
  have hchange : ∀ {y : LogSession} {C : Nat → Prop}, Change Owns x C y →
      y.log.view=op.onView x.log.view → y.log.view=op.onView x.log.view ∧ y.Known L :=
    fun hc hv => ⟨hv,hk.change hx.base hc (hv.symm ▸ hL)⟩
  cases op with
  | append ents =>
    obtain ⟨l,hl,h⟩ := bind_eq_ok.mp h
    cases h
    obtain ⟨q,hn⟩ := hf
    exact hset (by rw [RaftLog.append_spec hl]) (hx.append_view hn hl)
  | maybeAppend index logTerm committed ents =>
    obtain ⟨⟨l,last⟩,hl,h⟩ := bind_eq_ok.mp h
    cases h
    exact hset (RaftLog.maybeAppend_storage hf hl) (hx.maybeAppend_view hf hl)
  | commitTo i =>
    cases h
    exact hset (RaftLog.commitTo_storage _ _) (x.log.commitTo_view i)
  | maybeCommit i t =>
    obtain ⟨⟨l,b⟩,hl,h⟩ := bind_eq_ok.mp h
    cases h
    rcases RaftLog.maybeCommit_spec hl with ⟨-,rfl⟩ | ⟨-,-,-,rfl⟩
    · exact hsame rfl
    · exact hset (RaftLog.commitTo_storage _ _) (x.log.commitTo_view i)
  | appliedTo i =>
    obtain ⟨l,hl,h⟩ := bind_eq_ok.mp h
    cases h
    rcases RaftLog.appliedTo_spec hl with ⟨-,rfl⟩ | ⟨-,-,-,rfl⟩
    · exact hsame rfl
    · exact hset rfl rfl
  | restore s =>
    cases h
    exact hset rfl rfl
  | ready =>
    unfold LogSession.act at h
    dsimp only at h
    split at h
    · cases h
      exact hsame rfl
    · rename_i hp
      obtain ⟨h',hh,h⟩ := bind_eq_ok.mp h
      cases h
      exact hchange (.ready hp hx.committed hh) rfl
  | applySnapshot =>
    unfold LogSession.act at h
    dsimp only at h
    split at h
    · rename_i h' hp hst
      cases h
      exact hchange (.install hp hst) (hx.install_view hp hst)
    · cases h
      exact hsame rfl
  | store =>
    unfold LogSession.act at h
    dsimp only at h
    split at h
    · rename_i h' hp hst
      obtain ⟨ms,hms,h⟩ := bind_eq_ok.mp h
      cases h
      exact hchange (.store hp hst hms) (hx.store_view hp hst hms)
    · cases h
      exact hsame rfl
  | compact k =>
    obtain ⟨res,hms,h⟩ := bind_eq_ok.mp h
    cases res with
    | error e =>
      cases h
      exact hsame (hx.compact_error_view hf.1 hms)
    | ok ms =>
      cases h
      exact hchange (.compact hf.1 hf.2 hms) (hx.compact_view hf.1 hf.2 hms)
  | advance =>
    unfold LogSession.act at h
    dsimp only at h
    split at h
    · rename_i h' hp hst
      cases h
      exact hchange (.advance hp hst (ho h' hp hst)) (hx.advance_view hk hp hst (ho h' hp hst))
    · cases h
      exact hsame rfl

theorem Joined.run_view {ops : List LogOp} {y : LogSession} (hx : x.Joined) (hk : x.Known L)
    (hops : x.Along (fun x op => x.Fits op ∧ x.Owned op ∧ (op.onView x.log.view).Follows L) ops)
    (h : x.run ops=.ok y) : y.Joined ∧ y.Known L := by
  induction ops generalizing x with
  | nil =>
    cases h
    exact ⟨hx,hk⟩
  | cons op ops ih =>
    obtain ⟨x1,h1,h⟩ := bind_eq_ok.mp h
    obtain ⟨⟨hf,ho,hL⟩,hops⟩ := hops
    rw [h1] at hops
    exact ih (hx.act hf (hk.sound hx ho) h1).1 (hx.act_view hk hf ho hL h1).2 hops h

end

theorem start_view (ms : MemoryStorage) (n : Nat) : (start ms n).log.view=ms.view := by
  have hlast := ms.lastIndex_eq
  refine (RaftLog.view_of_stable rfl).trans ?_
  change (⟨_,_,ms.stored.take (ms.lastIndex+1-1-ms.dummy.index)++[].drop _⟩ : LogView)=_
  rw [List.drop_nil,List.append_nil,List.take_of_length_le (by omega)]
  rfl

/-- Storage and the unstable log together read as one sequence, on which the raft's
operations truncate, append and replace and the application's steps do nothing; and what
was handed out can be stored. -/
theorem run_oneLog [Raftpb] {ms : MemoryStorage} {n : Nat} {ops : List LogOp}
    (hms : Numbered ms.dummy.index ms.stored) (hstart : ms.view.Follows L)
    (hops : (start ms n).Along
      (fun x op => x.Fits op ∧ x.Owned op ∧ (op.onView x.log.view).Follows L) ops)
    (hx : (start ms n).run ops=.ok x) :
    (x.log.firstIndex=x.log.view.index+1 ∧ x.log.lastIndex=x.log.view.lastIndex ∧
      (∀ i, x.log.term i=.ok (x.log.view.termAt i)) ∧
      ∀ i m, x.log.firstIndex ≤ i → x.log.entries i m=
        .ok (.ok (limitSize (x.log.view.entries.drop (i-x.log.firstIndex)) m))) ∧
    (∀ op x', x.Fits op → x.Owned op → (op.onView x.log.view).Follows L → x.act op=.ok x' →
      x'.log.view=op.onView x.log.view) ∧
    ∀ h, x.pending=some h → x.stage=.installed → ∃ ms, x.log.storage.append h.entries=.ok ms := by
  have hv : (start ms n).Known L :=
    ⟨(start_view ms n).symm ▸ hstart,nofun,nofun,nofun⟩
  obtain ⟨hj,hk⟩ := (start_joined n hms).run_view hv hops hx
  have hr := hj.readable
  refine ⟨⟨x.log.firstIndex_eq_view,hr.lastIndex_eq,hr.term_eq,fun i m hi => ?_⟩,?_,?_⟩
  · rw [x.log.firstIndex_eq_view] at hi ⊢
    exact hr.entries_eq m (by omega)
  · intro op x' hf ho hL h
    exact (hj.act_view hk hf ho hL h).1
  · intro h hp hst
    exact hj.store_ok hp hst

end

instance decidableOwned (x : LogSession) : (op : LogOp) → Decidable (x.Owned op)
  | .restore s => inferInstanceAs (Decidable (x.log.storage.snapshot.index<s.index))
  | .advance =>
    match hp : x.pending with
    | none => .isTrue (fun h hs => by rw [hp] at hs; cases hs)
    | some h => decidable_of_iff (x.stage=.stored → x.log.confirms h.entries=true →
          x.log.unstable.snapshot=h.source)
        ⟨fun hf h' hs => by rw [hp] at hs; cases hs; exact hf,fun hf => hf h hp⟩
  | .append _ | .maybeAppend _ _ _ _ | .commitTo _ | .maybeCommit _ _ | .appliedTo _ | .ready
  | .applySnapshot | .store | .compact _ => .isTrue trivial

section

local instance : Raftpb := Wire.small

/-- The logs that the entries of terms 2, 3 and 4 below belong to. -/
def branches (i t : Nat) : List Entry :=
  match t with
  | 2 => [⟨2,1,.entryNormal,[]⟩,⟨2,2,.entryNormal,[]⟩].take i
  | 3 => [⟨3,1,.entryNormal,[]⟩]
  | _ => [⟨2,1,.entryNormal,[]⟩,⟨2,2,.entryNormal,[]⟩,⟨4,3,.entryNormal,[]⟩].take i

/-- Advance makes the log shorter when it confirms an entry behind a snapshot that is not
the one handed out. With a further entry behind that one, the next Ready cannot be stored. -/
theorem run_oneLog_hole : (start .newMemoryStorage noLimit).Along
      (fun x op => x.Fits op ∧ (op.onView x.log.view).Follows branches) hole ∧
    (∃ x x', (start .newMemoryStorage noLimit).run (hole.take 8)=.ok x ∧ x.act .advance=.ok x' ∧
      x.log.lastIndex=2 ∧ x'.log.lastIndex=1) ∧
    (start .newMemoryStorage noLimit).Along
      (fun x op => x.Fits op ∧ (op.onView x.log.view).Follows branches)
      (hole.take 8++[.append [⟨4,3,.entryNormal,[]⟩],.advance]) ∧
    (start .newMemoryStorage noLimit).run
      (hole.take 8++[.append [⟨4,3,.entryNormal,[]⟩],.advance,.ready,.applySnapshot,.store])=
        .error .missingLogEntry :=
  ⟨by decide +kernel,⟨_,_,rfl,rfl,by decide +kernel,by decide +kernel⟩,by decide +kernel,rfl⟩

/-- The log of the entries of terms 2 and 3 that are overtaken while being stored. -/
def overtakenBranches (i t : Nat) : List Entry :=
  match t with
  | 2 => [⟨2,1,.entryNormal,[]⟩,⟨2,2,.entryNormal,[]⟩].take i
  | _ => [⟨2,1,.entryNormal,[]⟩,⟨3,2,.entryNormal,[]⟩].take i

theorem run_oneLog_overtaken : ∃ x,
    (start .newMemoryStorage noLimit).run (overtaken++[.ready,.applySnapshot])=.ok x ∧
    x.stage=.installed ∧ x.log.view.entries=
      [⟨2,1,.entryNormal,[]⟩,⟨3,2,.entryNormal,[]⟩] ∧
    (x.log.firstIndex=x.log.view.index+1 ∧ x.log.lastIndex=x.log.view.lastIndex ∧
      (∀ i, x.log.term i=.ok (x.log.view.termAt i)) ∧
      ∀ i m, x.log.firstIndex ≤ i → x.log.entries i m=
        .ok (.ok (limitSize (x.log.view.entries.drop (i-x.log.firstIndex)) m))) ∧
    (∀ op x', x.Fits op → x.Owned op → (op.onView x.log.view).Follows overtakenBranches →
      x.act op=.ok x' → x'.log.view=op.onView x.log.view) ∧
    ∀ h, x.pending=some h → x.stage=.installed → ∃ ms, x.log.storage.append h.entries=.ok ms := by
  have hstart : Numbered MemoryStorage.newMemoryStorage.dummy.index
      MemoryStorage.newMemoryStorage.stored := by decide +kernel
  have hops : (start .newMemoryStorage noLimit).Along
      (fun x op => x.Fits op ∧ x.Owned op ∧ (op.onView x.log.view).Follows overtakenBranches)
      (overtaken++[.ready,.applySnapshot]) := by decide +kernel
  exact ⟨_,rfl,rfl,by decide +kernel,run_oneLog hstart (by decide +kernel) hops rfl⟩

end

end LogSession

end RaftTesting
