import RaftTesting.Consensus.Log
import RaftTesting.Log.RaftLog

namespace RaftTesting

open Consensus (Termed termOf termAt termAt_past termAt_append_left Covers)

instance : Termed Entry := ⟨Entry.term⟩

/-- The entries stand at the positions p+1, p+2 and so on. -/
def Numbered (p : Nat) (es : List Entry) : Prop := ∀ k e, es[k]?=some e → e.index=p+k+1

namespace Numbered

variable {p : Nat} {e : Entry} {es es' : List Entry}

theorem nil (p : Nat) : Numbered p [] := by
  intro k e h
  simp at h

theorem take (h : Numbered p es) (n : Nat) : Numbered p (es.take n) := by
  intro k e hk
  rw [List.getElem?_take] at hk
  split_ifs at hk
  exact h k e hk

theorem drop (h : Numbered p es) (n : Nat) : Numbered (p+n) (es.drop n) := by
  intro k e hk
  rw [List.getElem?_drop] at hk
  rw [h _ e hk]
  omega

theorem append (h : Numbered p es) (h' : Numbered (p+es.length) es') : Numbered p (es++es') := by
  intro k e hk
  by_cases hlt : k<es.length
  · rw [List.getElem?_append_left hlt] at hk
    exact h k e hk
  · rw [List.getElem?_append_right (Nat.not_lt.mp hlt)] at hk
    rw [h' _ e hk]
    omega

theorem head (h : Numbered p (e::es)) : e.index=p+1 := h 0 e rfl

theorem tail (h : Numbered p (e::es)) : Numbered (p+1) es := h.drop 1

theorem cons (hi : e.index=p+1) (h : Numbered (p+1) es) : Numbered p (e::es) := by
  intro k e' hk
  cases k with
  | zero =>
    cases hk
    exact hi
  | succ k =>
    rw [h k e' hk]
    omega

end Numbered

/-- The indices are f, f+1 and so on; unlike Numbered it allows an entry at position 0. -/
def Consecutive (f : Nat) (es : List Entry) : Prop := ∀ k e, es[k]?=some e → e.index=f+k

namespace Consecutive

variable {f : Nat} {e : Entry} {es es' : List Entry}

theorem head (h : Consecutive f (e::es)) : e.index=f := h 0 e rfl

theorem drop (h : Consecutive f es) (k : Nat) : Consecutive (f+k) (es.drop k) := by
  intro i e hi
  rw [List.getElem?_drop] at hi
  rw [h _ e hi]
  omega

theorem append (h : Consecutive f es) (h' : Consecutive (f+es.length) es') :
    Consecutive f (es++es') := by
  intro k e hk
  by_cases hlt : k<es.length
  · rw [List.getElem?_append_left hlt] at hk
    exact h k e hk
  · rw [List.getElem?_append_right (Nat.not_lt.mp hlt)] at hk
    rw [h' _ e hk]
    omega

theorem getLast (h : Consecutive f (es++[e])) : e.index=f+es.length :=
  h es.length e (by simp)

theorem map_index (h : Consecutive f es) : es.map Entry.index=List.range' f es.length := by
  apply List.ext_getElem?
  intro k
  rw [List.getElem?_map]
  cases hk : es[k]? with
  | none => simp [List.getElem?_eq_none_iff.mp hk]
  | some e =>
    obtain ⟨hlt,-⟩ := List.getElem?_eq_some_iff.mp hk
    simp [h k e hk,hlt]

/-- The entries above an index are a tail. -/
theorem filter_lt (h : Consecutive f es) {c : Nat} (hf : f≤c+1) :
    es.filter (fun e => c<e.index)=es.drop (c+1-f) := by
  induction es generalizing f with
  | nil => simp
  | cons e es ih =>
    have htail : Consecutive (f+1) es := h.drop 1
    have he : e.index=f := h.head
    by_cases hle : f≤c
    · have hold : ¬c<e.index := by omega
      have hk : c+1-f=(c+1-(f+1))+1 := by omega
      simp only [List.filter_cons,hold,decide_false,Bool.false_eq_true,if_false]
      rw [hk,List.drop_succ_cons]
      exact ih htail (by omega)
    · have hk : c+1-f=0 := by omega
      rw [hk,List.drop_zero,List.filter_eq_self]
      intro a ha
      obtain ⟨k,hk⟩ := List.mem_iff_getElem?.mp ha
      rw [h k a hk]
      simp only [decide_eq_true_eq]
      omega

theorem numbered {p : Nat} (h : Consecutive (p+1) es) : Numbered p es := by
  intro k e hk
  rw [h k e hk]
  omega

end Consecutive

instance numberedDecidable (p : Nat) (es : List Entry) : Decidable (Numbered p es) :=
  match es with
  | [] => .isTrue (Numbered.nil p)
  | e::es =>
    have := numberedDecidable (p+1) es
    decidable_of_iff (e.index=p+1 ∧ Numbered (p+1) es)
      ⟨fun h => Numbered.cons h.1 h.2,fun h => ⟨h.head,h.tail⟩⟩

/-- The entries are consecutive, with a first index of at least 1. -/
def InOrder (es : List Entry) : Prop := ∃ p, Numbered p es

instance (es : List Entry) : Decidable (InOrder es) :=
  match es with
  | [] => .isTrue ⟨0,Numbered.nil 0⟩
  | e::es => decidable_of_iff (Numbered (e.index-1) (e::es))
      ⟨fun h => ⟨_,h⟩,fun ⟨p,h⟩ => by
        have hi := h.head
        have hp : e.index-1=p := by omega
        rwa [hp]⟩

theorem limitLoop_isPrefix [Raftpb] (maxSize : Nat) (es : List Entry) (size : Nat) :
    limitLoop maxSize size es<+:es := by
  induction es generalizing size with
  | nil => exact List.prefix_rfl
  | cons e es ih =>
    simp only [limitLoop]
    split_ifs
    · exact List.nil_prefix
    · exact (List.prefix_cons_inj e).mpr (ih _)

theorem limitSize_isPrefix [Raftpb] (es : List Entry) (maxSize : Nat) : limitSize es maxSize<+:es := by
  cases es with
  | nil => exact List.prefix_rfl
  | cons e es => exact (List.prefix_cons_inj e).mpr (limitLoop_isPrefix _ es _)

/-- The total of the sizes is taken modulo 2^64, so that noLimit is none. -/
theorem limitLoop_noLimit [Raftpb] (size : Nat) (es : List Entry) :
    limitLoop noLimit size es=es := by
  induction es generalizing size with
  | nil => rfl
  | cons e es ih =>
    have hlt : (size+Raftpb.size e)%2^64<2^64 := Nat.mod_lt _ (by decide)
    simp only [limitLoop]
    rw [if_neg (by unfold noLimit; omega),ih]

theorem limitSize_noLimit [Raftpb] (es : List Entry) : limitSize es noLimit=es := by
  cases es with
  | nil => rfl
  | cons e es => exact congrArg (e::·) (limitLoop_noLimit _ es)

namespace MemoryStorage

/-- The entries behind the dummy. -/
def stored (ms : MemoryStorage) : List Entry := ms.ents.tail

theorem ents_eq (ms : MemoryStorage) : ms.ents=ms.dummy::ms.stored :=
  (List.cons_head_tail ms.nonempty).symm

theorem split_ents {ms : MemoryStorage} {d : Entry} {es : List Entry} (h : ms.ents=d::es) :
    ms.dummy=d ∧ ms.stored=es := by
  rw [ents_eq,List.cons.injEq] at h
  exact h

theorem appendAt_spec {ms ms' : MemoryStorage} {e : Entry} {es : List Entry}
    (h : ms.appendAt e es=.ok ms') : ms'.snapshot=ms.snapshot ∧
      ms'.ents=ms.ents.take (usub e.index ms.dummy.index)++e::es := by
  unfold appendAt at h
  dsimp only at h
  split at h <;> cases h
  exact ⟨rfl,rfl⟩

/-- Nothing was cut off at the front: the dummy stands at position 0. -/
structure Whole (ms : MemoryStorage) : Prop where
  index : ms.dummy.index=0
  term : ms.dummy.term=0
  snapshot : ms.snapshot.index=0
  numbered : Numbered 0 ms.stored

theorem Whole.lastIndex_eq {ms : MemoryStorage} (h : ms.Whole) : ms.lastIndex=ms.stored.length := by
  unfold lastIndex
  rw [h.index,ms.ents_eq,List.length_cons]
  omega

/-- Append overwrites from the position of the first entry on. -/
theorem Whole.append {ms ms' : MemoryStorage} {p : Nat} {e : Entry} {es : List Entry}
    (h : ms.Whole) (hn : Numbered p (e::es)) (hp : p ≤ ms.stored.length)
    (ha : ms.append (e::es)=.ok ms') : ms'.Whole ∧ ms'.stored=ms.stored.take p++e::es := by
  have hi := hn.head
  unfold MemoryStorage.append at ha
  dsimp only at ha
  rw [if_neg (by simp only [firstIndex,h.index,List.length_cons]; omega)] at ha
  rw [show ms.firstIndex-e.index=0 by simp only [firstIndex,h.index]; omega,List.drop_zero] at ha
  obtain ⟨hsnap,hents⟩ := appendAt_spec ha
  rw [h.index,usub_of_le (Nat.zero_le _),ms.ents_eq,hi] at hents
  obtain ⟨hd,hs⟩ := split_ents hents
  refine ⟨⟨hd ▸ h.index,hd ▸ h.term,hsnap ▸ h.snapshot,?_⟩,hs⟩
  rw [hs]
  refine (h.numbered.take p).append ?_
  rwa [List.length_take,Nat.min_eq_left hp,Nat.zero_add]

end MemoryStorage

namespace RaftLog

/-- The whole log: the stored entries up to the offset, then the unstable ones. -/
def all (l : RaftLog) : List Entry :=
  l.storage.stored.take (l.unstable.offset-1)++l.unstable.entries

/-- A log of which nothing was compacted and that no snapshot has replaced. -/
structure Whole (l : RaftLog) : Prop where
  storage : l.storage.Whole
  snapshot : l.unstable.snapshot=none
  pos : 1≤l.unstable.offset
  offset : l.unstable.offset≤l.storage.stored.length+1
  tight : l.unstable.entries=[] → l.unstable.offset=l.storage.stored.length+1
  numbered : Numbered 0 l.all

theorem all_congr {l l' : RaftLog} (hs : l'.storage=l.storage) (hu : l'.unstable=l.unstable) :
    l'.all=l.all := by
  unfold all
  rw [hs,hu]

theorem Whole.congr {l l' : RaftLog} (h : l.Whole) (hs : l'.storage=l.storage)
    (hu : l'.unstable=l.unstable) : l'.Whole where
  storage := hs ▸ h.storage
  snapshot := hu ▸ h.snapshot
  pos := hu ▸ h.pos
  offset := hs ▸ hu ▸ h.offset
  tight := hs ▸ hu ▸ h.tight
  numbered := all_congr hs hu ▸ h.numbered

namespace Whole

variable {l l' : RaftLog} (h : l.Whole)
include h

theorem length_stable : (l.storage.stored.take (l.unstable.offset-1)).length=l.unstable.offset-1 := by
  have := h.offset
  rw [List.length_take]
  omega

theorem length_all : l.all.length=l.unstable.offset-1+l.unstable.entries.length := by
  rw [all,List.length_append,h.length_stable]

theorem firstIndex_eq : l.firstIndex=1 := by
  simp [firstIndex,Unstable.maybeFirstIndex,h.snapshot,MemoryStorage.firstIndex,h.storage.index]

theorem lastIndex_eq : l.lastIndex=l.all.length := by
  have hpos := h.pos
  rw [h.length_all]
  unfold lastIndex Unstable.maybeLastIndex
  by_cases he : l.unstable.entries=[]
  · simp only [he,List.length_nil,ne_eq,not_true,if_false,h.snapshot,Option.map_none,
      Option.getD_none,h.storage.lastIndex_eq]
    have := h.tight he
    omega
  · rw [if_pos (fun h0 => he (List.length_eq_zero_iff.mp h0))]
    simp only [Option.getD_some]
    omega

theorem take_all {k : Nat} (hk : k<l.unstable.offset) : l.all.take k=l.storage.stored.take k := by
  rw [all,List.take_append_of_le_length (by rw [h.length_stable]; omega),List.take_take,
    Nat.min_eq_left (by omega)]

theorem drop_all {k : Nat} (hk : l.unstable.offset≤k+1) :
    l.all.drop k=l.unstable.entries.drop (k+1-l.unstable.offset) := by
  have hpos := h.pos
  have hskip : (l.storage.stored.take (l.unstable.offset-1)).drop k=[] :=
    List.drop_eq_nil_of_le (by rw [h.length_stable]; omega)
  rw [all,List.drop_append,hskip,List.nil_append,h.length_stable]
  congr 1
  omega

theorem getElem_stable {k : Nat} (hk : k+1<l.unstable.offset) :
    l.all[k]?=l.storage.stored[k]? := by
  rw [all,List.getElem?_append_left (by rw [h.length_stable]; omega),
    List.getElem?_take_of_lt (by omega)]

theorem getElem_unstable {k : Nat} (hk : l.unstable.offset≤k+1) :
    l.all[k]?=l.unstable.entries[k+1-l.unstable.offset]? := by
  have hpos := h.pos
  rw [all,List.getElem?_append_right (by rw [h.length_stable]; omega),h.length_stable]
  congr 1
  omega

theorem maybeTerm_eq {i : Nat} (hi : l.unstable.offset ≤ i) (hle : i≤l.all.length) :
    l.unstable.maybeTerm i=some (termAt l.all i) := by
  have hpos := h.pos
  have hlen := h.length_all
  obtain ⟨k,rfl⟩ : ∃ k, i=k+1 := ⟨i-1,by omega⟩
  unfold Unstable.maybeTerm Unstable.maybeLastIndex
  rw [if_neg (by omega),if_pos (by omega)]
  dsimp only
  rw [if_neg (by omega),← h.getElem_unstable hi]
  simp only [termAt,List.getElem?_eq_getElem (show k<l.all.length by omega)]
  rfl

theorem storage_term_eq {i : Nat} (hi : i<l.unstable.offset) :
    l.storage.term i=.ok (.ok (termAt l.all i)) := by
  have hoff := h.offset
  have hat : ∀ e, l.storage.ents[i]?=some e → l.storage.term i=.ok (.ok e.term) := by
    intro e he
    refine MemoryStorage.term_of_getElem (by rw [h.storage.index]; omega) ?_
    rwa [h.storage.index]
  rw [l.storage.ents_eq] at hat
  cases i with
  | zero => rw [hat _ rfl,h.storage.term,termAt]
  | succ k =>
    have hk : k<l.storage.stored.length := by omega
    rw [hat _ (List.getElem?_eq_getElem hk)]
    simp only [termAt,h.getElem_stable hi,List.getElem?_eq_getElem hk]
    rfl

/-- Inside and outside of the log, the term is read without an error. -/
theorem term_eq (i : Nat) : l.term i=.ok (termAt l.all i) := by
  unfold RaftLog.term
  rw [h.firstIndex_eq,h.lastIndex_eq]
  by_cases hi : l.all.length < i
  · rw [if_pos (.inr hi),termAt_past hi]
  rw [if_neg (by omega)]
  by_cases ho : i<l.unstable.offset
  · have hm : l.unstable.maybeTerm i=none := by
      unfold Unstable.maybeTerm
      rw [if_pos ho,h.snapshot]
    rw [hm,h.storage_term_eq ho]
  · rw [h.maybeTerm_eq (by omega) (by omega)]

theorem lastTerm_eq : l.lastTerm=.ok (Consensus.lastTerm l.all) := by
  unfold RaftLog.lastTerm
  rw [h.term_eq,h.lastIndex_eq]
  rfl

theorem matchTerm_eq (i t : Nat) : l.matchTerm i t=true ↔ termAt l.all i=t := by
  unfold matchTerm
  rw [h.term_eq]
  exact decide_eq_true_iff

theorem isUpToDate_eq {i t : Nat} (hu : l.isUpToDate i t=.ok true) :
    Consensus.lastTerm l.all<t ∨ t=Consensus.lastTerm l.all ∧ l.all.length ≤ i := by
  unfold isUpToDate at hu
  rw [h.lastTerm_eq] at hu
  have hb := Except.ok.inj hu
  simpa [h.lastIndex_eq] using hb

section

variable [Raftpb]

/-- What is read from storage is a part of the log, all of it unless the limit was reached. -/
theorem sliceStable_spec {lo hi maxSize : Nat} {stored : List Entry} {reached : Bool}
    (hlo : 1≤lo) (hs : l.sliceStable lo hi maxSize=.ok (.ok (stored,reached))) :
    stored<+:(l.all.drop (lo-1)).take (min hi l.unstable.offset-lo) ∧
      (reached=false → stored=(l.all.drop (lo-1)).take (min hi l.unstable.offset-lo)) ∧
      (maxSize=noLimit → reached=false) := by
  unfold sliceStable at hs
  split at hs
  · rename_i hlt
    have hpos := h.pos
    have hd : (l.storage.ents.drop (lo-0)).take (min hi l.unstable.offset-lo)=
        (l.all.drop (lo-1)).take (min hi l.unstable.offset-lo) := by
      obtain ⟨k,rfl⟩ : ∃ k, lo=k+1 := ⟨lo-1,by omega⟩
      rw [l.storage.ents_eq,all,List.drop_append_of_le_length (by rw [h.length_stable]; omega),
        List.take_append_of_le_length (by rw [List.length_drop,h.length_stable]; omega),
        List.drop_take,List.take_take,
        show min (min hi l.unstable.offset-(k+1)) (l.unstable.offset-1-(k+1-1))=
          min hi l.unstable.offset-(k+1) by omega]
      rfl
    dsimp only at hs
    split at hs <;> cases hs
    rename_i hents
    unfold MemoryStorage.entries at hents
    rw [h.storage.index,if_neg (by omega)] at hents
    split at hents
    · cases hents
    split at hents
    · cases hents
    split at hents
    · cases hents
    cases hents
    rw [hd]
    have hpre := limitSize_isPrefix ((l.all.drop (lo-1)).take (min hi l.unstable.offset-lo)) maxSize
    refine ⟨hpre,fun hr => hpre.eq_of_length_le ?_,?_⟩
    · have hlen := decide_eq_false_iff_not.mp hr
      rw [List.length_take]
      omega
    · rintro rfl
      have hlen := h.length_all
      rw [limitSize_noLimit,List.length_take,List.length_drop,decide_eq_false_iff_not]
      omega
  · cases hs
    rw [show min hi l.unstable.offset-lo=0 by omega]
    exact ⟨List.nil_prefix,fun _ => rfl,fun _ => rfl⟩

omit [Raftpb] in
theorem unstable_slice_eq {lo hi : Nat} {es : List Entry} (hs : l.unstable.slice lo hi=.ok es) :
    es=(l.all.drop (lo-1)).take (hi-lo) := by
  have hpos := h.pos
  obtain ⟨_,hc,hs⟩ := bind_eq_ok.mp hs
  unfold Unstable.mustCheckOutOfBounds at hc
  split at hc
  · cases hc
  split at hc
  · cases hc
  cases hs
  rw [h.drop_all (by omega)]
  congr 2
  omega

/-- A slice is a part of the log, all of it where there is no limit. -/
theorem slice_spec {lo hi maxSize : Nat} {ents : List Entry}
    (hs : l.slice lo hi maxSize=.ok (.ok ents)) :
    1≤lo ∧ hi≤l.all.length+1 ∧ ents<+:(l.all.drop (lo-1)).take (hi-lo) ∧
      (maxSize=noLimit → ents=(l.all.drop (lo-1)).take (hi-lo)) := by
  obtain ⟨chk,hchk,hs⟩ := bind_eq_ok.mp hs
  unfold mustCheckOutOfBounds at hchk
  rw [h.firstIndex_eq,h.lastIndex_eq] at hchk
  split at hchk
  · cases hchk
  dsimp only at hchk
  split at hchk
  · cases hchk
    cases hs
  split at hchk
  · cases hchk
  cases hchk
  refine ⟨by omega,by omega,?_⟩
  dsimp only at hs
  split at hs
  · rename_i heq
    cases hs
    rw [heq,Nat.sub_self,List.take_zero]
    exact ⟨List.nil_prefix,fun _ => rfl⟩
  obtain ⟨res,hst,hs⟩ := bind_eq_ok.mp hs
  cases res with
  | error e => cases hs
  | ok res =>
    obtain ⟨stored,reached⟩ := res
    obtain ⟨hpre,hall,hfull⟩ := h.sliceStable_spec (by omega) hst
    have hcut : stored<+:(l.all.drop (lo-1)).take (hi-lo) :=
      hpre.trans (List.take_prefix_take_left (by omega))
    dsimp only at hs
    split at hs
    · rename_i hr
      cases hs
      exact ⟨hcut,fun hn => absurd (hfull hn) (by simp [hr])⟩
    · rename_i hr
      have hall := hall (Bool.eq_false_iff.mpr hr)
      split at hs
      · rename_i hoff
        obtain ⟨us,hus,hs⟩ := bind_eq_ok.mp hs
        cases hs
        have hadd : hi-lo=(min hi l.unstable.offset-lo)+(hi-max lo l.unstable.offset) := by omega
        have hjoin : stored++us=(l.all.drop (lo-1)).take (hi-lo) := by
          rw [hall,h.unstable_slice_eq hus,hadd,List.take_add,List.drop_drop,
            show lo-1+(min hi l.unstable.offset-lo)=max lo l.unstable.offset-1 by omega]
        rw [hjoin]
        refine ⟨limitSize_isPrefix _ _,?_⟩
        rintro rfl
        exact limitSize_noLimit _
      · rename_i hoff
        cases hs
        refine ⟨(limitSize_isPrefix _ _).trans hcut,?_⟩
        rintro rfl
        rw [limitSize_noLimit,hall,show min hi l.unstable.offset=hi by omega]

theorem entries_isPrefix {i maxSize : Nat} {ents : List Entry}
    (he : l.entries i maxSize=.ok (.ok ents)) : 1 ≤ i ∧ ents<+:l.all.drop (i-1) := by
  unfold entries at he
  split at he
  · rename_i hlt
    cases he
    exact ⟨by omega,List.nil_prefix⟩
  · obtain ⟨h1,_,hpre,_⟩ := h.slice_spec he
    exact ⟨h1,hpre.trans (List.take_prefix _ _)⟩

end

omit h in
theorem numbered_take_append {es : List Entry} {p : Nat} (h : Numbered 0 l.all)
    (hn : Numbered p es) (hp : p≤l.all.length) : Numbered 0 (l.all.take p++es) := by
  refine (h.take p).append ?_
  rwa [List.length_take,Nat.min_eq_left hp,Nat.zero_add]

/-- The unstable log after truncateAndAppend, whichever of its three cases applies. -/
theorem truncateAndAppend_all {e : Entry} {es : List Entry} {u : Unstable} {p : Nat}
    (hi : e.index=p+1) (hp : p≤l.all.length) (hu : l.unstable.truncateAndAppend e es=.ok u) :
    u.snapshot=none ∧ 1≤u.offset ∧ u.offset≤l.unstable.offset ∧ u.entries≠[] ∧
      l.storage.stored.take (u.offset-1)++u.entries=l.all.take p++e::es := by
  have hpos := h.pos
  have hlen := h.length_all
  unfold Unstable.truncateAndAppend at hu
  dsimp only at hu
  split at hu
  · cases hu
    refine ⟨h.snapshot,hpos,le_rfl,by simp,?_⟩
    have hall : l.all.take p=l.all := List.take_of_length_le (by omega)
    rw [hall,all,List.append_assoc]
  split at hu
  · cases hu
    refine ⟨h.snapshot,by dsimp only; omega,by assumption,by simp,?_⟩
    rw [h.take_all (by omega)]
    dsimp only
    rw [hi,Nat.add_sub_cancel]
  · obtain ⟨kept,hk,hu⟩ := bind_eq_ok.mp hu
    cases hu
    refine ⟨h.snapshot,hpos,le_rfl,by simp,?_⟩
    dsimp only
    rw [h.unstable_slice_eq hk,← List.append_assoc]
    congr 1
    rw [show p=l.unstable.offset-1+(e.index-l.unstable.offset) by omega,List.take_add]
    congr 1
    rw [all,List.take_left' h.length_stable]

theorem append {ents : List Entry} {p : Nat} (ha : l.append ents=.ok l') (hn : Numbered p ents)
    (hp : p≤l.all.length) (hnil : ents=[] → p=l.all.length) :
    l'.Whole ∧ l'.all=l.all.take p++ents ∧ l'.unstable.offset≤l.unstable.offset ∧
      (l.unstable.entries≠[] → l'.unstable.entries≠[]) := by
  unfold RaftLog.append at ha
  cases ents with
  | nil =>
    cases ha
    refine ⟨h,?_,le_rfl,id⟩
    rw [List.append_nil,hnil rfl,List.take_length]
  | cons e es =>
    dsimp only at ha
    split at ha
    · cases ha
    obtain ⟨u,hu,ha⟩ := bind_eq_ok.mp ha
    cases ha
    obtain ⟨hs,h1,h2,hne,hall⟩ := h.truncateAndAppend_all hn.head hp hu
    refine ⟨⟨h.storage,hs,h1,h2.trans h.offset,fun he => absurd he hne,?_⟩,hall,h2,fun _ => hne⟩
    change Numbered 0 (_++_)
    rw [hall]
    exact numbered_take_append h.numbered hn hp

/-- append does not panic on entries that start behind the commit index and leave no gap. -/
theorem append_ok {e : Entry} {es : List Entry} {p : Nat} (hi : e.index=p+1)
    (hp : p≤l.all.length) (hc : l.committed≤p) : ∃ l', l.append (e::es)=.ok l' := by
  have hpos := h.pos
  have hlen := h.length_all
  have hu : ∃ u, l.unstable.truncateAndAppend e es=.ok u := by
    unfold Unstable.truncateAndAppend
    dsimp only
    split
    · exact ⟨_,rfl⟩
    split
    · exact ⟨_,rfl⟩
    · simp only [Unstable.slice,Unstable.mustCheckOutOfBounds]
      rw [if_neg (by omega),if_neg (by omega)]
      exact ⟨_,rfl⟩
  obtain ⟨u,hu⟩ := hu
  unfold RaftLog.append
  dsimp only
  rw [hi,usub_of_le (by omega),Nat.add_sub_cancel,if_neg (by omega),hu]
  exact ⟨_,rfl⟩

/-- Confirming the stored entries moves the offset but not the log, when storage and
log agree as far as the confirmed entry is still in the log. -/
theorem stableTo {i t : Nat} (hi : l.storage.stored.length=i)
    (hc : 0 < i → i≤l.all.length → termAt l.all i=t → Covers i l.storage.stored l.all) :
    (l.stableTo i t).Whole ∧ (l.stableTo i t).all=l.all := by
  have hpos := h.pos
  unfold RaftLog.stableTo Unstable.stableTo
  split
  · exact ⟨h.congr rfl rfl,rfl⟩
  rename_i gt hgt
  split_ifs with hcond
  · obtain ⟨rfl,hoff⟩ := hcond
    have hle : i≤l.all.length := by
      unfold Unstable.maybeTerm Unstable.maybeLastIndex at hgt
      rw [if_neg (by omega)] at hgt
      have := h.length_all
      split at hgt
      · cases hgt
      · rename_i last hlast
        split at hgt
        · cases hgt
        · split at hlast
          · cases hlast
            omega
          · rw [h.snapshot] at hlast
            cases hlast
    have ht := (h.maybeTerm_eq hoff hle).symm.trans hgt
    have hcov := hc (by omega) hle (Option.some.inj ht)
    have hall : l.storage.stored.take (i+1-1)++l.unstable.entries.drop (i+1-l.unstable.offset)=
        l.all := by
      rw [Nat.add_sub_cancel,hcov.2]
      conv_rhs => rw [← List.take_append_drop i l.all]
      rw [h.drop_all (by omega)]
    refine ⟨⟨h.storage,h.snapshot,Nat.le_add_left _ _,?_,?_,?_⟩,hall⟩
    · exact (Nat.add_le_add_right hi.ge 1)
    · exact fun _ => congrArg (·+1) hi.symm
    · change Numbered 0 (_++_)
      rw [hall]
      exact h.numbered
  · exact ⟨h.congr rfl rfl,rfl⟩

/-- Writing entries to storage behind the offset does not change the log. -/
theorem setStorage {ms : MemoryStorage} {e : Entry} {es : List Entry} {p : Nat}
    (hn : Numbered p (e::es)) (hp : p≤l.storage.stored.length) (hoff : l.unstable.offset≤p+1)
    (hne : l.unstable.entries≠[]) (ha : l.storage.append (e::es)=.ok ms) :
    ({ l with storage := ms } : RaftLog).Whole ∧ ({ l with storage := ms } : RaftLog).all=l.all := by
  obtain ⟨hw,hs⟩ := h.storage.append hn hp ha
  have hall : ({ l with storage := ms } : RaftLog).all=l.all := by
    unfold all
    dsimp only
    rw [hs,List.take_append_of_le_length (by rw [List.length_take]; omega),List.take_take,
      Nat.min_eq_left (by omega)]
  refine ⟨⟨hw,h.snapshot,h.pos,?_,fun he => absurd he hne,hall ▸ h.numbered⟩,hall⟩
  change l.unstable.offset ≤ ms.stored.length+1
  rw [hs,List.length_append,List.length_take]
  omega

end Whole

theorem newLogWithSize_whole {ms : MemoryStorage} (h : ms.Whole) (n : Nat) :
    (newLogWithSize ms n).Whole ∧ (newLogWithSize ms n).all=ms.stored := by
  have hlast := h.lastIndex_eq
  have hall : (newLogWithSize ms n).all=ms.stored := by
    simp [all,newLogWithSize,hlast]
  refine ⟨⟨h,rfl,Nat.le_add_left _ _,?_,?_,hall ▸ h.numbered⟩,hall⟩
  · exact Nat.add_le_add_right hlast.le 1
  · exact fun _ => congrArg (·+1) hlast

end RaftLog

end RaftTesting
