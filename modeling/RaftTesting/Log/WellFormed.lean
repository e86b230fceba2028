import RaftTesting.Log.View
import RaftTesting.Protocol.Wire

namespace RaftTesting

namespace LogView

/-- The entries from lo up to hi, hi itself left out. -/
def between (v : LogView) (lo hi : Nat) : List Entry :=
  (v.entries.drop (lo-v.index-1)).take (hi-lo)

/-- The log has an entry with the index and term of e. -/
def has (v : LogView) (e : Entry) : Bool := (v.entryAt e.index).any (fun e' => e'.term=e.term)

variable {v : LogView} {e : Entry}

theorem has_iff : v.has e=true ↔ ∃ e', v.entryAt e.index=some e' ∧ e'.term=e.term := by
  unfold has
  rw [Option.any_eq_true]
  simp only [decide_eq_true_eq]

/-- Behind the dummy an entry is recognized by its term, unless that is 0. -/
theorem termAt_eq_iff (hi : v.index<e.index) (ht : 1≤e.term) :
    v.termAt e.index=e.term ↔ v.has e=true := by
  rw [has_iff]
  unfold termAt
  rw [if_neg (by omega)]
  cases v.entryAt e.index with
  | none =>
    simp only [Option.elim_none,reduceCtorEq,false_and,exists_false,iff_false]
    omega
  | some e' => simp

end LogView

section

variable [Raftpb]

/-- The encoded size of a list of entries. -/
def encodedSize (es : List Entry) : Nat := (es.map Raftpb.size).sum

/-- The longest part of es from its start on that keeps within maxSize, but at least one
entry. -/
structure Longest (maxSize : Nat) (es ents : List Entry) : Prop where
  start : ents<+:es
  one : es≠[] → ents≠[]
  within : ents.length≤1 ∨ encodedSize ents ≤ maxSize
  longest : ∀ ents', ents'<+:es → encodedSize ents' ≤ maxSize → ents'.length≤ents.length

/-- The loop stops where the total first exceeds the limit. -/
theorem limitLoop_spec (maxSize : Nat) (es : List Entry) (size : Nat)
    (hsize : size+encodedSize es<2^64) :
    (limitLoop maxSize size es=[] ∨ size+encodedSize (limitLoop maxSize size es) ≤ maxSize) ∧
    ∀ ents', ents'<+:es → size+encodedSize ents' ≤ maxSize →
      ents'.length≤(limitLoop maxSize size es).length := by
  induction es generalizing size with
  | nil =>
    refine ⟨.inl rfl,fun ents' h _ => ?_⟩
    rw [List.prefix_nil.mp h]
    exact Nat.zero_le _
  | cons e es ih =>
    have hcons : ∀ l : List Entry, encodedSize (e::l)=Raftpb.size e+encodedSize l := fun l => rfl
    rw [hcons] at hsize
    obtain ⟨hwithin,hlongest⟩ := ih (size+Raftpb.size e) (by omega)
    have hmod : (size+Raftpb.size e)%2^64=size+Raftpb.size e := Nat.mod_eq_of_lt (by omega)
    simp only [limitLoop,hmod]
    split_ifs with hs
    · refine ⟨.inl rfl,fun ents' h hle => ?_⟩
      cases ents' with
      | nil => exact le_rfl
      | cons e' es' =>
        obtain ⟨rfl,-⟩ := List.cons_prefix_cons.mp h
        have : encodedSize (e'::es')=Raftpb.size e'+encodedSize es' := rfl
        omega
    · refine ⟨.inr ?_,fun ents' h hle => ?_⟩
      · rcases hwithin with hnil | hle
        · rw [hnil]
          change size+(Raftpb.size e+0) ≤ maxSize
          omega
        · rw [hcons]
          omega
      · cases ents' with
        | nil => exact Nat.zero_le _
        | cons e' es' =>
          obtain ⟨rfl,htail⟩ := List.cons_prefix_cons.mp h
          rw [hcons] at hle
          have := hlongest es' htail (by omega)
          rw [List.length_cons,List.length_cons]
          omega

/-- The total of all the entries does not overflow uint64. -/
theorem limitSize_longest {es : List Entry} (maxSize : Nat) (hsize : encodedSize es<2^64) :
    Longest maxSize es (limitSize es maxSize) := by
  cases es with
  | nil => exact ⟨List.prefix_rfl,fun h => h,.inl (Nat.zero_le _),fun _ h _ => h.length_le⟩
  | cons e es =>
    have hspec := limitLoop_spec maxSize es (Raftpb.size e) hsize
    refine ⟨limitSize_isPrefix _ _,fun _ => List.cons_ne_nil _ _,?_,fun ents' h hle => ?_⟩
    · rcases hspec.1 with hnil | hle
      · refine .inl ?_
        change (e::limitLoop maxSize (Raftpb.size e) es).length≤1
        rw [hnil]
        exact le_rfl
      · exact .inr hle
    · cases ents' with
      | nil => exact Nat.zero_le _
      | cons e' es' =>
        obtain ⟨rfl,htail⟩ := List.cons_prefix_cons.mp h
        exact Nat.succ_le_succ (hspec.2 es' htail hle)

end

namespace RaftLog

/-- Consecutive entries, divided in any way into storage, unstable entries and a pending
snapshot, and a commit index within the log. -/
structure WellFormed (l : RaftLog) : Prop where
  readable : l.Readable
  stored : Numbered l.storage.dummy.index l.storage.stored
  unstable : Numbered (l.unstable.offset-1) l.unstable.entries
  low : l.view.index≤l.committed
  high : l.committed≤l.lastIndex

namespace WellFormed

variable {l : RaftLog} (h : l.WellFormed)
include h

/-- Reading the log does not depend on where its entries are stored. -/
theorem slice_between [Raftpb] (maxSize : Nat) :
    (∀ lo hi, l.firstIndex≤lo → lo≤hi → hi≤l.lastIndex+1 →
      l.slice lo hi maxSize=.ok (.ok (limitSize (l.view.between lo hi) maxSize)) ∧
      (l.view.between lo hi).length=hi-lo ∧
      (∀ i, lo ≤ i → i<hi → (l.view.between lo hi)[i-lo]?=l.view.entryAt i) ∧
      (encodedSize (l.view.between lo hi)<2^64 →
        Longest maxSize (l.view.between lo hi) (limitSize (l.view.between lo hi) maxSize))) ∧
    ∀ lo hi, lo<l.firstIndex → lo≤hi → l.slice lo hi maxSize=.ok (.error .errCompacted) := by
  refine ⟨fun lo hi hlo hle hhi => ?_,fun lo hi hlo hle => ?_⟩
  · rw [firstIndex_eq_view] at hlo
    refine ⟨h.readable.slice_eq maxSize hlo hle hhi,h.readable.view_length hlo hle hhi,
      fun i hi hlt => ?_,limitSize_longest maxSize⟩
    unfold LogView.between
    rw [LogView.entryAt_of_lt (by omega),List.getElem?_take_of_lt (by omega),List.getElem?_drop]
    congr 1
    omega
  · unfold RaftLog.slice mustCheckOutOfBounds
    rw [if_neg (Nat.not_lt.mpr hle)]
    dsimp only
    rw [if_pos hlo]
    rfl

/-- Entries that follow on an entry of the log, from the commit index on, can be appended. -/
theorem append_ok {q : Nat} {ents : List Entry} (hn : Numbered q ents) (hc : l.committed≤q)
    (hq : q≤l.lastIndex) : ∃ l', l.append ents=.ok l' ∧ l'.WellFormed ∧
      l'={ l with unstable := l'.unstable } ∧ l'.view=l.view.put ents := by
  cases ents with
  | nil => exact ⟨l,rfl,h,rfl,rfl⟩
  | cons e es =>
    have hi : e.index=q+1 := hn.head
    have hpos := h.readable.pos
    have hlow := h.low
    have hroom : q+1≤l.unstable.offset+l.unstable.entries.length := by
      by_cases hnil : l.unstable.entries=[]
      · have := h.readable.beyond hnil
        omega
      · rw [lastIndex_of_entries hnil] at hq
        omega
    obtain ⟨u,hu⟩ : ∃ u, l.unstable.truncateAndAppend e es=.ok u :=
      Unstable.truncateAndAppend_ok hi hroom
    have happ : l.append (e::es)=.ok { l with unstable := u } := by
      unfold append
      dsimp only
      rw [hi,usub_of_le (by omega),if_neg (by omega),hu]
      rfl
    obtain ⟨u',heq,-,-,hsnap,hoff,hun,hlen,hbelow,-⟩ :=
      append_cases h.unstable hpos hn (List.cons_ne_nil _ _) happ
    obtain rfl : u=u' := congrArg RaftLog.unstable heq
    have hlast := append_lastIndex hn (List.cons_ne_nil _ _) happ
    have hne : u.entries≠[] := by
      intro hnil
      rw [hnil,List.length_nil,List.length_cons] at hlen
      omega
    have hread : Readable { l with unstable := u } := by
      refine ⟨?_,fun s hs => ?_,fun hs _ => ?_,fun hnil => absurd hnil hne,fun hs ho => ?_⟩
      · change 1≤u.offset
        omega
      · change u.snapshot=some s at hs
        change s.index<u.offset ∧ (_ → u.offset=s.index+1)
        rw [hsnap] at hs
        have hlt := (h.readable.snap s hs).1
        rw [view_of_snapshot hs] at hlow
        dsimp only at hlow
        refine ⟨by omega,fun _ => ?_⟩
        by_cases hnil : l.unstable.entries=[]
        · rw [lastIndex_of_snapshot hnil hs] at hq
          omega
        · have := (h.readable.snap s hs).2 hnil
          omega
      · change u.snapshot=none at hs
        change u.offset≤l.storage.lastIndex+1
        rw [hsnap] at hs
        by_cases hnil : l.unstable.entries=[]
        · rw [lastIndex_of_stable hnil hs] at hq
          omega
        · have := h.readable.stable hs hnil
          omega
      · change u.snapshot=none at hs
        change u.offset≤l.storage.dummy.index at ho
        change (u.entryAt l.storage.dummy.index).map Entry.term=_
        rw [hsnap] at hs
        rw [view_of_stable hs] at hlow
        dsimp only at hlow
        rw [hbelow _ (by omega)]
        exact h.readable.dummy hs (by omega)
    have hview := h.readable.append_view hread h.unstable hlow hn hq happ
    refine ⟨_,happ,⟨hread,h.stored,hun,?_,?_⟩,rfl,hview⟩
    · rw [hview]
      exact hlow
    · rw [hlast]
      exact hc.trans (Nat.le_add_right _ _)

/-- findConflict finds the first entry that the log does not have. -/
theorem findConflict_has {p : Nat} {ents : List Entry} (hp : l.view.index≤p)
    (hn : Numbered p ents) (hterms : ∀ e ∈ ents, 1≤e.term) :
    (l.findConflict ents=0 ∧ ∀ e ∈ ents, l.view.has e=true) ∨
    ∃ j<ents.length, l.findConflict ents=p+j+1 ∧ (∀ e ∈ ents.take j, l.view.has e=true) ∧
      ∀ e, ents[j]?=some e → l.view.has e=false := by
  induction ents generalizing p with
  | nil => exact .inl ⟨rfl,by simp⟩
  | cons e es ih =>
    have hi : e.index=p+1 := hn.head
    have hmatch : l.matchTerm e.index e.term=l.view.has e := by
      unfold matchTerm
      rw [h.readable.term_eq,Bool.eq_iff_iff,decide_eq_true_eq]
      exact LogView.termAt_eq_iff (by omega) (hterms e List.mem_cons_self)
    unfold findConflict
    rw [hmatch]
    cases hhas : l.view.has e with
    | false => exact .inr ⟨0,by simp,hi,by simp,fun e' he' => Option.some.inj he' ▸ hhas⟩
    | true =>
      rw [if_pos rfl]
      rcases ih (by omega) hn.tail (fun e' he' => hterms e' (List.mem_cons_of_mem _ he')) with
        ⟨hz,hall⟩ | ⟨j,hj,hc,hbefore,hat⟩
      · exact .inl ⟨hz,List.forall_mem_cons.mpr ⟨hhas,hall⟩⟩
      · refine .inr ⟨j+1,by simpa using hj,by omega,?_,hat⟩
        rw [List.take_succ_cons]
        exact List.forall_mem_cons.mpr ⟨hhas,hbefore⟩

/-- Once the entries are in the log, nothing is appended. -/
theorem appendFrom_same {index : Nat} {ents : List Entry} (hp : l.view.index ≤ index)
    (hn : Numbered index ents) (hterms : ∀ e ∈ ents, 1≤e.term)
    (hall : ∀ e ∈ ents, l.view.has e=true) :
    l.appendFrom index (l.findConflict ents) ents=.ok l := by
  rcases h.findConflict_has hp hn hterms with ⟨hz,-⟩ | ⟨j,hj,-,-,hat⟩
  · rw [hz]
    rfl
  · have hfalse := hat _ (List.getElem?_eq_getElem hj)
    rw [hall _ (List.getElem_mem hj)] at hfalse
    cases hfalse

/-- Committing leaves a well-formed log well-formed. -/
theorem commitTo (n : Nat) : (l.commitTo n).1.WellFormed := by
  have hview : (l.commitTo n).1.view=l.view := by
    rw [commitTo_fst]
    rfl
  have hlast : (l.commitTo n).1.lastIndex=l.lastIndex := by
    rw [commitTo_fst]
    rfl
  refine ⟨?_,?_,?_,?_,?_⟩
  · rw [commitTo_fst]
    exact ⟨h.readable.pos,h.readable.snap,h.readable.stable,h.readable.beyond,h.readable.dummy⟩
  · rw [commitTo_storage]
    exact h.stored
  · rw [commitTo_unstable]
    exact h.unstable
  · rw [hview]
    exact h.low.trans (committed_le_commitTo l n)
  · rw [hlast,commitTo_fst]
    have := h.high
    dsimp only
    split_ifs <;> omega

/-- The log after entries have been put behind those that it has: it has all of them, and
what stands before them is as it was. -/
theorem put_has {index j : Nat} {ents : List Entry} (hp : l.view.index ≤ index) (hj : j<ents.length)
    (hq : index+j≤l.lastIndex) (hn : Numbered index ents)
    (hbefore : ∀ e ∈ ents.take j, l.view.has e=true) :
    (l.view.put (ents.drop j)).termAt index=l.view.termAt index ∧
      ∀ e ∈ ents, (l.view.put (ents.drop j)).has e=true := by
  have hne : ents.drop j≠[] := by
    intro hnil
    rw [List.drop_eq_nil_iff] at hnil
    omega
  rw [h.readable.lastIndex_eq] at hq
  obtain ⟨hi,ht,-,hlow,hhigh⟩ := LogView.put_spec (hn.drop j) hne (by omega) hq
  refine ⟨?_,fun e he => ?_⟩
  · unfold LogView.termAt
    rw [hi,ht,hlow index (by omega)]
  · obtain ⟨k,hk⟩ := List.mem_iff_getElem?.mp he
    have hindex := hn k e hk
    rw [LogView.has_iff]
    by_cases hkj : k<j
    · rw [hlow e.index (by omega)]
      refine LogView.has_iff.mp (hbefore e (List.mem_iff_getElem?.mpr ⟨k,?_⟩))
      rwa [List.getElem?_take_of_lt hkj]
    · refine ⟨e,?_,rfl⟩
      rw [hhigh e.index (by omega),List.getElem?_drop,← hk]
      congr 1
      omega

/-- The entries that the log has end within it. -/
theorem reach {index j : Nat} {ents : List Entry} (hn : Numbered index ents)
    (hlast : index≤l.lastIndex) (hj : j≤ents.length)
    (hbefore : ∀ e ∈ ents.take j, l.view.has e=true) : index+j≤l.lastIndex := by
  cases j with
  | zero => exact hlast
  | succ j =>
    have hmem : ents[j] ∈ ents.take (j+1) := by
      refine List.mem_iff_getElem?.mpr ⟨j,?_⟩
      rw [List.getElem?_take_of_lt (by omega),List.getElem?_eq_getElem]
    obtain ⟨e',he',-⟩ := LogView.has_iff.mp (hbefore _ hmem)
    have hle := (LogView.entryAt_isSome.mp (by rw [he']; rfl)).2
    have hi := hn j _ (List.getElem?_eq_getElem (by omega))
    rw [h.readable.lastIndex_eq]
    omega

theorem matchTerm_eq {index logTerm : Nat} (ht : l.view.termAt index=logTerm) :
    l.matchTerm index logTerm=true := by
  unfold matchTerm
  rw [h.readable.term_eq]
  exact decide_eq_true ht

/-- Once the log has the entries, maybeAppend only commits. -/
theorem maybeAppend_has {index logTerm : Nat} {ents : List Entry} (c : Nat)
    (hp : l.view.index ≤ index) (hterm : l.view.termAt index=logTerm) (hn : Numbered index ents)
    (hterms : ∀ e ∈ ents, 1≤e.term) (hall : ∀ e ∈ ents, l.view.has e=true) :
    l.maybeAppend index logTerm c ents=
      .ok ((l.commitTo (min c (index+ents.length))).1,some (index+ents.length)) := by
  unfold RaftLog.maybeAppend
  rw [if_pos (h.matchTerm_eq hterm),h.appendFrom_same hp hn hterms hall]
  rfl

/-- The part of maybeAppend behind the append: what is in the log is committed, and the same
message a second time changes nothing. -/
theorem commitTo_again {index logTerm : Nat} {ents : List Entry} (c : Nat)
    (hp : l.view.index ≤ index) (hterm : l.view.termAt index=logTerm) (hn : Numbered index ents)
    (hterms : ∀ e ∈ ents, 1≤e.term) (hall : ∀ e ∈ ents, l.view.has e=true)
    (hend : index+ents.length≤l.lastIndex) :
    (l.commitTo (min c (index+ents.length))).1.committed=
      max l.committed (min c (index+ents.length)) ∧
    (l.commitTo (min c (index+ents.length))).1.maybeAppend index logTerm c ents=
      .ok ((l.commitTo (min c (index+ents.length))).1,some (index+ents.length)) := by
  have hc : (l.commitTo (min c (index+ents.length))).1.committed=
      max l.committed (min c (index+ents.length)) := by
    rw [commitTo_fst]
    dsimp only
    split_ifs <;> omega
  have hview : (l.commitTo (min c (index+ents.length))).1.view=l.view := by
    rw [commitTo_fst]
    rfl
  refine ⟨hc,?_⟩
  rw [(h.commitTo _).maybeAppend_has c (hview ▸ hp) (hview ▸ hterm) hn hterms (hview ▸ hall)]
  congr 2
  rw [commitTo_fst (l.commitTo _).1,if_neg (by omega)]

/-- The entries from the first one on that the log does not have replace what it has from
there on. -/
theorem appendFrom_put {index j : Nat} {ents : List Entry} (hindex : l.committed ≤ index)
    (hlast : index≤l.lastIndex) (hn : Numbered index ents) (hj : j<ents.length)
    (hconf : l.findConflict ents=index+j+1) (hbefore : ∀ e ∈ ents.take j, l.view.has e=true) :
    ∃ l1, l.appendFrom index (l.findConflict ents) ents=.ok l1 ∧ l1.WellFormed ∧
      l1.committed=l.committed ∧ l1.lastIndex=index+ents.length ∧
      l1.view=l.view.put (ents.drop j) := by
  have hne : ents.drop j≠[] := by
    intro hnil
    rw [List.drop_eq_nil_iff] at hnil
    omega
  obtain ⟨l1,happ,h1,heq,hview⟩ :=
    h.append_ok (hn.drop j) (by omega) (h.reach hn hlast hj.le hbefore)
  refine ⟨l1,?_,h1,by rw [heq],?_,hview⟩
  · have hskip : usub (index+j+1) (index+1)=j := by
      rw [usub_of_le (by omega)]
      omega
    unfold appendFrom
    rw [hconf,if_neg (by omega),if_neg (by omega),hskip,if_neg (by omega)]
    exact happ
  · rw [append_lastIndex (hn.drop j) hne happ,List.length_drop]
    omega

omit h in
/-- There is only one first entry that a log does not have. -/
theorem first_unique {v : LogView} {j k : Nat} {e e' : Entry} {ents : List Entry}
    (he : ents[j]?=some e) (hbefore : ∀ e ∈ ents.take j, v.has e=true) (hnot : v.has e=false)
    (he' : ents[k]?=some e') (hbefore' : ∀ e ∈ ents.take k, v.has e=true)
    (hnot' : v.has e'=false) : j=k := by
  have hless : ∀ {j k : Nat} {e : Entry}, ents[j]?=some e → v.has e=false →
      (∀ e ∈ ents.take k, v.has e=true) → k≤j := by
    intro j k e he hnot hb
    by_contra hlt
    have hmem : e ∈ ents.take k := List.mem_iff_getElem?.mpr
      ⟨j,by rwa [List.getElem?_take_of_lt (by omega)]⟩
    rw [hb e hmem] at hnot
    cases hnot
  exact Nat.le_antisymm (hless he' hnot' hbefore) (hless he hnot hbefore')

/-- maybeAppend is the append rule: what the log has already stays as it is, with all that
follows on it; from the first entry on that it does not have, the entries replace the rest.
The same message a second time changes nothing. -/
theorem maybeAppend_rule {index logTerm : Nat} {ents : List Entry} (c : Nat)
    (hindex : l.committed ≤ index) (hlast : index≤l.lastIndex) (hterm : l.view.termAt index=logTerm)
    (hn : Numbered index ents) (hterms : ∀ e ∈ ents, 1≤e.term) : ∃ l',
      l.maybeAppend index logTerm c ents=.ok (l',some (index+ents.length)) ∧ l'.WellFormed ∧
      l'.committed=max l.committed (min c (index+ents.length)) ∧
      ((∀ e ∈ ents, l.view.has e=true) → l'={ l with committed := l'.committed }) ∧
      (∀ j e, ents[j]?=some e → (∀ e' ∈ ents.take j, l.view.has e'=true) → l.view.has e=false →
        l'.view={ l.view with
          entries := l.view.entries.take (index+j-l.view.index)++ents.drop j }) ∧
      l'.maybeAppend index logTerm c ents=.ok (l',some (index+ents.length)) := by
  have hp : l.view.index ≤ index := h.low.trans hindex
  rcases h.findConflict_has hp hn hterms with ⟨-,hall⟩ | ⟨j,hj,hconf,hbefore,hat⟩
  · have hend : index+ents.length≤l.lastIndex :=
      h.reach hn hlast le_rfl (fun e he => hall e (List.mem_of_mem_take he))
    obtain ⟨hc,hagain⟩ := h.commitTo_again c hp hterm hn hterms hall hend
    refine ⟨_,h.maybeAppend_has c hp hterm hn hterms hall,h.commitTo _,hc,fun _ => ?_,
      fun j e he _ hnot => ?_,hagain⟩
    · rw [commitTo_fst]
    · rw [hall e (List.mem_of_getElem? he)] at hnot
      cases hnot
  · obtain ⟨l1,hfrom,h1,hcommitted,hend,hview⟩ :=
      h.appendFrom_put hindex hlast hn hj hconf hbefore
    obtain ⟨ht,hall⟩ := h.put_has hp hj (h.reach hn hlast hj.le hbefore) hn hbefore
    rw [← hview] at ht hall
    have hput : ∀ k, k=j → l1.view={ l.view with
        entries := l.view.entries.take (index+k-l.view.index)++ents.drop k } := by
      rintro k rfl
      have hi := hn k _ (List.getElem?_eq_getElem hj)
      rw [hview,List.drop_eq_getElem_cons hj]
      unfold LogView.put
      dsimp only
      congr 3
      omega
    have hbase : l1.view.index=l.view.index := by rw [hput j rfl]
    obtain ⟨hc,hagain⟩ :=
      h1.commitTo_again c (hbase ▸ hp) (ht.trans hterm) hn hterms hall hend.ge
    refine ⟨_,?_,h1.commitTo _,hc.trans (by rw [hcommitted]),fun hhas => ?_,
      fun k e he hb hnot => ?_,hagain⟩
    · unfold RaftLog.maybeAppend
      rw [if_pos (h.matchTerm_eq hterm),hfrom]
      rfl
    · have hfalse := hat _ (List.getElem?_eq_getElem hj)
      rw [hhas _ (List.getElem_mem hj)] at hfalse
      cases hfalse
    · have hfirst := List.getElem?_eq_getElem hj
      rw [commitTo_fst]
      exact hput k (first_unique he hb hnot hfirst hbefore (hat _ hfirst))

end WellFormed

/-- A log whose unstable entries replace the last stored one. -/
def overlapped : RaftLog where
  storage := ⟨{},{},[⟨1,1,.entryNormal,[]⟩,⟨1,2,.entryNormal,[]⟩,⟨2,3,.entryNormal,[]⟩],by simp⟩
  unstable := ⟨none,[⟨3,3,.entryNormal,[]⟩,⟨3,4,.entryNormal,[]⟩],3⟩
  committed := 2
  applied := 1
  maxNextEntsSize := 0

theorem overlapped_wellFormed : overlapped.WellFormed :=
  ⟨⟨by decide,nofun,by decide,nofun,by decide⟩,by decide,by decide,by decide,by decide⟩

section

local instance wellFormedWire : Raftpb := Wire.small

theorem slice_overlapped :
    overlapped.slice 2 5 17=.ok (.ok [⟨1,2,.entryNormal,[]⟩,⟨3,3,.entryNormal,[]⟩]) ∧
    Longest 17 (overlapped.view.between 2 5) [⟨1,2,.entryNormal,[]⟩,⟨3,3,.entryNormal,[]⟩] ∧
    overlapped.slice 1 5 0=.ok (.error .errCompacted) := by
  obtain ⟨hslice,-,-,hlongest⟩ :=
    (overlapped_wellFormed.slice_between 17).1 2 5 (by decide) (by decide) (by decide)
  have hsize : encodedSize (overlapped.view.between 2 5)<2^64 := by decide +kernel
  have hlimit : limitSize (overlapped.view.between 2 5) 17=
      [⟨1,2,.entryNormal,[]⟩,⟨3,3,.entryNormal,[]⟩] := by decide +kernel
  rw [hlimit] at hslice hlongest
  exact ⟨hslice,hlongest hsize,
    (overlapped_wellFormed.slice_between 0).2 1 5 (by decide) (by decide)⟩

end

/-- The first of the entries is in the log, the second one replaces what follows on it. -/
theorem maybeAppend_overlapped : ∃ l',
    overlapped.maybeAppend 2 1 9 [⟨3,3,.entryNormal,[]⟩,⟨4,4,.entryNormal,[]⟩]=
      .ok (l',some 4) ∧ l'.committed=4 ∧
    l'.view=⟨1,1,[⟨1,2,.entryNormal,[]⟩,⟨3,3,.entryNormal,[]⟩,⟨4,4,.entryNormal,[]⟩]⟩ ∧
    l'.maybeAppend 2 1 9 [⟨3,3,.entryNormal,[]⟩,⟨4,4,.entryNormal,[]⟩]=.ok (l',some 4) := by
  have hn : Numbered 2 [⟨3,3,.entryNormal,[]⟩,⟨4,4,.entryNormal,[]⟩] := by decide
  have hterm : overlapped.view.termAt 2=1 := by decide
  obtain ⟨l',hrun,-,hc,-,hput,hagain⟩ := overlapped_wellFormed.maybeAppend_rule 9
    (by decide) (by decide) hterm hn (by decide)
  exact ⟨l',hrun,hc,hput 1 _ rfl (by decide) (by decide),hagain⟩

end RaftLog

end RaftTesting
