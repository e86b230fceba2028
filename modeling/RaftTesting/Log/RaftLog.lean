import Mathlib.Tactic.SplitIfs
import RaftTesting.Log.Unstable

namespace RaftTesting

structure RaftLog where
  storage : MemoryStorage
  unstable : Unstable
  committed : Nat
  applied : Nat
  maxNextEntsSize : Nat
  deriving DecidableEq

def isEmptySnap (s : Snapshot) : Bool := s.index=0

namespace RaftLog

def newLogWithSize (storage : MemoryStorage) (maxNextEntsSize : Nat) : RaftLog where
  storage := storage
  unstable := ⟨none,[],storage.lastIndex+1⟩
  committed := storage.firstIndex-1
  applied := storage.firstIndex-1
  maxNextEntsSize := maxNextEntsSize

def newLog (storage : MemoryStorage) : RaftLog := newLogWithSize storage noLimit

def firstIndex (l : RaftLog) : Nat := l.unstable.maybeFirstIndex.getD l.storage.firstIndex

def lastIndex (l : RaftLog) : Nat := l.unstable.maybeLastIndex.getD l.storage.lastIndex

/-- Outside of [dummy index, last index] the answer is 0 without an error. A log without a gap
asks its storage only for what is stored there, so that the storage does not panic:
Readable.storage_term. -/
def term (l : RaftLog) (i : Nat) : Except StorageErr Nat :=
  if i<l.firstIndex-1 ∨ l.lastIndex < i then .ok 0
  else match l.unstable.maybeTerm i with
    | some t => .ok t
    | none => match l.storage.term i with
      | .ok answer => answer
      | .error _ => .error .errUnavailable

def zeroTermOnErrCompacted : Except StorageErr Nat → Except Panic Nat
  | .ok t => .ok t
  | .error .errCompacted => .ok 0
  | .error _ => .error .unexpectedTermError

def lastTerm (l : RaftLog) : Except Panic Nat :=
  match l.term l.lastIndex with
  | .ok t => .ok t
  | .error _ => .error .lastTermError

def matchTerm (l : RaftLog) (i term : Nat) : Bool :=
  match l.term i with
  | .ok t => t=term
  | .error _ => false

def isUpToDate (l : RaftLog) (lasti term : Nat) : Except Panic Bool := do
  let t ← l.lastTerm
  .ok (decide (t<term) || (decide (term=t) && decide (l.lastIndex≤lasti)))

/-- A commit index past the end of the log is refused, not a panic. -/
def commitTo (l : RaftLog) (tocommit : Nat) : RaftLog × Bool :=
  if l.committed<tocommit then
    if l.lastIndex<tocommit then (l,false)
    else ({ l with committed := tocommit },true)
  else (l,true)

def appliedTo (l : RaftLog) (i : Nat) : Except Panic RaftLog :=
  if i=0 then .ok l
  else if l.committed < i ∨ i<l.applied then .error .appliedOutOfRange
  else .ok { l with applied := i }

def stableTo (l : RaftLog) (i t : Nat) : RaftLog :=
  { l with unstable := l.unstable.stableTo i t }

def stableSnapTo (l : RaftLog) (i : Nat) : RaftLog :=
  { l with unstable := l.unstable.stableSnapTo i }

def append (l : RaftLog) (ents : List Entry) : Except Panic RaftLog :=
  match ents with
  | [] => .ok l
  | e::es =>
    if usub e.index 1<l.committed then .error .appendOutOfRange
    else do
      let u ← l.unstable.truncateAndAppend e es
      .ok { l with unstable := u }

def findConflict (l : RaftLog) : List Entry → Nat
  | [] => 0
  | ne::ents => if l.matchTerm ne.index ne.term then l.findConflict ents else ne.index

/-- The part of maybeAppend that follows on the position of the first conflict. -/
def appendFrom (l : RaftLog) (index ci : Nat) (ents : List Entry) : Except Panic RaftLog :=
  if ci=0 then .ok l
  else if ci≤l.committed then .error .conflictWithCommitted
  else if ents.length<usub ci (index+1) then .error .conflictOutOfRange
  else l.append (ents.drop (usub ci (index+1)))

/-- The last index of the new entries, or none when the entries cannot be appended. -/
def maybeAppend (l : RaftLog) (index logTerm committed : Nat) (ents : List Entry) :
    Except Panic (RaftLog × Option Nat) :=
  if l.matchTerm index logTerm then do
    let lastnewi := index+ents.length
    let l ← l.appendFrom index (l.findConflict ents) ents
    .ok ((l.commitTo (min committed lastnewi)).1,some lastnewi)
  else .ok (l,none)

/-- index is decremented until its term is small enough; below zero it wraps to
an index outside of the log. -/
def findConflictLoop (l : RaftLog) (term : Nat) : Nat → Nat
  | 0 =>
    match l.term 0 with
    | .ok t => if t≤term then 0 else noLimit
    | .error _ => 0
  | index+1 =>
    match l.term (index+1) with
    | .ok t => if t≤term then index+1 else l.findConflictLoop term index
    | .error _ => index+1

def findConflictByTerm (l : RaftLog) (index term : Nat) : Nat :=
  if l.lastIndex < index then index else l.findConflictLoop term index

def mustCheckOutOfBounds (l : RaftLog) (lo hi : Nat) : Except Panic (Except StorageErr Unit) :=
  if hi<lo then .error .invalidSlice
  else
    let fi := l.firstIndex
    if lo<fi then .ok (.error .errCompacted)
    else
      let length := l.lastIndex+1-fi
      if fi+length<hi then .error .sliceOutOfBound
      else .ok (.ok ())

section

variable [Raftpb]

/-- The entries taken from storage, and whether the size limit was reached there. -/
def sliceStable (l : RaftLog) (lo hi maxSize : Nat) :
    Except Panic (Except StorageErr (List Entry × Bool)) :=
  if lo<l.unstable.offset then
    let upper := min hi l.unstable.offset
    match l.storage.entries lo upper maxSize with
    | .error p => .error p
    | .ok (.error .errUnavailable) => .error .sliceUnavailable
    | .ok (.error e) => .ok (.error e)
    | .ok (.ok ents) => .ok (.ok (ents,decide (ents.length<upper-lo)))
  else .ok (.ok ([],false))

def slice (l : RaftLog) (lo hi maxSize : Nat) : Except Panic (Except StorageErr (List Entry)) := do
  match ← l.mustCheckOutOfBounds lo hi with
  | .error e => .ok (.error e)
  | .ok _ =>
    if lo=hi then .ok (.ok [])
    else match ← l.sliceStable lo hi maxSize with
      | .error e => .ok (.error e)
      | .ok (stored,reached) =>
        if reached then .ok (.ok stored)
        else if l.unstable.offset<hi then do
          let unstable ← l.unstable.slice (max lo l.unstable.offset) hi
          .ok (.ok (limitSize (stored++unstable) maxSize))
        else .ok (.ok (limitSize stored maxSize))

def entries (l : RaftLog) (i maxsize : Nat) : Except Panic (Except StorageErr (List Entry)) :=
  if l.lastIndex < i then .ok (.ok []) else l.slice i (l.lastIndex+1) maxsize

def nextEnts (l : RaftLog) : Except Panic (List Entry) :=
  let off := max (l.applied+1) l.firstIndex
  if off<l.committed+1 then do
    match ← l.slice off (l.committed+1) l.maxNextEntsSize with
    | .ok ents => .ok ents
    | .error _ => .error .nextEntsError
  else .ok []

end

def hasNextEnts (l : RaftLog) : Bool :=
  decide (max (l.applied+1) l.firstIndex<l.committed+1)

def hasPendingSnapshot (l : RaftLog) : Bool :=
  match l.unstable.snapshot with
  | some s => !isEmptySnap s
  | none => false

def unstableEntries (l : RaftLog) : List Entry := l.unstable.entries

/-- MemoryStorage never reports its snapshot as unavailable. -/
def snapshot (l : RaftLog) : Snapshot := l.unstable.snapshot.getD l.storage.snapshot

def maybeCommit (l : RaftLog) (maxIndex term : Nat) : Except Panic (RaftLog × Bool) :=
  if l.committed < maxIndex then do
    let t ← zeroTermOnErrCompacted (l.term maxIndex)
    if t=term then .ok ((l.commitTo maxIndex).1,true) else .ok (l,false)
  else .ok (l,false)

def restore (l : RaftLog) (s : Snapshot) : RaftLog :=
  { l with committed := s.index, unstable := l.unstable.restore s }

theorem commitTo_fst (l : RaftLog) (n : Nat) : (l.commitTo n).1={ l with
    committed := if l.committed<n ∧ n≤l.lastIndex then n else l.committed } := by
  unfold commitTo
  split_ifs <;> first | rfl | omega

@[simp] theorem commitTo_storage (l : RaftLog) (n : Nat) : (l.commitTo n).1.storage=l.storage := by
  rw [commitTo_fst]

@[simp] theorem commitTo_unstable (l : RaftLog) (n : Nat) :
    (l.commitTo n).1.unstable=l.unstable := by
  rw [commitTo_fst]

@[simp] theorem commitTo_applied (l : RaftLog) (n : Nat) : (l.commitTo n).1.applied=l.applied := by
  rw [commitTo_fst]

theorem committed_le_commitTo (l : RaftLog) (n : Nat) : l.committed≤(l.commitTo n).1.committed := by
  rw [commitTo_fst]
  dsimp only
  split_ifs <;> omega

/-- The applied index moves forward within what is committed, or not at all. -/
theorem appliedTo_spec {l l' : RaftLog} {i : Nat} (h : l.appliedTo i=.ok l') : i=0 ∧ l'=l ∨
    i≠0 ∧ l.applied ≤ i ∧ i≤l.committed ∧ l'={ l with applied := i } := by
  unfold appliedTo at h
  split_ifs at h with hz hout <;> cases h
  · exact .inl ⟨hz,rfl⟩
  · exact .inr ⟨hz,Nat.not_lt.mp (not_or.mp hout).2,Nat.not_lt.mp (not_or.mp hout).1,rfl⟩

/-- maybeCommit only moves the commit index, and says so. -/
theorem maybeCommit_spec {l l' : RaftLog} {i t : Nat} {b : Bool}
    (h : l.maybeCommit i t=.ok (l',b)) : (b=false ∧ l'=l) ∨ (b=true ∧ l.committed < i ∧
      zeroTermOnErrCompacted (l.term i)=.ok t ∧ l'=(l.commitTo i).1) := by
  unfold maybeCommit at h
  split at h
  · rename_i hlt
    obtain ⟨t',ht',h⟩ := bind_eq_ok.mp h
    split at h <;> cases h
    · rename_i ht
      exact .inr ⟨rfl,hlt,ht ▸ ht',rfl⟩
    · exact .inl ⟨rfl,rfl⟩
  · cases h
    exact .inl ⟨rfl,rfl⟩

/-- An entry of the term is committed. -/
theorem maybeCommit_ok {l : RaftLog} {i t : Nat} (hlt : l.committed < i) (hi : i≤l.lastIndex)
    (ht : l.term i=.ok t) : l.maybeCommit i t=.ok ({ l with committed := i },true) := by
  unfold maybeCommit
  rw [if_pos hlt,ht]
  change (if t=t then _ else _)=_
  rw [if_pos rfl,commitTo_fst,if_pos ⟨hlt,hi⟩]

theorem append_spec {l l' : RaftLog} {ents : List Entry} (h : l.append ents=.ok l') :
    l'={ l with unstable := l'.unstable } := by
  unfold append at h
  split at h
  · cases h
    rfl
  · split at h
    · cases h
    · obtain ⟨u,_,h⟩ := bind_eq_ok.mp h
      cases h
      rfl

theorem appendFrom_spec {l l' : RaftLog} {index ci : Nat} {ents : List Entry}
    (h : l.appendFrom index ci ents=.ok l') : l'={ l with unstable := l'.unstable } := by
  unfold appendFrom at h
  split at h
  · cases h
    rfl
  · split at h
    · cases h
    · split at h
      · cases h
      · exact append_spec h

/-- maybeAppend appends first and then commits what both sides have. -/
theorem maybeAppend_spec {l l' : RaftLog} {index logTerm committed last : Nat}
    {ents : List Entry} (h : l.maybeAppend index logTerm committed ents=.ok (l',some last)) :
    l.matchTerm index logTerm=true ∧ last=index+ents.length ∧ ∃ l1,
      l.appendFrom index (l.findConflict ents) ents=.ok l1 ∧
      l'=(l1.commitTo (min committed last)).1 := by
  unfold maybeAppend at h
  split at h
  · rename_i hm
    obtain ⟨l1,h1,h⟩ := bind_eq_ok.mp h
    cases h
    exact ⟨hm,rfl,l1,h1,rfl⟩
  · cases h

theorem committed_le_maybeAppend {l l' : RaftLog} {index logTerm committed last : Nat}
    {ents : List Entry} (h : l.maybeAppend index logTerm committed ents=.ok (l',some last)) :
    l.committed≤l'.committed := by
  obtain ⟨_,_,l1,h1,rfl⟩ := maybeAppend_spec h
  have hc : l1.committed=l.committed := by rw [appendFrom_spec h1]
  exact hc ▸ committed_le_commitTo l1 _

end RaftLog

end RaftTesting
