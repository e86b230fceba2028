import RaftTesting.Protocol.Raftpb
import RaftTesting.Framework.Outcome

namespace RaftTesting

/-- ents[0] is the dummy entry, so the slice is never empty. -/
structure MemoryStorage where
  hardState : HardState
  snapshot : Snapshot
  ents : List Entry
  nonempty : ents≠[]
  deriving DecidableEq

/-- A storage that holds the dummy entry only is not empty. -/
theorem default_ne_nil : [(default : Entry)]≠[] := List.cons_ne_nil _ _

namespace MemoryStorage

def newMemoryStorage : MemoryStorage := ⟨{},{},[default],by simp⟩

def dummy (ms : MemoryStorage) : Entry := ms.ents.head ms.nonempty

def firstIndex (ms : MemoryStorage) : Nat := ms.dummy.index+1

def lastIndex (ms : MemoryStorage) : Nat := ms.dummy.index+ms.ents.length-1

def initialState (ms : MemoryStorage) : HardState × ConfState :=
  (ms.hardState,ms.snapshot.confState)

def setHardState (ms : MemoryStorage) (st : HardState) : MemoryStorage :=
  { ms with hardState := st }

/-- The outer failure is the panic on an upper bound past the last index, the
inner one the returned error. -/
def entries [Raftpb] (ms : MemoryStorage) (lo hi maxSize : Nat) :
    Except Panic (Except StorageErr (List Entry)) :=
  let offset := ms.dummy.index
  if lo≤offset then .ok (.error .errCompacted)
  else if ms.lastIndex+1<hi then .error .entriesOutOfBound
  else if ms.ents.length=1 then .ok (.error .errUnavailable)
  else if hi<lo then .error .indexOutOfRange
  else .ok (.ok (limitSize ((ms.ents.drop (lo-offset)).take (hi-lo)) maxSize))

/-- An offset that is negative as an int passes the check of the upper bound. -/
def term (ms : MemoryStorage) (i : Nat) : Except Panic (Except StorageErr Nat) :=
  let offset := ms.dummy.index
  if i<offset then .ok (.error .errCompacted)
  else if ms.ents.length≤toInt (i-offset) then .ok (.error .errUnavailable)
  else match ms.ents[i-offset]? with
    | none => .error .indexOutOfRange
    | some e => .ok (.ok e.term)

/-- The int conversion does not hide what is in the slice. -/
theorem term_of_getElem {ms : MemoryStorage} {i : Nat} {e : Entry} (h : ms.dummy.index ≤ i)
    (he : ms.ents[i-ms.dummy.index]?=some e) : ms.term i=.ok (.ok e.term) := by
  have hlt : i-ms.dummy.index < ms.ents.length := (List.getElem?_eq_some_iff.mp he).1
  have hint := toInt_le (i-ms.dummy.index)
  unfold term
  dsimp only
  rw [if_neg (Nat.not_lt.mpr h),if_neg (by omega),he]

def applySnapshot (ms : MemoryStorage) (snap : Snapshot) : Except StorageErr MemoryStorage :=
  if snap.index ≤ ms.snapshot.index then .error .errSnapOutOfDate
  else .ok { ms with
    snapshot := snap
    ents := [{ (default : Entry) with term := snap.term, index := snap.index }]
    nonempty := by simp }

def createSnapshot (ms : MemoryStorage) (i : Nat) (cs : Option ConfState) (data : Bytes) :
    Except Panic (Except StorageErr MemoryStorage) :=
  if i ≤ ms.snapshot.index then .ok (.error .errSnapOutOfDate)
  else if ms.lastIndex < i then .error .snapshotOutOfBound
  else match ms.ents[usub i ms.dummy.index]? with
    | none => .error .indexOutOfRange
    | some e => .ok (.ok { ms with snapshot := {
        data := data, confState := cs.getD ms.snapshot.confState, index := i, term := e.term } })

def compact (ms : MemoryStorage) (compactIndex : Nat) :
    Except Panic (Except StorageErr MemoryStorage) :=
  let offset := ms.dummy.index
  if compactIndex≤offset then .ok (.error .errCompacted)
  else if ms.lastIndex<compactIndex then .error .compactOutOfBound
  else
    let i := compactIndex-offset
    match ms.ents[i]? with
    | none => .error .indexOutOfRange
    | some e => .ok (.ok { ms with
        ents := { (default : Entry) with index := e.index, term := e.term }::ms.ents.drop (i+1)
        nonempty := by simp })

/-- The part of Append after the entries below the first index are cut off. -/
def appendAt (ms : MemoryStorage) (e : Entry) (es : List Entry) : Except Panic MemoryStorage :=
  let offset := usub e.index ms.dummy.index
  if offset ≤ ms.ents.length then
    .ok { ms with ents := ms.ents.take offset++e::es, nonempty := by simp }
  else .error .missingLogEntry

def append (ms : MemoryStorage) (entries : List Entry) : Except Panic MemoryStorage :=
  match entries with
  | [] => .ok ms
  | e::_ =>
    let first := ms.firstIndex
    let last := e.index+entries.length-1
    if last<first then .ok ms
    else match entries.drop (first-e.index) with
      | [] => .error .indexOutOfRange
      | e'::es => ms.appendAt e' es

end MemoryStorage

end RaftTesting
