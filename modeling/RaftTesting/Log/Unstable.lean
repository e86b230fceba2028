import RaftTesting.Log.Storage

namespace RaftTesting

/-- entries[i] has log position i+offset; the offset may lie below the highest
position in storage. -/
structure Unstable where
  snapshot : Option Snapshot
  entries : List Entry
  offset : Nat
  deriving DecidableEq

namespace Unstable

def maybeFirstIndex (u : Unstable) : Option Nat := u.snapshot.map (·.index+1)

def maybeLastIndex (u : Unstable) : Option Nat :=
  if u.entries.length≠0 then some (u.offset+u.entries.length-1)
  else u.snapshot.map (·.index)

/-- With no entries and a snapshot the source would index an empty slice for an i
between offset and the snapshot; restore sets offset past the snapshot, so that
read does not occur and is answered by none here. -/
def maybeTerm (u : Unstable) (i : Nat) : Option Nat :=
  if i<u.offset then
    match u.snapshot with
    | some s => if s.index=i then some s.term else none
    | none => none
  else match u.maybeLastIndex with
    | none => none
    | some last => if last < i then none else u.entries[i-u.offset]?.map (·.term)

def stableTo (u : Unstable) (i t : Nat) : Unstable :=
  match u.maybeTerm i with
  | none => u
  | some gt =>
      if gt=t ∧ u.offset ≤ i then
        { u with entries := u.entries.drop (i+1-u.offset), offset := i+1 }
      else u

def stableSnapTo (u : Unstable) (i : Nat) : Unstable :=
  match u.snapshot with
  | some s => if s.index=i then { u with snapshot := none } else u
  | none => u

def restore (_ : Unstable) (s : Snapshot) : Unstable :=
  { snapshot := some s, entries := [], offset := s.index+1 }

def mustCheckOutOfBounds (u : Unstable) (lo hi : Nat) : Except Panic Unit :=
  if hi<lo then .error .unstableInvalidSlice
  else if lo<u.offset ∨ u.offset+u.entries.length<hi then .error .unstableSliceOutOfBound
  else .ok ()

def slice (u : Unstable) (lo hi : Nat) : Except Panic (List Entry) := do
  u.mustCheckOutOfBounds lo hi
  .ok ((u.entries.drop (lo-u.offset)).take (hi-lo))

/-- e is the first of the appended entries. -/
def truncateAndAppend (u : Unstable) (e : Entry) (es : List Entry) : Except Panic Unstable :=
  let after := e.index
  if after=u.offset+u.entries.length then
    .ok { u with entries := u.entries++e::es }
  else if after≤u.offset then
    .ok { u with offset := after, entries := e::es }
  else do
    let kept ← u.slice u.offset after
    .ok { u with entries := kept++e::es }

end Unstable

end RaftTesting
