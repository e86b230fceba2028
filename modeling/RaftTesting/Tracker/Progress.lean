import RaftTesting.Protocol.Raftpb
import RaftTesting.Framework.Outcome

namespace RaftTesting

/-- A ring of in-flight indexes; the buffer is grown on demand up to size. -/
structure Inflights where
  start : Nat
  count : Nat
  size : Nat
  buffer : List Nat
  deriving DecidableEq

namespace Inflights

def newInflights (size : Nat) : Inflights := ⟨0,0,size,[]⟩

def full (i : Inflights) : Bool := i.count=i.size

def reset (i : Inflights) : Inflights := { i with count := 0, start := 0 }

def grow (i : Inflights) : Inflights :=
  let newSize := i.buffer.length*2
  let newSize := if newSize=0 then 1 else if i.size<newSize then i.size else newSize
  { i with buffer := i.buffer.take newSize++List.replicate (newSize-i.buffer.length) 0 }

def add (i : Inflights) (inflight : Nat) : Except Panic Inflights :=
  if i.full then .error .addIntoFullInflights
  else
    let next := i.start+i.count
    let next := if i.size≤next then next-i.size else next
    let i := if i.buffer.length≤next then i.grow else i
    if i.buffer.length≤next then .error .indexOutOfRange
    else .ok { i with buffer := i.buffer.set next inflight, count := i.count+1 }

/-- The loop of FreeLE: how many slots to free and where the window then starts. -/
def freeLoop (i : Inflights) (upto : Nat) : Nat → Nat → Nat → Except Panic (Nat × Nat)
  | 0,freed,idx => .ok (freed,idx)
  | n+1,freed,idx =>
    match i.buffer[idx]? with
    | none => .error .indexOutOfRange
    | some v =>
      if upto<v then .ok (freed,idx)
      else
        let idx := idx+1
        i.freeLoop upto n (freed+1) (if i.size ≤ idx then idx-i.size else idx)

def freeLE (i : Inflights) (upto : Nat) : Except Panic Inflights :=
  if i.count=0 then .ok i
  else match i.buffer[i.start]? with
    | none => .error .indexOutOfRange
    | some v =>
      if upto<v then .ok i
      else do
        let (freed,idx) ← i.freeLoop upto i.count 0 i.start
        let count := i.count-freed
        .ok { i with count := count, start := if count=0 then 0 else idx }

def freeFirstOne (i : Inflights) : Except Panic Inflights :=
  match i.buffer[i.start]? with
  | none => .error .indexOutOfRange
  | some v => i.freeLE v

end Inflights

/-- tracker.StateType. -/
inductive ProgressState where
  | stateProbe
  | stateReplicate
  | stateSnapshot
  deriving DecidableEq,Repr

/-- matchIndex is the source's Match. -/
structure Progress where
  matchIndex : Nat
  next : Nat
  state : ProgressState
  pendingSnapshot : Nat
  recentActive : Bool
  probeSent : Bool
  inflights : Inflights
  isLearner : Bool
  deriving DecidableEq

namespace Progress

def resetState (pr : Progress) (state : ProgressState) : Progress :=
  { pr with
    probeSent := false
    pendingSnapshot := 0
    state := state
    inflights := pr.inflights.reset }

def probeAcked (pr : Progress) : Progress := { pr with probeSent := false }

def becomeProbe (pr : Progress) : Progress :=
  if pr.state=.stateSnapshot then
    { pr.resetState .stateProbe with next := max (pr.matchIndex+1) (pr.pendingSnapshot+1) }
  else { pr.resetState .stateProbe with next := pr.matchIndex+1 }

def becomeReplicate (pr : Progress) : Progress :=
  { pr.resetState .stateReplicate with next := pr.matchIndex+1 }

def becomeSnapshot (pr : Progress) (snapshoti : Nat) : Progress :=
  { pr.resetState .stateSnapshot with pendingSnapshot := snapshoti }

def maybeUpdate (pr : Progress) (n : Nat) : Progress × Bool :=
  if pr.matchIndex<n then
    ({ pr.probeAcked with matchIndex := n, next := max pr.next (n+1) },true)
  else ({ pr with next := max pr.next (n+1) },false)

def optimisticUpdate (pr : Progress) (n : Nat) : Progress := { pr with next := n+1 }

def maybeDecrTo (pr : Progress) (rejected matchHint : Nat) : Progress × Bool :=
  if pr.state=.stateReplicate then
    if rejected≤pr.matchIndex then (pr,false)
    else ({ pr with next := pr.matchIndex+1 },true)
  else if usub pr.next 1≠rejected then (pr,false)
  else ({ pr with next := max (min rejected (matchHint+1)) 1, probeSent := false },true)

def isPaused (pr : Progress) : Bool :=
  match pr.state with
  | .stateProbe => pr.probeSent
  | .stateReplicate => pr.inflights.full
  | .stateSnapshot => true

end Progress

end RaftTesting
