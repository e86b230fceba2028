import Mathlib.Algebra.Ring.Nat
import Mathlib.Data.Nat.Basic

namespace RaftTesting

/-- Subtraction on uint64, which wraps below zero. Sums are those of the natural numbers: they
are the sums of the source as long as terms and indices stay below 2^64-1, as is understood
throughout. -/
def usub (a b : Nat) : Nat := if b≤a then a-b else a+2^64-b

theorem usub_of_le {a b : Nat} (h : b≤a) : usub a b=a-b := if_pos h

/-- The conversion of a uint64 to int, which is negative from 2^63 on. -/
def toInt (n : Nat) : Int := if n<2^63 then n else n-(2^64 : Nat)

theorem toInt_le (n : Nat) : toInt n≤n := by
  unfold toInt
  split <;> omega

/-- math.MaxUint64, used for "no limit". -/
def noLimit : Nat := 2^64-1

/-- The placeholder node id. -/
def noNode : Nat := 0

abbrev Bytes := List UInt8

inductive EntryType where
  | entryNormal
  | entryConfChange
  | entryConfChangeV2
  deriving DecidableEq,Repr

structure Entry where
  term : Nat
  index : Nat
  type : EntryType
  data : Bytes
  deriving DecidableEq,Repr

instance : Inhabited Entry := ⟨⟨0,0,.entryNormal,[]⟩⟩

/-- The two entry types that carry a configuration change. -/
def Entry.isConf (e : Entry) : Bool :=
  e.type=.entryConfChange || e.type=.entryConfChangeV2

inductive MessageType where
  | msgHup
  | msgBeat
  | msgProp
  | msgApp
  | msgAppResp
  | msgVote
  | msgVoteResp
  | msgSnap
  | msgHeartbeat
  | msgHeartbeatResp
  | msgUnreachable
  | msgSnapStatus
  | msgCheckQuorum
  | msgTransferLeader
  | msgTimeoutNow
  | msgReadIndex
  | msgReadIndexResp
  | msgPreVote
  | msgPreVoteResp
  deriving DecidableEq,Repr

structure ConfState where
  voters : List Nat := []
  learners : List Nat := []
  votersOutgoing : List Nat := []
  learnersNext : List Nat := []
  autoLeave : Bool := false
  deriving DecidableEq,Repr

structure Snapshot where
  data : Bytes := []
  confState : ConfState := {}
  index : Nat := 0
  term : Nat := 0
  deriving DecidableEq,Repr

structure HardState where
  term : Nat := 0
  vote : Nat := 0
  commit : Nat := 0
  deriving DecidableEq,Repr

structure Message where
  type : MessageType
  toId : Nat := 0
  fromId : Nat := 0
  term : Nat := 0
  logTerm : Nat := 0
  index : Nat := 0
  entries : List Entry := []
  commit : Nat := 0
  snapshot : Snapshot := {}
  reject : Bool := false
  rejectHint : Nat := 0
  context : Bytes := []
  deriving DecidableEq,Repr

/-- The defined change types; any other protobuf value is refused by the Changer. -/
inductive ConfChangeType where
  | addNode
  | removeNode
  | updateNode
  | addLearnerNode
  | unknown (code : Nat)
  deriving DecidableEq,Repr

structure ConfChangeSingle where
  type : ConfChangeType
  nodeID : Nat
  deriving DecidableEq,Repr

structure ConfChange where
  type : ConfChangeType
  nodeID : Nat
  context : Bytes := []
  deriving DecidableEq,Repr

inductive ConfChangeTransition where
  | auto
  | jointImplicit
  | jointExplicit
  deriving DecidableEq,Repr

structure ConfChangeV2 where
  transition : ConfChangeTransition := .auto
  changes : List ConfChangeSingle := []
  context : Bytes := []
  deriving DecidableEq,Repr

/-- Equal up to the order of the id lists. -/
structure ConfState.SameIds (a b : ConfState) : Prop where
  voters : a.voters.Perm b.voters
  learners : a.learners.Perm b.learners
  votersOutgoing : a.votersOutgoing.Perm b.votersOutgoing
  learnersNext : a.learnersNext.Perm b.learnersNext
  autoLeave : a.autoLeave=b.autoLeave

theorem ConfState.SameIds.refl (cs : ConfState) : cs.SameIds cs :=
  ⟨.refl _,.refl _,.refl _,.refl _,rfl⟩

/-- What the code uses of the raftpb package, which is not part of it. The encoding may be any,
and its functions on configurations are known by their laws. -/
class Raftpb where
  size : Entry → Nat
  unmarshalConfChange : Bytes → Option ConfChange
  /-- What an Unmarshal that fails has decoded before. -/
  decodedConfChange : Bytes → ConfChange
  unmarshalConfChangeV2 : Bytes → Option ConfChangeV2
  asV2 : ConfChange → ConfChangeV2
  asV2_eq : ∀ cc, asV2 cc={ changes := [⟨cc.type,cc.nodeID⟩], context := cc.context }
  /-- Some autoLeave when the change goes through a joint configuration. -/
  enterJoint : ConfChangeV2 → Option Bool
  enterJoint_eq : ∀ cc, enterJoint cc=if cc.transition≠.auto ∨ 1<cc.changes.length then
    some (decide (cc.transition≠.jointExplicit)) else none
  /-- The change is zero, apart from its context. -/
  leaveJoint : ConfChangeV2 → Bool
  leaveJoint_iff : ∀ cc, leaveJoint cc=true ↔ cc.transition=.auto ∧ cc.changes=[]
  equivalent : ConfState → ConfState → Bool
  equivalent_iff : ∀ a b, equivalent a b=true ↔ a.SameIds b

def isLocalMsg : MessageType → Bool
  | .msgHup | .msgBeat | .msgUnreachable | .msgSnapStatus | .msgCheckQuorum => true
  | _ => false

def isResponseMsg : MessageType → Bool
  | .msgAppResp | .msgVoteResp | .msgHeartbeatResp | .msgUnreachable | .msgPreVoteResp => true
  | _ => false

/-- PayloadSize of an entry. -/
def payloadSize (e : Entry) : Nat := e.data.length

/-- limitSize: at least one entry, then as many as keep the total within maxSize.
The running total is converted to uint64 before the comparison. -/
def limitLoop [Raftpb] (maxSize : Nat) : Nat → List Entry → List Entry
  | _,[] => []
  | size,e::es =>
      let size := size+Raftpb.size e
      if maxSize<size%2^64 then [] else e::limitLoop maxSize size es

def limitSize [Raftpb] (ents : List Entry) (maxSize : Nat) : List Entry :=
  match ents with
  | [] => []
  | e::es => e::limitLoop maxSize (Raftpb.size e) es

/-- The errors of the storage interface. -/
inductive StorageErr where
  | errCompacted
  | errUnavailable
  | errSnapOutOfDate
  deriving DecidableEq,Repr

/-- The errors of the Changer and of its invariant check. -/
inductive ConfErr where
  | noProgress (id : Nat)
  | nextNotOutgoing (id : Nat)
  | nextMarkedLearner (id : Nat)
  | learnerInOutgoing (id : Nat)
  | learnerInIncoming (id : Nat)
  | learnerNotMarked (id : Nat)
  | outgoingNotNil
  | learnersNextNotNil
  | autoLeaveNotFalse
  | alreadyJoint
  | zeroVoterJoint
  | leaveNonJoint
  | simpleInJoint
  | moreThanOneVoter
  | unexpectedType (code : Nat)
  | removedAllVoters
  deriving DecidableEq,Repr

/-- The places where the code panics. A step that panics has no successor state. -/
inductive Panic where
  | nilDereference
  | nilMapWrite
  | indexOutOfRange
  | invalidConfig
  | termShouldBeSet
  | termShouldNotBeSet
  | needNonEmptySnapshot
  | unhandledProgressState
  | addIntoFullInflights
  | refusedAutoLeave
  | leaderToCandidate
  | leaderToPreCandidate
  | followerToLeader
  | emptyEntryDropped
  | unappliedEntriesError
  | emptyMsgProp
  | unmarshalError
  | hintTermInvalid
  | restoreConfig (e : ConfErr)
  | confStatesNotEquivalent
  | applyConfChange (e : ConfErr)
  | loadStateOutOfRange
  | conflictWithCommitted
  | conflictOutOfRange
  | appendOutOfRange
  | nextEntsError
  | appliedOutOfRange
  | lastTermError
  | sliceUnavailable
  | invalidSlice
  | sliceOutOfBound
  | unexpectedTermError
  | unstableInvalidSlice
  | unstableSliceOutOfBound
  | entriesOutOfBound
  | missingLogEntry
  | compactOutOfBound
  | snapshotOutOfBound
  | missingReadState
  | sendLoopDiverges
  | noPeersGiven
  deriving DecidableEq,Repr

end RaftTesting
