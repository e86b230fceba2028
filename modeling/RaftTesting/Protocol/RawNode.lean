import RaftTesting.Protocol.Step

namespace RaftTesting

structure SoftState where
  lead : Nat
  raftState : StateType
  deriving DecidableEq,Repr

structure Ready where
  softState : Option SoftState
  hardState : HardState
  readStates : List ReadState
  entries : List Entry
  snapshot : Snapshot
  committedEntries : List Entry
  messages : List Message
  mustSync : Bool
  deriving DecidableEq

def Ready.containsUpdates (rd : Ready) : Bool :=
  rd.softState.isSome || decide (rd.hardState≠{}) || !isEmptySnap rd.snapshot ||
    decide (0<rd.entries.length) || decide (0<rd.committedEntries.length) ||
    decide (0<rd.messages.length) || decide (rd.readStates.length≠0)

/-- The highest index the application has applied once the Ready is confirmed,
zero when the Ready has no such information. -/
def Ready.appliedCursor (rd : Ready) : Nat :=
  match rd.committedEntries.getLast? with
  | some e => e.index
  | none => rd.snapshot.index

/-- The part of advance that moves the stable cursors. -/
def Ready.stabilize (rd : Ready) (l : RaftLog) : RaftLog :=
  let l := match rd.entries.getLast? with
    | some e => l.stableTo e.index e.term
    | none => l
  if isEmptySnap rd.snapshot then l else l.stableSnapTo rd.snapshot.index

/-- Only the unstable part of the log is touched. -/
theorem Ready.stabilize_eq (rd : Ready) (l : RaftLog) :
    rd.stabilize l={ l with unstable := (rd.stabilize l).unstable } := by
  unfold stabilize
  dsimp only
  split <;> split <;> rfl

namespace Raft

def softState (r : Raft) : SoftState := ⟨r.lead,r.state⟩

def hardState (r : Raft) : HardState := ⟨r.term,r.vote,r.raftLog.committed⟩

/-- The entry that initiates the transition out of a joint configuration. -/
def autoLeaveEntry : Entry := { (default : Entry) with type := .entryConfChangeV2 }

def autoLeave (r : Raft) : Except Panic Raft := do
  let (r,accepted) ← r.appendEntry [autoLeaveEntry]
  if !accepted then .error .refusedAutoLeave
  else .ok { r with pendingConfIndex := r.raftLog.lastIndex }

/-- The part of advance that moves the applied cursor. -/
def advanceApplied (r : Raft) (newApplied : Nat) : Except Panic Raft :=
  if newApplied=0 then .ok r
  else do
    let oldApplied := r.raftLog.applied
    let l ← r.raftLog.appliedTo newApplied
    let r := r.setLog l
    if r.prs.config.autoLeave ∧ oldApplied≤r.pendingConfIndex ∧ r.pendingConfIndex≤newApplied ∧
        r.state=.stateLeader then
      r.autoLeave
    else .ok r

def advance (r : Raft) (rd : Ready) : Except Panic Raft := do
  let r ← (r.reduceUncommittedSize rd.committedEntries).advanceApplied rd.appliedCursor
  .ok (r.setLog (rd.stabilize r.raftLog))

end Raft

structure RawNode where
  raft : Raft
  prevSoftSt : SoftState
  prevHardSt : HardState
  deriving DecidableEq

structure Peer where
  id : Nat
  context : Bytes
  deriving DecidableEq,Repr

def mustSync (st prevst : HardState) (entsnum : Nat) : Bool :=
  entsnum≠0 || st.vote≠prevst.vote || st.term≠prevst.term

/-- The errors of Bootstrap. -/
inductive BootstrapErr where
  | noPeers
  | nonemptyStorage
  deriving DecidableEq,Repr

namespace RawNode

section

variable [Raftpb]

def newRawNode (c : Config) (draws : List Nat) : Except Panic RawNode := do
  let r ← Raft.newRaft c draws
  .ok ⟨r,r.softState,r.hardState⟩

/-- newReady. -/
def readyWithoutAccept (rn : RawNode) : Except Panic Ready := do
  let r := rn.raft
  let committedEntries ← r.raftLog.nextEnts
  .ok {
    softState := if r.softState=rn.prevSoftSt then none else some r.softState
    hardState := if r.hardState=rn.prevHardSt then {} else r.hardState
    readStates := r.readStates
    entries := r.raftLog.unstableEntries
    snapshot := r.raftLog.unstable.snapshot.getD {}
    committedEntries := committedEntries
    messages := r.msgs
    mustSync := mustSync r.hardState rn.prevHardSt r.raftLog.unstableEntries.length }

def acceptReady (rn : RawNode) (rd : Ready) : RawNode :=
  { rn with
    prevSoftSt := rd.softState.getD rn.prevSoftSt
    raft := { rn.raft with
      readStates := if rd.readStates.isEmpty then rn.raft.readStates else []
      msgs := [] } }

def ready (rn : RawNode) : Except Panic (RawNode × Ready) := do
  let rd ← rn.readyWithoutAccept
  .ok (rn.acceptReady rd,rd)

def hasReady (rn : RawNode) : Bool :=
  let r := rn.raft
  decide (r.softState≠rn.prevSoftSt) ||
  (decide (r.hardState≠{}) && decide (r.hardState≠rn.prevHardSt)) ||
  r.raftLog.hasPendingSnapshot ||
  (!r.msgs.isEmpty || !r.raftLog.unstableEntries.isEmpty || r.raftLog.hasNextEnts) ||
  !r.readStates.isEmpty

def advance (rn : RawNode) (rd : Ready) : Except Panic RawNode := do
  let r ← rn.raft.advance rd
  .ok { rn with
    raft := r
    prevHardSt := if rd.hardState={} then rn.prevHardSt else rd.hardState }

def tick (rn : RawNode) : Except Panic RawNode := do
  let r ← rn.raft.tick
  .ok { rn with raft := r }

/-- raft.Step as Campaign, Propose, ReadIndex and the other calls make it. -/
def stepRaft (rn : RawNode) (m : Message) : Except Panic (RawNode × Option StepErr) := do
  let (r,err) ← rn.raft.step m
  .ok ({ rn with raft := r },err)

/-- Messages from the network: local ones and responses of unknown peers are refused. -/
def step (rn : RawNode) (m : Message) : Except Panic (RawNode × Option StepErr) :=
  if isLocalMsg m.type then .ok (rn,some .errStepLocalMsg)
  else if (rn.raft.prs.progress.get? m.fromId).isSome ∨ !isResponseMsg m.type then rn.stepRaft m
  else .ok (rn,some .errStepPeerNotFound)

def applyConfChange (rn : RawNode) (cc : ConfChangeV2) : Except Panic (RawNode × ConfState) := do
  let (r,cs) ← rn.raft.applyConfChange cc
  .ok ({ rn with raft := r },cs)

/-- The configuration entries of Bootstrap; marshal encodes a ConfChange. -/
def bootstrapEntries (marshal : ConfChange → Bytes) (peers : List Peer) : List Entry :=
  peers.mapIdx (fun i peer => {
    type := .entryConfChange
    term := 1
    index := i+1
    data := marshal { type := .addNode, nodeID := peer.id, context := peer.context } })

def bootstrapNode (rn : RawNode) (marshal : ConfChange → Bytes) (peers : List Peer) :
    Except Panic RawNode := do
  let r := rn.raft.becomeFollower 1 noNode
  let ents := bootstrapEntries marshal peers
  let l ← r.raftLog.append ents
  let r := r.setLog { l with committed := ents.length }
  let r ← peers.foldlM (fun (r : Raft) peer => do
    let (r,_) ← r.applyConfChange (Raftpb.asV2 { type := .addNode, nodeID := peer.id })
    .ok r) r
  .ok { rn with raft := r, prevHardSt := {} }

def bootstrap (rn : RawNode) (marshal : ConfChange → Bytes) (peers : List Peer) :
    Except Panic (Except BootstrapErr RawNode) :=
  if peers.isEmpty then .ok (.error .noPeers)
  else if rn.raft.raftLog.storage.lastIndex≠0 then .ok (.error .nonemptyStorage)
  else do
    let rn ← rn.bootstrapNode marshal peers
    .ok (.ok rn)

end

end RawNode

end RaftTesting
