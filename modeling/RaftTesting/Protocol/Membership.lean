import RaftTesting.Protocol.Raft

namespace RaftTesting

/-- The parameters to start a raft. -/
structure Config where
  id : Nat
  electionTick : Nat
  heartbeatTick : Nat
  storage : MemoryStorage
  applied : Nat := 0
  maxSizePerMsg : Nat := 0
  maxCommittedSizePerReady : Nat := 0
  maxUncommittedEntriesSize : Nat := 0
  maxInflightMsgs : Nat
  checkQuorum : Bool := false
  preVote : Bool := false
  readOnlyOption : ReadOnlyOption := .readOnlySafe
  disableProposalForwarding : Bool := false

/-- The configuration with its defaults filled in, none when it is refused. -/
def Config.validate (c : Config) : Option Config :=
  if c.id=noNode then none
  else if c.heartbeatTick=0 then none
  else if c.electionTick≤c.heartbeatTick then none
  else
    let c := if c.maxUncommittedEntriesSize=0 then
      { c with maxUncommittedEntriesSize := noLimit } else c
    let c := if c.maxCommittedSizePerReady=0 then
      { c with maxCommittedSizePerReady := c.maxSizePerMsg } else c
    if c.maxInflightMsgs=0 then none
    else if c.readOnlyOption=.readOnlyLeaseBased ∧ !c.checkQuorum then none
    else some c

/-- The operation that a configuration change asks for. -/
def Changer.change [Raftpb] (c : Changer) (cc : ConfChangeV2) : Except ConfErr Tracked :=
  if Raftpb.leaveJoint cc then c.leaveJoint
  else match Raftpb.enterJoint cc with
    | some autoLeave => c.enterJoint autoLeave cc.changes
    | none => c.simple cc.changes

namespace Raft

section

variable [Raftpb]

/-- The probes of switchToConfig; the node itself is visited too. -/
def probeAll (r : Raft) : Except Panic Raft :=
  r.prs.progress.keys.foldlM (fun r id => do
    let (r,_) ← r.maybeSendAppend id false
    .ok r) r

/-- The remaining steps of a leader that is still a voter. -/
def switchLeader (r : Raft) : Except Panic Raft := do
  let (r,committed) ← r.maybeCommit
  let r ← (if committed then r.bcastAppend else r.probeAll)
  if !r.prs.config.voters.ids.contains r.leadTransferee ∧ r.leadTransferee≠0 then
    .ok r.abortLeaderTransfer
  else .ok r

/-- The node with the new configuration in place. -/
def installConfig (r : Raft) (t : Tracked) : Raft :=
  { r with
    prs := { r.prs with config := t.cfg, progress := t.prs }
    isLearner := ((t.prs.get? r.id).map (·.isLearner)).getD false }

def switchToConfig (r : Raft) (t : Tracked) : Except Panic (Raft × ConfState) :=
  let r := r.installConfig t
  let cs := r.prs.confState
  if ((r.prs.progress.get? r.id).isNone || r.isLearner) ∧ r.state=.stateLeader then .ok (r,cs)
  else if r.state≠.stateLeader ∨ cs.voters.isEmpty then .ok (r,cs)
  else do
    let r ← r.switchLeader
    .ok (r,cs)

def applyConfChange (r : Raft) (cc : ConfChangeV2) : Except Panic (Raft × ConfState) :=
  match Changer.change ⟨r.prs,r.raftLog.lastIndex⟩ cc with
  | .error e => .error (.applyConfChange e)
  | .ok t => r.switchToConfig t

/-- confchange.Restore followed by switchToConfig and the check of its result. -/
def restoreConfig (r : Raft) (cs : ConfState) : Except Panic Raft :=
  match Changer.restore ⟨r.prs,r.raftLog.lastIndex⟩ cs with
  | .error e => .error (.restoreConfig e)
  | .ok t => do
    let (r,cs') ← r.switchToConfig t
    if Raftpb.equivalent cs cs' then .ok r else .error .confStatesNotEquivalent

/-- restore once the snapshot is known to be newer than the log. -/
def restoreSnapshot (r : Raft) (s : Snapshot) : Except Panic Raft := do
  let r := r.setLog (r.raftLog.restore s)
  let r := { r with prs := .makeProgressTracker r.prs.maxInflight }
  let r ← r.restoreConfig s.confState
  match r.prs.progress.get? r.id with
  | none => .error .nilDereference
  | some pr => .ok (r.setProgress r.id (pr.maybeUpdate (usub pr.next 1)).1)

def restore (r : Raft) (s : Snapshot) : Except Panic (Raft × Bool) :=
  if s.index≤r.raftLog.committed then .ok (r,false)
  else if r.state≠.stateFollower then .ok (r.becomeFollower (r.term+1) noNode,false)
  else
    let cs := s.confState
    let found := (cs.voters.contains r.id || cs.learners.contains r.id) ||
      cs.votersOutgoing.contains r.id
    if !found then .ok (r,false)
    else if r.raftLog.matchTerm s.index s.term then
      .ok (r.setLog (r.raftLog.commitTo s.index).1,false)
    else do
      let r ← r.restoreSnapshot s
      .ok (r,true)

def loadState (r : Raft) (state : HardState) : Except Panic Raft :=
  if state.commit<r.raftLog.committed ∨ r.raftLog.lastIndex<state.commit then
    .error .loadStateOutOfRange
  else .ok { r with
    raftLog := { r.raftLog with committed := state.commit }
    term := state.term
    vote := state.vote }

/-- The node of newRaft before its configuration and hard state are restored. -/
def blank (c : Config) (draws : List Nat) : Raft where
  id := c.id
  term := 0
  vote := noNode
  readStates := []
  raftLog := .newLogWithSize c.storage c.maxCommittedSizePerReady
  maxMsgSize := c.maxSizePerMsg
  maxUncommittedSize := c.maxUncommittedEntriesSize
  prs := .makeProgressTracker c.maxInflightMsgs
  state := .stateFollower
  isLearner := false
  msgs := []
  lead := noNode
  leadTransferee := noNode
  pendingConfIndex := 0
  uncommittedSize := 0
  readOnly := .newReadOnly c.readOnlyOption
  electionElapsed := 0
  heartbeatElapsed := 0
  checkQuorum := c.checkQuorum
  preVote := c.preVote
  heartbeatTimeout := c.heartbeatTick
  electionTimeout := c.electionTick
  randomizedElectionTimeout := 0
  disableProposalForwarding := c.disableProposalForwarding
  pendingReadIndexMessages := []
  draws := draws

def newRaft (c : Config) (draws : List Nat) : Except Panic Raft :=
  match c.validate with
  | none => .error .invalidConfig
  | some c => do
    let (hs,cs) := c.storage.initialState
    let r ← (blank c draws).restoreConfig cs
    let r ← (if hs={} then .ok r else r.loadState hs)
    let l ← r.raftLog.appliedTo c.applied
    .ok (Raft.becomeFollower (r.setLog l) r.term noNode)

end

end Raft

end RaftTesting
