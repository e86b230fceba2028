import RaftTesting.Protocol.Membership

namespace RaftTesting

/-- The errors that stepping a message returns to the caller. -/
inductive StepErr where
  | errProposalDropped
  | errStepLocalMsg
  | errStepPeerNotFound
  deriving DecidableEq,Repr

def voteRespMsgType : MessageType → MessageType
  | .msgPreVote => .msgPreVoteResp
  | _ => .msgVoteResp

namespace Raft

/-- A rejected append is answered with a hint where the two logs may still agree. -/
def rejectAppend (r : Raft) (m : Message) : Except Panic Raft :=
  let hintIndex := min m.index r.raftLog.lastIndex
  let hintIndex := r.raftLog.findConflictByTerm hintIndex m.logTerm
  match r.raftLog.term hintIndex with
  | .error _ => .error .hintTermInvalid
  | .ok hintTerm => r.send {
      type := .msgAppResp
      toId := m.fromId
      index := m.index
      reject := true
      rejectHint := hintIndex
      logTerm := hintTerm }

def handleAppendEntries (r : Raft) (m : Message) : Except Panic Raft :=
  if m.index<r.raftLog.committed then
    r.send { type := .msgAppResp, toId := m.fromId, index := r.raftLog.committed }
  else do
    let (l,res) ← r.raftLog.maybeAppend m.index m.logTerm m.commit m.entries
    let r := r.setLog l
    match res with
    | some mlastIndex => r.send { type := .msgAppResp, toId := m.fromId, index := mlastIndex }
    | none => r.rejectAppend m

/-- A heartbeat whose commit index lies past the log is not answered. -/
def handleHeartbeat (r : Raft) (m : Message) : Except Panic Raft :=
  let (l,committed) := r.raftLog.commitTo m.commit
  let r := r.setLog l
  if committed then
    r.send { type := .msgHeartbeatResp, toId := m.fromId, context := m.context }
  else .ok r

section

variable [Raftpb]

def handleSnapshot (r : Raft) (m : Message) : Except Panic Raft := do
  let (r,restored) ← r.restore m.snapshot
  if restored then
    r.send { type := .msgAppResp, toId := m.fromId, index := r.raftLog.lastIndex }
  else
    r.send { type := .msgAppResp, toId := m.fromId, index := r.raftLog.committed }

end

/-- Everyone but the node itself is marked inactive. -/
def clearActive (r : Raft) : Raft :=
  { r with prs := { r.prs with progress := r.prs.progress.mapVals (fun id pr =>
      if id=r.id then pr else { pr with recentActive := false }) } }

def leaderCheckQuorum (r : Raft) : Raft :=
  let r := match r.prs.progress.get? r.id with
    | some pr => r.setProgress r.id { pr with recentActive := true }
    | none => r
  let r := if r.prs.quorumActive then r else r.becomeFollower r.term noNode
  r.clearActive

section

variable [Raftpb]

/-- The configuration change of an entry, none for a normal entry. -/
def confChangeOf (e : Entry) : Except Panic (Option ConfChangeV2) :=
  match e.type with
  | .entryNormal => .ok none
  | .entryConfChange =>
    match Raftpb.unmarshalConfChange e.data with
    | none => .error .unmarshalError
    | some cc => .ok (some (Raftpb.asV2 cc))
  | .entryConfChangeV2 =>
    match Raftpb.unmarshalConfChangeV2 e.data with
    | none => .error .unmarshalError
    | some cc => .ok (some cc)

def refusesConfChange (r : Raft) (cc : ConfChangeV2) : Bool :=
  let alreadyPending := decide (r.raftLog.applied<r.pendingConfIndex)
  let alreadyJoint := decide (0<MajorityConfig.len r.prs.config.voters.outgoing)
  let wantsLeaveJoint := cc.changes.isEmpty
  alreadyPending || (alreadyJoint && !wantsLeaveJoint) || (!alreadyJoint && wantsLeaveJoint)

/-- One round of the MsgProp loop: a refused change is replaced by an empty entry,
an accepted one becomes pending at the index it is going to have. -/
def screenEntry (r : Raft) (i : Nat) (e : Entry) : Except Panic (Raft × Entry) := do
  match ← confChangeOf e with
  | none => .ok (r,e)
  | some cc =>
    if r.refusesConfChange cc then .ok (r,default)
    else .ok ({ r with pendingConfIndex := r.raftLog.lastIndex+i+1 },e)

def screenEntries (r : Raft) : Nat → List Entry → Except Panic (Raft × List Entry)
  | _,[] => .ok (r,[])
  | i,e::es => do
    let (r,e) ← r.screenEntry i e
    let (r,es) ← r.screenEntries (i+1) es
    .ok (r,e::es)

def leaderProp (r : Raft) (m : Message) : Except Panic (Raft × Option StepErr) :=
  if m.entries.isEmpty then .error .emptyMsgProp
  else if (r.prs.progress.get? r.id).isNone then .ok (r,some .errProposalDropped)
  else if r.leadTransferee≠noNode then .ok (r,some .errProposalDropped)
  else do
    let (r,es) ← r.screenEntries 0 m.entries
    let (r,accepted) ← r.appendEntry es
    if !accepted then .ok (r,some .errProposalDropped)
    else do
      let r ← r.bcastAppend
      .ok (r,none)

end

def leaderReadIndex (r : Raft) (m : Message) : Except Panic Raft :=
  if r.prs.isSingleton then r.responseToReadIndexReq m r.raftLog.committed
  else do
    let current ← r.committedEntryInCurrentTerm
    if !current then
      .ok { r with pendingReadIndexMessages := r.pendingReadIndexMessages++[m] }
    else r.sendMsgReadIndexResponse m

/-- Where a leader with this log probes after a rejection. -/
def nextProbeIdx (l : RaftLog) (m : Message) : Nat :=
  if 0 < m.logTerm then l.findConflictByTerm m.rejectHint m.logTerm else m.rejectHint

section

variable [Raftpb]

def leaderAppReject (r : Raft) (m : Message) (pr : Progress) : Except Panic Raft :=
  let (pr,decreased) := pr.maybeDecrTo m.index (nextProbeIdx r.raftLog m)
  if decreased then
    let pr := if pr.state=.stateReplicate then pr.becomeProbe else pr
    (r.setProgress m.fromId pr).sendAppend m.fromId
  else .ok (r.setProgress m.fromId pr)

/-- The state change of a progress whose Match has just advanced. -/
def progressAcked (pr : Progress) (index : Nat) : Except Panic Progress :=
  match pr.state with
  | .stateProbe => .ok pr.becomeReplicate
  | .stateSnapshot =>
    if pr.pendingSnapshot≤pr.matchIndex then .ok pr.becomeProbe.becomeReplicate else .ok pr
  | .stateReplicate => do
    let inflights ← pr.inflights.freeLE index
    .ok { pr with inflights := inflights }

/-- What goes out after Match has advanced. -/
def sendAfterAck (r : Raft) (dst : Nat) (oldPaused : Bool) : Except Panic Raft := do
  let (r,advanced) ← r.maybeCommit
  if advanced then do
    let r ← r.releasePendingReadIndexMessages
    r.bcastAppend
  else if oldPaused then r.sendAppend dst
  else .ok r

def leaderAppAccept (r : Raft) (m : Message) (pr : Progress) : Except Panic Raft :=
  let oldPaused := pr.isPaused
  let (pr,updated) := pr.maybeUpdate m.index
  if !updated then .ok (r.setProgress m.fromId pr)
  else do
    let pr ← progressAcked pr m.index
    let r ← (r.setProgress m.fromId pr).sendAfterAck m.fromId oldPaused
    let r ← sendAppendLoop m.fromId (pr.inflights.size+1) r
    if m.fromId=r.leadTransferee ∧ pr.matchIndex=r.raftLog.lastIndex then
      r.sendTimeoutNow m.fromId
    else .ok r

def leaderAppResp (r : Raft) (m : Message) (pr : Progress) : Except Panic Raft :=
  let pr := { pr with recentActive := true }
  if m.reject then r.leaderAppReject m pr else r.leaderAppAccept m pr

/-- The read requests that a heartbeat response releases. -/
def leaderReadAck (r : Raft) (m : Message) : Except Panic Raft :=
  if r.readOnly.option≠.readOnlySafe ∨ m.context.isEmpty then .ok r
  else
    let (ro,acks) := r.readOnly.recvAck m.fromId m.context
    let r := { r with readOnly := ro }
    if r.prs.config.voters.voteResult acks≠.voteWon then .ok r
    else do
      let (ro,rss) ← r.readOnly.advance m
      rss.foldlM (fun r rs => r.responseToReadIndexReq rs.req rs.index) { r with readOnly := ro }

/-- A full window frees one slot on a heartbeat response, to allow progress. -/
def progressHeard (pr : Progress) : Except Panic Progress :=
  let pr := { pr with recentActive := true, probeSent := false }
  if pr.state=.stateReplicate && pr.inflights.full then do
    let inflights ← pr.inflights.freeFirstOne
    .ok { pr with inflights := inflights }
  else .ok pr

def leaderHeartbeatResp (r : Raft) (m : Message) (pr : Progress) : Except Panic Raft := do
  let pr ← progressHeard pr
  let r := r.setProgress m.fromId pr
  let r ← (if pr.matchIndex<r.raftLog.lastIndex then r.sendAppend m.fromId else .ok r)
  r.leaderReadAck m

def leaderSnapStatus (r : Raft) (m : Message) (pr : Progress) : Raft :=
  if pr.state≠.stateSnapshot then r
  else
    let pr := if !m.reject then pr.becomeProbe
      else { pr with pendingSnapshot := 0 }.becomeProbe
    r.setProgress m.fromId { pr with probeSent := true }

def leaderUnreachable (r : Raft) (m : Message) (pr : Progress) : Raft :=
  if pr.state=.stateReplicate then r.setProgress m.fromId pr.becomeProbe else r

def leaderTransfer (r : Raft) (m : Message) (pr : Progress) : Except Panic Raft :=
  if pr.isLearner then .ok r
  else if r.leadTransferee≠noNode ∧ r.leadTransferee=m.fromId then .ok r
  else
    let r := if r.leadTransferee≠noNode then r.abortLeaderTransfer else r
    if m.fromId=r.id then .ok r
    else
      let r := { r with electionElapsed := 0, leadTransferee := m.fromId }
      if pr.matchIndex=r.raftLog.lastIndex then r.sendTimeoutNow m.fromId
      else r.sendAppend m.fromId

/-- The message types that require a progress for the sender. -/
def stepLeaderPeer (r : Raft) (m : Message) (pr : Progress) : Except Panic Raft :=
  match m.type with
  | .msgAppResp => r.leaderAppResp m pr
  | .msgHeartbeatResp => r.leaderHeartbeatResp m pr
  | .msgSnapStatus => .ok (r.leaderSnapStatus m pr)
  | .msgUnreachable => .ok (r.leaderUnreachable m pr)
  | .msgTransferLeader => r.leaderTransfer m pr
  | _ => .ok r

def stepLeader (r : Raft) (m : Message) : Except Panic (Raft × Option StepErr) :=
  match m.type with
  | .msgBeat => do
    let r ← r.bcastHeartbeat
    .ok (r,none)
  | .msgCheckQuorum => .ok (r.leaderCheckQuorum,none)
  | .msgProp => r.leaderProp m
  | .msgReadIndex => do
    let r ← r.leaderReadIndex m
    .ok (r,none)
  | _ =>
    match r.prs.progress.get? m.fromId with
    | none => .ok (r,none)
    | some pr => do
      let r ← r.stepLeaderPeer m pr
      .ok (r,none)

/-- A response to this candidacy. -/
def candidateVoteResp (r : Raft) (m : Message) : Except Panic Raft :=
  let (r,res) := r.poll m.fromId (!m.reject)
  match res with
  | .voteWon =>
    if r.state=.statePreCandidate then r.campaign .campaignElection
    else do
      let r ← r.becomeLeader
      r.bcastAppend
  | .voteLost => .ok (r.becomeFollower r.term noNode)
  | .votePending => .ok r

def myVoteRespType (r : Raft) : MessageType :=
  if r.state=.statePreCandidate then .msgPreVoteResp else .msgVoteResp

def stepCandidate (r : Raft) (m : Message) : Except Panic (Raft × Option StepErr) :=
  match m.type with
  | .msgProp => .ok (r,some .errProposalDropped)
  | .msgApp => do
    let r ← (r.becomeFollower m.term m.fromId).handleAppendEntries m
    .ok (r,none)
  | .msgHeartbeat => do
    let r ← (r.becomeFollower m.term m.fromId).handleHeartbeat m
    .ok (r,none)
  | .msgSnap => do
    let r ← (r.becomeFollower m.term m.fromId).handleSnapshot m
    .ok (r,none)
  | _ =>
    if m.type=r.myVoteRespType then do
      let r ← r.candidateVoteResp m
      .ok (r,none)
    else .ok (r,none)

/-- A follower has heard from its leader. -/
def hearLeader (r : Raft) (lead : Nat) : Raft := { r with electionElapsed := 0, lead := lead }

def stepFollower (r : Raft) (m : Message) : Except Panic (Raft × Option StepErr) :=
  match m.type with
  | .msgProp =>
    if r.lead=noNode then .ok (r,some .errProposalDropped)
    else if r.disableProposalForwarding then .ok (r,some .errProposalDropped)
    else do
      let r ← r.send { m with toId := r.lead }
      .ok (r,none)
  | .msgApp => do
    let r ← (r.hearLeader m.fromId).handleAppendEntries m
    .ok (r,none)
  | .msgHeartbeat => do
    let r ← (r.hearLeader m.fromId).handleHeartbeat m
    .ok (r,none)
  | .msgSnap => do
    let r ← (r.hearLeader m.fromId).handleSnapshot m
    .ok (r,none)
  | .msgTransferLeader =>
    if r.lead=noNode then .ok (r,none)
    else do
      let r ← r.send { m with toId := r.lead }
      .ok (r,none)
  | .msgTimeoutNow => do
    let r ← r.hup .campaignTransfer
    .ok (r,none)
  | .msgReadIndex =>
    if r.lead=noNode then .ok (r,none)
    else do
      let r ← r.send { m with toId := r.lead }
      .ok (r,none)
  | .msgReadIndexResp =>
    match m.entries with
    | [e] => .ok ({ r with readStates := r.readStates++[⟨m.index,e.data⟩] },none)
    | _ => .ok (r,none)
  | _ => .ok (r,none)

def canVote (r : Raft) (m : Message) : Bool :=
  r.vote=m.fromId || (r.vote=noNode && r.lead=noNode) ||
    (m.type=.msgPreVote && decide (r.term < m.term))

/-- MsgVote and MsgPreVote; only real votes are recorded. -/
def handleVote (r : Raft) (m : Message) : Except Panic Raft := do
  let upToDate ← (if r.canVote m then r.raftLog.isUpToDate m.index m.logTerm else .ok false)
  if upToDate then do
    let r ← r.send { type := voteRespMsgType m.type, toId := m.fromId, term := m.term }
    if m.type=.msgVote then .ok { r with electionElapsed := 0, vote := m.fromId } else .ok r
  else
    r.send { type := voteRespMsgType m.type, toId := m.fromId, term := r.term, reject := true }

/-- The step function of the current state. -/
def stepState (r : Raft) (m : Message) : Except Panic (Raft × Option StepErr) :=
  match r.state with
  | .stateFollower => r.stepFollower m
  | .stateCandidate => r.stepCandidate m
  | .statePreCandidate => r.stepCandidate m
  | .stateLeader => r.stepLeader m

/-- Step once the term of the message has been dealt with. -/
def stepType (r : Raft) (m : Message) : Except Panic (Raft × Option StepErr) :=
  match m.type with
  | .msgHup => do
    let r ← r.hup (if r.preVote then .campaignPreElection else .campaignElection)
    .ok (r,none)
  | .msgVote => do
    let r ← r.handleVote m
    .ok (r,none)
  | .msgPreVote => do
    let r ← r.handleVote m
    .ok (r,none)
  | _ => r.stepState m

/-- A message of a lower term. -/
def stepLower (r : Raft) (m : Message) : Except Panic Raft :=
  if (r.checkQuorum || r.preVote) ∧ (m.type=.msgHeartbeat ∨ m.type=.msgApp) then
    r.send { type := .msgAppResp, toId := m.fromId }
  else if m.type=.msgPreVote then
    r.send { type := .msgPreVoteResp, toId := m.fromId, term := r.term, reject := true }
  else .ok r

/-- The lease that keeps a node from answering vote requests. -/
def inLease (r : Raft) : Bool :=
  r.checkQuorum && decide (r.lead≠noNode) && decide (r.electionElapsed<r.electionTimeout)

def ignoresVote (r : Raft) (m : Message) : Bool :=
  (m.type=.msgVote || m.type=.msgPreVote) &&
    (decide (m.context≠campaignTransferBytes) && r.inLease)

/-- The messages of a higher term that do not change the term of the receiver. -/
def keepsTerm (m : Message) : Bool :=
  m.type=.msgPreVote || (m.type=.msgPreVoteResp && !m.reject)

def leadOf (m : Message) : Nat :=
  if m.type=.msgApp ∨ m.type=.msgHeartbeat ∨ m.type=.msgSnap then m.fromId else noNode

def step (r : Raft) (m : Message) : Except Panic (Raft × Option StepErr) :=
  if m.term=0 then r.stepType m
  else if r.term < m.term then
    if r.ignoresVote m then .ok (r,none)
    else if keepsTerm m then r.stepType m
    else (r.becomeFollower m.term (leadOf m)).stepType m
  else if m.term<r.term then do
    let r ← r.stepLower m
    .ok (r,none)
  else r.stepType m

/-- A step whose returned error is only logged. -/
def stepIgnored (r : Raft) (m : Message) : Except Panic Raft := do
  let (r,_) ← r.step m
  .ok r

def tickElection (r : Raft) : Except Panic Raft :=
  let r := { r with electionElapsed := r.electionElapsed+1 }
  if r.promotable && r.pastElectionTimeout then
    Raft.stepIgnored { r with electionElapsed := 0 } { type := .msgHup, fromId := r.id }
  else .ok r

/-- The election timeout of a leader. -/
def leaderTimeout (r : Raft) : Except Panic Raft := do
  let r := { r with electionElapsed := 0 }
  let r ← (if r.checkQuorum then r.stepIgnored { type := .msgCheckQuorum, fromId := r.id }
    else .ok r)
  if r.state=.stateLeader ∧ r.leadTransferee≠noNode then .ok r.abortLeaderTransfer else .ok r

def tickHeartbeat (r : Raft) : Except Panic Raft := do
  let r := { r with
    heartbeatElapsed := r.heartbeatElapsed+1
    electionElapsed := r.electionElapsed+1 }
  let r ← (if r.electionTimeout≤r.electionElapsed then r.leaderTimeout else .ok r)
  if r.state≠.stateLeader then .ok r
  else if r.heartbeatTimeout≤r.heartbeatElapsed then
    Raft.stepIgnored { r with heartbeatElapsed := 0 } { type := .msgBeat, fromId := r.id }
  else .ok r

def tick (r : Raft) : Except Panic Raft :=
  if r.state=.stateLeader then r.tickHeartbeat else r.tickElection

end

end Raft

end RaftTesting
