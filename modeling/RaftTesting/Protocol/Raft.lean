import RaftTesting.ConfChange.Restore
import RaftTesting.Log.RaftLog
import RaftTesting.Protocol.ReadOnly

namespace RaftTesting

/-- The role of a node. -/
inductive StateType where
  | stateFollower
  | stateCandidate
  | stateLeader
  | statePreCandidate
  deriving DecidableEq,Repr

inductive CampaignType where
  | campaignPreElection
  | campaignElection
  | campaignTransfer
  deriving DecidableEq,Repr

/-- The bytes of the string a transfer campaign puts into its vote requests. -/
def campaignTransferBytes : Bytes :=
  [67,97,109,112,97,105,103,110,84,114,97,110,115,102,101,114]

/-- The step and tick functions of the source are selected by state. draws are the
coming outcomes of the random generator behind the election timeout. -/
structure Raft where
  id : Nat
  term : Nat
  vote : Nat
  readStates : List ReadState
  raftLog : RaftLog
  maxMsgSize : Nat
  maxUncommittedSize : Nat
  prs : ProgressTracker
  state : StateType
  isLearner : Bool
  msgs : List Message
  lead : Nat
  leadTransferee : Nat
  pendingConfIndex : Nat
  uncommittedSize : Nat
  readOnly : ReadOnly
  electionElapsed : Nat
  heartbeatElapsed : Nat
  checkQuorum : Bool
  preVote : Bool
  heartbeatTimeout : Nat
  electionTimeout : Nat
  randomizedElectionTimeout : Nat
  disableProposalForwarding : Bool
  pendingReadIndexMessages : List Message
  draws : List Nat
  deriving DecidableEq

def isVoteMsg : MessageType → Bool
  | .msgVote | .msgVoteResp | .msgPreVote | .msgPreVoteResp => true
  | _ => false

namespace Raft

def setProgress (r : Raft) (id : Nat) (pr : Progress) : Raft :=
  { r with prs := r.prs.setProgress id pr }

def setLog (r : Raft) (l : RaftLog) : Raft := { r with raftLog := l }

/-- The message as send queues it: sender filled in, and the term attached except
to campaign messages, which carry their own, and to forwarded requests. -/
def stamp (r : Raft) (m : Message) : Message :=
  let m := if m.fromId=noNode then { m with fromId := r.id } else m
  if isVoteMsg m.type || m.type=.msgProp || m.type=.msgReadIndex then m
  else { m with term := r.term }

def send (r : Raft) (m : Message) : Except Panic Raft :=
  if isVoteMsg m.type then
    if m.term=0 then .error .termShouldBeSet
    else .ok { r with msgs := r.msgs++[r.stamp m] }
  else if m.term≠0 then .error .termShouldNotBeSet
  else .ok { r with msgs := r.msgs++[r.stamp m] }

def sendSnap (r : Raft) (dst : Nat) (pr : Progress) : Except Panic (Raft × Bool) :=
  if !pr.recentActive then .ok (r,false)
  else
    let snapshot := r.raftLog.snapshot
    if isEmptySnap snapshot then .error .needNonEmptySnapshot
    else do
      let r := r.setProgress dst (pr.becomeSnapshot snapshot.index)
      let r ← r.send { type := .msgSnap, toId := dst, snapshot := snapshot }
      .ok (r,true)

/-- The progress after an append with these entries went out. -/
def progressSent (pr : Progress) (ents : List Entry) : Except Panic Progress :=
  match ents.getLast? with
  | none => .ok pr
  | some last =>
    match pr.state with
    | .stateReplicate => do
      let inflights ← pr.inflights.add last.index
      .ok { pr.optimisticUpdate last.index with inflights := inflights }
    | .stateProbe => .ok { pr with probeSent := true }
    | .stateSnapshot => .error .unhandledProgressState

def sendApp (r : Raft) (dst : Nat) (pr : Progress) (term : Nat) (ents : List Entry) :
    Except Panic (Raft × Bool) := do
  let pr' ← progressSent pr ents
  let r := r.setProgress dst pr'
  let r ← r.send {
    type := .msgApp
    toId := dst
    index := usub pr.next 1
    logTerm := term
    entries := ents
    commit := r.raftLog.committed }
  .ok (r,true)

section

variable [Raftpb]

def maybeSendAppend (r : Raft) (dst : Nat) (sendIfEmpty : Bool) : Except Panic (Raft × Bool) :=
  match r.prs.progress.get? dst with
  | none => .error .nilDereference
  | some pr =>
    if pr.isPaused then .ok (r,false)
    else do
      let ents ← r.raftLog.entries pr.next r.maxMsgSize
      match r.raftLog.term (usub pr.next 1),ents with
      | .ok term,.ok ents =>
        if ents.isEmpty && !sendIfEmpty then .ok (r,false) else r.sendApp dst pr term ents
      | .error _,.ok ents =>
        if ents.isEmpty && !sendIfEmpty then .ok (r,false) else r.sendSnap dst pr
      | _,.error _ => if !sendIfEmpty then .ok (r,false) else r.sendSnap dst pr

def sendAppend (r : Raft) (dst : Nat) : Except Panic Raft := do
  let (r,_) ← r.maybeSendAppend dst true
  .ok r

/-- Visit runs over the tracked ids in ascending order. -/
def bcastAppend (r : Raft) : Except Panic Raft :=
  r.prs.progress.keys.foldlM (fun r id => if id=r.id then .ok r else r.sendAppend id) r

/-- for r.maybeSendAppend(m.From, false); the fuel is larger than the window. -/
def sendAppendLoop (dst : Nat) : Nat → Raft → Except Panic Raft
  | 0,_ => .error .sendLoopDiverges
  | fuel+1,r => do
    let (r,sent) ← r.maybeSendAppend dst false
    if sent then sendAppendLoop dst fuel r else .ok r

end

def sendHeartbeat (r : Raft) (dst : Nat) (ctx : Bytes) : Except Panic Raft :=
  match r.prs.progress.get? dst with
  | none => .error .nilDereference
  | some pr => r.send {
      type := .msgHeartbeat
      toId := dst
      commit := min pr.matchIndex r.raftLog.committed
      context := ctx }

def bcastHeartbeatWithCtx (r : Raft) (ctx : Bytes) : Except Panic Raft :=
  r.prs.progress.keys.foldlM (fun r id => if id=r.id then .ok r else r.sendHeartbeat id ctx) r

def bcastHeartbeat (r : Raft) : Except Panic Raft :=
  r.bcastHeartbeatWithCtx r.readOnly.lastPendingRequestCtx

def sendTimeoutNow (r : Raft) (dst : Nat) : Except Panic Raft :=
  r.send { type := .msgTimeoutNow, toId := dst }

def maybeCommit (r : Raft) : Except Panic (Raft × Bool) := do
  let (l,changed) ← r.raftLog.maybeCommit r.prs.committed r.term
  .ok (r.setLog l,changed)

def resetRandomizedElectionTimeout (r : Raft) : Raft :=
  { r with
    randomizedElectionTimeout := r.electionTimeout+r.draws.headD 0%r.electionTimeout
    draws := r.draws.tail }

def abortLeaderTransfer (r : Raft) : Raft := { r with leadTransferee := noNode }

def resetProgress (r : Raft) (id : Nat) (pr : Progress) : Progress where
  matchIndex := if id=r.id then r.raftLog.lastIndex else 0
  next := r.raftLog.lastIndex+1
  state := .stateProbe
  pendingSnapshot := 0
  recentActive := false
  probeSent := false
  inflights := .newInflights r.prs.maxInflight
  isLearner := pr.isLearner

def reset (r : Raft) (term : Nat) : Raft :=
  let r := { r with
    term := term
    vote := if r.term≠term then noNode else r.vote
    lead := noNode
    electionElapsed := 0
    heartbeatElapsed := 0 }
  let r := r.resetRandomizedElectionTimeout.abortLeaderTransfer
  let prs := r.prs.resetVotes
  { r with
    prs := { prs with progress := prs.progress.mapVals r.resetProgress }
    pendingConfIndex := 0
    uncommittedSize := 0
    readOnly := .newReadOnly r.readOnly.option }

def payloadSum (ents : List Entry) : Nat := (ents.map payloadSize).sum

def increaseUncommittedSize (r : Raft) (ents : List Entry) : Raft × Bool :=
  let s := payloadSum ents
  if 0<r.uncommittedSize ∧ 0<s ∧ r.maxUncommittedSize<r.uncommittedSize+s then (r,false)
  else ({ r with uncommittedSize := r.uncommittedSize+s },true)

def reduceUncommittedSize (r : Raft) (ents : List Entry) : Raft :=
  { r with uncommittedSize := r.uncommittedSize-payloadSum ents }

/-- The proposed entries with the term and index that appendEntry gives them. -/
def stampEntries (term li : Nat) (es : List Entry) : List Entry :=
  es.mapIdx (fun i e => { e with term := term, index := li+1+i })

def appendEntry (r : Raft) (es : List Entry) : Except Panic (Raft × Bool) :=
  let es := stampEntries r.term r.raftLog.lastIndex es
  let (r,fits) := r.increaseUncommittedSize es
  if !fits then .ok (r,false)
  else do
    let l ← r.raftLog.append es
    let r := r.setLog l
    match r.prs.progress.get? r.id with
    | none => .error .nilDereference
    | some pr => do
      let r := r.setProgress r.id (pr.maybeUpdate r.raftLog.lastIndex).1
      let (r,_) ← r.maybeCommit
      .ok (r,true)

def becomeFollower (r : Raft) (term lead : Nat) : Raft :=
  { r.reset term with lead := lead, state := .stateFollower }

def becomeCandidate (r : Raft) : Except Panic Raft :=
  if r.state=.stateLeader then .error .leaderToCandidate
  else .ok { r.reset (r.term+1) with vote := r.id, state := .stateCandidate }

def becomePreCandidate (r : Raft) : Except Panic Raft :=
  if r.state=.stateLeader then .error .leaderToPreCandidate
  else .ok { r with prs := r.prs.resetVotes, lead := noNode, state := .statePreCandidate }

def becomeLeader (r : Raft) : Except Panic Raft :=
  if r.state=.stateFollower then .error .followerToLeader
  else
    let r := { r.reset r.term with lead := r.id, state := .stateLeader }
    match r.prs.progress.get? r.id with
    | none => .error .nilDereference
    | some pr => do
      let r := r.setProgress r.id pr.becomeReplicate
      let r := { r with pendingConfIndex := r.raftLog.lastIndex }
      let emptyEnt : Entry := default
      let (r,accepted) ← r.appendEntry [emptyEnt]
      if !accepted then .error .emptyEntryDropped
      else .ok (r.reduceUncommittedSize [emptyEnt])

def promotable (r : Raft) : Bool :=
  match r.prs.progress.get? r.id with
  | none => false
  | some pr => !pr.isLearner && !r.raftLog.hasPendingSnapshot

def pastElectionTimeout (r : Raft) : Bool := r.randomizedElectionTimeout≤r.electionElapsed

def poll (r : Raft) (id : Nat) (v : Bool) : Raft × VoteResult :=
  let r := { r with prs := r.prs.recordVote id v }
  (r,r.prs.tallyVotes)

/-- The vote requests of a campaign, one to every other voter in ascending order. -/
def requestVotes (r : Raft) (t : CampaignType) (voteMsg : MessageType) (term : Nat) :
    Except Panic Raft :=
  r.prs.config.voters.ids.keys.foldlM (fun r id =>
    if id=r.id then .ok r
    else do
      let lastTerm ← r.raftLog.lastTerm
      r.send {
        type := voteMsg
        toId := id
        term := term
        index := r.raftLog.lastIndex
        logTerm := lastTerm
        context := if t=.campaignTransfer then campaignTransferBytes else [] }) r

/-- campaign for a real election. -/
def campaignVote (r : Raft) (t : CampaignType) : Except Panic Raft := do
  let r ← r.becomeCandidate
  let (r,res) := r.poll r.id true
  if res=.voteWon then r.becomeLeader else r.requestVotes t .msgVote r.term

def campaign (r : Raft) (t : CampaignType) : Except Panic Raft :=
  if t=.campaignPreElection then do
    let r ← r.becomePreCandidate
    let (r,res) := r.poll r.id true
    if res=.voteWon then r.campaignVote .campaignElection
    else r.requestVotes t .msgPreVote (r.term+1)
  else r.campaignVote t

def numOfPendingConf (ents : List Entry) : Nat := (ents.filter Entry.isConf).length

def hup [Raftpb] (r : Raft) (t : CampaignType) : Except Panic Raft :=
  if r.state=.stateLeader then .ok r
  else if !r.promotable then .ok r
  else do
    match ← r.raftLog.slice (r.raftLog.applied+1) (r.raftLog.committed+1) noLimit with
    | .error _ => .error .unappliedEntriesError
    | .ok ents =>
      if numOfPendingConf ents≠0 ∧ r.raftLog.applied<r.raftLog.committed then .ok r
      else r.campaign t

def committedEntryInCurrentTerm (r : Raft) : Except Panic Bool := do
  let t ← RaftLog.zeroTermOnErrCompacted (r.raftLog.term r.raftLog.committed)
  .ok (decide (t=r.term))

/-- A request of this node becomes a read state, any other one a reply to send. -/
def responseToReadIndexReq (r : Raft) (req : Message) (readIndex : Nat) : Except Panic Raft :=
  if req.fromId=noNode ∨ req.fromId=r.id then do
    let ctx ← req.firstData
    .ok { r with readStates := r.readStates++[⟨readIndex,ctx⟩] }
  else r.send {
    type := .msgReadIndexResp
    toId := req.fromId
    index := readIndex
    entries := req.entries }

def sendMsgReadIndexResponse (r : Raft) (m : Message) : Except Panic Raft :=
  match r.readOnly.option with
  | .readOnlySafe => do
    let ro ← r.readOnly.addRequest r.raftLog.committed m
    let ctx ← m.firstData
    let (ro,_) := ro.recvAck r.id ctx
    Raft.bcastHeartbeatWithCtx { r with readOnly := ro } ctx
  | .readOnlyLeaseBased => r.responseToReadIndexReq m r.raftLog.committed

def releasePendingReadIndexMessages (r : Raft) : Except Panic Raft := do
  let current ← r.committedEntryInCurrentTerm
  if !current then .ok r
  else
    let msgs := r.pendingReadIndexMessages
    msgs.foldlM sendMsgReadIndexResponse { r with pendingReadIndexMessages := [] }

end Raft

end RaftTesting
