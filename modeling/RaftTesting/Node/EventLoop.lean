import RaftTesting.Node.Status

namespace RaftTesting

/-- Ready{}. -/
def Ready.none : Ready where
  softState := .none
  hardState := {}
  readStates := []
  entries := []
  snapshot := {}
  committedEntries := []
  messages := []
  mustSync := false

/-- The calls of the Node interface. A configuration change is proposed with the type and the
data that it is encoded to; ready and advance receive from and send to the channels of the
node. -/
inductive Request where
  | step (m : Message)
  | campaign
  | propose (data : Bytes)
  | proposeConfChange (type : EntryType) (data : Bytes)
  | readIndex (rctx : Bytes)
  | transferLeadership (lead transferee : Nat)
  | reportUnreachable (id : Nat)
  | reportSnapshot (id : Nat) (failure : Bool)
  | applyConfChange (cc : ConfChangeV2)
  | tick
  | ready
  | advance
  | status
  | stop
  deriving DecidableEq

/-- What the loop of run takes from its channels. -/
inductive Case where
  | propc (m : Message) (wait : Bool)
  | recvc (m : Message)
  | confc (cc : ConfChangeV2)
  | tickc
  | readyc
  | advancec
  | status
  | stop
  deriving DecidableEq

def stepWithWaitOption (m : Message) (wait : Bool) : Case :=
  if m.type≠.msgProp then .recvc m else .propc m wait

/-- Where a call waits for the loop. A local message from the network goes nowhere. -/
def Request.case : Request → Option Case
  | .step m => if isLocalMsg m.type then none else some (stepWithWaitOption m false)
  | .campaign => some (stepWithWaitOption { type := .msgHup } false)
  | .propose data => some (stepWithWaitOption
      { type := .msgProp, entries := [{ (default : Entry) with data := data }] } true)
  | .proposeConfChange type data => some (stepWithWaitOption
      { type := .msgProp, entries := [{ (default : Entry) with type := type, data := data }] } false)
  | .readIndex rctx => some (stepWithWaitOption
      { type := .msgReadIndex, entries := [{ (default : Entry) with data := rctx }] } false)
  | .transferLeadership lead transferee =>
      some (.recvc { type := .msgTransferLeader, fromId := transferee, toId := lead })
  | .reportUnreachable id => some (.recvc { type := .msgUnreachable, fromId := id })
  | .reportSnapshot id failure =>
      some (.recvc { type := .msgSnapStatus, fromId := id, reject := failure })
  | .applyConfChange cc => some (.confc cc)
  | .tick => some .tickc
  | .ready => some .readyc
  | .advance => some .advancec
  | .status => some .status
  | .stop => some .stop

/-- What a call gets back: it may still wait, or come too late. -/
inductive Answer where
  | waits
  | returns
  | result (err : Option StepErr)
  | confState (cs : ConfState)
  | ready (rd : Ready)
  | status (s : Status)
  | stopped
  deriving DecidableEq

def Answer.ready? : Answer → Option Ready
  | .ready rd => some rd
  | _ => none

/-- The variables of run. A channel that is nil there is false here, so that its case waits. -/
structure Node where
  rn : RawNode
  propc : Bool := false
  readyc : Bool := false
  advancec : Bool := false
  rd : Ready := Ready.none
  lead : Nat := noNode
  done : Bool := false
  deriving DecidableEq

namespace Node

section

variable [Raftpb]

/-- A new Ready takes the place of one that nobody has received yet. -/
def populate (n : Node) : Except Panic Node :=
  if n.advancec then .ok { n with readyc := false }
  else if n.rn.hasReady then do
    let rd ← n.rn.readyWithoutAccept
    .ok { n with rd := rd, readyc := true }
  else .ok n

/-- The part of an iteration before its select. -/
def arm (n : Node) : Except Panic Node := do
  let n ← n.populate
  if n.lead≠n.rn.raft.lead then
    .ok { n with propc := decide (n.rn.raft.lead≠noNode), lead := n.rn.raft.lead }
  else .ok n

/-- A node that a change has removed takes no proposals, as far as it can tell. -/
def removes (before after : Raft) (cs : ConfState) : Bool :=
  (before.prs.progress.get? before.id).isSome && !(after.prs.progress.get? after.id).isSome &&
    !(cs.voters++cs.votersOutgoing).contains after.id

/-- The select of an iteration. -/
def select (n : Node) : Case → Except Panic (Node × Answer)
  | .propc m wait =>
    if n.propc then do
      let (rn,err) ← n.rn.stepRaft { m with fromId := n.rn.raft.id }
      .ok ({ n with rn := rn },if wait then .result err else .returns)
    else .ok (n,.waits)
  | .recvc m =>
    if (n.rn.raft.prs.progress.get? m.fromId).isSome ∨ !isResponseMsg m.type then do
      let (rn,_) ← n.rn.stepRaft m
      .ok ({ n with rn := rn },.returns)
    else .ok (n,.returns)
  | .confc cc => do
    let (rn,cs) ← n.rn.applyConfChange cc
    .ok ({ n with
      rn := rn
      propc := n.propc && !removes n.rn.raft rn.raft cs },.confState cs)
  | .tickc => do
    let rn ← n.rn.tick
    .ok ({ n with rn := rn },.returns)
  | .readyc =>
    if n.readyc then
      .ok ({ n with rn := n.rn.acceptReady n.rd, advancec := true },.ready n.rd)
    else .ok (n,.waits)
  | .advancec =>
    if n.advancec then do
      let rn ← n.rn.advance n.rd
      .ok ({ n with rn := rn, rd := Ready.none, advancec := false },.returns)
    else .ok (n,.waits)
  | .status => .ok (n,.status n.rn.raft.getStatus)
  | .stop => .ok ({ n with done := true },.returns)

/-- A call to a node whose loop runs in between. -/
def call (n : Node) (q : Request) : Except Panic (Node × Answer) :=
  match q.case with
  | none => .ok (n,.returns)
  | some c => if n.done then .ok (n,.stopped) else do
      let n ← n.arm
      n.select c

end

/-- The storage is shared with the application, which writes to it while it works on a Ready. -/
def write (n : Node) (ms : MemoryStorage) : Node :=
  if n.advancec then
    { n with rn := { n.rn with raft := n.rn.raft.setLog { n.rn.raft.raftLog with storage := ms } } }
  else n

/-- What the application does. -/
inductive Deed where
  | call (q : Request)
  | write (ms : MemoryStorage)
  deriving DecidableEq

section

variable [Raftpb]

def act (n : Node) : Deed → Except Panic (Node × Answer)
  | .call q => n.call q
  | .write ms => .ok (n.write ms,.returns)

/-- A run, with the answer to each call. -/
def run (n : Node) : List Deed → Except Panic (Node × List Answer)
  | [] => .ok (n,[])
  | d::ds => do
    let (n,a) ← n.act d
    let (n,as) ← n.run ds
    .ok (n,a::as)

end

end Node

end RaftTesting
