import RaftTesting.Node.Host

namespace RaftTesting

/-- The decoding of a proposal into a key and a value, none on an error. -/
class Gob where
  decode : Bytes → Option (Bytes × Bytes)

/-- nodeState without the fields that nothing observes. -/
@[ext] structure NodeState where
  commitIndex : Nat := 0
  confState : ConfState := {}
  term : Nat := 0
  deriving DecidableEq

/-- What a test sees of a node: its events, the answers of the store and the
configuration on the snapshots it sends. -/
inductive Obs where
  | commit (index : Nat) (data : Bytes)
  | termChange (term : Nat)
  | got (key : Bytes) (val : Option Bytes)
  | snapConf (cs : ConfState)
  deriving DecidableEq

/-- Why a node does nothing any more: a panic, log.Fatal on a batch with a gap, or Stop
called from raftloop itself, which then waits for a receiver that it is. -/
inductive Halt where
  | panic (p : Panic)
  | tooBig
  | stopping
  deriving DecidableEq

/-- The process around a protocol node. The Ready that raftloop works on is pending;
worked says that its entries are applied and only Advance is left. -/
structure App where
  id : Nat
  rn : RawNode
  state : NodeState := {}
  kv : Bytes → Option Bytes := fun _ => none
  obs : List Obs := []
  pending : Option Ready := none
  worked : Bool := false
  halted : Option Halt := none

namespace App

def publish (n : App) (o : Obs) : App := { n with obs := n.obs++[o] }

/-- UpdateTermState, with the event that follows when the term is a new one. -/
def updateTermState (n : App) (term : Nat) : App :=
  if n.state.term≠term then
    { n with state := { n.state with term := term } }.publish (.termChange term)
  else n

def setStorage (n : App) (ms : MemoryStorage) : App :=
  { n with rn := { n.rn with
      raft := n.rn.raft.setLog { n.rn.raft.raftLog with storage := ms } } }

/-- Outgoing snapshots carry the configuration of the node's own state. -/
def sendMessages (n : App) (msgs : List Message) : App :=
  { n with obs := n.obs++
      (msgs.filter (fun m => m.type=.msgSnap)).map (fun _ => .snapConf n.state.confState) }

section

variable [Raftpb] [Gob]

/-- kvApp.Set: a proposal that cannot be decoded is ignored. -/
def set (n : App) (data : Bytes) : App :=
  match Gob.decode data with
  | none => n
  | some (key,val) => { n with kv := fun k => if k=key then some val else n.kv k }

omit [Gob] in
/-- The change of an EntryConfChange; the error of Unmarshal is ignored, and what it has decoded
before is then taken for the change. -/
def confChange (e : Entry) : ConfChange :=
  (Raftpb.unmarshalConfChange e.data).getD (Raftpb.decodedConfChange e.data)

omit [Gob] in
def applyConfChange (n : App) (cc : ConfChange) : App :=
  match n.rn.applyConfChange (Raftpb.asV2 cc) with
  | .error p => { n with halted := some (.panic p) }
  | .ok (rn,cs) =>
    let n := { n with rn := rn, state := { n.state with confState := cs } }
    if cc.type=.removeNode ∧ cc.nodeID=n.id then { n with halted := some .stopping } else n

/-- One round of the loop in applyEntries. -/
def applyEntry (n : App) (e : Entry) : App :=
  let n := { n.publish (.commit e.index e.data) with
    state := { n.state with commitIndex := e.index } }
  match e.type with
  | .entryNormal => if e.data=[] then n else n.set e.data
  | .entryConfChange => n.applyConfChange (confChange e)
  | .entryConfChangeV2 => n

def applyLoop (n : App) : List Entry → App
  | [] => n
  | e::es =>
    let n := n.applyEntry e
    if n.halted.isSome then n else n.applyLoop es

/-- The indices are uint64, so the position of the first new entry is computed modulo
the word size. -/
def applyEntries (n : App) (entries : List Entry) : App :=
  match entries with
  | [] => n
  | e::_ =>
    let commitIndex := n.state.commitIndex
    if (commitIndex+1)%2^64<e.index then { n with halted := some .tooBig }
    else
      let k := (usub commitIndex e.index+1)%2^64
      n.applyLoop (if k<entries.length then entries.drop k else entries)

/-- What may happen to a running node. A tick of raftloop may be missed by the protocol
node. A Ready is received, worked on and confirmed; the protocol node takes messages and
calls in between. -/
inductive Input where
  | tick (fired : Bool)
  | recv (m : Message)
  | call (c : Call)
  | ready (rd : Ready)
  | work
  | advance
  | get (key : Bytes)

omit [Gob] in
def setNode (n : App) (res : Except Panic RawNode) : App :=
  match res with
  | .error p => { n with halted := some (.panic p) }
  | .ok rn => { n with rn := rn }

/-- The storage is written first, then the messages go out, then the entries are applied. The
protocol node may take other input in between, here the three are one step. -/
def work (n : App) (rd : Ready) : App :=
  match rd.save n.rn.raft.raftLog.storage with
  | .error p => { n with halted := some (.panic p) }
  | .ok ms => ((n.setStorage ms).sendMessages rd.messages).applyEntries rd.committedEntries

/-- The input of a node that is not halted; raftloop ticks only between two Readys. A tick that
fires reaches the protocol node at once, where the source keeps it in the buffer of tickc, and
the term is read after it. -/
def take (n : App) : Input → App
  | .tick fired =>
    match n.pending,(if fired then n.rn.tick else .ok n.rn) with
    | some _,_ => n
    | none,.error p => { n with halted := some (.panic p) }
    | none,.ok rn => { n with rn := rn }.updateTermState rn.raft.term
  | .recv m => n.setNode ((n.rn.step m).map Prod.fst)
  | .call c => n.setNode ((n.rn.stepRaft (c.message n.id)).map Prod.fst)
  | .ready rd =>
    match n.pending with
    | some _ => n
    | none => { n with
        rn := n.rn.acceptReady rd
        pending := some rd }.updateTermState rd.hardState.term
  | .work =>
    match n.pending,n.worked with
    | some rd,false => { n with worked := true }.work rd
    | _,_ => n
  | .advance =>
    match n.pending,n.worked with
    | some rd,true => { n with pending := none, worked := false }.setNode (n.rn.advance rd)
    | _,_ => n
  | .get key => n.publish (.got key (n.kv key))

def input (n : App) (i : Input) : App := if n.halted.isSome then n else n.take i

def run (n : App) (inputs : List Input) : App := inputs.foldl input n

end

/-- The configuration that Start gives to the protocol node. -/
def config (id : Nat) : Config where
  id := id
  electionTick := 10
  heartbeatTick := 1
  storage := .newMemoryStorage
  maxSizePerMsg := 1024*1024
  maxInflightMsgs := 256
  maxUncommittedEntriesSize := 2^30

section

variable [Raftpb]

/-- StartNode on a storage that was just reset; an error of Bootstrap is only logged. -/
def startNode (marshal : ConfChange → Bytes) (peers : List Peer) (id : Nat) (draws : List Nat) :
    Except Panic RawNode :=
  if peers.isEmpty then .error .noPeersGiven
  else do
    let rn ← RawNode.newRawNode (config id) draws
    match ← rn.bootstrap marshal peers with
    | .error _ => .ok rn
    | .ok rn => .ok rn

/-- newNode and Start. -/
def start (marshal : ConfChange → Bytes) (peers : List Peer) (id : Nat) (draws : List Nat) :
    Except Panic App := do
  let rn ← startNode marshal peers id draws
  .ok { id := id, rn := rn }

/-- Restart resets the storage and starts a new protocol node; the state of the node and
its store stay as they are. It is meant for a node that is not halted, since Stop never
returns on a halted one. What was observed before is dropped. -/
def restart (marshal : ConfChange → Bytes) (peers : List Peer) (draws : List Nat) (n : App) :
    Except Panic App := do
  let rn ← startNode marshal peers n.id draws
  .ok { n with
    rn := rn
    obs := []
    pending := none
    worked := false
    halted := none }

end

end App

end RaftTesting
