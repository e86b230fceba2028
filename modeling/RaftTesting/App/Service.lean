import RaftTesting.App.Loop

namespace RaftTesting

/-- What the servers write, key and value by gob and changes by protobuf, they can read. -/
structure Codec [Raftpb] [Gob] where
  encode : Bytes → Bytes → Bytes
  marshal : ConfChange → Bytes
  decode_encode : ∀ key val, Gob.decode (encode key val)=some (key,val)
  unmarshal_marshal : ∀ cc, (Raftpb.unmarshalConfChange (marshal cc)).isSome=true

/-- A request to the HTTP API: the body, none if it cannot be read, and what ParseUint makes of
the path, none on an error. -/
inductive HttpRequest where
  | put (key : Bytes) (body : Option Bytes)
  | get (key : Bytes)
  | post (nodeID : Option Nat) (body : Option Bytes)
  | delete (nodeID : Option Nat)
  | other
  deriving DecidableEq

inductive HttpResponse where
  | ok (val : Bytes)
  | noContent
  | badRequest
  | notFound
  | methodNotAllowed
  deriving DecidableEq

namespace App

/-- The process is there to answer, also when raftloop waits forever in Stop. -/
def alive (n : App) : Bool :=
  match n.halted with
  | none | some .stopping => true
  | some _ => false

/-- sendMessages puts the configuration of the node's own state on a snapshot. -/
def stamped (n : App) (m : Message) : Message :=
  if m.type=.msgSnap then { m with snapshot := { m.snapshot with confState := n.state.confState } }
  else m

/-- What raftloop hands to the transport while it works on a Ready, once the entries are in
storage. -/
def outgoing (n : App) : List Message :=
  match n.halted,n.pending,n.worked with
  | none,some rd,false =>
    match rd.save n.rn.raft.raftLog.storage with
    | .ok _ => rd.messages.map n.stamped
    | .error _ => []
  | _,_,_ => []

section

variable [Raftpb] [Gob]

/-- raftloop receives the Ready that the protocol node has to offer, if it waits for one. -/
def receive (n : App) : App :=
  if n.halted.isSome || n.pending.isSome || !n.rn.hasReady then n
  else
    match n.rn.readyWithoutAccept with
    | .error p => { n with halted := some (.panic p) }
    | .ok rd => n.input (.ready rd)

end

end App

/-- A node with its HTTP API, which puts what it is asked to propose into channels. -/
structure Server where
  app : App
  proposeC : List Bytes := []
  confChangeC : List ConfChange := []

namespace Server

/-- Both channels are made for ten elements. -/
def capacity : Nat := 10

section

variable [Raftpb] [Gob] (C : Codec)

/-- A proposal waits while its channel is full; it gets no answer then, and may come again. -/
def propose (s : Server) (data : Bytes) : Server × Option HttpResponse :=
  if s.proposeC.length<capacity then
    ({ s with proposeC := s.proposeC++[data] },some .noContent)
  else (s,none)

def change (s : Server) (cc : ConfChange) : Server × Option HttpResponse :=
  if s.confChangeC.length<capacity then
    ({ s with confChangeC := s.confChangeC++[cc] },some .noContent)
  else (s,none)

/-- ServeHTTP. -/
def serveHTTP (s : Server) (r : HttpRequest) : Server × Option HttpResponse :=
  if !s.app.alive then (s,none)
  else
    match r with
    | .put _ none => (s,some .badRequest)
    | .put key (some val) => s.propose (C.encode key val)
    | .get key =>
      match s.app.kv key with
      | some val => (s,some (.ok val))
      | none => (s,some .notFound)
    | .post _ none | .post none _ => (s,some .badRequest)
    | .post (some nodeID) (some url) =>
      s.change { type := .addNode, nodeID := nodeID, context := url }
    | .delete none => (s,some .badRequest)
    | .delete (some nodeID) => s.change { type := .removeNode, nodeID := nodeID }
    | .other => (s,some .methodNotAllowed)

/-- What happens at a server: requests, the two cases of poll, and what its node does. -/
inductive Event where
  | request (r : HttpRequest)
  | pollPropose
  | pollConfChange
  | tick (fired : Bool)
  | recv (m : Message)
  | ready
  | work
  | advance
  deriving DecidableEq

/-- What poll has taken from a channel is proposed; that waits until the node has a leader. -/
def poll (s : Server) (e : Entry) (taken : Server) : Server :=
  if s.app.rn.raft.lead=noNode then s
  else { taken with app := s.app.input (.call (.propose [e])) }

/-- The server after an event, with what it hands to the transport. -/
def act (s : Server) : Event → Server × List Message
  | .request r => ((s.serveHTTP C r).1,[])
  | .pollPropose =>
    match s.proposeC with
    | [] => (s,[])
    | data::rest => (s.poll { (default : Entry) with data := data } { s with proposeC := rest },[])
  | .pollConfChange =>
    match s.confChangeC with
    | [] => (s,[])
    | cc::rest =>
      (s.poll { (default : Entry) with type := .entryConfChange, data := C.marshal cc }
        { s with confChangeC := rest },[])
  | .tick fired => ({ s with app := s.app.input (.tick fired) },[])
  | .recv m => ({ s with app := s.app.input (.recv m) },[])
  | .ready => ({ s with app := s.app.receive },[])
  | .work => ({ s with app := s.app.input .work },s.app.outgoing)
  | .advance => ({ s with app := s.app.input .advance },[])

end

end Server

/-- The servers, and all messages they have ever handed to the network. It may drop, delay,
reorder and duplicate. -/
structure Service where
  servers : SortedMap Server
  net : List Message := []

namespace Service

section

variable [Raftpb] [Gob] (C : Codec)

def enabled (s : Service) (i : Nat) : Server.Event → Bool
  | .recv m => decide (m ∈ s.net) && decide (m.toId=i)
  | _ => true

/-- Event e happens at server i. -/
def act (s : Service) (i : Nat) (e : Server.Event) : Service :=
  match s.servers.get? i with
  | none => s
  | some a =>
    if s.enabled i e then
      let (a,ms) := a.act C e
      ⟨s.servers.insert i a,s.net++ms⟩
    else s

def run (s : Service) (es : List (Nat × Server.Event)) : Service :=
  es.foldl (fun s x => s.act C x.1 x.2) s

omit [Raftpb] [Gob] in
/-- newNode numbers the peers from one. -/
def peers (urls : List Bytes) : List Peer := urls.mapIdx (fun i url => ⟨i+1,url⟩)

/-- A process that panics when it starts is not there. -/
def startServer (ps : List Peer) (draws : Nat → List Nat) (servers : SortedMap Server)
    (p : Peer) : SortedMap Server :=
  match App.start C.marshal ps p.id (draws p.id) with
  | .ok n => servers.insert p.id { app := n }
  | .error _ => servers

/-- Every peer starts its server with the same list of peers. -/
def start (urls : List Bytes) (draws : Nat → List Nat) : Service where
  servers := (peers urls).foldl (startServer C (peers urls) draws) ∅

end

end Service

end RaftTesting
