import RaftTesting.Protocol.RawNode

namespace RaftTesting

/-- The calls that the application makes on its node. -/
inductive Call where
  | campaign
  | propose (ents : List Entry)
  | readIndex (ctx : Bytes)
  | transferLeader (transferee : Nat)
  | reportUnreachable (id : Nat)
  | reportSnapshot (id : Nat) (reject : Bool)
  deriving DecidableEq,Repr

/-- The message that the call steps the raft with. -/
def Call.message (id : Nat) : Call → Message
  | .campaign => { type := .msgHup }
  | .propose ents => { type := .msgProp, fromId := id, entries := ents }
  | .readIndex ctx =>
      { type := .msgReadIndex, entries := [{ (default : Entry) with data := ctx }] }
  | .transferLeader transferee => { type := .msgTransferLeader, fromId := transferee }
  | .reportUnreachable id => { type := .msgUnreachable, fromId := id }
  | .reportSnapshot id reject => { type := .msgSnapStatus, fromId := id, reject := reject }

/-- A node with the loop around it: the Ready it works on, whether that is in
storage, and which of its committed entries are still to be applied. -/
structure Host where
  rn : RawNode
  pending : Option Ready := none
  saved : Bool := false
  toApply : List Entry := []
  deriving DecidableEq

/-- Steps, ticks and calls may come at any time, also while a Ready is worked on. -/
inductive Event where
  | recv (m : Message)
  | call (c : Call)
  | tick
  | ready
  | save
  | apply
  | advance
  deriving DecidableEq

/-- What raftloop writes to storage; the error of ApplySnapshot is ignored there. -/
def Ready.save (rd : Ready) (ms : MemoryStorage) : Except Panic MemoryStorage :=
  let ms := if isEmptySnap rd.snapshot then ms else
    match ms.applySnapshot rd.snapshot with
    | .ok ms => ms
    | .error _ => ms
  ms.append rd.entries

namespace Host

section

variable [Raftpb]

def step (h : Host) (m : Message) : Except Panic Host := do
  let (rn,_) ← h.rn.stepRaft m
  .ok { h with rn := rn }

/-- A configuration entry is decoded and applied; an entry that the leader accepted
can be decoded. -/
def applyEntry (h : Host) (e : Entry) : Except Panic Host := do
  match ← Raft.confChangeOf e with
  | none => .ok h
  | some cc => do
    let (rn,_) ← h.rn.applyConfChange cc
    .ok { h with rn := rn }

/-- The host after an event, with the messages it hands to the transport. An event
whose turn it is not leaves the host as it is. -/
def act (h : Host) : Event → Except Panic (Host × List Message)
  | .recv m => do
    let h ← h.step m
    .ok (h,[])
  | .call c => do
    let h ← h.step (c.message h.rn.raft.id)
    .ok (h,[])
  | .tick => do
    let rn ← h.rn.tick
    .ok ({ h with rn := rn },[])
  | .ready =>
    match h.pending with
    | some _ => .ok (h,[])
    | none => do
      let (rn,rd) ← h.rn.ready
      .ok (⟨rn,some rd,false,rd.committedEntries⟩,rd.messages)
  | .save =>
    match h.pending,h.saved with
    | some rd,false => do
      let ms ← rd.save h.rn.raft.raftLog.storage
      let r := h.rn.raft.setLog { h.rn.raft.raftLog with storage := ms }
      .ok ({ h with rn := { h.rn with raft := r }, saved := true },[])
    | _,_ => .ok (h,[])
  | .apply =>
    match h.toApply,h.saved with
    | e::es,true => do
      let h ← h.applyEntry e
      .ok ({ h with toApply := es },[])
    | _,_ => .ok (h,[])
  | .advance =>
    match h.pending,h.saved,h.toApply with
    | some rd,true,[] => do
      let rn ← h.rn.advance rd
      .ok ({ h with rn := rn, pending := none, saved := false },[])
    | _,_,_ => .ok (h,[])

end

end Host

/-- The message that an event steps the node with. -/
def Event.message (id : Nat) : Event → Option Message
  | .recv m => some m
  | .call c => some (c.message id)
  | _ => none

namespace Host

section

variable [Raftpb]

/-- What can happen at an event, with what is handed to the transport. -/
inductive Does (h : Host) : Event → Host → List Message → Prop
  | stay {e : Event} : Does h e h []
  | step {e : Event} {m : Message} {r : Raft} {err : Option StepErr}
      (hm : e.message h.rn.raft.id=some m) (hr : h.rn.raft.step m=.ok (r,err)) :
      Does h e { h with rn := { h.rn with raft := r } } []
  | tick {r : Raft} (hr : h.rn.raft.tick=.ok r) :
      Does h .tick { h with rn := { h.rn with raft := r } } []
  | ready {rn : RawNode} {rd : Ready} (hp : h.pending=none) (hr : h.rn.ready=.ok (rn,rd)) :
      Does h .ready ⟨rn,some rd,false,rd.committedEntries⟩ rd.messages
  | save {rd : Ready} {ms : MemoryStorage} (hp : h.pending=some rd) (hs : h.saved=false)
      (hms : rd.save h.rn.raft.raftLog.storage=.ok ms) : Does h .save { h with
        rn := { h.rn with raft := h.rn.raft.setLog { h.rn.raft.raftLog with storage := ms } }
        saved := true } []
  | apply {e : Entry} {es : List Entry} {h' : Host} (ha : h.toApply=e::es)
      (he : h.applyEntry e=.ok h') : Does h .apply { h' with toApply := es } []
  | advance {rd : Ready} {rn : RawNode} (hp : h.pending=some rd) (hs : h.saved=true)
      (ha : h.toApply=[]) (hr : h.rn.advance rd=.ok rn) :
      Does h .advance { h with rn := rn, pending := none, saved := false } []

theorem step_does {h h' : Host} {e : Event} {m : Message} (hm : e.message h.rn.raft.id=some m)
    (hs : h.step m=.ok h') : h.Does e h' [] := by
  obtain ⟨⟨rn,err⟩,h1,h2⟩ := bind_eq_ok.mp hs
  obtain ⟨⟨r,err'⟩,hr,h3⟩ := bind_eq_ok.mp h1
  cases h3
  cases h2
  exact .step hm hr

theorem act_does {h h' : Host} {e : Event} {ms : List Message} (ha : h.act e=.ok (h',ms)) :
    h.Does e h' ms := by
  cases e with
  | recv m =>
    obtain ⟨h1,hs,ha⟩ := bind_eq_ok.mp ha
    cases ha
    exact step_does rfl hs
  | call c =>
    obtain ⟨h1,hs,ha⟩ := bind_eq_ok.mp ha
    cases ha
    exact step_does rfl hs
  | tick =>
    obtain ⟨rn,ht,ha⟩ := bind_eq_ok.mp ha
    cases ha
    obtain ⟨r,hr,ht⟩ := bind_eq_ok.mp ht
    cases ht
    exact .tick hr
  | ready =>
    simp only [act] at ha
    split at ha
    · cases ha
      exact .stay
    · rename_i hp
      obtain ⟨⟨rn,rd⟩,hr,ha⟩ := bind_eq_ok.mp ha
      cases ha
      exact .ready hp hr
  | save =>
    simp only [act] at ha
    split at ha
    · rename_i rd hp hs
      obtain ⟨ms,hms,ha⟩ := bind_eq_ok.mp ha
      cases ha
      exact .save hp hs hms
    · cases ha
      exact .stay
  | apply =>
    simp only [act] at ha
    split at ha
    · rename_i e es hap _
      obtain ⟨h1,he,ha⟩ := bind_eq_ok.mp ha
      cases ha
      exact .apply hap he
    · cases ha
      exact .stay
  | advance =>
    simp only [act] at ha
    split at ha
    · rename_i rd hp hs hap
      obtain ⟨rn,hr,ha⟩ := bind_eq_ok.mp ha
      cases ha
      exact .advance hp hs hap hr
    · cases ha
      exact .stay

end

end Host

end RaftTesting
