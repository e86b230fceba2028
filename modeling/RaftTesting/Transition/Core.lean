import Mathlib.Logic.Relation
import RaftTesting.Protocol.RawNode
import RaftTesting.Tracker.Window

namespace RaftTesting

/-- The part of a node that its safety rests on: everything but timers, flow
limits and the notion of who leads. -/
structure Core where
  id : Nat
  term : Nat
  vote : Nat
  state : StateType
  raftLog : RaftLog
  prs : ProgressTracker
  msgs : List Message
  pendingConfIndex : Nat
  readOnly : ReadOnly
  pendingReadIndexMessages : List Message
  readStates : List ReadState

def Raft.core (r : Raft) : Core where
  id := r.id
  term := r.term
  vote := r.vote
  state := r.state
  raftLog := r.raftLog
  prs := r.prs
  msgs := r.msgs
  pendingConfIndex := r.pendingConfIndex
  readOnly := r.readOnly
  pendingReadIndexMessages := r.pendingReadIndexMessages
  readStates := r.readStates

/-- The message types whose handling relies on their term. -/
def MessageType.needsTerm : MessageType → Bool
  | .msgApp | .msgAppResp | .msgVote | .msgVoteResp | .msgSnap | .msgHeartbeat
  | .msgHeartbeatResp => true
  | _ => false

/-- send attaches a term to every message but the local and forwarded ones. -/
def Message.Stamped (m : Message) : Prop := m.type.needsTerm=true → m.term≠0

/-- The configuration of a snapshot that a node has been restored from. -/
def ConfState.Accepted (cs : ConfState) : Prop := ∃ maxInflight lastIndex t,
  Changer.restore ⟨.makeProgressTracker maxInflight,lastIndex⟩ cs=.ok t ∧
  cs.SameIds ({ ProgressTracker.makeProgressTracker maxInflight with
    config := t.cfg, progress := t.prs } : ProgressTracker).confState

namespace Core

def setLog (c : Core) (l : RaftLog) : Core := { c with raftLog := l }

def setProgress (c : Core) (id : Nat) (pr : Progress) : Core :=
  { c with prs := c.prs.setProgress id pr }

def say (c : Core) (m : Message) : Core := { c with msgs := c.msgs++[m] }

def reset (c : Core) (term : Nat) : Core :=
  { c with
    term := term
    vote := if c.term≠term then noNode else c.vote
    prs := { c.prs with
      votes := ∅
      progress := c.prs.progress.mapVals (fun id pr => {
        matchIndex := if id=c.id then c.raftLog.lastIndex else 0
        next := c.raftLog.lastIndex+1
        state := .stateProbe
        pendingSnapshot := 0
        recentActive := false
        probeSent := false
        inflights := .newInflights c.prs.maxInflight
        isLearner := pr.isLearner }) }
    pendingConfIndex := 0
    readOnly := .newReadOnly c.readOnly.option }

/-- What hup checks before it starts a campaign. -/
structure HupOk [Raftpb] (c : Core) : Prop where
  tracked : ∃ pr, c.prs.progress.get? c.id=some pr ∧ pr.isLearner=false
  settled : c.raftLog.hasPendingSnapshot=false
  checked : ∃ ents, c.raftLog.slice (c.raftLog.applied+1) (c.raftLog.committed+1) noLimit=
    .ok (.ok ents) ∧ (Raft.numOfPendingConf ents=0 ∨ c.raftLog.committed≤c.raftLog.applied)

/-- The flow control of a peer may move Next, but only to a position that Match or a
pending snapshot vouches for. -/
structure Drift (pr pr' : Progress) : Prop where
  matchIndex : pr'.matchIndex=pr.matchIndex
  isLearner : pr'.isLearner=pr.isLearner
  pendingSnapshot : pr'.pendingSnapshot≤pr.pendingSnapshot
  next : pr'.next=pr.next ∨ pr'.next=pr.matchIndex+1 ∨
    pr'.next=pr.pendingSnapshot+1 ∧ pr.matchIndex≤pr.pendingSnapshot

/-- The flow control keeps the window of the peer in order. -/
structure Flow (pr pr' : Progress) : Prop extends Drift pr pr' where
  paced : ∀ n, pr.Paced n → pr'.Paced n

/-- A rejection moves Next back. -/
structure Back (pr pr' : Progress) : Prop where
  matchIndex : pr'.matchIndex=pr.matchIndex
  isLearner : pr'.isLearner=pr.isLearner
  pendingSnapshot : pr'.pendingSnapshot≤pr.pendingSnapshot
  next : pr'.next=pr.next ∨ pr'.next=1 ∨ pr'.next=pr.matchIndex+1 ∨
    (1≤pr'.next ∧ pr'.next≤usub pr.next 1)
  paced : ∀ n, pr.Paced n → pr'.Paced n

/-- The answer to a read request: a read state of this node or a reply to the origin. -/
def answerRead (c : Core) (req : Message) (index : Nat) : Except Panic Core :=
  if req.fromId=noNode ∨ req.fromId=c.id then do
    let ctx ← req.firstData
    .ok { c with readStates := c.readStates++[⟨index,ctx⟩] }
  else .ok (c.say {
    type := .msgReadIndexResp
    toId := req.fromId
    fromId := c.id
    term := c.term
    index := index
    entries := req.entries })

def answerAll (c : Core) (rss : List ReadIndexStatus) : Except Panic Core :=
  rss.foldlM (fun c rs => c.answerRead rs.req rs.index) c

/-- The steps that serve reads. S holds of the messages that may be delivered. -/
inductive Read (S : Message → Prop) : Core → Core → Prop
  | park {c m} : S m → m.type=.msgReadIndex → c.state=.stateLeader →
      Read S c { c with pendingReadIndexMessages := c.pendingReadIndexMessages++[m] }
  | unpark {c} : Read S c { c with pendingReadIndexMessages := [] }
  | register {c m ro ctx} : (S m ∧ m.type=.msgReadIndex) ∨ m∈c.pendingReadIndexMessages →
      c.state=.stateLeader →
      RaftLog.zeroTermOnErrCompacted (c.raftLog.term c.raftLog.committed)=.ok c.term →
      c.readOnly.option=.readOnlySafe → c.readOnly.addRequest c.raftLog.committed m=.ok ro →
      m.firstData=.ok ctx → Read S c { c with readOnly := (ro.recvAck c.id ctx).1 }
  | lease {c c' m} : c.readOnly.option=.readOnlyLeaseBased → c.state=.stateLeader →
      c.answerRead m c.raftLog.committed=.ok c' → Read S c c'
  | singleton {c c' m} : S m → m.type=.msgReadIndex → c.state=.stateLeader →
      c.prs.isSingleton=true → c.answerRead m c.raftLog.committed=.ok c' → Read S c c'
  | ack {c m} : S m → m.type=.msgHeartbeatResp → m.term=c.term → c.state=.stateLeader →
      m.context≠[] → c.readOnly.option=.readOnlySafe →
      Read S c { c with readOnly := (c.readOnly.recvAck m.fromId m.context).1 }
  | release {c c' m ro rss} : S m → m.type=.msgHeartbeatResp → c.state=.stateLeader →
      c.readOnly.option=.readOnlySafe →
      c.prs.config.voters.voteResult (c.readOnly.acksOf m.context)=.voteWon →
      c.readOnly.advance m=.ok (ro,rss) →
      ({ c with readOnly := ro } : Core).answerAll rss=.ok c' → Read S c c'
  | learn {c m} {e : Entry} : S m → m.type=.msgReadIndexResp → m.entries=[e] →
      Read S c { c with readStates := c.readStates++[⟨m.index,e.data⟩] }

/-- The messages that are sent without a rule of their own: they carry no promise,
except that a vote request tells the end of the candidate's log. -/
def Plain (S : Message → Prop) (c : Core) (m : Message) : Prop :=
  match m.type with
  | .msgVote => m.fromId=c.id ∧ c.state=.stateCandidate ∧ m.term=c.term ∧
      m.index=c.raftLog.lastIndex ∧ c.raftLog.lastTerm=.ok m.logTerm
  | .msgVoteResp => m.fromId=c.id ∧ m.reject=true
  | .msgAppResp => m.fromId=c.id ∧ m.term=c.term ∧ (m.reject=true ∨ m.index=0)
  | .msgPreVote | .msgPreVoteResp | .msgTimeoutNow | .msgProp | .msgTransferLeader => True
  | .msgReadIndex => m.term=0 ∧ ∃ req, S req ∧ req.type=.msgReadIndex ∧ req.entries=m.entries
  | _ => False

/-- The sends of a node, and the bookkeeping about its peers that goes with them. -/
inductive Send [Raftpb] (S : Message → Prop) : Core → Core → Prop
  | app {c dst pr pr' term ents n} : c.state=.stateLeader →
      c.prs.progress.get? dst=some pr → c.raftLog.term (usub pr.next 1)=.ok term →
      c.raftLog.entries pr.next n=.ok (.ok ents) → Raft.progressSent pr ents=.ok pr' →
      Send S c ((c.setProgress dst pr').say {
        type := .msgApp
        toId := dst
        fromId := c.id
        term := c.term
        index := usub pr.next 1
        logTerm := term
        entries := ents
        commit := c.raftLog.committed })
  | snap {c dst pr} : c.state=.stateLeader → c.prs.progress.get? dst=some pr →
      isEmptySnap c.raftLog.snapshot=false →
      Send S c ((c.setProgress dst (pr.becomeSnapshot c.raftLog.snapshot.index)).say {
        type := .msgSnap
        toId := dst
        fromId := c.id
        term := c.term
        snapshot := c.raftLog.snapshot })
  | heartbeat {c dst pr ctx} : c.state=.stateLeader → c.prs.progress.get? dst=some pr →
      (ctx=[] ∨ ctx∈c.readOnly.readIndexQueue ∨
        (c.readOnly.pendingReadIndex.lookup ctx).isSome) →
      Send S c (c.say {
        type := .msgHeartbeat
        toId := dst
        fromId := c.id
        term := c.term
        commit := min pr.matchIndex c.raftLog.committed
        context := ctx })
  | plain {c m} : Plain S c m → m.Stamped → Send S c (c.say m)
  | track {c ps} : (∀ id, Option.Rel Flow (c.prs.progress.get? id) (ps.get? id)) →
      Send S c { c with prs := { c.prs with progress := ps } }
  | back {c m pr pr'} : S m → m.type=.msgAppResp → m.reject=true →
      c.prs.progress.get? m.fromId=some pr → Back pr pr' → Send S c (c.setProgress m.fromId pr')
  | read {c c'} : Read S c c' → Send S c c'

/-- The bookkeeping of the MsgProp loop: i counts the entries before, p is the
pending index so far. -/
inductive Screened (last applied : Nat) : Nat → Nat → List Entry → Nat → Prop
  | nil {i p} : Screened last applied i p [] p
  | keep {i p e es p'} : e.isConf=false → Screened last applied (i+1) p es p' →
      Screened last applied i p (e::es) p'
  | pend {i p e es p'} : p≤applied → Screened last applied (i+1) (last+i+1) es p' →
      Screened last applied i p (e::es) p'

section

variable {last applied i p p' : Nat} {es : List Entry}

theorem Screened.le (h : Screened last applied i p es p') (ha : applied≤last) : p≤p' := by
  induction h with
  | nil => exact le_rfl
  | keep _ _ ih => exact ih
  | pend hp _ ih => omega

/-- The pending index reaches every configuration entry of the batch. -/
theorem Screened.covers (h : Screened last applied i p es p') (ha : applied≤last) {k : Nat}
    {e : Entry} (he : es[k]?=some e) (hc : e.isConf=true) : last+i+k+1≤p' := by
  induction h generalizing k with
  | nil => cases he
  | keep hno _ ih =>
    cases k with
    | zero =>
      cases he
      rw [hno] at hc
      cases hc
    | succ k =>
      have := ih he
      omega
  | pend hp hrest ih =>
    cases k with
    | zero => exact hrest.le ha
    | succ k =>
      have := ih he
      omega

/-- A configuration entry is let through only when what was pending before it is applied. -/
theorem Screened.settled (h : Screened last applied i p es p') {k : Nat} {e : Entry}
    (he : es[k]?=some e) (hc : e.isConf=true) : p≤applied ∧
      ∀ k' e', k' < k → es[k']?=some e' → e'.isConf=true → last+i+k'+1≤applied := by
  induction h generalizing k with
  | nil => cases he
  | keep hno _ ih =>
    cases k with
    | zero =>
      cases he
      rw [hno] at hc
      cases hc
    | succ k =>
      obtain ⟨hp,hrest⟩ := ih he
      refine ⟨hp,fun k' e' hk he' hc' => ?_⟩
      cases k' with
      | zero =>
        cases he'
        rw [hno] at hc'
        cases hc'
      | succ k' =>
        have := hrest k' e' (by omega) he' hc'
        omega
  | pend hp _ ih =>
    cases k with
    | zero => exact ⟨hp,fun _ _ hk => absurd hk (Nat.not_lt_zero _)⟩
    | succ k =>
      obtain ⟨hhead,hrest⟩ := ih he
      refine ⟨hp,fun k' e' hk he' hc' => ?_⟩
      cases k' with
      | zero => exact hhead
      | succ k' =>
        have := hrest k' e' (by omega) he' hc'
        omega

/-- At most one configuration entry of a batch is let through, and none while another one is
pending. -/
theorem Screened.few (h : Screened last applied i p es p') (ha : applied≤last) :
    (es.filter Entry.isConf).length≤1 ∧ (applied<p → es.filter Entry.isConf=[]) := by
  induction h with
  | nil => exact ⟨Nat.zero_le _,fun _ => rfl⟩
  | keep hno _ ih =>
    rw [List.filter_cons_of_neg (by simp [hno])]
    exact ih
  | @pend i _ e es _ hp _ ih =>
    have hrest := ih.2 (by omega)
    refine ⟨?_,fun hlt => absurd hp (by omega)⟩
    rw [List.filter_cons,hrest]
    split_ifs <;> simp

end

/-- The steps of a node that its functions are made of. -/
inductive Move [Raftpb] (S : Message → Prop) : Core → Core → Prop
  | send {c c'} : Send S c c' → Move S c c'
  | follow {c term} : c.term≤term → Move S c { c.reset term with state := .stateFollower }
  | preStand {c} : c.state≠.stateLeader → c.HupOk → Move S c { c with
      prs := c.prs.resetVotes, state := .statePreCandidate }
  | stand {c} : c.state≠.stateLeader → c.state=.statePreCandidate ∨ c.HupOk →
      Move S c { c.reset (c.term+1) with vote := c.id, state := .stateCandidate }
  | poll {c id v} : c.state=.statePreCandidate ∨ c.state=.stateCandidate →
      (c.state=.stateCandidate → v=true → id=c.id ∨ ∃ m, S m ∧ m.type=.msgVoteResp ∧
        m.fromId=id ∧ m.reject=false ∧ m.term=c.term) →
      Move S c { c with prs := c.prs.recordVote id v }
  | elect {c pr} : c.state=.stateCandidate → c.prs.tallyVotes=.voteWon →
      (c.reset c.term).prs.progress.get? c.id=some pr → Move S c { (c.reset c.term).setProgress c.id
        pr.becomeReplicate with state := .stateLeader, pendingConfIndex := c.raftLog.lastIndex }
  | append {c es p l pr} : c.state=.stateLeader →
      Screened c.raftLog.lastIndex c.raftLog.applied 0 c.pendingConfIndex es p →
      c.raftLog.append (Raft.stampEntries c.term c.raftLog.lastIndex es)=.ok l →
      c.prs.progress.get? c.id=some pr →
      (∃ m, S m ∧ m.type=.msgProp) ∨ pr.inflights.window=[] →
      Move S c { (c.setLog l).setProgress c.id
        (pr.maybeUpdate l.lastIndex).1 with pendingConfIndex := p }
  | pend {c es p} : c.state=.stateLeader →
      Screened c.raftLog.lastIndex c.raftLog.applied 0 c.pendingConfIndex es p →
      Move S c { c with pendingConfIndex := p }
  | commit {c l} : c.state=.stateLeader →
      c.raftLog.maybeCommit c.prs.committed c.term=.ok (l,true) → Move S c (c.setLog l)
  | ack {c m pr pr'} : c.state=.stateLeader → S m → m.type=.msgAppResp → m.term=c.term →
      m.reject=false → c.prs.progress.get? m.fromId=some pr →
      Drift (pr.maybeUpdate m.index).1 pr' → (∀ n, pr.Paced n → pr'.Paced n) →
      Move S c (c.setProgress m.fromId pr')
  | vote {c m} : S m → m.type=.msgVote → m.term=c.term → c.vote=m.fromId ∨ c.vote=noNode →
      c.raftLog.isUpToDate m.index m.logTerm=.ok true →
      Move S c ({ c with vote := m.fromId }.say {
        type := .msgVoteResp, toId := m.fromId, fromId := c.id, term := c.term })
  | accept {c m l last} : S m → m.type=.msgApp → m.term=c.term → c.state=.stateFollower →
      c.raftLog.committed ≤ m.index →
      c.raftLog.maybeAppend m.index m.logTerm m.commit m.entries=.ok (l,some last) →
      Move S c ((c.setLog l).say {
        type := .msgAppResp, toId := m.fromId, fromId := c.id, term := c.term, index := last })
  | stale {c m} : S m → m.type=.msgApp → m.term=c.term → c.state=.stateFollower →
      m.index<c.raftLog.committed →
      Move S c (c.say {
        type := .msgAppResp
        toId := m.fromId
        fromId := c.id
        term := c.term
        index := c.raftLog.committed })
  | beat {c m} : S m → m.type=.msgHeartbeat → m.term=c.term → c.state=.stateFollower →
      (c.raftLog.commitTo m.commit).2=true →
      Move S c ((c.setLog (c.raftLog.commitTo m.commit).1).say {
        type := .msgHeartbeatResp
        toId := m.fromId
        fromId := c.id
        term := c.term
        context := m.context })
  | skip {c m} : S m → m.type=.msgSnap → m.term=c.term → c.state=.stateFollower →
      Move S c (c.say {
        type := .msgAppResp
        toId := m.fromId
        fromId := c.id
        term := c.term
        index := c.raftLog.committed })
  | forward {c m} : S m → m.type=.msgSnap → m.term=c.term → c.state=.stateFollower →
      c.raftLog.committed < m.snapshot.index →
      c.raftLog.matchTerm m.snapshot.index m.snapshot.term=true →
      Move S c (c.setLog (c.raftLog.commitTo m.snapshot.index).1)
  | restore {c m} (prs : ProgressTracker) : S m → m.type=.msgSnap → m.term=c.term →
      c.state=.stateFollower →
      c.raftLog.committed < m.snapshot.index →
      c.raftLog.matchTerm m.snapshot.index m.snapshot.term=false →
      m.snapshot.confState.Accepted →
      Move S c ({ c with raftLog := c.raftLog.restore m.snapshot, prs := prs }.say {
        type := .msgAppResp
        toId := m.fromId
        fromId := c.id
        term := c.term
        index := (c.raftLog.restore m.snapshot).lastIndex })

abbrev Sends [Raftpb] (S : Message → Prop) : Core → Core → Prop := Relation.ReflTransGen (Send S)

abbrev Moves [Raftpb] (S : Message → Prop) : Core → Core → Prop := Relation.ReflTransGen (Move S)

/-- A new term does not make a voter of a learner. -/
theorem reset_tracked (c : Core) (term id : Nat) :
    ((c.reset term).prs.progress.get? id).map (·.isLearner)=
      (c.prs.progress.get? id).map (·.isLearner) := by
  change ((c.prs.progress.mapVals _).get? id).map _=_
  rw [SortedMap.get?_mapVals]
  cases c.prs.progress.get? id <;> rfl

/-- What serving reads and sending leave alone. -/
structure Frame (c c' : Core) : Prop where
  id : c'.id=c.id
  term : c'.term=c.term
  vote : c'.vote=c.vote
  state : c'.state=c.state
  raftLog : c'.raftLog=c.raftLog
  config : c'.prs.config=c.prs.config
  votes : c'.prs.votes=c.prs.votes
  pendingConfIndex : c'.pendingConfIndex=c.pendingConfIndex
  option : c'.readOnly.option=c.readOnly.option
  tracked : ∀ id, (c'.prs.progress.get? id).map (·.isLearner)=
    (c.prs.progress.get? id).map (·.isLearner)

theorem Frame.refl (c : Core) : Frame c c :=
  ⟨rfl,rfl,rfl,rfl,rfl,rfl,rfl,rfl,rfl,fun _ => rfl⟩

theorem Frame.trans {c c' c'' : Core} (h : Frame c c') (h' : Frame c' c'') : Frame c c'' where
  id := h'.id.trans h.id
  term := h'.term.trans h.term
  vote := h'.vote.trans h.vote
  state := h'.state.trans h.state
  raftLog := h'.raftLog.trans h.raftLog
  config := h'.config.trans h.config
  votes := h'.votes.trans h.votes
  pendingConfIndex := h'.pendingConfIndex.trans h.pendingConfIndex
  option := h'.option.trans h.option
  tracked := fun id => (h'.tracked id).trans (h.tracked id)

/-- A step that leaves the log and the progress of the peers alone. -/
theorem Frame.of_same {c c' : Core} (h : c'={ c with
    msgs := c'.msgs
    readOnly := c'.readOnly
    pendingReadIndexMessages := c'.pendingReadIndexMessages
    readStates := c'.readStates }) (ho : c'.readOnly.option=c.readOnly.option) : Frame c c' := by
  constructor <;> first | exact ho | (intro id; rw [h]) | rw [h]

theorem answerRead_msgs {c c' : Core} {req : Message} {index : Nat}
    (h : c.answerRead req index=.ok c') :
    c'={ c with msgs := c'.msgs, readStates := c'.readStates } := by
  unfold answerRead at h
  split at h
  · obtain ⟨ctx,_,h⟩ := bind_eq_ok.mp h
    cases h
    rfl
  · cases h
    rfl

theorem answerRead_frame {c c' : Core} {req : Message} {index : Nat}
    (h : c.answerRead req index=.ok c') : Frame c c' := by
  have h' := answerRead_msgs h
  rw [h']
  exact Frame.of_same rfl rfl

theorem answerAll_frame {c c' : Core} {rss : List ReadIndexStatus}
    (h : c.answerAll rss=.ok c') : Frame c c' :=
  foldlM_rel Frame.refl (fun _ _ _ => Frame.trans) (fun _ _ _ _ => answerRead_frame) h

theorem recvAck_option (ro : ReadOnly) (id : Nat) (ctx : Bytes) :
    (ro.recvAck id ctx).1.option=ro.option := by
  unfold ReadOnly.recvAck
  split <;> rfl

theorem addRequest_option {ro ro' : ReadOnly} {index : Nat} {m : Message}
    (h : ro.addRequest index m=.ok ro') : ro'.option=ro.option := by
  obtain ⟨s,_,h⟩ := bind_eq_ok.mp h
  split at h <;> cases h <;> rfl

theorem advance_option {ro ro' : ReadOnly} {m : Message} {rss : List ReadIndexStatus}
    (h : ro.advance m=.ok (ro',rss)) : ro'.option=ro.option := by
  obtain ⟨res,_,h⟩ := bind_eq_ok.mp h
  cases res with
  | none => cases h; rfl
  | some rss' =>
    obtain ⟨pending,_,h⟩ := bind_eq_ok.mp h
    cases h
    rfl

theorem Read.frame {S : Message → Prop} {c c' : Core} (h : Read S c c') : Frame c c' := by
  cases h with
  | park | unpark | learn => exact Frame.of_same rfl rfl
  | register _ _ _ _ hadd _ =>
    exact Frame.of_same rfl ((recvAck_option _ _ _).trans (addRequest_option hadd))
  | lease _ _ h => exact answerRead_frame h
  | singleton _ _ _ _ h => exact answerRead_frame h
  | ack => exact Frame.of_same rfl (recvAck_option _ _ _)
  | release _ _ _ _ _ hadv hall =>
    exact (Frame.of_same rfl (advance_option hadv)).trans (answerAll_frame hall)

theorem answerRead_said {c c' : Core} {req : Message} {index : Nat}
    (h : c.answerRead req index=.ok c') :
    c'.prs=c.prs ∧ ∀ m ∈ c'.msgs, m ∈ c.msgs ∨ m.type=.msgReadIndexResp := by
  unfold answerRead at h
  split at h
  · obtain ⟨ctx,_,h⟩ := bind_eq_ok.mp h
    cases h
    exact ⟨rfl,fun m hm => .inl hm⟩
  · cases h
    refine ⟨rfl,fun m hm => ?_⟩
    rcases List.mem_append.mp hm with hm | hm
    · exact .inl hm
    · rw [List.mem_singleton.mp hm]
      exact .inr rfl

theorem answerAll_said {c c' : Core} {rss : List ReadIndexStatus} (h : c.answerAll rss=.ok c') :
    c'.prs=c.prs ∧ ∀ m ∈ c'.msgs, m ∈ c.msgs ∨ m.type=.msgReadIndexResp := by
  refine foldlM_rel (R := fun a b : Core =>
    b.prs=a.prs ∧ ∀ m ∈ b.msgs, m ∈ a.msgs ∨ m.type=.msgReadIndexResp)
    (fun _ => ⟨rfl,fun _ => .inl⟩) ?_ (fun _ _ _ _ => answerRead_said) h
  intro a b d hab hbd
  refine ⟨hbd.1.trans hab.1,fun m hm => ?_⟩
  rcases hbd.2 m hm with hm | hm
  · exact hab.2 m hm
  · exact .inr hm

/-- Serving reads does not touch the peers, and says nothing but read indexes. -/
theorem Read.said {S : Message → Prop} {c c' : Core} (h : Read S c c') :
    c'.prs=c.prs ∧ ∀ m ∈ c'.msgs, m ∈ c.msgs ∨ m.type=.msgReadIndexResp := by
  cases h with
  | park | unpark | learn | register | ack => exact ⟨rfl,fun m hm => .inl hm⟩
  | lease _ _ h => exact answerRead_said h
  | singleton _ _ _ _ h => exact answerRead_said h
  | release _ _ _ _ _ _ h =>
    have hsaid := answerAll_said h
    exact hsaid

theorem progressSent_same {pr pr' : Progress} {ents : List Entry}
    (h : Raft.progressSent pr ents=.ok pr') :
    pr'.matchIndex=pr.matchIndex ∧ pr'.isLearner=pr.isLearner ∧
      pr'.pendingSnapshot=pr.pendingSnapshot ∧
      (pr'.next=pr.next ∨ ∃ last, ents.getLast?=some last ∧ pr'.next=last.index+1) := by
  unfold Raft.progressSent at h
  split at h
  · cases h
    exact ⟨rfl,rfl,rfl,.inl rfl⟩
  · rename_i last hlast
    split at h
    · obtain ⟨i,_,h⟩ := bind_eq_ok.mp h
      cases h
      exact ⟨rfl,rfl,rfl,.inr ⟨last,hlast,rfl⟩⟩
    · cases h
      exact ⟨rfl,rfl,rfl,.inl rfl⟩
    · cases h

theorem setProgress_frame {c : Core} {id : Nat} {pr pr' : Progress}
    (hget : c.prs.progress.get? id=some pr) (hl : pr'.isLearner=pr.isLearner) :
    Frame c (c.setProgress id pr') := by
  constructor <;> first | rfl | intro id'
  simp only [setProgress,ProgressTracker.setProgress,SortedMap.get?_insert]
  split_ifs with h
  · simp [h,hget,hl]
  · rfl

theorem flow_isLearner {a b : Option Progress} (h : Option.Rel Flow a b) :
    b.map (·.isLearner)=a.map (·.isLearner) := by
  cases h with
  | some h => simp [h.isLearner]
  | none => rfl

theorem say_frame (c : Core) (m : Message) : Frame c (c.say m) := Frame.of_same rfl rfl

section

variable [Raftpb] {S : Message → Prop} {c c' : Core}

theorem Send.frame (h : Send S c c') : Frame c c' := by
  cases h with
  | app _ hget _ _ hpr =>
    exact (setProgress_frame hget (progressSent_same hpr).2.1).trans (say_frame _ _)
  | snap _ hget _ =>
    refine Frame.trans (setProgress_frame hget ?_) (say_frame _ _)
    rfl
  | heartbeat | plain => exact say_frame _ _
  | track h =>
    constructor <;> first | rfl | exact fun id => flow_isLearner (h id)
  | back _ _ _ hget hb => exact setProgress_frame hget hb.isLearner
  | read h => exact h.frame

theorem Sends.frame (h : Sends S c c') : Frame c c' := by
  induction h with
  | refl => exact .refl c
  | tail _ h ih => exact ih.trans h.frame

theorem Sends.moves (h : Sends S c c') : Moves S c c' :=
  Relation.ReflTransGen.mono (fun _ _ h => Move.send h) _ _ h

end

end Core

end RaftTesting
