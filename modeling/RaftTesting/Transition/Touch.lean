import RaftTesting.Transition.Core

namespace RaftTesting

/-- What an entry is about, wherever it stands in a log. -/
def Entry.payload (e : Entry) : EntryType × Bytes := (e.type,e.data)

/-- An entry that a leader may append: one that was proposed to it, or an empty one. -/
def Entry.Sourced (M : Message → Prop) (e : Entry) : Prop :=
  e=default ∨ ∃ m, M m ∧ m.type=.msgProp ∧ e ∈ m.entries

/-- The leader of a term shows itself by such a message. -/
def MessageType.leads : MessageType → Bool
  | .msgApp | .msgHeartbeat | .msgSnap => true
  | _ => false

/-- A peer shows by such a message that it is there. -/
def MessageType.answers : MessageType → Bool
  | .msgAppResp | .msgHeartbeatResp => true
  | _ => false

theorem Progress.becomeProbe_active (pr : Progress) :
    pr.becomeProbe.recentActive=pr.recentActive := by
  unfold becomeProbe
  split <;> rfl

namespace Raft

/-- What the leader keeps about its peers: the learners stay learners, and a peer gets active
only by its answer. -/
structure Tracks (M : Message → Prop) (own : Nat) (ps ps' : SortedMap Progress) : Prop where
  learner : ∀ id, (ps'.get? id).map (·.isLearner)=(ps.get? id).map (·.isLearner)
  active : ∀ id pr', ps'.get? id=some pr' → pr'.recentActive=true → id=own ∨
    (∃ pr, ps.get? id=some pr ∧ pr.recentActive=true) ∨
    ∃ m, M m ∧ m.type.answers=true ∧ m.fromId=id

/-- The entry at k is one of the node's own term. -/
def Owns (r : Raft) (k : Nat) : Prop :=
  RaftLog.zeroTermOnErrCompacted (r.raftLog.term k)=.ok r.term

/-- The entries do not fit into what the limit leaves. -/
def Full (r : Raft) (es : List Entry) : Prop :=
  0<r.uncommittedSize ∧ 0<payloadSum es ∧ r.maxUncommittedSize<r.uncommittedSize+payloadSum es

/-- The leader with the entries in its log and in its count. -/
def grown (r : Raft) (es : List Entry) (l : RaftLog) : Raft :=
  { r with uncommittedSize := r.uncommittedSize+payloadSum es, raftLog := l }

section

variable [Raftpb]

/-- What a node may put into its outbox. M holds of the messages that it has been given. -/
def Says (M : Message → Prop) (r : Raft) (n : Message) : Prop :=
  match n.type with
  | .msgApp => r.state=.stateLeader ∧ n.fromId=r.id ∧ n.term=r.term ∧
      ∃ i, r.raftLog.entries i r.maxMsgSize=.ok (.ok n.entries)
  | .msgHeartbeat | .msgSnap | .msgTimeoutNow =>
      r.state=.stateLeader ∧ n.fromId=r.id ∧ n.term=r.term
  | .msgVote => r.state=.stateCandidate ∧ n.fromId=r.id ∧ n.term=r.term
  | .msgPreVote => r.state=.statePreCandidate ∧ n.fromId=r.id ∧ n.term=r.term+1
  | .msgAppResp | .msgHeartbeatResp | .msgReadIndexResp => n.fromId=r.id ∧ n.term=r.term
  | .msgVoteResp | .msgPreVoteResp => n.fromId=r.id
  | .msgProp | .msgReadIndex | .msgTransferLeader => r.state=.stateFollower ∧ r.lead≠noNode ∧
      n.toId=r.lead ∧ ∃ m, M m ∧ m.type=n.type ∧ m.entries=n.entries
  | _ => False

/-- Sending, and the bookkeeping about peers and reads that goes with it. -/
inductive Post (M : Message → Prop) : Raft → Raft → Prop
  | say {r n} : Says M r n → Post M r { r with msgs := r.msgs++[n] }
  | track {r} {ps : SortedMap Progress} : Tracks M r.id r.prs.progress ps →
      Post M r { r with prs := { r.prs with progress := ps } }
  | reads {r} (ro : ReadOnly) (rss : List ReadState) (ms : List Message) : Post M r { r with
      readOnly := ro, readStates := r.readStates++rss, pendingReadIndexMessages := ms }

abbrev Posts (M : Message → Prop) : Raft → Raft → Prop := Relation.ReflTransGen (Post M)

/-- Node lead may be taken for the leader of the term. -/
def Vouched (M : Message → Prop) (term lead : Nat) : Prop := lead=noNode ∨
  ∃ m, M m ∧ m.type.leads=true ∧ m.term=term ∧ m.fromId=lead

/-- What makes a node stand for election: with PreVote a message that asks it to, or votes that
carry the decision, its own one or those it has as a pre-candidate. -/
def Called (M : Message → Prop) (r : Raft) : Prop :=
  r.preVote=false ∨ (∃ m, M m ∧ m.type=.msgTimeoutNow) ∨
  (r.prs.resetVotes.recordVote r.id true).tallyVotes=.voteWon ∨
  r.state=.statePreCandidate ∧ r.prs.tallyVotes=.voteWon

/-- The messages that are dealt with in the term that the node is in. -/
def Timely (r : Raft) (m : Message) : Prop :=
  m.term=0 ∨ m.term=r.term ∨ r.term < m.term ∧ keepsTerm m=true

/-- Whose vote a node counts: its own one, and the answers to its requests. -/
def Counted (M : Message → Prop) (r : Raft) (id : Nat) (v : Bool) : Prop :=
  id=r.id ∨ ∃ m, M m ∧ m.type=r.myVoteRespType ∧ r.Timely m ∧ m.fromId=id ∧ v=!m.reject

/-- All that a step does to a node, timers and flow limits included. -/
inductive Touch (M : Message → Prop) : Raft → Raft → Prop
  | post {r r'} : Post M r r' → Touch M r r'
  | follow {r term lead} : (r.term<term ∧ ∃ m, M m ∧ m.term=term ∧ keepsTerm m=false) ∨
      r.term=term ∧ r.state≠.stateFollower →
      Vouched M term lead → Touch M r (r.becomeFollower term lead)
  | preStand {r} {ms : List Message} : r.state≠.stateLeader → ms≠[] →
      (∀ n ∈ ms, n.type=.msgPreVote ∧ n.fromId=r.id ∧ n.term=r.term+1) → Touch M r { r with
        prs := r.prs.resetVotes.recordVote r.id true
        lead := noNode
        state := .statePreCandidate
        msgs := r.msgs++ms }
  | stand {r} : r.state≠.stateLeader → Called M r →
      Touch M r { r.reset (r.term+1) with vote := r.id, state := .stateCandidate }
  | poll {r} (id : Nat) (v : Bool) : Counted M r id v →
      Touch M r { r with prs := r.prs.recordVote id v }
  | rise {r} : r.state=.stateCandidate → r.prs.tallyVotes=.voteWon →
      Touch M r { r.reset r.term with lead := r.id, state := .stateLeader }
  | pend {r} (p : Nat) : Touch M r { r with pendingConfIndex := p }
  | grow {r es l} : r.state=.stateLeader → (∀ e ∈ es, Entry.Sourced M e) →
      r.raftLog.append (stampEntries r.term r.raftLog.lastIndex es)=.ok l →
      Touch M r (r.grown es l)
  | release {r} (u : Nat) : Touch M r { r with uncommittedSize := u }
  | commit {r k} : r.raftLog.committed≤k → Touch M r (r.setLog { r.raftLog with committed := k })
  | store {r m l last} : M m → m.type=.msgApp → r.state=.stateFollower →
      r.raftLog.maybeAppend m.index m.logTerm m.commit m.entries=.ok (l,some last) →
      Touch M r (r.setLog l)
  | hear {r m} : M m → m.type.leads=true → m.term=r.term → r.state=.stateFollower →
      Touch M r (r.hearLeader m.fromId)
  | vote {r m} : M m → m.type=.msgVote → r.vote=m.fromId ∨ r.vote=noNode ∧ r.lead=noNode →
      Touch M r { r with electionElapsed := 0, vote := m.fromId }
  | restore {r m} (prs : ProgressTracker) (b : Bool) : M m → m.type=.msgSnap →
      r.state=.stateFollower → r.raftLog.committed < m.snapshot.index → Touch M r { r with
        raftLog := r.raftLog.restore m.snapshot, prs := prs, isLearner := b }
  | aim {r m} : M m → m.type=.msgTransferLeader → r.state=.stateLeader →
      Touch M r { r with electionElapsed := 0, leadTransferee := m.fromId }
  | abort {r} : Touch M r r.abortLeaderTransfer

abbrev Touches (M : Message → Prop) : Raft → Raft → Prop := Relation.ReflTransGen (Touch M)

/-- What the handlers of the single messages do to a node: they send, and they write to the
log. A leader commits entries of its term only. -/
inductive Tend (M : Message → Prop) : Raft → Raft → Prop
  | post {r r'} : Post M r r' → Tend M r r'
  | commit {r k} : r.raftLog.committed≤k → (r.state=.stateLeader → r.Owns k) →
      Tend M r (r.setLog { r.raftLog with committed := k })
  | store {r m l last} : M m → m.type=.msgApp → r.state=.stateFollower →
      r.raftLog.maybeAppend m.index m.logTerm m.commit m.entries=.ok (l,some last) →
      Tend M r (r.setLog l)
  | vote {r m} : M m → m.type=.msgVote → r.vote=m.fromId ∨ r.vote=noNode ∧ r.lead=noNode →
      Tend M r { r with electionElapsed := 0, vote := m.fromId }
  | restore {r m} (prs : ProgressTracker) (b : Bool) : M m → m.type=.msgSnap →
      r.state=.stateFollower → r.raftLog.committed < m.snapshot.index → Tend M r { r with
        raftLog := r.raftLog.restore m.snapshot, prs := prs, isLearner := b }

abbrev Tends (M : Message → Prop) : Raft → Raft → Prop := Relation.ReflTransGen (Tend M)

/-- A tick also counts the time. -/
inductive TickTouch (M : Message → Prop) : Raft → Raft → Prop
  | touch {r r'} : Touch M r r' → TickTouch M r r'
  | clock {r} (e h : Nat) : TickTouch M r { r with electionElapsed := e, heartbeatElapsed := h }

abbrev TickTouches (M : Message → Prop) : Raft → Raft → Prop := Relation.ReflTransGen (TickTouch M)

variable {M : Message → Prop} {r r' r'' : Raft} {m : Message}

theorem Touches.tick (h : Touches M r r') : TickTouches M r r' :=
  Relation.ReflTransGen.mono (fun _ _ h => TickTouch.touch h) _ _ h

/-- The fields that sending leaves alone. -/
theorem Post.same (h : Post M r r') : r'={ r with
    msgs := r'.msgs
    prs := { r.prs with progress := r'.prs.progress }
    readOnly := r'.readOnly
    readStates := r'.readStates
    pendingReadIndexMessages := r'.pendingReadIndexMessages } := by
  cases h <;> rfl

theorem Posts.same (h : Posts M r r') : r'={ r with
    msgs := r'.msgs
    prs := { r.prs with progress := r'.prs.progress }
    readOnly := r'.readOnly
    readStates := r'.readStates
    pendingReadIndexMessages := r'.pendingReadIndexMessages } := by
  induction h with
  | refl => rfl
  | tail _ h ih =>
    have hs := h.same
    rw [ih] at hs
    exact hs

theorem Posts.state (h : Posts M r r') : r'.state=r.state := by rw [h.same]

theorem Posts.tends (h : Posts M r r') : Tends M r r' :=
  Relation.ReflTransGen.mono (fun _ _ h => Tend.post h) _ _ h

theorem Tend.touch (h : Tend M r r') : Touch M r r' := by
  cases h with
  | post h => exact .post h
  | commit hk => exact .commit hk
  | store hM ht hfol happ => exact .store hM ht hfol happ
  | vote hM ht hfree => exact .vote hM ht hfree
  | restore prs b hM ht hfol hlt => exact .restore prs b hM ht hfol hlt

theorem Tends.touches (h : Tends M r r') : Touches M r r' :=
  Relation.ReflTransGen.mono (fun _ _ h => h.touch) _ _ h

theorem Tends.state (h : Tends M r r') : r'.state=r.state := by
  induction h with
  | refl => rfl
  | tail _ h ih =>
    refine Eq.trans ?_ ih
    cases h with
    | post h => rw [h.same]
    | commit | store | vote | restore => rfl

omit [Raftpb] in
theorem tracks_one {ps : SortedMap Progress} {own id : Nat} {pr pr' : Progress}
    (hget : ps.get? id=some pr) (hl : pr'.isLearner=pr.isLearner)
    (ha : pr'.recentActive=true → pr.recentActive=true ∨
      ∃ m, M m ∧ m.type.answers=true ∧ m.fromId=id) :
    Tracks M own ps (ps.insert id pr') := by
  refine ⟨fun j => ?_,fun j prj hj haj => ?_⟩
  · rw [SortedMap.get?_insert]
    split_ifs with hji
    · rw [hji,hget]
      exact congrArg some hl
    · rfl
  · rw [SortedMap.get?_insert] at hj
    split_ifs at hj with hji
    · cases hj
      subst hji
      exact .inr ((ha haj).imp_left (fun ha => ⟨pr,hget,ha⟩))
    · exact .inr (.inl ⟨prj,hj,haj⟩)

theorem setProgress_post {id : Nat} {pr : Progress} (pr' : Progress)
    (hget : r.prs.progress.get? id=some pr) (hl : pr'.isLearner=pr.isLearner)
    (ha : pr'.recentActive=true → pr.recentActive=true ∨
      ∃ m, M m ∧ m.type.answers=true ∧ m.fromId=id) :
    Post M r (r.setProgress id pr') :=
  .track (tracks_one hget hl ha)

/-- A stretch of a run, seen twice: B says what it does to the node, and A what it does to the
core of the node. Some rules for the core rely on the term of the message at hand; T stands for
what they rely on. -/
structure Walk (T : Prop) (A : Core → Core → Prop) (B : Raft → Raft → Prop) (r r' : Raft) :
    Prop where
  core : T → Relation.ReflTransGen A r.core r'.core
  node : Relation.ReflTransGen B r r'

/-- The stretches that a run consists of: sending, handling one message, a whole step, a tick. -/
abbrev Sent (T : Prop) (S : Message → Prop) : Raft → Raft → Prop := Walk T (Core.Send S) (Post S)

abbrev Handled (T : Prop) (S : Message → Prop) : Raft → Raft → Prop := Walk T (Core.Move S) (Tend S)

abbrev Stepped (T : Prop) (S : Message → Prop) : Raft → Raft → Prop :=
  Walk T (Core.Move S) (Touch S)

abbrev Ticked (T : Prop) (S : Message → Prop) : Raft → Raft → Prop :=
  Walk T (Core.Move S) (TickTouch S)

section

variable {T T' : Prop} {A : Core → Core → Prop} {B : Raft → Raft → Prop} {S : Message → Prop}

omit [Raftpb] in
theorem Walk.refl (r : Raft) : Walk T A B r r := ⟨fun _ => .refl,.refl⟩

omit [Raftpb] in
theorem Walk.trans (h : Walk T A B r r') (h' : Walk T A B r' r'') : Walk T A B r r'' :=
  ⟨fun ht => (h.core ht).trans (h'.core ht),h.node.trans h'.node⟩

omit [Raftpb] in
theorem Walk.given (h : Walk T A B r r') (ht : T) : Walk T' A B r r' := ⟨fun _ => h.core ht,h.node⟩

theorem Sent.sends (h : Sent True S r r') : Core.Sends S r.core r'.core := h.core trivial

theorem Handled.moves (h : Handled True S r r') : Core.Moves S r.core r'.core := h.core trivial

theorem Stepped.moves (h : Stepped True S r r') : Core.Moves S r.core r'.core := h.core trivial

theorem Ticked.moves (h : Ticked True S r r') : Core.Moves S r.core r'.core := h.core trivial

theorem Sent.handled (h : Sent T S r r') : Handled T S r r' :=
  ⟨fun ht => Core.Sends.moves (h.core ht),Posts.tends h.node⟩

theorem Handled.stepped (h : Handled T S r r') : Stepped T S r r' := ⟨h.core,Tends.touches h.node⟩

theorem Sent.stepped (h : Sent T S r r') : Stepped T S r r' := Handled.stepped (Sent.handled h)

theorem Stepped.ticked (h : Stepped T S r r') : Ticked T S r r' := ⟨h.core,Touches.tick h.node⟩

end

end

end Raft

end RaftTesting
