import RaftTesting.Protocol.ReadWait
import RaftTesting.Transition.Host

namespace RaftTesting

/-- The message types that serve reads. -/
def MessageType.serves : MessageType → Bool
  | .msgHeartbeat | .msgHeartbeatResp | .msgReadIndex | .msgReadIndexResp => true
  | _ => false

/-- What is to be known about a read request all the time: of the messages about reads, in a
term of the contexts that are pending from the request on, of the nodes that have acknowledged
them and of the index that the request waits with, and of the index it is answered with. -/
structure ReadPact where
  ctx : Bytes
  tells : Message → Prop
  clear : Nat → Bytes → Prop
  heard : Nat → Nat → Prop
  waits : Nat → Nat → Prop
  answer : Nat → Prop

namespace Core

structure Reads (k : ReadPact) (c : Core) : Prop where
  told : ∀ rs ∈ c.readStates, rs.requestCtx=k.ctx → k.answer rs.index
  said : ∀ m ∈ c.msgs, m.type.serves=true → k.tells m
  safe : c.readOnly.option=.readOnlySafe
  waits : c.readOnly.Waits k.ctx (k.clear c.term) (k.heard c.term) (k.waits c.term)

/-- What a node has to see to before each step, for its reads to stay in order: what it says,
which requests it takes on, whose word it takes, and what it answers. -/
structure Binds (k : ReadPact) (S : Message → Prop) (c : Core) : Prop where
  heartbeat : c.state=.stateLeader → ∀ m : Message, m.type=.msgHeartbeat → m.term=c.term → k.tells m
  echo : ∀ n, S n → n.type=.msgHeartbeat → n.term=c.term → ∀ m : Message,
    m.type=.msgHeartbeatResp → m.term=c.term → m.fromId=c.id → k.tells m
  forward : ∀ n, S n → n.type=.msgReadIndex → ∀ m : Message, m.type=.msgReadIndex → m.term=0 →
    m.entries=n.entries → k.tells m
  reply : ∀ m : Message, m.type=.msgReadIndexResp → (m.firstData=.ok k.ctx → k.answer m.index) →
    k.tells m
  register : c.state=.stateLeader →
    RaftLog.zeroTermOnErrCompacted (c.raftLog.term c.raftLog.committed)=.ok c.term →
    k.heard c.term c.id ∧ ∀ m x, (S m ∧ m.type=.msgReadIndex) ∨ m ∈ c.pendingReadIndexMessages →
      m.firstData=.ok x → (x ∈ c.readOnly.readIndexQueue ∨ k.clear c.term x) ∧
      (x=k.ctx → k.waits c.term c.raftLog.committed)
  alone : c.state=.stateLeader → c.prs.isSingleton=true → ∀ m, S m → m.type=.msgReadIndex →
    m.firstData=.ok k.ctx → k.answer c.raftLog.committed
  ack : ∀ m, S m → m.type=.msgHeartbeatResp → m.term=c.term → m.context≠[] →
    k.clear c.term m.context → k.heard c.term m.fromId
  release : c.state=.stateLeader → ∀ (A : Nat → Prop) (index : Nat),
    c.prs.config.voters.QuorumOf A → (∀ v, A v → k.heard c.term v) → k.waits c.term index →
    k.answer index
  learn : ∀ m, S m → m.type=.msgReadIndexResp → m.firstData=.ok k.ctx → k.answer m.index

section

variable {k : ReadPact} {c c' : Core}

theorem Reads.keep (hr : c.Reads k) (hro : c'.readOnly=c.readOnly) (ht : c'.term=c.term)
    (hrs : c'.readStates=c.readStates)
    (hm : ∀ m ∈ c'.msgs, m ∈ c.msgs ∨ (m.type.serves=true → k.tells m)) : c'.Reads k where
  told := by
    rw [hrs]
    exact hr.told
  said := fun m hmem => (hm m hmem).elim (hr.said m) (fun h => h)
  safe := by
    rw [hro]
    exact hr.safe
  waits := by
    rw [hro,ht]
    exact hr.waits

/-- One more message. -/
theorem Reads.say (hr : c.Reads k) {m : Message} (hmsgs : c'.msgs=c.msgs++[m])
    (hro : c'.readOnly=c.readOnly) (ht : c'.term=c.term) (hrs : c'.readStates=c.readStates)
    (hm : m.type.serves=true → k.tells m) : c'.Reads k := by
  refine hr.keep hro ht hrs (fun n hn => ?_)
  rw [hmsgs] at hn
  rcases List.mem_append.mp hn with hn | hn
  · exact .inl hn
  · rw [List.mem_singleton.mp hn]
    exact .inr hm

/-- A node that leaves its term or its office forgets the requests. -/
theorem Reads.renew (hr : c.Reads k) (hro : c'.readOnly=.newReadOnly c.readOnly.option)
    (hrs : c'.readStates=c.readStates) (hm : c'.msgs=c.msgs) : c'.Reads k where
  told := by
    rw [hrs]
    exact hr.told
  said := by
    rw [hm]
    exact hr.said
  safe := by
    rw [hro]
    exact hr.safe
  waits := by
    rw [hro]
    exact ReadOnly.waits_new _

theorem Reads.answerRead (hr : c.Reads k) (hreply : ∀ m : Message, m.type=.msgReadIndexResp →
      (m.firstData=.ok k.ctx → k.answer m.index) → k.tells m) {req : Message} {index : Nat}
    (hidx : req.firstData=.ok k.ctx → k.answer index) (h : c.answerRead req index=.ok c') :
    c'.Reads k := by
  unfold Core.answerRead at h
  split at h
  · obtain ⟨ctx,hctx,h⟩ := bind_eq_ok.mp h
    cases h
    refine ⟨fun rs hrs he => ?_,hr.said,hr.safe,hr.waits⟩
    rcases List.mem_append.mp hrs with hrs | hrs
    · exact hr.told rs hrs he
    · rw [List.mem_singleton.mp hrs] at he ⊢
      exact hidx (he ▸ hctx)
  · cases h
    exact hr.say rfl rfl rfl rfl (fun _ => hreply _ rfl hidx)

theorem Reads.answerAll (hr : c.Reads k) (hreply : ∀ m : Message, m.type=.msgReadIndexResp →
      (m.firstData=.ok k.ctx → k.answer m.index) → k.tells m) {rss : List ReadIndexStatus}
    (hidx : ∀ rs ∈ rss, rs.req.firstData=.ok k.ctx → k.answer rs.index)
    (h : c.answerAll rss=.ok c') : c'.Reads k := by
  have hall := foldlM_rel (R := fun a b : Core => a.Reads k → b.Reads k) (fun _ h => h)
    (fun _ _ _ hab hbc ha => hbc (hab ha))
    (fun rs hrs a b hab ha => ha.answerRead hreply (hidx rs hrs) hab) h
  exact hall hr

end

section

variable [Raftpb] {k : ReadPact} {c c' : Core} {S : Message → Prop} (hb : c.Binds k S)
  (hr : c.Reads k)
include hb hr

omit [Raftpb] in
theorem Read.reads (hm : Read S c c') : c'.Reads k := by
  cases hm with
  | park | unpark => exact hr.keep rfl rfl rfl (fun _ => .inl)
  | @register m ro x hm hl hcur hsafe hadd hx =>
    obtain ⟨hself,htake⟩ := hb.register hl hcur
    obtain ⟨hclear,hidx⟩ := htake m x hm hx
    have hwaits := (hr.waits.addRequest hx hclear hidx hadd).recvAck c.id (x := x)
      (fun _ => hself)
    refine ⟨hr.told,hr.said,?_,hwaits⟩
    exact (recvAck_option _ _ _).trans ((addRequest_option hadd).trans hr.safe)
  | lease hlease => cases hr.safe.symm.trans hlease
  | singleton hm ht hl hone hans =>
    exact hr.answerRead hb.reply (hb.alone hl hone _ hm ht) hans
  | @ack m hm ht hterm hl hctx hsafe =>
    refine ⟨hr.told,hr.said,(recvAck_option _ _ _).trans hr.safe,hr.waits.recvAck _ ?_⟩
    exact hb.ack m hm ht hterm hctx
  | @release _ m ro rss hm ht hl hsafe hwon hadv hans =>
    obtain ⟨hwaits,hrel⟩ := hr.waits.advance hadv
    have hro : ({ c with readOnly := ro } : Core).Reads k :=
      ⟨hr.told,hr.said,(advance_option hadv).trans hr.safe,hwaits⟩
    refine hro.answerAll hb.reply (fun rs hrs hctx => ?_) hans
    obtain ⟨hidx,hacks⟩ := hrel rs hrs hctx
    exact hb.release hl _ rs.index ((JointConfig.voteResult_won _ _).mp hwon) hacks hidx
  | @learn m e hm ht hents =>
    refine ⟨fun rs hrs he => ?_,hr.said,hr.safe,hr.waits⟩
    rcases List.mem_append.mp hrs with hrs | hrs
    · exact hr.told rs hrs he
    · rw [List.mem_singleton.mp hrs] at he ⊢
      refine hb.learn m hm ht ?_
      unfold Message.firstData
      rw [hents]
      exact congrArg Except.ok he

theorem Send.reads (hm : Send S c c') : c'.Reads k := by
  cases hm with
  | app | snap => exact hr.say rfl rfl rfl rfl nofun
  | heartbeat hl => exact hr.say rfl rfl rfl rfl (fun _ => hb.heartbeat hl _ rfl rfl)
  | @plain m hp =>
    refine hr.say rfl rfl rfl rfl (fun hserves => ?_)
    unfold Plain at hp
    cases ht : m.type <;> rw [ht] at hp hserves <;>
      first | exact hp.elim | cases hserves
    obtain ⟨h0,req,hreq,htype,hents⟩ := hp
    exact hb.forward req hreq htype m ht h0 hents.symm
  | track | back => exact hr.keep rfl rfl rfl (fun _ => .inl)
  | read hm => exact hm.reads hb hr

theorem HostMove.reads (hm : HostMove S c c') : c'.Reads k := by
  cases hm with
  | move hm =>
    cases hm with
    | send hm => exact hm.reads hb hr
    | follow | stand | elect => exact hr.renew rfl rfl rfl
    | preStand | poll | append | pend | commit | ack | forward =>
      exact hr.keep rfl rfl rfl (fun _ => .inl)
    | vote | accept | stale | skip | restore => exact hr.say rfl rfl rfl rfl nofun
    | beat hm ht hterm =>
      exact hr.say rfl rfl rfl rfl (fun _ => hb.echo _ hm ht hterm _ rfl rfl rfl)
  | applied | leave => exact hr.keep rfl rfl rfl (fun _ => .inl)

end

theorem answerAll_queue {c c' : Core} {rss : List ReadIndexStatus} (h : c.answerAll rss=.ok c') :
    c'.readOnly=c.readOnly ∧ c'.pendingReadIndexMessages=c.pendingReadIndexMessages := by
  refine foldlM_rel (R := fun a b : Core => b.readOnly=a.readOnly ∧
    b.pendingReadIndexMessages=a.pendingReadIndexMessages) (fun _ => ⟨rfl,rfl⟩)
    (fun _ _ _ hab hbc => ⟨hbc.1.trans hab.1,hbc.2.trans hab.2⟩) (fun rs _ a b hab => ?_) h
  rw [answerRead_msgs hab]
  exact ⟨rfl,rfl⟩

section

variable [Raftpb] {c c' : Core} {S : Message → Prop}

omit [Raftpb] in
theorem Read.postponed (hm : Read S c c') {m : Message} (h : m ∈ c'.pendingReadIndexMessages) :
    m ∈ c.pendingReadIndexMessages ∨ S m ∧ m.type=.msgReadIndex := by
  cases hm with
  | park hS ht =>
    rcases List.mem_append.mp h with h | h
    · exact .inl h
    · rw [List.mem_singleton.mp h]
      exact .inr ⟨hS,ht⟩
  | unpark => cases h
  | register | ack | learn => exact .inl h
  | lease _ _ hans =>
    rw [answerRead_msgs hans] at h
    exact .inl h
  | singleton _ _ _ _ hans =>
    rw [answerRead_msgs hans] at h
    exact .inl h
  | release _ _ _ _ _ _ hans =>
    rw [(answerAll_queue hans).2] at h
    exact .inl h

theorem Send.postponed (hm : Send S c c') {m : Message} (h : m ∈ c'.pendingReadIndexMessages) :
    m ∈ c.pendingReadIndexMessages ∨ S m ∧ m.type=.msgReadIndex := by
  cases hm with
  | read hm => exact hm.postponed h
  | app | snap | heartbeat | plain | track | back => exact .inl h

theorem HostMove.postponed (hm : HostMove S c c') {m : Message}
    (h : m ∈ c'.pendingReadIndexMessages) :
    m ∈ c.pendingReadIndexMessages ∨ S m ∧ m.type=.msgReadIndex := by
  cases hm with
  | move hm =>
    cases hm with
    | send hm => exact hm.postponed h
    | follow | preStand | stand | poll | elect | append | pend | commit | ack | vote | accept
    | stale | beat | skip | forward | restore => exact .inl h
  | applied | leave => exact .inl h

omit [Raftpb] in
/-- Without an acknowledgement nothing is released. -/
theorem Read.queue_subset (hS : ∀ m, S m → m.type≠.msgHeartbeatResp) (hm : Read S c c') :
    c.readOnly.readIndexQueue ⊆ c'.readOnly.readIndexQueue := by
  cases hm with
  | park | unpark | learn => exact List.Subset.refl _
  | @register m ro x _ _ _ _ hadd hx =>
    change _ ⊆ (ro.recvAck c.id x).1.readIndexQueue
    rw [ReadOnly.recvAck_queue]
    simp only [ReadOnly.addRequest,hx,bind,Except.bind] at hadd
    split at hadd <;> cases hadd
    · exact List.Subset.refl _
    · exact List.subset_append_left _ _
  | lease _ _ hans =>
    rw [answerRead_msgs hans]
    exact List.Subset.refl _
  | singleton _ _ _ _ hans =>
    rw [answerRead_msgs hans]
    exact List.Subset.refl _
  | ack hm ht => exact absurd ht (hS _ hm)
  | release hm ht => exact absurd ht (hS _ hm)

theorem Send.queue_subset (hS : ∀ m, S m → m.type≠.msgHeartbeatResp) (hm : Send S c c') :
    c.readOnly.readIndexQueue ⊆ c'.readOnly.readIndexQueue := by
  cases hm with
  | read hm => exact hm.queue_subset hS
  | app | snap | heartbeat | plain | track | back => exact List.Subset.refl _

/-- A leader was one before, or has just won its term. -/
theorem HostMove.leader_before (hm : HostMove S c c') (hl : c'.state=.stateLeader) :
    c'.term=c.term ∧
      (c.state=.stateLeader ∨ c.state=.stateCandidate ∧ c.prs.tallyVotes=.voteWon) := by
  cases hm with
  | move hm =>
    cases hm with
    | send hm => exact ⟨hm.frame.term,.inl (hm.frame.state.symm.trans hl)⟩
    | follow | preStand | stand => cases hl
    | elect hs ht => exact ⟨rfl,.inr ⟨hs,ht⟩⟩
    | poll | append | pend | commit | ack | vote | accept | stale | beat | skip | forward
    | restore => exact ⟨rfl,.inl hl⟩
  | applied | leave => exact ⟨rfl,.inl hl⟩

end

end Core

end RaftTesting
