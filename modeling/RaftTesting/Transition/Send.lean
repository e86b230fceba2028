import RaftTesting.Transition.Touch

namespace RaftTesting.Raft

theorem send_eq_ok {r r' : Raft} {m : Message} (h : r.send m=.ok r') :
    r'={ r with msgs := r.msgs++[r.stamp m] } ∧ (isVoteMsg m.type=true → m.term≠0) := by
  unfold send at h
  split at h
  · rename_i hv
    split at h
    · cases h
    · rename_i ht
      cases h
      exact ⟨rfl,fun _ => ht⟩
  · rename_i hv
    split at h
    · cases h
    · cases h
      exact ⟨rfl,fun hv' => absurd hv' hv⟩

/-- A message that is not about votes comes without a term. -/
theorem send_term {r r' : Raft} {m : Message} (h : r.send m=.ok r')
    (hv : isVoteMsg m.type=false) : m.term=0 := by
  unfold send at h
  rw [if_neg (by rw [hv]; exact Bool.false_ne_true)] at h
  split at h
  · cases h
  · rename_i ht
    exact not_not.mp ht

theorem stamp_type (r : Raft) (m : Message) : (r.stamp m).type=m.type := by
  unfold stamp
  dsimp only
  split_ifs <;> rfl

/-- send does not attach a term to a read request. -/
theorem stamp_readIndex (r : Raft) {m : Message} (ht : m.type=.msgReadIndex) :
    (r.stamp m).term=m.term := by
  have hm : (if m.fromId=noNode then { m with fromId := r.id } else m).type=.msgReadIndex := by
    split_ifs <;> exact ht
  unfold stamp
  dsimp only
  rw [if_pos (by rw [hm]; decide)]
  split_ifs <;> rfl

theorem stamp_entries (r : Raft) (m : Message) : (r.stamp m).entries=m.entries := by
  unfold stamp
  dsimp only
  split_ifs <;> rfl

theorem send_core {r r' : Raft} {m : Message} (h : r.send m=.ok r') :
    r'.core=r.core.say (r.stamp m) := by
  rw [(send_eq_ok h).1]
  rfl

theorem responseToReadIndexReq_core {r r' : Raft} {req : Message} {index : Nat}
    (h : r.responseToReadIndexReq req index=.ok r') : r.core.answerRead req index=.ok r'.core := by
  unfold responseToReadIndexReq at h
  rw [Core.answerRead]
  change (if req.fromId=noNode ∨ req.fromId=r.id then _ else _)=_
  split at h
  · rename_i hfrom
    obtain ⟨ctx,hctx,h⟩ := bind_eq_ok.mp h
    cases h
    rw [if_pos hfrom,hctx]
    rfl
  · rename_i hfrom
    rw [if_neg hfrom,send_core h]
    simp only [stamp,isVoteMsg]
    rfl

/-- Serving a read does not look at the postponed requests. -/
def park (P : List Message) (r : Raft) : Raft := { r with pendingReadIndexMessages := P }

theorem send_park (P : List Message) (r : Raft) (m : Message) :
    (park P r).send m=(r.send m).map (park P) := by
  unfold send
  split_ifs <;> rfl

theorem sendHeartbeat_park (P : List Message) (r : Raft) (dst : Nat) (ctx : Bytes) :
    (park P r).sendHeartbeat dst ctx=(r.sendHeartbeat dst ctx).map (park P) := by
  have hprs : (park P r).prs=r.prs := rfl
  unfold sendHeartbeat
  rw [hprs]
  cases r.prs.progress.get? dst with
  | none => rfl
  | some pr => exact send_park P r _

theorem bcastHeartbeatWithCtx_park (P : List Message) (r : Raft) (ctx : Bytes) :
    (park P r).bcastHeartbeatWithCtx ctx=(r.bcastHeartbeatWithCtx ctx).map (park P) := by
  refine foldlM_comm ?_ r
  intro id r
  change (if id=r.id then _ else _)=_
  split_ifs
  · rfl
  · exact sendHeartbeat_park P r id ctx

theorem responseToReadIndexReq_park (P : List Message) (r : Raft) (req : Message) (index : Nat) :
    (park P r).responseToReadIndexReq req index=
      (r.responseToReadIndexReq req index).map (park P) := by
  unfold responseToReadIndexReq
  change (if req.fromId=noNode ∨ req.fromId=r.id then _ else _)=_
  split_ifs
  · cases req.firstData <;> rfl
  · exact send_park P r _

theorem sendMsgReadIndexResponse_park (P : List Message) (r : Raft) (m : Message) :
    (park P r).sendMsgReadIndexResponse m=(r.sendMsgReadIndexResponse m).map (park P) := by
  have hro : (park P r).readOnly=r.readOnly := rfl
  unfold sendMsgReadIndexResponse
  rw [hro]
  cases r.readOnly.option with
  | readOnlySafe =>
    change (r.readOnly.addRequest r.raftLog.committed m >>= _)=_
    cases r.readOnly.addRequest r.raftLog.committed m with
    | error e => rfl
    | ok ro =>
      cases m.firstData with
      | error e => rfl
      | ok ctx =>
        exact bcastHeartbeatWithCtx_park P { r with readOnly := (ro.recvAck r.id ctx).1 } ctx
  | readOnlyLeaseBased => exact responseToReadIndexReq_park P r m _

theorem progressSent_active {pr pr' : Progress} {ents : List Entry}
    (h : progressSent pr ents=.ok pr') : pr'.recentActive=pr.recentActive := by
  unfold progressSent at h
  split at h
  · cases h
    rfl
  · split at h
    · obtain ⟨i,-,h⟩ := bind_eq_ok.mp h
      cases h
      rfl
    · cases h
      rfl
    · cases h

theorem sendMsgReadIndexResponse_parked {r r' : Raft} {m : Message}
    (h : r.sendMsgReadIndexResponse m=.ok r') :
    r'.pendingReadIndexMessages=r.pendingReadIndexMessages := by
  have hp := sendMsgReadIndexResponse_park r.pendingReadIndexMessages r m
  change r.sendMsgReadIndexResponse m=_ at hp
  rw [h] at hp
  have hp : r'=park r.pendingReadIndexMessages r' := Except.ok.inj hp
  rw [hp]
  rfl

/-- A context that a leader may put into its heartbeats. -/
def knowsCtx (ro : ReadOnly) (ctx : Bytes) : Prop :=
  ctx=[] ∨ ctx∈ro.readIndexQueue ∨ (ro.pendingReadIndex.lookup ctx).isSome

section

variable [Raftpb] {T : Prop} {S : Message → Prop} {r r' : Raft} {m : Message}

open RaftTesting.Core

theorem Sent.state (h : Sent T S r r') : r'.state=r.state := Posts.state h.node

theorem send_post (h : r.send m=.ok r') (hs : Says S r (r.stamp m)) : Post S r r' := by
  rw [(send_eq_ok h).1]
  exact .say hs

/-- One plain message, once it is known what send makes of it. -/
theorem send_sent (h : r.send m=.ok r') (hp : Plain S r.core (r.stamp m))
    (hst : T → (r.stamp m).Stamped) (hs : Says S r (r.stamp m)) : Sent T S r r' := by
  refine ⟨fun ht => ?_,.single (send_post h hs)⟩
  rw [send_core h]
  exact .single (.plain hp (hst ht))

theorem sendApp_sent {dst term : Nat} {pr : Progress} {ents : List Entry} {b : Bool}
    (hlead : r.state=.stateLeader) (hget : r.prs.progress.get? dst=some pr)
    (hterm : r.raftLog.term (usub pr.next 1)=.ok term)
    (hents : r.raftLog.entries pr.next r.maxMsgSize=.ok (.ok ents))
    (h : r.sendApp dst pr term ents=.ok (r',b)) : Sent T S r r' := by
  obtain ⟨pr',hpr,h⟩ := bind_eq_ok.mp h
  obtain ⟨r1,hsend,h⟩ := bind_eq_ok.mp h
  cases h
  constructor
  · intro _
    rw [send_core hsend]
    exact .single (.app hlead hget hterm hents hpr)
  · refine .head (setProgress_post pr' hget (progressSent_same hpr).2.1 (fun ha => .inl ?_))
      (.single (send_post hsend ⟨hlead,rfl,rfl,pr.next,hents⟩))
    rw [← progressSent_active hpr]
    exact ha

theorem sendSnap_sent {dst : Nat} {pr : Progress} {b : Bool} (hlead : r.state=.stateLeader)
    (hget : r.prs.progress.get? dst=some pr) (h : r.sendSnap dst pr=.ok (r',b)) :
    Sent T S r r' := by
  unfold sendSnap at h
  split at h
  · cases h
    exact .refl r
  · dsimp only at h
    split at h
    · cases h
    · rename_i hsnap
      obtain ⟨r1,hsend,h⟩ := bind_eq_ok.mp h
      cases h
      constructor
      · intro _
        rw [send_core hsend]
        exact .single (.snap hlead hget (Bool.not_eq_true _ ▸ hsnap))
      · exact .head (setProgress_post (pr.becomeSnapshot _) hget rfl .inl)
          (.single (send_post hsend ⟨hlead,rfl,rfl⟩))

theorem maybeSendAppend_sent {dst : Nat} {e b : Bool} (hlead : r.state=.stateLeader)
    (h : r.maybeSendAppend dst e=.ok (r',b)) : Sent T S r r' := by
  unfold maybeSendAppend at h
  split at h
  · cases h
  · rename_i pr hget
    split at h
    · cases h
      exact .refl r
    · obtain ⟨ents,hents,h⟩ := bind_eq_ok.mp h
      split at h
      · rename_i term ents hterm
        split at h
        · cases h
          exact .refl r
        · exact sendApp_sent hlead hget hterm hents h
      · split at h
        · cases h
          exact .refl r
        · exact sendSnap_sent hlead hget h
      · split at h
        · cases h
          exact .refl r
        · exact sendSnap_sent hlead hget h

/-- A loop of sends by a leader. -/
theorem foldlM_sent {α : Type} {f : Raft → α → Except Panic Raft} {l : List α}
    (hlead : r.state=.stateLeader)
    (hf : ∀ a r r', r.state=.stateLeader → f r a=.ok r' → Sent T S r r')
    (h : l.foldlM f r=.ok r') : Sent T S r r' := by
  refine foldlM_rel (R := fun r r' : Raft => r.state=.stateLeader → Sent T S r r')
    (fun r _ => .refl r) ?_ (fun a _ r r' h hl => hf a r r' hl h) h hlead
  intro a b c hab hbc ha
  have hab := hab ha
  exact hab.trans (hbc (hab.state.trans ha))

theorem sendAppend_sent {dst : Nat} (hlead : r.state=.stateLeader)
    (h : r.sendAppend dst=.ok r') : Sent T S r r' := by
  obtain ⟨⟨r1,b⟩,hsend,h⟩ := bind_eq_ok.mp h
  cases h
  exact maybeSendAppend_sent hlead hsend

theorem bcastAppend_sent (hlead : r.state=.stateLeader) (h : r.bcastAppend=.ok r') :
    Sent T S r r' := by
  refine foldlM_sent hlead ?_ h
  intro id r r' hl h
  split at h
  · cases h
    exact .refl r
  · exact sendAppend_sent hl h

theorem probeAll_sent (hlead : r.state=.stateLeader) (h : r.probeAll=.ok r') :
    Sent T S r r' := by
  refine foldlM_sent hlead ?_ h
  intro id r r' hl h
  obtain ⟨⟨r1,b⟩,hsend,h⟩ := bind_eq_ok.mp h
  cases h
  exact maybeSendAppend_sent hl hsend

theorem sendAppendLoop_sent {dst fuel : Nat} (hlead : r.state=.stateLeader)
    (h : sendAppendLoop dst fuel r=.ok r') : Sent T S r r' := by
  induction fuel generalizing r with
  | zero => cases h
  | succ fuel ih =>
    obtain ⟨⟨r1,b⟩,hsend,h⟩ := bind_eq_ok.mp h
    have h1 : Sent T S r r1 := maybeSendAppend_sent hlead hsend
    dsimp only at h
    split at h
    · exact h1.trans (ih (h1.state.trans hlead) h)
    · cases h
      exact h1

theorem sendHeartbeat_sent {dst : Nat} {ctx : Bytes} (hlead : r.state=.stateLeader)
    (h : r.sendHeartbeat dst ctx=.ok r') :
    Sent (knowsCtx r.readOnly ctx) S r r' ∧ r'.readOnly=r.readOnly := by
  unfold sendHeartbeat at h
  split at h
  · cases h
  · rename_i pr hget
    refine ⟨⟨fun hctx => ?_,.single (send_post h ⟨hlead,rfl,rfl⟩)⟩,?_⟩
    · rw [send_core h]
      exact .single (.heartbeat hlead hget hctx)
    · rw [(send_eq_ok h).1]

theorem bcastHeartbeatWithCtx_sent {ctx : Bytes} (hlead : r.state=.stateLeader)
    (h : r.bcastHeartbeatWithCtx ctx=.ok r') : Sent (knowsCtx r.readOnly ctx) S r r' := by
  -- the read requests do not change on the way, so the context stays known
  have hR := foldlM_rel (R := fun a b : Raft => a.state=.stateLeader ∧ a.readOnly=r.readOnly →
    Sent (knowsCtx r.readOnly ctx) S a b ∧ b.readOnly=r.readOnly) (fun a ha => ⟨.refl a,ha.2⟩)
    ?_ ?_ h
  · exact (hR ⟨hlead,rfl⟩).1
  · intro a b c hab hbc ha
    obtain ⟨hab,hro⟩ := hab ha
    obtain ⟨hbc,hro'⟩ := hbc ⟨hab.state.trans ha.1,hro⟩
    exact ⟨hab.trans hbc,hro'⟩
  · intro id _ a b h ha
    split at h
    · cases h
      exact ⟨.refl a,ha.2⟩
    · obtain ⟨hs,hro⟩ := sendHeartbeat_sent (S := S) ha.1 h
      rw [ha.2] at hs hro
      exact ⟨hs,hro⟩

theorem bcastHeartbeat_sent (hlead : r.state=.stateLeader) (h : r.bcastHeartbeat=.ok r') :
    Sent T S r r' := by
  refine (bcastHeartbeatWithCtx_sent hlead h).given ?_
  unfold ReadOnly.lastPendingRequestCtx
  cases hq : r.readOnly.readIndexQueue.getLast? with
  | none => exact .inl (by simp [List.getLastD_eq_getLast?,hq])
  | some ctx =>
    refine .inr (.inl ?_)
    simpa [List.getLastD_eq_getLast?,hq] using List.mem_of_getLast? hq

theorem sendTimeoutNow_sent {dst : Nat} (hlead : r.state=.stateLeader)
    (h : r.sendTimeoutNow dst=.ok r') : Sent T S r r' :=
  send_sent h trivial (fun _ => nofun) ⟨hlead,rfl,rfl⟩

theorem responseToReadIndexReq_post {req : Message} {index : Nat}
    (h : r.responseToReadIndexReq req index=.ok r') : Post S r r' := by
  unfold responseToReadIndexReq at h
  split at h
  · obtain ⟨ctx,-,h⟩ := bind_eq_ok.mp h
    cases h
    exact .reads r.readOnly [⟨index,ctx⟩] r.pendingReadIndexMessages
  · exact send_post h ⟨rfl,rfl⟩

/-- Only the state of the reads changes. -/
theorem post_readOnly (r : Raft) (ro : ReadOnly) : Post S r { r with readOnly := ro } := by
  have h := Post.reads (M := S) (r := r) ro [] r.pendingReadIndexMessages
  rw [List.append_nil] at h
  exact h

theorem post_pending (r : Raft) (ms : List Message) :
    Post S r { r with pendingReadIndexMessages := ms } := by
  have h := Post.reads (M := S) (r := r) r.readOnly [] ms
  rw [List.append_nil] at h
  exact h

/-- A read request that a leader may serve: one that it has just been given or has postponed,
once an entry of its term is committed. -/
def Servable (S : Message → Prop) (r : Raft) (m : Message) : Prop :=
  ((S m ∧ m.type=.msgReadIndex) ∨ m∈r.pendingReadIndexMessages) ∧ r.Owns r.raftLog.committed

theorem sendMsgReadIndexResponse_sent (hlead : r.state=.stateLeader)
    (h : r.sendMsgReadIndexResponse m=.ok r') : Sent (r.Servable S m) S r r' := by
  unfold sendMsgReadIndexResponse at h
  split at h
  · rename_i hopt
    obtain ⟨ro,hro,h⟩ := bind_eq_ok.mp h
    obtain ⟨ctx,hctx,h⟩ := bind_eq_ok.mp h
    have hknown : knowsCtx (ro.recvAck r.id ctx).1 ctx := by
      refine .inr (.inr ?_)
      rw [ReadOnly.lookup_recvAck,Option.isSome_map]
      exact ReadOnly.lookup_addRequest hro hctx
    have hbeat : Sent (r.Servable S m) S { r with readOnly := (ro.recvAck r.id ctx).1 } r' :=
      (bcastHeartbeatWithCtx_sent (r := { r with readOnly := (ro.recvAck r.id ctx).1 })
        hlead h).given hknown
    refine Walk.trans ⟨fun hm => ?_,.single (post_readOnly r _)⟩ hbeat
    exact .single (.read (.register hm.1 hlead hm.2 hopt hro hctx))
  · rename_i hopt
    exact ⟨fun _ => .single (.read (.lease hopt hlead (responseToReadIndexReq_core h))),
      .single (responseToReadIndexReq_post h)⟩

/-- The postponed requests are served as if they were still postponed, and then
forgotten. -/
theorem releasePendingReadIndexMessages_sent (hlead : r.state=.stateLeader)
    (h : r.releasePendingReadIndexMessages=.ok r') : Sent T S r r' := by
  obtain ⟨current,hcur,h⟩ := bind_eq_ok.mp h
  split at h
  · cases h
    exact .refl r
  · rename_i hnot
    obtain ⟨t,ht,hcur⟩ := bind_eq_ok.mp hcur
    cases hcur
    have hterm : t=r.term := by simpa using hnot
    subst hterm
    refine ⟨fun _ => ?_,.head (post_pending r []) (Walk.node (foldlM_sent (T := False) hlead
      (fun _ _ _ hl h => ⟨False.elim,(sendMsgReadIndexResponse_sent hl h).node⟩) h))⟩
    have hcomm := foldlM_comm (g := park []) (l := r.pendingReadIndexMessages)
      (fun m b => sendMsgReadIndexResponse_park [] b m) r
    change r.pendingReadIndexMessages.foldlM sendMsgReadIndexResponse (park [] r)=_ at h
    rw [hcomm] at h
    cases hfold : r.pendingReadIndexMessages.foldlM sendMsgReadIndexResponse r with
    | error e =>
      rw [hfold] at h
      cases h
    | ok r1 =>
      rw [hfold] at h
      cases h
      refine .tail ?_ (.read (.unpark (c := r1.core)))
      -- the log, the term and the postponed requests stay as they are along the loop
      have hR := foldlM_rel (R := fun a b : Raft => Frame r.core a.core →
          a.pendingReadIndexMessages=r.pendingReadIndexMessages → Sends S a.core b.core ∧
          b.pendingReadIndexMessages=r.pendingReadIndexMessages)
        (fun _ _ hp => ⟨.refl,hp⟩) ?_ ?_ hfold
      · exact (hR (.refl _) rfl).1
      · intro a b c hab hbc ha hp
        obtain ⟨hab,hp'⟩ := hab ha hp
        obtain ⟨hbc,hp''⟩ := hbc (ha.trans hab.frame) hp'
        exact ⟨hab.trans hbc,hp''⟩
      · intro m hm a b hab ha hp
        refine ⟨(sendMsgReadIndexResponse_sent (ha.state.trans hlead) hab).core
          ⟨.inr (hp ▸ hm),?_⟩,(sendMsgReadIndexResponse_parked hab).trans hp⟩
        have hlog : a.raftLog=r.raftLog := ha.raftLog
        have hterm : a.term=r.term := ha.term
        unfold Owns
        rw [hlog,hterm]
        exact ht

end

end RaftTesting.Raft
