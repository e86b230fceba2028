import RaftTesting.Transition.Leader

namespace RaftTesting.Raft

open RaftTesting.Core

theorem maybeAppend_none {l l' : RaftLog} {index logTerm committed : Nat} {ents : List Entry}
    (h : l.maybeAppend index logTerm committed ents=.ok (l',none)) : l'=l := by
  unfold RaftLog.maybeAppend at h
  split at h
  · obtain ⟨l1,_,h⟩ := bind_eq_ok.mp h
    cases h
  · cases h
    rfl

/-- The messages that a node steps for itself on a tick. -/
def fromTick : MessageType → Bool
  | .msgHup | .msgBeat | .msgCheckQuorum => true
  | _ => false

section

variable {S : Message → Prop} {r : Raft} {m : Message}

/-- The message is of the term that the node is in. -/
def Current (r : Raft) (m : Message) : Prop := m.term=r.term ∧ m.term≠0

theorem Timely.current (h : r.Timely m) (hst : m.Stamped) (hn : m.type.needsTerm=true) :
    r.Current m := by
  refine ⟨?_,hst hn⟩
  rcases h with h0 | ht | ⟨-,hkeep⟩
  · exact absurd h0 (hst hn)
  · exact ht
  · unfold keepsTerm at hkeep
    cases hm : m.type <;> simp_all [MessageType.needsTerm]

/-- The messages that a tick makes are nobody's. -/
theorem unsourced (ht : fromTick m.type=true) (h0 : m.term=0) :
    fromTick m.type=false ∨ m.term≠0 → S m := by
  rintro (h | h)
  · cases ht.symm.trans h
  · exact absurd h0 h

end

section

variable [Raftpb] {T : Prop} {S : Message → Prop} {r r' : Raft} {m : Message}

theorem rejectAppend_sent (h : r.rejectAppend m=.ok r') : Sent (r.term≠0) S r r' := by
  unfold rejectAppend at h
  dsimp only at h
  split at h
  · cases h
  · exact send_sent h ⟨rfl,rfl,.inl rfl⟩ (fun hne _ => hne) ⟨rfl,rfl⟩

theorem handleAppendEntries_handled (hS : S m) (htype : m.type=.msgApp)
    (hfol : r.state=.stateFollower) (h : r.handleAppendEntries m=.ok r') :
    Handled (r.Current m) S r r' := by
  unfold handleAppendEntries at h
  split at h
  · rename_i hlt
    refine ⟨fun hcur => ?_,.single (.post (send_post h ⟨rfl,rfl⟩))⟩
    have hmove : Move S r.core _ := .stale hS htype hcur.1 hfol hlt
    rw [send_core h]
    exact .single hmove
  · rename_i hge
    obtain ⟨⟨l,res⟩,happ,h⟩ := bind_eq_ok.mp h
    dsimp only at h
    split at h
    · refine ⟨fun hcur => ?_,
        .head (.store hS htype hfol happ) (.single (.post (send_post h ⟨rfl,rfl⟩)))⟩
      have hmove : Move S r.core _ := .accept hS htype hcur.1 hfol (Nat.not_lt.mp hge) happ
      rw [send_core h]
      exact .single hmove
    · rw [maybeAppend_none happ] at h
      have hsent : Handled (r.term≠0) S r r' := Sent.handled (rejectAppend_sent h)
      exact ⟨fun hcur => hsent.core (hcur.1 ▸ hcur.2),hsent.node⟩

/-- A node that does not lead commits what it is told to. -/
theorem commitTo_tends (hs : r.state≠.stateLeader) (n : Nat) :
    Tends S r (r.setLog (r.raftLog.commitTo n).1) := by
  rw [RaftLog.commitTo_fst]
  split_ifs with h
  · exact .single (.commit h.1.le (fun hl => absurd hl hs))
  · exact .refl

theorem handleHeartbeat_handled (hS : S m) (htype : m.type=.msgHeartbeat)
    (hfol : r.state=.stateFollower) (h : r.handleHeartbeat m=.ok r') :
    Handled (r.Current m) S r r' := by
  have hc := commitTo_tends (S := S) (r := r) (by rw [hfol]; nofun) m.commit
  unfold handleHeartbeat at h
  dsimp only at h
  split at h
  · rename_i hbeat
    refine ⟨fun hcur => ?_,hc.tail (.post (send_post h ⟨rfl,rfl⟩))⟩
    have hmove : Move S r.core _ := .beat hS htype hcur.1 hfol hbeat
    rw [send_core h]
    exact .single hmove
  · rename_i hbeat
    cases h
    have hsame : (r.raftLog.commitTo m.commit).1=r.raftLog := by
      unfold RaftLog.commitTo at hbeat ⊢
      split_ifs at hbeat ⊢ <;> first | rfl | simp at hbeat
    rw [hsame]
    exact .refl r

theorem switchToConfig_follower {t : Tracked} {cs : ConfState} (hfol : r.state=.stateFollower)
    (h : r.switchToConfig t=.ok (r',cs)) :
    r'=r.installConfig t ∧ cs=(r.installConfig t).prs.confState := by
  unfold switchToConfig at h
  have hne : (r.installConfig t).state≠.stateLeader := by
    intro hl
    cases hfol.symm.trans hl
  dsimp only at h
  rw [if_neg (fun hc => hne hc.2),if_pos (.inl hne)] at h
  cases h
  exact ⟨rfl,rfl⟩

/-- The configuration of a storage or of a snapshot is taken over as it is, or the node
panics. -/
theorem restoreConfig_eq {cs : ConfState} (hfol : r.state=.stateFollower)
    (h : r.restoreConfig cs=.ok r') :
    ∃ t, Changer.restore ⟨r.prs,r.raftLog.lastIndex⟩ cs=.ok t ∧
      cs.SameIds (r.installConfig t).prs.confState ∧ r'=r.installConfig t := by
  unfold restoreConfig at h
  split at h
  · cases h
  · rename_i t ht
    obtain ⟨⟨r1,cs'⟩,h1,h⟩ := bind_eq_ok.mp h
    obtain ⟨rfl,rfl⟩ := switchToConfig_follower hfol h1
    dsimp only at h
    split at h
    · rename_i heq
      cases h
      exact ⟨t,ht,(Raftpb.equivalent_iff _ _).mp heq,rfl⟩
    · cases h

theorem restoreSnapshot_eq {s : Snapshot} (hfol : r.state=.stateFollower)
    (h : r.restoreSnapshot s=.ok r') : r'={ r with
      raftLog := r.raftLog.restore s, prs := r'.prs, isLearner := r'.isLearner } ∧
      s.confState.Accepted := by
  obtain ⟨r1,h1,h⟩ := bind_eq_ok.mp h
  obtain ⟨t,ht,hsame,rfl⟩ := restoreConfig_eq (by exact hfol) h1
  split at h
  · cases h
  · cases h
    exact ⟨rfl,_,_,t,ht,hsame⟩

/-- An ignored snapshot is answered with the commit index. -/
theorem skip_handled (hS : S m) (htype : m.type=.msgSnap) (hfol : r.state=.stateFollower)
    (h : r.send { type := .msgAppResp, toId := m.fromId, index := r.raftLog.committed }=.ok r') :
    Handled (r.Current m) S r r' := by
  refine ⟨fun hcur => ?_,.single (.post (send_post h ⟨rfl,rfl⟩))⟩
  have hmove : Move S r.core _ := .skip hS htype hcur.1 hfol
  rw [send_core h]
  exact .single hmove

theorem handleSnapshot_handled (hS : S m) (htype : m.type=.msgSnap)
    (hfol : r.state=.stateFollower) (h : r.handleSnapshot m=.ok r') :
    Handled (r.Current m) S r r' := by
  obtain ⟨⟨r1,restored⟩,hr,h⟩ := bind_eq_ok.mp h
  unfold restore at hr
  split at hr
  · cases hr
    exact skip_handled hS htype hfol h
  · rename_i hlt
    rw [if_neg (not_not.mpr hfol)] at hr
    dsimp only at hr
    split at hr
    · cases hr
      exact skip_handled hS htype hfol h
    · split at hr
      · rename_i hmatch
        cases hr
        have hforward : Handled (r.Current m) S r
            (r.setLog (r.raftLog.commitTo m.snapshot.index).1) :=
          ⟨fun hcur => .single (.forward hS htype hcur.1 hfol (Nat.not_le.mp hlt) hmatch),
            commitTo_tends (by rw [hfol]; nofun) _⟩
        exact hforward.trans (skip_handled
          (r := r.setLog (r.raftLog.commitTo m.snapshot.index).1) hS htype hfol h)
      · rename_i hmatch
        obtain ⟨r2,h2,hr⟩ := bind_eq_ok.mp hr
        cases hr
        obtain ⟨hr1,hacc⟩ := restoreSnapshot_eq hfol h2
        simp only [if_true] at h
        rw [hr1] at h
        have hsend := send_core h
        refine ⟨fun hcur => ?_,.head (.restore r1.prs r1.isLearner hS htype hfol
          (Nat.not_le.mp hlt)) (.single (.post (send_post h ⟨rfl,rfl⟩)))⟩
        have hmove : Move S r.core _ := .restore r1.prs hS htype hcur.1 hfol (Nat.not_le.mp hlt)
          (Bool.not_eq_true _ ▸ hmatch) hacc
        rw [hsend]
        exact .single hmove

/-- A response to this candidacy is recorded. -/
theorem poll_of_resp (hS : S m) (htype : m.type=r.myVoteRespType)
    (hterm : m.type.needsTerm=true → m.term=r.term)
    (hstate : r.state=.statePreCandidate ∨ r.state=.stateCandidate) :
    Move S r.core (r.poll m.fromId (!m.reject)).1.core := by
  refine poll_move _ _ hstate (fun hc hv => .inr ⟨m,hS,?_,rfl,by simpa using hv,?_⟩)
  · rw [htype,myVoteRespType,hc]
    rfl
  · refine hterm ?_
    rw [htype,myVoteRespType,hc]
    rfl

theorem candidateVoteResp_stepped (hS : S m) (htype : m.type=r.myVoteRespType) (hst : m.Stamped)
    (htime : r.Timely m) (hstate : r.state=.statePreCandidate ∨ r.state=.stateCandidate)
    (h : r.candidateVoteResp m=.ok r') : Stepped T S r r' := by
  have hnot : r.state≠.stateFollower := by rcases hstate with hs | hs <;> exact hs ▸ by decide
  have hpoll : Stepped T S r (r.poll m.fromId (!m.reject)).1 :=
    ⟨fun _ => .single (poll_of_resp hS htype (fun hn => (htime.current hst hn).1) hstate),
      .single (.poll m.fromId (!m.reject) (.inr ⟨m,hS,htype,htime,rfl,rfl⟩))⟩
  refine hpoll.trans ?_
  unfold candidateVoteResp at h
  dsimp only at h
  split at h
  · rename_i hwon
    split at h
    · rename_i hpre
      unfold campaign at h
      exact campaignVote_stepped (by rw [hpre]; exact fun h => nomatch h) (.inl hpre)
        (.inr (.inr (.inr ⟨hpre,hwon⟩))) h
    · rename_i hpre
      obtain ⟨r1,hlead,h⟩ := bind_eq_ok.mp h
      have hcand : r.state=.stateCandidate := hstate.resolve_left hpre
      obtain ⟨hm,hl⟩ := becomeLeader_stepped (T := T) (S := S) (by exact hcand) hwon hlead
      exact hm.trans (Sent.stepped (bcastAppend_sent hl h))
  · cases h
    exact becomeFollower_stepped _ (.inr ⟨rfl,hnot⟩) (.inl rfl)
  · cases h
    exact .refl _

theorem stepCandidate_stepped {err : Option StepErr} (hS : S m) (hst : m.Stamped)
    (htime : r.Timely m) (hstate : r.state=.statePreCandidate ∨ r.state=.stateCandidate)
    (h : r.stepCandidate m=.ok (r',err)) : Stepped T S r r' := by
  have hnot : r.state≠.stateFollower := by rcases hstate with hs | hs <;> exact hs ▸ by decide
  -- a message from the leader of this term ends the candidacy
  have hfollow : m.type.leads=true → m.type.needsTerm=true → ∀ {r1 : Raft},
      Handled ((r.becomeFollower m.term m.fromId).Current m) S
        (r.becomeFollower m.term m.fromId) r1 → Stepped T S r r1 := by
    intro hl hn r1 h1
    have hcur := htime.current hst hn
    refine Walk.trans (becomeFollower_stepped r (.inr ⟨hcur.1.symm,hnot⟩)
      (.inr ⟨m,hS,hl,rfl,rfl⟩)) (Handled.stepped (h1.given ⟨rfl,hcur.2⟩))
  unfold stepCandidate at h
  split at h
  · cases h
    exact .refl r
  · rename_i ht
    obtain ⟨r1,h1,h⟩ := bind_eq_ok.mp h
    cases h
    exact hfollow (by rw [ht]; rfl) (by rw [ht]; rfl) (handleAppendEntries_handled hS ht rfl h1)
  · rename_i ht
    obtain ⟨r1,h1,h⟩ := bind_eq_ok.mp h
    cases h
    exact hfollow (by rw [ht]; rfl) (by rw [ht]; rfl) (handleHeartbeat_handled hS ht rfl h1)
  · rename_i ht
    obtain ⟨r1,h1,h⟩ := bind_eq_ok.mp h
    cases h
    exact hfollow (by rw [ht]; rfl) (by rw [ht]; rfl) (handleSnapshot_handled hS ht rfl h1)
  · split at h
    · rename_i htype
      obtain ⟨r1,h1,h⟩ := bind_eq_ok.mp h
      cases h
      exact candidateVoteResp_stepped hS htype hst htime hstate h1
    · cases h
      exact .refl r

/-- A request that a follower passes on to its leader. -/
theorem says_forward {n : Message}
    (htype : n.type=.msgProp ∨ n.type=.msgTransferLeader ∨ n.type=.msgReadIndex)
    (h : r.state=.stateFollower ∧ r.lead≠noNode ∧ n.toId=r.lead ∧
      ∃ m, S m ∧ m.type=n.type ∧ m.entries=n.entries) : Says S r n := by
  unfold Says
  rcases htype with ht | ht | ht <;> rw [ht] at h ⊢ <;> exact h

theorem forward_sent (hS : S m)
    (htype : m.type=.msgProp ∨ m.type=.msgTransferLeader ∨ m.type=.msgReadIndex)
    (hfol : r.state=.stateFollower) (hlead : r.lead≠noNode)
    (h : r.send { m with toId := r.lead }=.ok r') : Sent T S r r' := by
  have ht : (r.stamp { m with toId := r.lead }).type=m.type := stamp_type ..
  have hto : (r.stamp { m with toId := r.lead }).toId=r.lead := by
    unfold stamp
    dsimp only
    split_ifs <;> rfl
  have htype' := htype
  rw [← ht] at htype'
  refine send_sent h ?_ (fun _ hn => ?_) (says_forward htype' ⟨hfol,hlead,hto,m,hS,ht.symm,
    (stamp_entries r { m with toId := r.lead }).symm⟩)
  · unfold Plain
    rw [ht,stamp_entries]
    rcases htype with htype | htype | htype <;> rw [htype]
    · trivial
    · trivial
    · refine ⟨?_,m,hS,htype,rfl⟩
      rw [stamp_readIndex r rfl]
      rw [htype] at h
      exact send_term h rfl
  · rw [ht] at hn
    rcases htype with htype | htype | htype <;> rw [htype] at hn <;> cases hn

theorem stepFollower_stepped {err : Option StepErr} (hS : S m) (hst : m.Stamped)
    (htime : r.Timely m) (hfol : r.state=.stateFollower)
    (h : r.stepFollower m=.ok (r',err)) : Stepped T S r r' := by
  have hheard : (r.hearLeader m.fromId).state=.stateFollower := hfol
  have hhear : m.type.leads=true → m.type.needsTerm=true → ∀ {r1 : Raft},
      Handled ((r.hearLeader m.fromId).Current m) S (r.hearLeader m.fromId) r1 →
      Stepped T S r r1 := by
    intro hl hn r1 h1
    have hcur := htime.current hst hn
    have hhear : Stepped T S r (r.hearLeader m.fromId) :=
      ⟨fun _ => .refl,.single (.hear hS hl hcur.1 hfol)⟩
    exact hhear.trans (Handled.stepped (h1.given hcur))
  unfold stepFollower at h
  split at h
  · rename_i ht
    split at h
    · cases h
      exact .refl r
    · rename_i hlead
      split at h
      · cases h
        exact .refl r
      · obtain ⟨r1,h1,h⟩ := bind_eq_ok.mp h
        cases h
        exact Sent.stepped (forward_sent hS (.inl ht) hfol hlead h1)
  · rename_i ht
    obtain ⟨r1,h1,h⟩ := bind_eq_ok.mp h
    cases h
    exact hhear (by rw [ht]; rfl) (by rw [ht]; rfl) (handleAppendEntries_handled hS ht hheard h1)
  · rename_i ht
    obtain ⟨r1,h1,h⟩ := bind_eq_ok.mp h
    cases h
    exact hhear (by rw [ht]; rfl) (by rw [ht]; rfl) (handleHeartbeat_handled hS ht hheard h1)
  · rename_i ht
    obtain ⟨r1,h1,h⟩ := bind_eq_ok.mp h
    cases h
    exact hhear (by rw [ht]; rfl) (by rw [ht]; rfl) (handleSnapshot_handled hS ht hheard h1)
  · rename_i ht
    split at h
    · cases h
      exact .refl r
    · rename_i hlead
      obtain ⟨r1,h1,h⟩ := bind_eq_ok.mp h
      cases h
      exact Sent.stepped (forward_sent hS (.inr (.inl ht)) hfol hlead h1)
  · rename_i ht
    obtain ⟨r1,h1,h⟩ := bind_eq_ok.mp h
    cases h
    exact hup_stepped (fun _ => .inr (.inl ⟨m,hS,ht⟩)) h1
  · rename_i ht
    split at h
    · cases h
      exact .refl r
    · rename_i hlead
      obtain ⟨r1,h1,h⟩ := bind_eq_ok.mp h
      cases h
      exact Sent.stepped (forward_sent hS (.inr (.inr ht)) hfol hlead h1)
  · rename_i ht
    split at h
    · rename_i e hents
      cases h
      exact ⟨fun _ => .single (.send (.read (.learn hS ht hents))),
        .single (.post (.reads r.readOnly _ r.pendingReadIndexMessages))⟩
    · cases h
      exact .refl r
  · cases h
    exact .refl r

theorem castVote_move (hS : S m) (ht : m.type=.msgVote) (hterm : m.term=r.term)
    (hup : (if r.canVote m then r.raftLog.isUpToDate m.index m.logTerm else .ok false)=.ok true)
    {r1 : Raft} (h : r.send { type := .msgVoteResp, toId := m.fromId, term := m.term }=.ok r1) :
    Move S r.core ({ r1 with electionElapsed := 0, vote := m.fromId } : Raft).core := by
  split at hup
  · rename_i hcan
    have hvote : r.vote=m.fromId ∨ r.vote=noNode := by
      simp only [canVote,ht,Bool.or_eq_true,Bool.and_eq_true,decide_eq_true_eq] at hcan
      rcases hcan with (hv | hv) | hv
      · exact .inl hv
      · exact .inr hv.1
      · cases hv.1
    have hmove : Move S r.core _ := .vote hS ht hterm hvote hup
    rw [(send_eq_ok h).1,hterm]
    exact hmove
  · cases hup

theorem handleVote_handled (hS : S m) (htype : m.type=.msgVote ∨ m.type=.msgPreVote)
    (h : r.handleVote m=.ok r') : Handled (m.type.needsTerm=true → m.term=r.term) S r r' := by
  obtain ⟨upToDate,hup,h⟩ := bind_eq_ok.mp h
  rcases htype with ht | ht
  · cases upToDate with
    | true =>
      simp only [if_true] at h
      obtain ⟨r1,h1,h⟩ := bind_eq_ok.mp h
      rw [if_pos ht] at h
      cases h
      rw [ht] at h1
      refine ⟨fun hterm => .single (castVote_move hS ht (hterm (by rw [ht]; rfl)) hup h1),?_⟩
      have hpost : Post S r r1 := send_post h1 rfl
      refine .head (.post hpost) (.single (.vote hS ht ?_))
      rw [hpost.same]
      split at hup
      · rename_i hcan
        simpa [canVote,ht] using hcan
      · cases hup
    | false =>
      simp only [Bool.false_eq_true,if_false] at h
      have hne := (send_eq_ok h).2 (by rw [ht]; rfl)
      rw [ht] at h
      exact Sent.handled (send_sent h ⟨rfl,rfl⟩ (fun _ _ => hne) rfl)
  · cases upToDate with
    | true =>
      simp only [if_true] at h
      obtain ⟨r1,h1,h⟩ := bind_eq_ok.mp h
      rw [if_neg (by rw [ht]; exact fun h => nomatch h)] at h
      cases h
      rw [ht] at h1
      exact Sent.handled (send_sent h1 trivial (fun _ => nofun) rfl)
    | false =>
      simp only [Bool.false_eq_true,if_false] at h
      rw [ht] at h
      exact Sent.handled (send_sent h trivial (fun _ => nofun) rfl)

theorem stepState_stepped {err : Option StepErr} (hS : fromTick m.type=false → S m)
    (hhup : m.type≠.msgHup) (hst : m.Stamped) (htime : r.Timely m)
    (h : r.stepState m=.ok (r',err)) : Stepped T S r r' := by
  have hterm : m.type.needsTerm=true → m.term=r.term := fun hn => (htime.current hst hn).1
  by_cases htick : fromTick m.type=true
  · -- only a leader reacts to the two remaining local messages
    have ht : m.type=.msgBeat ∨ m.type=.msgCheckQuorum := by
      cases hm : m.type <;> simp_all [fromTick]
    unfold stepState at h
    split at h
    · unfold stepFollower at h
      rcases ht with ht | ht <;> rw [ht] at h <;> cases h <;> exact .refl _
    · rename_i hs
      unfold stepCandidate at h
      rcases ht with ht | ht <;> simp only [ht,myVoteRespType,hs] at h <;> cases h <;>
        exact .refl _
    · rename_i hs
      unfold stepCandidate at h
      rcases ht with ht | ht <;> simp only [ht,myVoteRespType,hs] at h <;> cases h <;>
        exact .refl _
    · rename_i hlead
      refine stepLeader_stepped hlead ?_ hterm h
      intro hb hq
      rcases ht with ht | ht <;> contradiction
  · have hS := hS (by simpa using htick)
    unfold stepState at h
    split at h
    · rename_i hs
      exact stepFollower_stepped hS hst htime hs h
    · rename_i hs
      exact stepCandidate_stepped hS hst htime (.inr hs) h
    · rename_i hs
      exact stepCandidate_stepped hS hst htime (.inl hs) h
    · rename_i hs
      exact stepLeader_stepped hs (fun _ _ => hS) hterm h

theorem stepType_stepped {err : Option StepErr} (hS : fromTick m.type=false → S m)
    (hst : m.Stamped) (htime : r.Timely m) (h : r.stepType m=.ok (r',err)) :
    Stepped T S r r' := by
  have hvote : (m.type=.msgVote ∨ m.type=.msgPreVote) → ∀ {r1 : Raft}, r.handleVote m=.ok r1 →
      Stepped T S r r1 := by
    intro ht r1 h1
    have hS := hS (by rcases ht with ht | ht <;> rw [ht] <;> rfl)
    exact Handled.stepped
      ((handleVote_handled hS ht h1).given (fun hn => (htime.current hst hn).1))
  unfold stepType at h
  split at h
  · obtain ⟨r1,h1,h⟩ := bind_eq_ok.mp h
    cases h
    refine hup_stepped (fun ht => .inl ?_) h1
    cases hpre : r.preVote with
    | false => rfl
    | true => exact absurd (if_pos hpre) ht
  · rename_i ht
    obtain ⟨r1,h1,h⟩ := bind_eq_ok.mp h
    cases h
    exact hvote (.inl ht) h1
  · rename_i ht
    obtain ⟨r1,h1,h⟩ := bind_eq_ok.mp h
    cases h
    exact hvote (.inr ht) h1
  · rename_i hhup _ _
    exact stepState_stepped hS hhup hst htime h

theorem stepLower_sent (h : r.stepLower m=.ok r') : Sent (m.term<r.term) S r r' := by
  unfold stepLower at h
  split at h
  · exact send_sent h ⟨rfl,rfl,.inr rfl⟩ (fun hlt _ => ((Nat.zero_le _).trans_lt hlt).ne')
      ⟨rfl,rfl⟩
  · split at h
    · exact send_sent h trivial (fun _ => nofun) rfl
    · cases h
      exact .refl r

/-- Everything that a step does. -/
theorem step_stepped {err : Option StepErr} (hS : fromTick m.type=false ∨ m.term≠0 → S m)
    (hst : m.Stamped) (h : r.step m=.ok (r',err)) : Stepped T S r r' := by
  have hS' : fromTick m.type=false → S m := fun ht => hS (.inl ht)
  unfold step at h
  split at h
  · rename_i h0
    exact stepType_stepped hS' hst (.inl h0) h
  · rename_i h0
    split at h
    · rename_i hlt
      split at h
      · cases h
        exact .refl r
      · split at h
        · rename_i hkeep
          exact stepType_stepped hS' hst (.inr (.inr ⟨hlt,hkeep⟩)) h
        · rename_i hkeep
          refine Walk.trans (becomeFollower_stepped r
            (.inl ⟨hlt,m,hS (.inr h0),rfl,by simpa using hkeep⟩) ?_)
            (stepType_stepped hS' hst (.inr (.inl rfl)) h)
          unfold leadOf
          split_ifs with hl
          · have hleads : m.type.leads=true := by rcases hl with ht | ht | ht <;> rw [ht] <;> rfl
            exact .inr ⟨m,hS (.inr h0),hleads,rfl,rfl⟩
          · exact .inl rfl
    · split at h
      · rename_i hlt
        obtain ⟨r1,h1,h⟩ := bind_eq_ok.mp h
        cases h
        exact Sent.stepped ((stepLower_sent h1).given hlt)
      · exact stepType_stepped hS' hst (.inr (.inl (by omega))) h

theorem step_moves {err : Option StepErr} (hS : fromTick m.type=false ∨ m.term≠0 → S m)
    (hst : m.Stamped) (h : r.step m=.ok (r',err)) : Moves S r.core r'.core :=
  (step_stepped hS hst h).moves

theorem step_touches {err : Option StepErr} (hS : fromTick m.type=false ∨ m.term≠0 → S m)
    (hst : m.Stamped) (h : r.step m=.ok (r',err)) : Touches S r r' :=
  (step_stepped (T := True) hS hst h).node

/-- A read request is served, passed on, dropped or postponed, and nothing else happens. -/
theorem step_readIndex_sends {err : Option StepErr} (hS : S m) (ht : m.type=.msgReadIndex)
    (h0 : m.term=0) (h : r.step m=.ok (r',err)) : Sends S r.core r'.core := by
  have hstep : r.step m=r.stepState m := by
    unfold step stepType
    rw [if_pos h0,ht]
  have hcand : r.stepCandidate m=.ok (r,none) := by
    have hresp : m.type≠r.myVoteRespType := by
      unfold myVoteRespType
      rw [ht]
      split_ifs <;> decide
    unfold stepCandidate
    rw [ht] at hresp ⊢
    exact if_neg hresp
  rw [hstep,stepState] at h
  split at h
  · rename_i hfol
    unfold stepFollower at h
    rw [ht] at h
    dsimp only at h
    split at h
    · cases h
      exact .refl
    · rename_i hlead
      obtain ⟨r1,h1,h⟩ := bind_eq_ok.mp h
      cases h
      rw [← ht] at h1
      exact (forward_sent hS (.inr (.inr ht)) hfol hlead h1).sends
  · rw [hcand] at h
    cases h
    exact .refl
  · rw [hcand] at h
    cases h
    exact .refl
  · rename_i hlead
    unfold stepLeader at h
    rw [ht] at h
    obtain ⟨r1,h1,h⟩ := bind_eq_ok.mp h
    cases h
    exact (leaderReadIndex_sent hlead hS ht h1).sends

theorem stepIgnored_stepped (hS : fromTick m.type=false ∨ m.term≠0 → S m) (hst : m.Stamped)
    (h : r.stepIgnored m=.ok r') : Stepped T S r r' := by
  obtain ⟨⟨r1,err⟩,h1,h⟩ := bind_eq_ok.mp h
  cases h
  exact step_stepped hS hst h1

/-- The timers are not part of the core. -/
theorem clock_ticked (r : Raft) (e n : Nat) :
    Ticked T S r { r with electionElapsed := e, heartbeatElapsed := n } :=
  ⟨fun _ => .refl,.single (.clock e n)⟩

theorem tickElection_ticked (h : r.tickElection=.ok r') : Ticked T S r r' := by
  unfold tickElection at h
  dsimp only at h
  split at h
  · exact Walk.trans (clock_ticked r 0 r.heartbeatElapsed)
      (Stepped.ticked (stepIgnored_stepped (unsourced rfl rfl) (by intro h; cases h) h))
  · cases h
    exact clock_ticked r (r.electionElapsed+1) r.heartbeatElapsed

theorem leaderTimeout_ticked (h : r.leaderTimeout=.ok r') : Ticked T S r r' := by
  obtain ⟨r1,h1,h⟩ := bind_eq_ok.mp h
  have hm : Ticked T S r r1 := by
    refine Walk.trans (clock_ticked r 0 r.heartbeatElapsed) ?_
    split at h1
    · exact Stepped.ticked (stepIgnored_stepped (unsourced rfl rfl) (by intro h; cases h) h1)
    · cases h1
      exact .refl _
  refine hm.trans ?_
  split at h
  · cases h
    exact ⟨fun _ => .refl,.single (.touch .abort)⟩
  · cases h
    exact .refl _

theorem tickHeartbeat_ticked (h : r.tickHeartbeat=.ok r') : Ticked T S r r' := by
  obtain ⟨r1,h1,h⟩ := bind_eq_ok.mp h
  have hm : Ticked T S r r1 := by
    refine Walk.trans (clock_ticked r (r.electionElapsed+1) (r.heartbeatElapsed+1)) ?_
    split at h1
    · exact leaderTimeout_ticked h1
    · cases h1
      exact .refl _
  refine hm.trans ?_
  split at h
  · cases h
    exact .refl _
  · split at h
    · exact Walk.trans (clock_ticked r1 r1.electionElapsed 0)
        (Stepped.ticked (stepIgnored_stepped (unsourced rfl rfl) (by intro h; cases h) h))
    · cases h
      exact .refl _

theorem tick_ticked (h : r.tick=.ok r') : Ticked T S r r' := by
  unfold tick at h
  split at h
  · exact tickHeartbeat_ticked h
  · exact tickElection_ticked h

theorem tick_moves (h : r.tick=.ok r') : Moves S r.core r'.core :=
  (tick_ticked h).moves

theorem tick_touches (h : r.tick=.ok r') : TickTouches S r r' := (tick_ticked (T := True) h).node

end

end RaftTesting.Raft
