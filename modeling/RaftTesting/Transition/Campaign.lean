import RaftTesting.Transition.Send

namespace RaftTesting.Raft

open RaftTesting.Core

theorem becomeFollower_core (r : Raft) (term lead : Nat) :
    (r.becomeFollower term lead).core={ r.core.reset term with state := .stateFollower } := rfl

section

variable {r r' : Raft} {es : List Entry} {b : Bool}

theorem stampEntries_length (term li : Nat) (es : List Entry) :
    (stampEntries term li es).length=es.length := by
  unfold stampEntries
  rw [List.length_mapIdx]

theorem payloadSum_stampEntries (term li : Nat) (es : List Entry) :
    payloadSum (stampEntries term li es)=payloadSum es := by
  unfold payloadSum stampEntries
  congr 1
  apply List.ext_getElem
  · simp
  · intro i h h'
    simp [payloadSize]

/-- Committing moves the commit index and nothing else. -/
theorem maybeCommit_eq (h : r.maybeCommit=.ok (r',b)) :
    ∃ k, r'=r.setLog { r.raftLog with committed := k } := by
  obtain ⟨⟨l,changed⟩,hl,h⟩ := bind_eq_ok.mp h
  cases h
  rcases RaftLog.maybeCommit_spec hl with ⟨-,rfl⟩ | ⟨-,-,-,rfl⟩
  · exact ⟨_,rfl⟩
  · rw [RaftLog.commitTo_fst]
    exact ⟨_,rfl⟩

/-- What does not fit is refused and changes nothing; anything else is in the log when the
leader looks at what is committed. -/
theorem appendEntry_spec (h : r.appendEntry es=.ok (r',b)) :
    b=false ∧ r'=r ∧ r.Full es ∨ b=true ∧ ¬r.Full es ∧ ∃ l pr changed,
      r.raftLog.append (stampEntries r.term r.raftLog.lastIndex es)=.ok l ∧
      r.prs.progress.get? r.id=some pr ∧
      ((r.grown es l).setProgress r.id (pr.maybeUpdate l.lastIndex).1).maybeCommit=
        .ok (r',changed) := by
  have hsum := payloadSum_stampEntries r.term r.raftLog.lastIndex es
  unfold appendEntry increaseUncommittedSize at h
  dsimp only at h
  rw [hsum] at h
  split at h
  · rename_i hfull
    cases h
    exact .inl ⟨rfl,rfl,hfull⟩
  · rename_i hfits
    simp only [Bool.not_true,Bool.false_eq_true,if_false] at h
    obtain ⟨l,hl,h⟩ := bind_eq_ok.mp h
    split at h
    · cases h
    · rename_i pr hget
      obtain ⟨⟨r1,changed⟩,hc,h⟩ := bind_eq_ok.mp h
      cases h
      exact .inr ⟨rfl,hfits,l,pr,changed,hl,hget,hc⟩

theorem promotable_spec (h : r.promotable=true) :
    (∃ pr, r.prs.progress.get? r.id=some pr ∧ pr.isLearner=false) ∧
      r.raftLog.hasPendingSnapshot=false := by
  unfold promotable at h
  split at h
  · cases h
  · rename_i pr hget
    simp only [Bool.and_eq_true,Bool.not_eq_true'] at h
    exact ⟨⟨pr,hget,h.1⟩,h.2⟩

/-- The requests that a campaign sends, one to each other voter. -/
theorem requestVotes_spec {t : CampaignType} {voteMsg : MessageType} {term : Nat}
    (hv : isVoteMsg voteMsg=true) (h : r.requestVotes t voteMsg term=.ok r') :
    ∃ ms, r'={ r with msgs := r.msgs++ms } ∧
      (∀ n ∈ ms, n.type=voteMsg ∧ n.fromId=r.id ∧ n.term=term) ∧
      ∀ id, r.prs.config.voters.ids.contains id=true → id≠r.id → ms≠[] := by
  unfold requestVotes at h
  suffices hloop : ∃ ms, r'={ r with msgs := r.msgs++ms } ∧
      (∀ n ∈ ms, n.type=voteMsg ∧ n.fromId=r.id ∧ n.term=term) ∧
      ∀ id ∈ r.prs.config.voters.ids.keys, id≠r.id → ms≠[] by
    obtain ⟨ms,heq,hms,hne⟩ := hloop
    exact ⟨ms,heq,hms,fun id hid => hne id ((IdSet.mem_keys_contains _ id).mpr hid)⟩
  generalize r.prs.config.voters.ids.keys=ks at h
  induction ks generalizing r with
  | nil =>
    cases h
    exact ⟨[],by rw [List.append_nil],fun _ hn => absurd hn List.not_mem_nil,
      fun _ hid => absurd hid List.not_mem_nil⟩
  | cons k ks ih =>
    obtain ⟨r1,h1,h⟩ := bind_eq_ok.mp h
    dsimp only at h1
    split at h1
    · rename_i hk
      cases h1
      obtain ⟨ms,heq,hms,hne⟩ := ih h
      refine ⟨ms,heq,hms,fun id hid hself => ?_⟩
      rcases List.mem_cons.mp hid with rfl | hid
      · exact absurd hk hself
      · exact hne id hid hself
    · obtain ⟨lastTerm,-,h1⟩ := bind_eq_ok.mp h1
      obtain rfl := (send_eq_ok h1).1
      obtain ⟨ms,heq,hms,-⟩ := ih h
      dsimp only at heq
      rw [List.append_assoc] at heq
      refine ⟨_,heq,fun n hn => ?_,fun _ _ _ => List.cons_ne_nil _ _⟩
      rcases List.mem_cons.mp hn with rfl | hn
      · simp [stamp,noNode,hv]
      · exact hms n hn

/-- Nobody else is asked for a vote only if the own one decides. -/
theorem tallyVotes_alone {p : ProgressTracker} {id : Nat}
    (h : ∀ j, p.config.voters.ids.contains j=true → j=id) :
    (p.resetVotes.recordVote id true).tallyVotes=.voteWon := by
  have hvotes : (p.resetVotes.recordVote id true).votes.get? id=some true :=
    SortedMap.get?_insert_self ..
  have hhalf : ∀ c : MajorityConfig, (∀ j, MajorityConfig.has c j=true → j=id) →
      MajorityConfig.len c=0 ∨ MajorityOf (MajorityConfig.ids c) (fun j =>
        (p.resetVotes.recordVote id true).votes.get? j=some true) := by
    intro c hc
    rcases Nat.eq_zero_or_pos (MajorityConfig.len c) with h0 | hpos
    · exact .inl h0
    · refine .inr ⟨_,Finset.Subset.refl _,?_,fun j hj => ?_⟩
      · rw [MajorityConfig.card_ids]
        omega
      · rw [hc j ((MajorityConfig.mem_ids c j).mp hj)]
        exact hvotes
  refine (JointConfig.voteResult_won _ _).mpr
    ⟨hhalf _ (fun j hj => h j ?_),hhalf _ (fun j hj => h j ?_)⟩
  · have hj : MajorityConfig.has p.config.voters.incoming j=true := hj
    rw [JointConfig.contains_ids,hj]
    rfl
  · have hj : MajorityConfig.has p.config.voters.outgoing j=true := hj
    rw [JointConfig.contains_ids,hj,Bool.or_true]

end

section

variable [Raftpb] {T : Prop} {S : Message → Prop} {r r' : Raft}

theorem Handled.state (h : Handled T S r r') : r'.state=r.state := Tends.state h.node

theorem becomeFollower_move (r : Raft) {term : Nat} (lead : Nat) (h : r.term≤term) :
    Move S r.core (r.becomeFollower term lead).core := by
  rw [becomeFollower_core]
  exact .follow h

theorem becomeFollower_stepped (r : Raft) {term lead : Nat}
    (hterm : (r.term<term ∧ ∃ m, S m ∧ m.term=term ∧ keepsTerm m=false) ∨
      r.term=term ∧ r.state≠.stateFollower) (hlead : Vouched S term lead) :
    Stepped T S r (r.becomeFollower term lead) := by
  have hle : r.term≤term := hterm.elim (fun h => h.1.le) (fun h => h.1.le)
  exact ⟨fun _ => .single (becomeFollower_move r lead hle),.single (.follow hterm hlead)⟩

theorem maybeCommit_handled {b : Bool} (hlead : r.state=.stateLeader)
    (h : r.maybeCommit=.ok (r',b)) : Handled T S r r' := by
  obtain ⟨⟨l,changed⟩,hl,h⟩ := bind_eq_ok.mp h
  cases h
  rcases RaftLog.maybeCommit_spec hl with ⟨rfl,rfl⟩ | ⟨rfl,-,hown,rfl⟩
  · exact .refl r
  · refine ⟨fun _ => .single (.commit hlead hl),?_⟩
    rw [RaftLog.commitTo_fst]
    split_ifs with hlt
    · exact .single (.commit hlt.1.le (fun _ => hown))
    · exact .refl

/-- An append is refused only for its size; otherwise the entries are in the log and in the
count. -/
theorem appendEntry_handled {es : List Entry} {b : Bool} (hlead : r.state=.stateLeader)
    (h : r.appendEntry es=.ok (r',b)) :
    b=false ∧ r'=r ∧ r.Full es ∨ b=true ∧ ¬r.Full es ∧ ∃ l pr,
      r.raftLog.append (stampEntries r.term r.raftLog.lastIndex es)=.ok l ∧
      r.prs.progress.get? r.id=some pr ∧
      Handled T S ((r.grown es l).setProgress r.id (pr.maybeUpdate l.lastIndex).1) r' := by
  rcases appendEntry_spec h with hrefused | ⟨hb,hfits,l,pr,changed,hl,hget,hc⟩
  · exact .inl hrefused
  · exact .inr ⟨hb,hfits,l,pr,hl,hget,maybeCommit_handled (by exact hlead) hc⟩

/-- The pending index that the entries were screened with belongs to the append, or
stands alone when the append is refused. -/
theorem appendEntry_stepped {es : List Entry} {b : Bool} {p : Nat} (hlead : r.state=.stateLeader)
    (hs : Screened r.raftLog.lastIndex r.raftLog.applied 0 p es r.pendingConfIndex)
    (hown : (∃ m, S m ∧ m.type=.msgProp) ∨
      ∀ pr, r.prs.progress.get? r.id=some pr → pr.inflights.window=[])
    (hes : ∀ e ∈ es, Entry.Sourced S e) (h : r.appendEntry es=.ok (r',b)) :
    Stepped T S { r with pendingConfIndex := p } r' ∧ r'.state=.stateLeader := by
  have hpend : Touch S { r with pendingConfIndex := p } r := .pend r.pendingConfIndex
  rcases appendEntry_handled (T := T) (S := S) hlead h with ⟨-,rfl,-⟩ | ⟨-,-,l,pr,hl,hget,hm⟩
  · have hmove : Move S { r'.core with pendingConfIndex := p } r'.core := .pend hlead hs
    exact ⟨⟨fun _ => .single hmove,.single hpend⟩,hlead⟩
  · have happ : Move S { r.core with pendingConfIndex := p } _ :=
      .append (c := { r.core with pendingConfIndex := p }) hlead hs hl hget
        (hown.imp_right (fun hw => hw pr hget))
    have hself : Post S (r.grown es l)
        ((r.grown es l).setProgress r.id (pr.maybeUpdate l.lastIndex).1) := by
      refine setProgress_post _ hget ?_ (fun ha => .inl ?_)
      · rw [Progress.maybeUpdate_fst]
      · rw [Progress.maybeUpdate_fst] at ha
        exact ha
    refine ⟨⟨fun ht => .head happ (hm.core ht),?_⟩,hm.state.trans hlead⟩
    exact .head hpend (.head (.grow hlead hes hl) (.head (.post hself) (Tends.touches hm.node)))

theorem becomeLeader_stepped (hcand : r.state=.stateCandidate) (hwon : r.prs.tallyVotes=.voteWon)
    (h : r.becomeLeader=.ok r') : Stepped T S r r' ∧ r'.state=.stateLeader := by
  unfold becomeLeader at h
  split at h
  · cases h
  · dsimp only at h
    split at h
    · cases h
    · rename_i pr hget
      obtain ⟨⟨r1,b⟩,happ,h⟩ := bind_eq_ok.mp h
      split at h
      · cases h
      · cases h
        have helect : Move S r.core _ := .elect hcand hwon hget
        -- the window has just been reset
        have hown : ∀ pr', (SortedMap.insert (r.reset r.term).prs.progress r.id
            pr.becomeReplicate).get? r.id=some pr' → pr'.inflights.window=[] := by
          intro pr' hget'
          rw [SortedMap.get?_insert_self] at hget'
          cases hget'
          exact Inflights.reset_window _
        obtain ⟨hm,hl⟩ := appendEntry_stepped (T := T) (S := S) (p := r.raftLog.lastIndex) rfl
          (.keep rfl .nil) (.inr hown) (fun e he => .inl (List.mem_singleton.mp he)) happ
        refine ⟨⟨fun ht => .head helect (hm.core ht),?_⟩,hl⟩
        refine .head (.rise hcand hwon) ?_
        refine .head (.post (setProgress_post pr.becomeReplicate hget rfl .inl)) ?_
        exact .head (.pend r.raftLog.lastIndex) (hm.node.tail (.release _))

theorem poll_move (id : Nat) (v : Bool)
    (hstate : r.state=.statePreCandidate ∨ r.state=.stateCandidate)
    (hv : r.state=.stateCandidate → v=true → id=r.id ∨ ∃ m, S m ∧ m.type=.msgVoteResp ∧
      m.fromId=id ∧ m.reject=false ∧ m.term=r.term) :
    Move S r.core (r.poll id v).1.core :=
  .poll hstate hv

/-- The requests of a campaign; a real vote request tells the candidate's own term
and the end of its log. -/
theorem requestVotes_sent {t : CampaignType} {voteMsg : MessageType} {term : Nat}
    (hv : voteMsg=.msgPreVote ∧ r.state=.statePreCandidate ∧ term=r.term+1 ∨
      voteMsg=.msgVote ∧ r.state=.stateCandidate ∧ term=r.term)
    (h : r.requestVotes t voteMsg term=.ok r') : Sent T S r r' := by
  have hR := foldlM_rel (R := fun a b : Raft => Posts S r a → Sent T S a b) (fun a _ => .refl a)
    ?_ ?_ h
  · exact hR .refl
  · intro a b c hab hbc ha
    exact (hab ha).trans (hbc (ha.trans (hab ha).node))
  · intro id _ a b h ha
    have hsame := ha.same
    split at h
    · cases h
      exact .refl a
    · obtain ⟨lastTerm,hlast,h⟩ := bind_eq_ok.mp h
      have hstate : a.state=r.state := by rw [hsame]
      have hterm : a.term=r.term := by rw [hsame]
      rcases hv with ⟨rfl,hpre,rfl⟩ | ⟨rfl,hcand,rfl⟩
      · exact send_sent h trivial (fun _ => nofun)
          ⟨hstate.trans hpre,rfl,congrArg (·+1) hterm.symm⟩
      · have hne := (send_eq_ok h).2 rfl
        have hcand := hstate.trans hcand
        exact send_sent h ⟨rfl,hcand,hterm.symm,rfl,hlast⟩ (fun _ _ => hne) ⟨hcand,rfl,hterm.symm⟩

/-- A candidate begins with its own vote, which may be enough. -/
theorem standing_stepped {t : CampaignType} (hcand : r.state=.stateCandidate)
    (h : (if (r.poll r.id true).2=.voteWon then (r.poll r.id true).1.becomeLeader
      else (r.poll r.id true).1.requestVotes t .msgVote r.term)=.ok r') : Stepped T S r r' := by
  have hpoll : Stepped T S r (r.poll r.id true).1 :=
    ⟨fun _ => .single (poll_move r.id true (.inr hcand) (fun _ _ => .inl rfl)),
      .single (.poll r.id true (.inl rfl))⟩
  refine hpoll.trans ?_
  split at h
  · rename_i hwon
    exact (becomeLeader_stepped (r := (r.poll r.id true).1) hcand hwon h).1
  · exact Sent.stepped (requestVotes_sent (.inr ⟨rfl,hcand,rfl⟩) h)

theorem campaignVote_stepped {t : CampaignType} (hlead : r.state≠.stateLeader)
    (hok : r.state=.statePreCandidate ∨ r.core.HupOk) (hcall : Called S r)
    (h : r.campaignVote t=.ok r') : Stepped T S r r' := by
  obtain ⟨r1,hcand,h⟩ := bind_eq_ok.mp h
  unfold becomeCandidate at hcand
  rw [if_neg hlead] at hcand
  cases hcand
  exact Walk.trans ⟨fun _ => .single (.stand hlead hok),.single (.stand hlead hcall)⟩
    (standing_stepped rfl h)

theorem campaign_stepped {t : CampaignType} (hlead : r.state≠.stateLeader) (hok : r.core.HupOk)
    (hcall : t≠.campaignPreElection → Called S r) (h : r.campaign t=.ok r') : Stepped T S r r' := by
  unfold campaign at h
  split at h
  · obtain ⟨r1,hpre,h⟩ := bind_eq_ok.mp h
    unfold becomePreCandidate at hpre
    rw [if_neg hlead] at hpre
    cases hpre
    have hstood : Moves S r.core (poll ({ r with
        prs := r.prs.resetVotes
        lead := noNode
        state := .statePreCandidate } : Raft) r.id true).1.core :=
      .head (.preStand hlead hok) (.single (poll_move (r := { r with
        prs := r.prs.resetVotes
        lead := noNode
        state := .statePreCandidate }) r.id true (.inl rfl) (fun h => nomatch h)))
    dsimp only at h
    split at h
    · -- the candidacy that follows at once leaves no trace of the pre-candidacy
      rename_i hwon
      obtain ⟨r2,hcand,h⟩ := bind_eq_ok.mp h
      cases hcand
      have hrest := standing_stepped (T := T) (S := S) rfl h
      exact ⟨fun ht => (hstood.tail (.stand nofun (.inl rfl))).trans (hrest.core ht),
        .head (.stand hlead (.inr (.inr (.inl hwon)))) hrest.node⟩
    · rename_i hnot
      have hsent := requestVotes_sent (T := T) (S := S) (.inl ⟨rfl,rfl,rfl⟩) h
      refine ⟨fun ht => hstood.trans (Sends.moves (hsent.core ht)),?_⟩
      obtain ⟨ms,rfl,hms,hne⟩ := requestVotes_spec rfl h
      refine .single (.preStand hlead (fun hnil => hnot (tallyVotes_alone (fun j hj => ?_))) hms)
      by_contra hself
      refine hne j ?_ hself hnil
      change (r.prs.resetVotes.recordVote r.id true).config.voters.ids.contains j=true
      rw [(r.prs.resetVotes.recordVote_frame r.id true).1]
      exact hj
  · rename_i ht
    exact campaignVote_stepped hlead (.inr hok) (hcall ht) h

theorem hup_stepped {t : CampaignType} (hcall : t≠.campaignPreElection → Called S r)
    (h : r.hup t=.ok r') : Stepped T S r r' := by
  unfold hup at h
  split at h
  · cases h
    exact .refl r
  · rename_i hlead
    split at h
    · cases h
      exact .refl r
    · rename_i hprom
      obtain ⟨res,hslice,h⟩ := bind_eq_ok.mp h
      split at h
      · cases h
      · rename_i ents
        split at h
        · cases h
          exact .refl r
        · rename_i hpend
          refine campaign_stepped hlead ?_ hcall h
          obtain ⟨htracked,hsettled⟩ := promotable_spec (by simpa using hprom)
          refine ⟨htracked,hsettled,ents,hslice,?_⟩
          by_cases hn : numOfPendingConf ents=0
          · exact .inl hn
          · exact .inr (Nat.not_lt.mp (fun hlt => hpend ⟨hn,hlt⟩))

end

end RaftTesting.Raft
