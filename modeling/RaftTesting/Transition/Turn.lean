import RaftTesting.Quorum.Committed
import RaftTesting.Transition.Log

namespace RaftTesting.Raft

/-- The node decides alone. -/
def Alone (r : Raft) : Prop :=
  r.prs.isSingleton=true ∧ MajorityConfig.has r.prs.config.voters.incoming r.id=true

/-- A leader that decides alone has committed an entry of its term, as long as the indexes of
its log fit a machine word. -/
def Sole (r : Raft) : Prop := r.state=.stateLeader → r.Alone → r.raftLog.Whole →
  r.raftLog.lastIndex ≤ maxUint64 → r.Owns r.raftLog.committed

/-- A leader has the entry that it began its term with. -/
def Led (r : Raft) : Prop := r.state=.stateLeader → 1≤r.raftLog.lastIndex

/-- A step that neither moves the target of a leadership transfer nor the count of uncommitted
bytes. While the node leads, its log and configuration stay, up to the commit index, which
only moves to entries of its term. -/
structure Still (r r' : Raft) : Prop where
  id : r'.id=r.id
  lead : r'.state=.stateLeader ↔ r.state=.stateLeader
  term : r'.term=r.term
  leadTransferee : r'.leadTransferee=r.leadTransferee
  uncommittedSize : r'.uncommittedSize=r.uncommittedSize
  maxUncommittedSize : r'.maxUncommittedSize=r.maxUncommittedSize
  raftLog : r.state=.stateLeader → ∃ k, r'.raftLog={ r.raftLog with committed := k } ∧
    (k=r.raftLog.committed ∨ r.Owns k)
  config : r.state=.stateLeader → r'.prs.config=r.prs.config

/-- The fields that Still is about. -/
def aside (r : Raft) : Nat × StateType × Nat × Nat × Nat × Nat × RaftLog × TrackerConfig :=
  (r.id,r.state,r.term,r.leadTransferee,r.uncommittedSize,r.maxUncommittedSize,r.raftLog,
    r.prs.config)

/-- Both are cleared, and a leader is a new one. -/
structure Fresh (r r' : Raft) : Prop where
  id : r'.id=r.id
  leadTransferee : r'.leadTransferee=noNode
  uncommittedSize : r'.uncommittedSize=0
  maxUncommittedSize : r'.maxUncommittedSize=r.maxUncommittedSize
  led : r'.Led
  sole : r'.Sole

/-- What a step does to the target of a transfer and to the count of uncommitted bytes. A holds
of the entries that the step may append. -/
inductive Turn (A : List Entry → Prop) (r r' : Raft) : Prop
  | still (h : Still r r')
  | abort (h : Still r.abortLeaderTransfer r')
  | aim {t : Nat} {pr : Progress} (hlead : r.state=.stateLeader)
      (hget : r.prs.progress.get? t=some pr) (hpr : pr.isLearner=false) (hne : t≠r.id)
      (h : Still { r with leadTransferee := t } r')
  | fresh (h : Fresh r r')
  | grow {es : List Entry} {l : RaftLog} (hlead : r.state=.stateLeader) (hA : A es)
      (hroom : ¬r.Full es)
      (hl : r.raftLog.append (stampEntries r.term r.raftLog.lastIndex es)=.ok l)
      (h : Still (r.grown es l) r')

variable {A : List Entry → Prop} {r r' r'' : Raft} {m : Message}

theorem Still.of_aside (h : r'.aside=r.aside) : Still r r' := by
  simp only [aside,Prod.mk.injEq] at h
  obtain ⟨hid,hstate,hterm,hlt,hu,hmax,hlog,hcfg⟩ := h
  refine ⟨hid,by rw [hstate],hterm,hlt,hu,hmax,fun _ => ⟨r.raftLog.committed,?_,.inl rfl⟩,
    fun _ => hcfg⟩
  rw [hlog]

theorem Still.refl (r : Raft) : Still r r := .of_aside rfl

theorem Still.trans (h : Still r r') (h' : Still r' r'') : Still r r'' where
  id := h'.id.trans h.id
  lead := h'.lead.trans h.lead
  term := h'.term.trans h.term
  leadTransferee := h'.leadTransferee.trans h.leadTransferee
  uncommittedSize := h'.uncommittedSize.trans h.uncommittedSize
  maxUncommittedSize := h'.maxUncommittedSize.trans h.maxUncommittedSize
  raftLog := by
    intro hl
    obtain ⟨k,hk,hown⟩ := h.raftLog hl
    obtain ⟨k',hk',hown'⟩ := h'.raftLog (h.lead.mpr hl)
    refine ⟨k',by rw [hk',hk],?_⟩
    unfold Owns at hown'
    rw [hk,h.term] at hown'
    rcases hown' with rfl | hown'
    · exact hown
    · exact .inr hown'
  config := fun hl => (h'.config (h.lead.mpr hl)).trans (h.config hl)

/-- A node that does not lead may do anything to its log and its configuration. -/
theorem Still.of_not_leader (hs : r.state≠.stateLeader) (hs' : r'.state≠.stateLeader)
    (hid : r'.id=r.id) (hterm : r'.term=r.term) (hlt : r'.leadTransferee=r.leadTransferee)
    (hu : r'.uncommittedSize=r.uncommittedSize)
    (hmax : r'.maxUncommittedSize=r.maxUncommittedSize) : Still r r' :=
  ⟨hid,⟨fun h => absurd h hs',fun h => absurd h hs⟩,hterm,hlt,hu,hmax,fun h => absurd h hs,
    fun h => absurd h hs⟩

/-- Either nothing happens to the transfer and the count, or both are cleared. -/
def Rests (r r' : Raft) : Prop := Still r r' ∨ Fresh r r'

theorem led_of_not (h : r.state≠.stateLeader) : r.Led := fun hl => absurd hl h

theorem Led.still (h : r.Led) (hs : Still r r') : r'.Led := by
  intro hl
  have hlead := hs.lead.mp hl
  obtain ⟨k,hk,-⟩ := hs.raftLog hlead
  rw [hk]
  exact h hlead

theorem sole_of_not (h : r.state≠.stateLeader) : r.Sole := fun hl => absurd hl h

theorem Sole.still (h : r.Sole) (hs : Still r r') : r'.Sole := by
  intro hl halone hw hlen
  have hlead := hs.lead.mp hl
  obtain ⟨k,hk,hown⟩ := hs.raftLog hlead
  unfold Alone ProgressTracker.isSingleton at halone
  rw [hs.config hlead,hs.id] at halone
  unfold Owns
  rw [hk] at hw hlen ⊢
  rw [hs.term]
  rcases hown with rfl | hown
  · exact h hlead halone (hw.congr rfl rfl) hlen
  · exact hown

theorem Fresh.still (h : Fresh r r') (h' : Still r' r'') : Fresh r r'' :=
  ⟨h'.id.trans h.id,h'.leadTransferee.trans h.leadTransferee,
    h'.uncommittedSize.trans h.uncommittedSize,h'.maxUncommittedSize.trans h.maxUncommittedSize,
    h.led.still h',h.sole.still h'⟩

theorem Still.rests (h : Still r r') (h' : Rests r' r'') : Rests r r'' := by
  rcases h' with h' | h'
  · exact .inl (h.trans h')
  · exact .inr ⟨h'.id.trans h.id,h'.leadTransferee,h'.uncommittedSize,
      h'.maxUncommittedSize.trans h.maxUncommittedSize,h'.led,h'.sole⟩

theorem Rests.still (h : Rests r r') (h' : Still r' r'') : Rests r r'' := by
  rcases h with h | h
  · exact .inl (h.trans h')
  · exact .inr (h.still h')

theorem Fresh.rests (h : Fresh r r') (h' : Rests r' r'') : Fresh r r'' := by
  rcases h' with h' | h'
  · exact h.still h'
  · exact ⟨h'.id.trans h.id,h'.leadTransferee,h'.uncommittedSize,
      h'.maxUncommittedSize.trans h.maxUncommittedSize,h'.led,h'.sole⟩

theorem Rests.turn (h : Rests r r') : Turn A r r' := h.elim .still .fresh

theorem Turn.andThen (h : Turn A r r') (h' : Still r' r'') : Turn A r r'' := by
  cases h with
  | still h => exact .still (h.trans h')
  | abort h => exact .abort (h.trans h')
  | aim hlead hget hpr hne h => exact .aim hlead hget hpr hne (h.trans h')
  | fresh h => exact .fresh (h.still h')
  | grow hlead hA hroom hl h => exact .grow hlead hA hroom hl (h.trans h')

/-- What comes before a step may change the timers. -/
theorem Turn.of_aside (h : Turn A r' r'') (hr : r'.aside=r.aside) (hprs : r'.prs=r.prs) :
    Turn A r r'' := by
  have hsame := Still.of_aside hr
  simp only [aside,Prod.mk.injEq] at hr
  obtain ⟨hid,hstate,hterm,hlt,hu,hmax,hlog,hcfg⟩ := hr
  cases h with
  | still h => exact .still (hsame.trans h)
  | abort h =>
    refine .abort (Still.trans (.of_aside ?_) h)
    simp only [aside,abortLeaderTransfer,hid,hstate,hterm,hu,hmax,hlog,hcfg]
  | aim hlead hget hpr hne h =>
    rw [hprs] at hget
    rw [hid] at hne
    refine .aim (hstate ▸ hlead) hget hpr hne (Still.trans (.of_aside ?_) h)
    simp only [aside,hid,hstate,hterm,hu,hmax,hlog,hcfg]
  | fresh h =>
    exact .fresh ⟨h.id.trans hid,h.leadTransferee,h.uncommittedSize,
      h.maxUncommittedSize.trans hmax,h.led,h.sole⟩
  | grow hlead hA hroom hl h =>
    unfold Full at hroom
    rw [hu,hmax] at hroom
    rw [hlog,hterm] at hl
    refine .grow (hstate ▸ hlead) hA hroom hl (Still.trans (.of_aside ?_) h)
    simp only [aside,grown,hid,hstate,hterm,hlt,hu,hmax,hcfg]

/-- A node that does not lead has no transfer to begin and nothing to append. -/
theorem Turn.after_fresh (h : Fresh r r') (hs : r'.state≠.stateLeader) (h' : Turn A r' r'') :
    Fresh r r'' := by
  cases h' with
  | still h' => exact h.still h'
  | abort h' =>
    exact ⟨h'.id.trans h.id,h'.leadTransferee,h'.uncommittedSize.trans h.uncommittedSize,
      h'.maxUncommittedSize.trans h.maxUncommittedSize,
      Led.still (r := r'.abortLeaderTransfer) (led_of_not hs) h',
      Sole.still (r := r'.abortLeaderTransfer) (sole_of_not hs) h'⟩
  | aim hlead => exact absurd hlead hs
  | fresh h' => exact h.rests (.inr h')
  | grow hlead => exact absurd hlead hs

theorem Turn.led (h : Turn A r r') (hr : r.Led) : r'.Led := by
  cases h with
  | still h => exact hr.still h
  | abort h => exact Led.still (r := r.abortLeaderTransfer) hr h
  | @aim t _ _ _ _ _ h => exact Led.still (r := { r with leadTransferee := t }) hr h
  | fresh h => exact h.led
  | grow hlead _ _ hl h =>
    exact Led.still (r := r.grown _ _) (fun _ => (hr hlead).trans (Core.append_grows hl)) h

theorem becomeFollower_fresh (r : Raft) (term lead : Nat) : Fresh r (r.becomeFollower term lead) :=
  ⟨rfl,rfl,rfl,rfl,led_of_not nofun,sole_of_not nofun⟩

theorem becomeFollower_not_leader (r : Raft) (term lead : Nat) :
    (r.becomeFollower term lead).state≠.stateLeader := nofun

/-- A leader that decides alone commits what it appends. -/
theorem appendEntry_sole {e : Entry} (h : r.appendEntry [e]=.ok (r',true))
    (hself : ∀ pr, r.prs.progress.get? r.id=some pr → pr.matchIndex≤r.raftLog.lastIndex) :
    r'.Sole := by
  rcases appendEntry_spec h with ⟨hb,-⟩ | ⟨-,-,l,pr,changed,hl,hget,hc⟩
  · cases hb
  obtain ⟨⟨l',changed'⟩,hl',hc⟩ := bind_eq_ok.mp hc
  cases hc
  have hi : ({ e with term := r.term, index := r.raftLog.lastIndex+1+0 } : Entry).index=
    r.raftLog.lastIndex+1 := rfl
  obtain ⟨hle,x,hx⟩ := RaftLog.append_one hi hl
  have hlast : l.lastIndex=r.raftLog.lastIndex+1 :=
    RaftLog.append_lastIndex (stampEntries_numbered r.term r.raftLog.lastIndex [e]) nofun hl
  have hcm : l.committed=r.raftLog.committed := by rw [RaftLog.append_spec hl]
  have hmatch : (pr.maybeUpdate l.lastIndex).1.matchIndex=l.lastIndex := by
    have := hself pr hget
    rw [Progress.maybeUpdate_fst]
    dsimp only
    omega
  have hsame : ∃ k, l'={ l with committed := k } := by
    rcases RaftLog.maybeCommit_spec hl' with ⟨-,rfl⟩ | ⟨-,-,-,rfl⟩
    · exact ⟨_,rfl⟩
    · exact ⟨_,RaftLog.commitTo_fst _ _⟩
  obtain ⟨k,rfl⟩ := hsame
  intro _ halone hw hfit
  change l.lastIndex ≤ maxUint64 at hfit
  have hw : l.Whole := hw.congr rfl rfl
  have hidx : ((r.grown [e] l).setProgress r.id (pr.maybeUpdate l.lastIndex).1).prs.committed=
      l.lastIndex := by
    have hsingle := halone.1
    simp only [ProgressTracker.isSingleton,Bool.and_eq_true,decide_eq_true_eq] at hsingle
    refine MajorityConfig.committedIndex_single _ hsingle.1 hsingle.2 halone.2 ?_ hfit
    change ((SortedMap.insert _ _ _).get? r.id).map _=_
    rw [SortedMap.get?_insert_self,Option.map_some,hmatch]
  have hterm : l.term l.lastIndex=.ok r.term := by
    rw [hw.term_eq,hw.lastIndex_eq,hx]
    obtain ⟨e',he',ht⟩ := Consensus.termAt_append_right (l := x) (x := [_])
      (k := (x++[_]).length) (by simp) le_rfl
    rw [ht,List.mem_singleton.mp he']
    rfl
  rw [hidx] at hl'
  change l.maybeCommit l.lastIndex r.term=_ at hl'
  rw [RaftLog.maybeCommit_ok (by omega) le_rfl hterm] at hl'
  have hk : l.lastIndex=k := congrArg (fun p => RaftLog.committed p.1) (Except.ok.inj hl')
  subst hk
  change RaftLog.zeroTermOnErrCompacted (l.term l.lastIndex)=_
  rw [hterm]
  rfl

theorem send_still (h : r.send m=.ok r') : Still r r' := by
  rw [(send_eq_ok h).1]
  exact .of_aside rfl

theorem becomeLeader_state (h : r.becomeLeader=.ok r') : r'.state=.stateLeader := by
  unfold becomeLeader at h
  split at h
  · cases h
  · dsimp only at h
    split at h
    · cases h
    · obtain ⟨⟨r1,b⟩,happ,h⟩ := bind_eq_ok.mp h
      dsimp only at h
      split at h <;> cases h
      exact (appendEntry_same happ).2

theorem becomeCandidate_fresh (h : r.becomeCandidate=.ok r') : Fresh r r' := by
  unfold becomeCandidate at h
  split at h
  · cases h
  · cases h
    exact ⟨rfl,rfl,rfl,rfl,led_of_not nofun,sole_of_not nofun⟩

theorem becomePreCandidate_still (h : r.becomePreCandidate=.ok r') : Still r r' := by
  unfold becomePreCandidate at h
  split at h
  · cases h
  · rename_i hs
    cases h
    exact .of_not_leader hs nofun rfl rfl rfl rfl rfl

theorem requestVotes_still {t : CampaignType} {voteMsg : MessageType} {term : Nat}
    (hv : isVoteMsg voteMsg=true) (h : r.requestVotes t voteMsg term=.ok r') : Still r r' := by
  obtain ⟨ms,rfl,-⟩ := requestVotes_spec hv h
  exact .of_aside rfl

theorem poll_still (r : Raft) (id : Nat) (v : Bool) : Still r (r.poll id v).1 := by
  refine .of_aside ?_
  simp only [aside,poll,(r.prs.recordVote_frame id v).1]

theorem leaderCheckQuorum_rests (r : Raft) : Rests r r.leaderCheckQuorum := by
  have hclear (a : Raft) : Still a a.clearActive := .of_aside rfl
  have hcheck (r1 : Raft) (h1 : Still r r1) : Rests r (if r1.prs.quorumActive then r1
      else r1.becomeFollower r1.term noNode).clearActive := by
    refine Rests.still ?_ (hclear _)
    split
    · exact .inl h1
    · exact h1.rests (.inr (becomeFollower_fresh r1 _ _))
  unfold leaderCheckQuorum
  cases r.prs.progress.get? r.id with
  | none => exact hcheck r (.refl r)
  | some pr => exact hcheck (r.setProgress r.id { pr with recentActive := true }) (.of_aside rfl)

section

variable [Raftpb] {M : Message → Prop}

/-- What the handlers of the single messages do is nothing to the transfer and the count. -/
theorem Tend.still (h : Tend M r r') : Still r r' := by
  have hnot : r.state=.stateFollower → r.state≠.stateLeader := fun hs => by rw [hs]; nofun
  cases h with
  | post h =>
    refine .of_aside ?_
    rw [h.same]
    rfl
  | commit _ hown =>
    exact ⟨rfl,Iff.rfl,rfl,rfl,rfl,rfl,fun hl => ⟨_,rfl,.inr (hown hl)⟩,fun _ => rfl⟩
  | store _ _ hfol | restore _ _ _ _ hfol =>
    exact .of_not_leader (hnot hfol) (hnot hfol) rfl rfl rfl rfl rfl
  | vote => exact .of_aside rfl

theorem Tends.still (h : Tends M r r') : Still r r' := by
  induction h with
  | refl => exact .refl r
  | tail _ h ih => exact ih.trans h.still

theorem Handled.still {T : Prop} (h : Handled T (fun _ => True) r r') : Still r r' :=
  Tends.still h.node

theorem Sent.still (h : Sent True (fun _ => True) r r') : Still r r' := h.handled.still

theorem appendEntry_still {es : List Entry} {b : Bool} (hlead : r.state=.stateLeader)
    (h : r.appendEntry es=.ok (r',b)) : b=false ∧ r'=r ∨ b=true ∧ ¬r.Full es ∧ ∃ l,
      r.raftLog.append (stampEntries r.term r.raftLog.lastIndex es)=.ok l ∧
      Still (r.grown es l) r' := by
  rcases appendEntry_handled (T := True) (S := fun _ => True) hlead h with
    ⟨hb,hr,-⟩ | ⟨hb,hroom,l,pr,hl,-,hm⟩
  · exact .inl ⟨hb,hr⟩
  · have hself : Still (r.grown es l)
        ((r.grown es l).setProgress r.id (pr.maybeUpdate l.lastIndex).1) := .of_aside rfl
    exact .inr ⟨hb,hroom,l,hl,hself.trans hm.still⟩

theorem becomeLeader_fresh (h : r.becomeLeader=.ok r') : Fresh r r' := by
  unfold becomeLeader at h
  split at h
  · cases h
  · dsimp only at h
    split at h
    · cases h
    · rename_i pr0 hget0
      obtain ⟨⟨r1,b⟩,happ,h⟩ := bind_eq_ok.mp h
      dsimp only at h
      split at h
      · cases h
      · rename_i hb
        cases h
        rcases appendEntry_still rfl happ with ⟨rfl,-⟩ | ⟨rfl,-,l,hl,hs⟩
        · simp at hb
        · have hlast :=
            RaftLog.append_lastIndex (stampEntries_numbered _ _ [default]) nofun hl
          have hled : r1.Led := by
            refine Led.still (fun _ => ?_) hs
            change 1≤l.lastIndex
            rw [hlast]
            exact Nat.le_add_left _ _
          have hsole : r1.Sole := by
            refine appendEntry_sole happ (fun pr hget => ?_)
            cases Option.some.inj ((SortedMap.get?_insert_self (r.reset r.term).prs.progress r.id
              pr0.becomeReplicate).symm.trans hget)
            change (SortedMap.mapVals _ _).get? r.id=_ at hget0
            rw [SortedMap.get?_mapVals,Option.map_eq_some_iff] at hget0
            obtain ⟨pr1,-,rfl⟩ := hget0
            exact (if_pos rfl).le
          exact ⟨hs.id,hs.leadTransferee,by rw [reduceUncommittedSize,hs.uncommittedSize]; rfl,
            hs.maxUncommittedSize,hled,hsole⟩

theorem campaignVote_fresh {t : CampaignType} (h : r.campaignVote t=.ok r') : Fresh r r' := by
  obtain ⟨r1,h1,h⟩ := bind_eq_ok.mp h
  have hcand := becomeCandidate_fresh h1
  have hpoll : Still r1 { r1 with prs := r1.prs.recordVote r1.id true } := by
    refine .of_aside ?_
    simp only [aside,(r1.prs.recordVote_frame r1.id true).1]
  dsimp only [poll] at h
  split at h
  · exact (hcand.still hpoll).rests (.inr (becomeLeader_fresh h))
  · exact (hcand.still hpoll).still (requestVotes_still rfl h)

theorem campaign_rests {t : CampaignType} (h : r.campaign t=.ok r') : Rests r r' := by
  unfold campaign at h
  split at h
  · obtain ⟨r1,h1,h⟩ := bind_eq_ok.mp h
    have hpre := (becomePreCandidate_still h1).trans (poll_still r1 r1.id true)
    dsimp only at h
    split at h
    · exact hpre.rests (.inr (campaignVote_fresh h))
    · exact .inl (hpre.trans (requestVotes_still rfl h))
  · exact .inr (campaignVote_fresh h)

theorem hup_rests {t : CampaignType} (h : r.hup t=.ok r') : Rests r r' := by
  unfold hup at h
  split at h
  · cases h
    exact .inl (.refl r)
  · split at h
    · cases h
      exact .inl (.refl r)
    · obtain ⟨res,-,h⟩ := bind_eq_ok.mp h
      split at h
      · cases h
      · split at h
        · cases h
          exact .inl (.refl r)
        · exact campaign_rests h

theorem candidateVoteResp_rests (h : r.candidateVoteResp m=.ok r') : Rests r r' := by
  have hpoll := poll_still r m.fromId (!m.reject)
  unfold candidateVoteResp at h
  dsimp only at h
  split at h
  · split at h
    · exact hpoll.rests (campaign_rests h)
    · obtain ⟨r1,h1,h⟩ := bind_eq_ok.mp h
      have hsent : Still r1 r' := (bcastAppend_sent (becomeLeader_state h1) h).still
      exact hpoll.rests (.inr ((becomeLeader_fresh h1).still hsent))
  · cases h
    exact hpoll.rests (.inr (becomeFollower_fresh _ _ _))
  · cases h
    exact .inl hpoll

theorem stepFollower_rests {err : Option StepErr} (hfol : r.state=.stateFollower)
    (h : r.stepFollower m=.ok (r',err)) : Rests r r' := by
  have hhear : Still r (r.hearLeader m.fromId) := .of_aside rfl
  have hheard : (r.hearLeader m.fromId).state=.stateFollower := hfol
  have hhandled : ∀ {T : Prop} {r1 : Raft}, Handled T (fun _ => True) (r.hearLeader m.fromId) r1 →
      Rests r r1 := fun h => .inl (hhear.trans h.still)
  unfold stepFollower at h
  split at h
  · split at h
    · cases h
      exact .inl (.refl r)
    · split at h
      · cases h
        exact .inl (.refl r)
      · obtain ⟨r1,h1,h⟩ := bind_eq_ok.mp h
        cases h
        exact .inl (send_still h1)
  · rename_i ht
    obtain ⟨r1,h1,h⟩ := bind_eq_ok.mp h
    cases h
    exact hhandled (handleAppendEntries_handled trivial ht hheard h1)
  · rename_i ht
    obtain ⟨r1,h1,h⟩ := bind_eq_ok.mp h
    cases h
    exact hhandled (handleHeartbeat_handled trivial ht hheard h1)
  · rename_i ht
    obtain ⟨r1,h1,h⟩ := bind_eq_ok.mp h
    cases h
    exact hhandled (handleSnapshot_handled trivial ht hheard h1)
  · split at h
    · cases h
      exact .inl (.refl r)
    · obtain ⟨r1,h1,h⟩ := bind_eq_ok.mp h
      cases h
      exact .inl (send_still h1)
  · obtain ⟨r1,h1,h⟩ := bind_eq_ok.mp h
    cases h
    exact hup_rests h1
  · split at h
    · cases h
      exact .inl (.refl r)
    · obtain ⟨r1,h1,h⟩ := bind_eq_ok.mp h
      cases h
      exact .inl (send_still h1)
  · split at h <;> cases h <;> exact .inl (.of_aside rfl)
  · cases h
    exact .inl (.refl r)

theorem stepCandidate_rests {err : Option StepErr} (h : r.stepCandidate m=.ok (r',err)) :
    Rests r r' := by
  have hfol : (r.becomeFollower m.term m.fromId).state=.stateFollower := rfl
  have hhandled : ∀ {T : Prop} {r1 : Raft}, Handled T (fun _ => True)
      (r.becomeFollower m.term m.fromId) r1 → Rests r r1 :=
    fun h => .inr ((becomeFollower_fresh r _ _).still h.still)
  unfold stepCandidate at h
  split at h
  · cases h
    exact .inl (.refl r)
  · rename_i ht
    obtain ⟨r1,h1,h⟩ := bind_eq_ok.mp h
    cases h
    exact hhandled (handleAppendEntries_handled trivial ht hfol h1)
  · rename_i ht
    obtain ⟨r1,h1,h⟩ := bind_eq_ok.mp h
    cases h
    exact hhandled (handleHeartbeat_handled trivial ht hfol h1)
  · rename_i ht
    obtain ⟨r1,h1,h⟩ := bind_eq_ok.mp h
    cases h
    exact hhandled (handleSnapshot_handled trivial ht hfol h1)
  · split at h
    · obtain ⟨r1,h1,h⟩ := bind_eq_ok.mp h
      cases h
      exact candidateVoteResp_rests h1
    · cases h
      exact .inl (.refl r)

theorem leaderTransfer_turn {pr : Progress} (hlead : r.state=.stateLeader)
    (hget : r.prs.progress.get? m.fromId=some pr) (h : r.leaderTransfer m pr=.ok r') :
    Turn A r r' := by
  unfold leaderTransfer at h
  split at h
  · cases h
    exact .still (.refl r)
  · rename_i hpr
    split at h
    · cases h
      exact .still (.refl r)
    · dsimp only at h
      -- whatever the old target was, it is overwritten
      obtain ⟨r1,hr1,hid,hl1,hold,haim⟩ : ∃ r1,
          (if r.leadTransferee≠noNode then r.abortLeaderTransfer else r)=r1 ∧ r1.id=r.id ∧
          r1.state=.stateLeader ∧ Turn A r r1 ∧ Still { r with leadTransferee := m.fromId }
            { r1 with electionElapsed := 0, leadTransferee := m.fromId } := by
        refine ⟨_,rfl,?_⟩
        split
        · exact ⟨rfl,hlead,.abort (.refl _),.of_aside rfl⟩
        · exact ⟨rfl,hlead,.still (.refl r),.of_aside rfl⟩
      rw [hr1] at h
      split at h
      · cases h
        exact hold
      · rename_i hne
        rw [hid] at hne
        refine .aim hlead hget (by simpa using hpr) hne (haim.trans ?_)
        split at h
        · exact send_still h
        · exact (sendAppend_sent (by exact hl1) h).still

theorem stepLeaderPeer_turn {pr : Progress} (hlead : r.state=.stateLeader)
    (hget : r.prs.progress.get? m.fromId=some pr) (h : r.stepLeaderPeer m pr=.ok r') :
    Turn A r r' := by
  unfold stepLeaderPeer at h
  split at h
  · rename_i ht
    exact .still (leaderAppResp_handled hlead trivial ht hget h).still
  · rename_i ht
    exact .still (leaderHeartbeatResp_sent hlead trivial ht hget h).handled.still
  · cases h
    exact .still (leaderSnapStatus_sent hget).still
  · cases h
    exact .still (leaderUnreachable_sent hget).still
  · exact leaderTransfer_turn hlead hget h
  · cases h
    exact .still (.refl r)

/-- A refused change is replaced by an entry without data. -/
theorem screenEntries_payload {i : Nat} {es es' : List Entry}
    (h : r.screenEntries i es=.ok (r',es')) : payloadSum es'≤payloadSum es := by
  induction es generalizing r i es' with
  | nil =>
    cases h
    exact Nat.le_refl _
  | cons e es ih =>
    obtain ⟨⟨r1,e1⟩,h1,h⟩ := bind_eq_ok.mp h
    obtain ⟨⟨r2,es2⟩,h2,h⟩ := bind_eq_ok.mp h
    cases h
    have hone : payloadSize e1≤payloadSize e := by
      obtain ⟨res,-,h1⟩ := bind_eq_ok.mp h1
      split at h1
      · cases h1
        exact Nat.le_refl _
      · split at h1 <;> cases h1
        · exact Nat.zero_le _
        · exact Nat.le_refl _
    have hrest := ih h2
    simp only [payloadSum,List.map_cons,List.sum_cons] at hrest ⊢
    omega

/-- What a step with the message may append: a proposal that it accepts. -/
def Proposed (m : Message) (err : Option StepErr) (es : List Entry) : Prop :=
  m.type=.msgProp ∧ err=none ∧ payloadSum es≤payloadSum m.entries

theorem leaderProp_turn {err : Option StepErr} (hlead : r.state=.stateLeader)
    (ht : m.type=.msgProp) (h : r.leaderProp m=.ok (r',err)) : Turn (Proposed m err) r r' := by
  unfold leaderProp at h
  split at h
  · cases h
  · split at h
    · cases h
      exact .still (.refl r)
    · split at h
      · cases h
        exact .still (.refl r)
      · obtain ⟨⟨r1,es⟩,hscr,hprop⟩ := bind_eq_ok.mp h
        obtain ⟨⟨r2,accepted⟩,happ,hres⟩ := bind_eq_ok.mp hprop
        obtain ⟨hr1,-⟩ := screenEntries_spec hscr
        have hl1 : r1.state=.stateLeader := by
          rw [hr1]
          exact hlead
        rcases appendEntry_still hl1 happ with ⟨rfl,hr2⟩ | ⟨rfl,hroom,l,hl,hs⟩
        · cases hres
          refine .still (.of_aside ?_)
          rw [hr2,hr1]
          rfl
        · obtain ⟨r3,hb,hres⟩ := bind_eq_ok.mp hres
          cases hres
          -- the pending index is the only difference between r and r1
          have hpend : Still (r.grown es l) (r1.grown es l) := by
            refine .of_aside ?_
            rw [hr1]
            rfl
          have hsent : Still r2 r' := (bcastAppend_sent (hs.lead.mpr hl1) hb).still
          rw [hr1] at hroom hl
          exact .grow hlead ⟨ht,rfl,screenEntries_payload hscr⟩ hroom hl
            (hpend.trans (hs.trans hsent))

theorem stepLeader_turn {err : Option StepErr} (hlead : r.state=.stateLeader)
    (h : r.stepLeader m=.ok (r',err)) : Turn (Proposed m err) r r' := by
  unfold stepLeader at h
  split at h
  · obtain ⟨r1,h1,h⟩ := bind_eq_ok.mp h
    cases h
    exact .still (bcastHeartbeat_sent hlead h1).still
  · cases h
    exact (leaderCheckQuorum_rests r).turn
  · rename_i ht
    exact leaderProp_turn hlead ht h
  · rename_i ht
    obtain ⟨r1,h1,h⟩ := bind_eq_ok.mp h
    cases h
    exact .still (leaderReadIndex_sent hlead trivial ht h1).still
  · split at h
    · cases h
      exact .still (.refl r)
    · rename_i pr hget
      obtain ⟨r1,h1,h⟩ := bind_eq_ok.mp h
      cases h
      exact stepLeaderPeer_turn hlead hget h1

theorem stepState_turn {err : Option StepErr} (h : r.stepState m=.ok (r',err)) :
    Turn (Proposed m err) r r' := by
  unfold stepState at h
  split at h
  · rename_i hs
    exact (stepFollower_rests hs h).turn
  · exact (stepCandidate_rests h).turn
  · exact (stepCandidate_rests h).turn
  · rename_i hs
    exact stepLeader_turn hs h

theorem stepType_turn {err : Option StepErr} (h : r.stepType m=.ok (r',err)) :
    Turn (Proposed m err) r r' := by
  unfold stepType at h
  split at h
  · obtain ⟨r1,h1,h⟩ := bind_eq_ok.mp h
    cases h
    exact (hup_rests h1).turn
  · rename_i ht
    obtain ⟨r1,h1,h⟩ := bind_eq_ok.mp h
    cases h
    exact .still (handleVote_handled trivial (.inl ht) h1).still
  · rename_i ht
    obtain ⟨r1,h1,h⟩ := bind_eq_ok.mp h
    cases h
    exact .still (handleVote_handled trivial (.inr ht) h1).still
  · exact stepState_turn h

theorem step_turn {err : Option StepErr} (h : r.step m=.ok (r',err)) :
    Turn (Proposed m err) r r' := by
  unfold step at h
  split at h
  · exact stepType_turn h
  · split at h
    · split at h
      · cases h
        exact .still (.refl r)
      · split at h
        · exact stepType_turn h
        · exact .fresh ((stepType_turn h).after_fresh (becomeFollower_fresh r _ _)
            (becomeFollower_not_leader r _ _))
    · split at h
      · obtain ⟨r1,h1,h⟩ := bind_eq_ok.mp h
        cases h
        exact .still (stepLower_sent h1).handled.still
      · exact stepType_turn h

theorem stepIgnored_hup {i : Nat} (h : r.stepIgnored { type := .msgHup, fromId := i }=.ok r') :
    Rests r r' := by
  obtain ⟨⟨r1,err⟩,h1,h⟩ := bind_eq_ok.mp h
  cases h
  obtain ⟨r2,h2,h1⟩ := bind_eq_ok.mp h1
  cases h1
  exact hup_rests h2

theorem stepIgnored_leader {t : MessageType} {i : Nat} (hlead : r.state=.stateLeader)
    (ht : t=.msgCheckQuorum ∨ t=.msgBeat) (h : r.stepIgnored { type := t, fromId := i }=.ok r') :
    ∃ err, r.stepLeader { type := t, fromId := i }=.ok (r',err) := by
  obtain ⟨⟨r1,err⟩,h1,h⟩ := bind_eq_ok.mp h
  cases h
  refine ⟨err,?_⟩
  have hstep : r.step { type := t, fromId := i }=r.stepState { type := t, fromId := i } := by
    rcases ht with rfl | rfl <;> rfl
  rw [hstep,stepState,hlead] at h1
  exact h1

theorem leaderTimeout_turn (hlead : r.state=.stateLeader) (h : r.leaderTimeout=.ok r') :
    Turn A r r' := by
  obtain ⟨r1,h1,h⟩ := bind_eq_ok.mp h
  have helapsed : Still r { r with electionElapsed := 0 } := .of_aside rfl
  have hcheck : Rests r r1 := by
    refine helapsed.rests ?_
    split at h1
    · obtain ⟨err,h1⟩ := stepIgnored_leader (r := { r with electionElapsed := 0 }) hlead
        (.inl rfl) h1
      cases h1
      exact leaderCheckQuorum_rests _
    · cases h1
      exact .inl (.refl _)
  split at h
  · cases h
    rcases hcheck with hs | hf
    · exact .abort ⟨hs.id,hs.lead,hs.term,rfl,hs.uncommittedSize,hs.maxUncommittedSize,hs.raftLog,
        hs.config⟩
    · exact .fresh ⟨hf.id,rfl,hf.uncommittedSize,hf.maxUncommittedSize,hf.led,hf.sole⟩
  · cases h
    exact hcheck.turn

theorem tick_turn (h : r.tick=.ok r') : Turn A r r' := by
  unfold tick at h
  split at h
  · rename_i hlead
    obtain ⟨r1,h1,h⟩ := bind_eq_ok.mp h
    have helapsed : Still r { r with
        heartbeatElapsed := r.heartbeatElapsed+1
        electionElapsed := r.electionElapsed+1 } := .of_aside rfl
    have hfirst : Turn A r r1 := by
      split at h1
      · have hout := leaderTimeout_turn (A := A) (r := { r with
          heartbeatElapsed := r.heartbeatElapsed+1
          electionElapsed := r.electionElapsed+1 }) hlead h1
        exact hout.of_aside rfl rfl
      · cases h1
        exact .still helapsed
    split at h
    · cases h
      exact hfirst
    · rename_i hlead1
      split at h
      · have hbeat : Still r1 { r1 with heartbeatElapsed := 0 } := .of_aside rfl
        obtain ⟨err,h⟩ := stepIgnored_leader (r := { r1 with heartbeatElapsed := 0 })
          (not_not.mp hlead1) (.inr rfl) h
        obtain ⟨r2,h2,h⟩ := bind_eq_ok.mp h
        cases h
        have hsent : Still { r1 with heartbeatElapsed := 0 } r' :=
          (bcastHeartbeat_sent (by exact not_not.mp hlead1) h2).still
        exact (hfirst.andThen hbeat).andThen hsent
      · cases h
        exact hfirst
  · unfold tickElection at h
    dsimp only at h
    have helapsed : Still r { r with electionElapsed := r.electionElapsed+1 } := .of_aside rfl
    split at h
    · have hzero : Still r { r with electionElapsed := 0 } := .of_aside rfl
      exact (hzero.rests (stepIgnored_hup h)).turn
    · cases h
      exact .still helapsed

/-- The target of a transfer that a leader keeps when its voters change: none if it is no
longer one of them. -/
def keptTransferee (r : Raft) : Nat :=
  if r.prs.config.voters.ids.contains r.leadTransferee then r.leadTransferee else noNode

theorem switchLeader_still (hlead : r.state=.stateLeader) (h : r.switchLeader=.ok r') :
    Still { r with leadTransferee := r.keptTransferee } r' := by
  obtain ⟨⟨r1,committed⟩,h1,h⟩ := bind_eq_ok.mp h
  obtain ⟨r2,h2,h⟩ := bind_eq_ok.mp h
  have hcommit : Handled True (fun _ => True) r r1 := maybeCommit_handled hlead h1
  have hl1 := hcommit.state.trans hlead
  have hs : Still r r2 := by
    refine hcommit.still.trans ?_
    split at h2
    · exact (bcastAppend_sent hl1 h2).still
    · exact (probeAll_sent hl1 h2).still
  have hlt := hs.leadTransferee
  rw [hs.config hlead,hlt] at h
  have hr' : r'.leadTransferee=r.keptTransferee ∧
      r'={ r2 with leadTransferee := r'.leadTransferee } := by
    unfold keptTransferee
    split at h
    · rename_i hgone
      cases h
      rw [if_neg (by simpa using hgone.1)]
      exact ⟨rfl,rfl⟩
    · rename_i hkept
      cases h
      refine ⟨?_,rfl⟩
      rw [hlt]
      split
      · rfl
      · rename_i hgone
        by_contra hne
        exact hkept ⟨by simpa using hgone,hne⟩
  rw [hr'.2]
  exact ⟨hs.id,hs.lead,hs.term,hr'.1,hs.uncommittedSize,hs.maxUncommittedSize,hs.raftLog,hs.config⟩

/-- The node has no vote in the configuration. -/
def Voteless (r : Raft) (t : Tracked) : Prop := (t.prs.get? r.id).all (·.isLearner)=true

instance (r : Raft) (t : Tracked) : Decidable (r.Voteless t) := inferInstanceAs (Decidable (_=true))

omit [Raftpb] in
theorem voteless_iff (r : Raft) (t : Tracked) : r.Voteless t ↔
    ((t.prs.get? r.id).isNone || ((t.prs.get? r.id).map (·.isLearner)).getD false)=true := by
  unfold Voteless
  cases t.prs.get? r.id with
  | none => simp
  | some pr => simp

/-- Whatever configuration is installed, only the target of a transfer may change with it. -/
theorem switchToConfig_installs {t : Tracked} {cs : ConfState}
    (h : r.switchToConfig t=.ok (r',cs)) :
    ∃ lt, Still { r.installConfig t with leadTransferee := lt } r' := by
  unfold switchToConfig at h
  dsimp only at h
  split at h
  · cases h
    exact ⟨_,.refl _⟩
  · split at h
    · cases h
      exact ⟨_,.refl _⟩
    · rename_i hrest
      obtain ⟨r1,h1,h⟩ := bind_eq_ok.mp h
      cases h
      have hlead : r.state=.stateLeader := by
        by_contra hs
        exact hrest (.inl hs)
      exact ⟨_,switchLeader_still hlead h1⟩

/-- A configuration with voters is installed. A leader that has a vote in it looks after its
transfer, any other node does not. -/
theorem switchToConfig_turn {t : Tracked} {cs : ConfState}
    (hv : MajorityConfig.len t.cfg.voters.incoming≠0) (h : r.switchToConfig t=.ok (r',cs)) :
    (r.state≠.stateLeader ∨ r.Voteless t → Still (r.installConfig t) r') ∧
    (r.state=.stateLeader → ¬r.Voteless t → Still { r.installConfig t with
      leadTransferee := (r.installConfig t).keptTransferee } r') := by
  unfold switchToConfig at h
  dsimp only at h
  have hne : (r.installConfig t).prs.confState.voters.isEmpty=false := by
    have hlen : (r.installConfig t).prs.confState.voters.length≠0 := hv
    simpa [List.isEmpty_eq_false_iff] using hlen
  split at h
  · rename_i hearly
    cases h
    exact ⟨fun _ => .refl _,fun _ hvote => absurd ((r.voteless_iff t).mpr hearly.1) hvote⟩
  · rename_i hearly
    split at h
    · rename_i hrest
      cases h
      refine ⟨fun _ => .refl _,fun hlead => ?_⟩
      rw [hne] at hrest
      exact absurd hlead (hrest.resolve_right nofun)
    · rename_i hrest
      obtain ⟨r1,h1,h⟩ := bind_eq_ok.mp h
      cases h
      have hlead : r.state=.stateLeader := by
        by_contra hs
        exact hrest (.inl hs)
      refine ⟨fun hquiet => ?_,fun _ _ => switchLeader_still hlead h1⟩
      rcases hquiet with hs | hvote
      · exact absurd hlead hs
      · exact absurd ⟨(r.voteless_iff t).mp hvote,hlead⟩ hearly

/-- Leaving a joint configuration is never refused for its size. -/
theorem autoLeave_turn (hlead : r.state=.stateLeader) (h : r.autoLeave=.ok r') :
    Turn (·=[autoLeaveEntry]) r r' := by
  obtain ⟨⟨r1,accepted⟩,happ,h⟩ := bind_eq_ok.mp h
  rcases appendEntry_still hlead happ with ⟨rfl,-⟩ | ⟨rfl,hroom,l,hl,hs⟩
  · cases h
  · cases h
    have hpend : Still r1 { r1 with pendingConfIndex := r1.raftLog.lastIndex } := .of_aside rfl
    exact .grow hlead rfl hroom hl (hs.trans hpend)

/-- The applied cursor moves, and a leader may begin to leave a joint configuration. -/
theorem advanceApplied_turn {n : Nat} (h : r.advanceApplied n=.ok r') :
    n=0 ∧ r'=r ∨ n≠0 ∧ ∃ l, r.raftLog.appliedTo n=.ok l ∧
      Turn (·=[autoLeaveEntry]) (r.setLog l) r' := by
  unfold advanceApplied at h
  split at h
  · rename_i hn
    cases h
    exact .inl ⟨hn,rfl⟩
  · rename_i hn
    obtain ⟨l,hl,h⟩ := bind_eq_ok.mp h
    refine .inr ⟨hn,l,hl,?_⟩
    dsimp only at h
    split at h
    · rename_i hleave
      exact autoLeave_turn hleave.2.2.2 h
    · cases h
      exact .still (.refl _)

theorem applyConfChange_led {cc : ConfChangeV2} {cs : ConfState} (hr : r.Led)
    (h : r.applyConfChange cc=.ok (r',cs)) : r'.Led := by
  unfold applyConfChange at h
  split at h
  · cases h
  · rename_i t ht
    obtain ⟨lt,hs⟩ := switchToConfig_installs h
    exact Led.still (r := { r.installConfig t with leadTransferee := lt }) hr hs

theorem advanceApplied_led {n : Nat} (hr : r.Led) (h : r.advanceApplied n=.ok r') : r'.Led := by
  rcases advanceApplied_turn h with ⟨-,rfl⟩ | ⟨-,l,hl,hturn⟩
  · exact hr
  · have hlast : l.lastIndex=r.raftLog.lastIndex := by
      rcases RaftLog.appliedTo_spec hl with ⟨-,rfl⟩ | ⟨-,-,-,rfl⟩ <;> rfl
    exact hturn.led (fun hs => (hr hs).trans hlast.ge)

end

end RaftTesting.Raft
