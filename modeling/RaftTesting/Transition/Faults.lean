import RaftTesting.Transition.Host

namespace RaftTesting

/-- The panics that a node is to be kept from: those of its flow control, and those of a
log that refuses to be appended to if log is set. -/
def Panic.fault (log : Bool) : Panic → Bool
  | .conflictWithCommitted | .appendOutOfRange => log
  | .addIntoFullInflights | .unhandledProgressState => true
  | _ => false

abbrev Quiet (log : Bool) {α : Type} (x : Except Panic α) : Prop := Avoids (Panic.fault log) x

variable {log : Bool}

theorem Quiet.andThen {α β : Type} {x : Except Panic α} {f : α → Except Panic β} (hx : Quiet log x)
    (hf : ∀ a, Quiet log (f a)) : Quiet log (x >>= f) := hx.bind (fun a _ => hf a)

section

variable [Raftpb]

theorem MemoryStorage.entries_quiet (ms : MemoryStorage) (lo hi n : Nat) :
    Quiet log (ms.entries lo hi n) := by
  unfold entries
  dsimp only
  split_ifs <;> simp [Panic.fault]

omit [Raftpb] in
theorem MemoryStorage.append_quiet (ms : MemoryStorage) (es : List Entry) :
    Quiet log (ms.append es) := by
  unfold append
  split
  · simp
  · dsimp only
    split_ifs
    · simp
    · split
      · simp [Panic.fault]
      · unfold appendAt
        dsimp only
        split_ifs <;> simp [Panic.fault]

omit [Raftpb] in
theorem Unstable.slice_quiet (u : Unstable) (lo hi : Nat) : Quiet log (u.slice lo hi) := by
  refine Quiet.andThen ?_ (fun _ => avoids_ok _)
  unfold mustCheckOutOfBounds
  split_ifs <;> simp [Panic.fault]

namespace RaftLog

theorem slice_quiet (l : RaftLog) (lo hi n : Nat) : Quiet log (l.slice lo hi n) := by
  refine Quiet.andThen ?_ (fun chk => ?_)
  · unfold mustCheckOutOfBounds
    dsimp only
    split_ifs <;> simp [Panic.fault]
  cases chk with
  | error e => exact avoids_ok _
  | ok _ =>
    refine Avoids.ite (avoids_ok _) (Quiet.andThen ?_ (fun res => ?_))
    · unfold sliceStable
      split_ifs
      · dsimp only
        have hq : Quiet log _ := l.storage.entries_quiet lo (min hi l.unstable.offset) n
        split <;> first | exact avoids_ok _ | simp [Panic.fault]
        rename_i p hp
        exact hq p hp
      · exact avoids_ok _
    cases res with
    | error e => exact avoids_ok _
    | ok res =>
      refine Avoids.ite (avoids_ok _) (Avoids.ite ?_ (avoids_ok _))
      exact (l.unstable.slice_quiet _ _).andThen (fun _ => avoids_ok _)

theorem entries_quiet (l : RaftLog) (i n : Nat) : Quiet log (l.entries i n) := by
  unfold entries
  split_ifs
  · exact avoids_ok _
  · exact l.slice_quiet _ _ _

theorem nextEnts_quiet (l : RaftLog) : Quiet log l.nextEnts := by
  unfold nextEnts
  dsimp only
  split_ifs
  · refine (l.slice_quiet _ _ _).andThen (fun res => ?_)
    cases res <;> simp [Panic.fault]
  · exact avoids_ok _

omit [Raftpb] in
theorem zeroTermOnErrCompacted_quiet (x : Except StorageErr Nat) :
    Quiet log (zeroTermOnErrCompacted x) := by
  unfold zeroTermOnErrCompacted
  split <;> simp [Panic.fault]

omit [Raftpb] in
theorem lastTerm_quiet (l : RaftLog) : Quiet log l.lastTerm := by
  unfold lastTerm
  split <;> simp [Panic.fault]

omit [Raftpb] in
theorem maybeCommit_quiet (l : RaftLog) (i t : Nat) : Quiet log (l.maybeCommit i t) := by
  unfold maybeCommit
  split_ifs
  · refine (zeroTermOnErrCompacted_quiet _).andThen (fun t' => ?_)
    split_ifs <;> exact avoids_ok _
  · exact avoids_ok _

omit [Raftpb] in
theorem appliedTo_quiet (l : RaftLog) (i : Nat) : Quiet log (l.appliedTo i) := by
  unfold appliedTo
  split_ifs <;> simp [Panic.fault]

end RaftLog

end

namespace Inflights

theorem add_quiet {i : Inflights} (h : i.full=false) (n : Nat) : Quiet log (i.add n) := by
  unfold add
  rw [if_neg (by rw [h]; nofun)]
  dsimp only
  split_ifs <;> simp [Panic.fault]

theorem freeLoop_quiet (i : Inflights) (upto n freed idx : Nat) :
    Quiet log (i.freeLoop upto n freed idx) := by
  induction n generalizing freed idx with
  | zero => exact avoids_ok _
  | succ n ih =>
    unfold freeLoop
    split
    · simp [Panic.fault]
    · split_ifs
      · exact avoids_ok _
      · exact ih _ _

theorem freeLE_quiet (i : Inflights) (upto : Nat) : Quiet log (i.freeLE upto) := by
  unfold freeLE
  split_ifs
  · exact avoids_ok _
  · split
    · simp [Panic.fault]
    · split_ifs
      · exact avoids_ok _
      · exact (i.freeLoop_quiet _ _ _ _).andThen (fun _ => avoids_ok _)

end Inflights

theorem Message.firstData_quiet (m : Message) : Quiet log m.firstData := by
  unfold firstData
  split <;> simp [Panic.fault]

namespace ReadOnly

theorem addRequest_quiet (ro : ReadOnly) (index : Nat) (m : Message) :
    Quiet log (ro.addRequest index m) := by
  refine m.firstData_quiet.andThen (fun s => ?_)
  split <;> exact avoids_ok _

theorem dequeue_quiet (ro : ReadOnly) (ctx : Bytes) (queue : List Bytes) :
    Quiet log (ro.dequeue ctx queue) := by
  induction queue with
  | nil => exact avoids_ok _
  | cons okctx queue ih =>
    unfold dequeue
    split
    · simp [Panic.fault]
    · split_ifs
      · exact avoids_ok _
      · exact Quiet.andThen ih (fun _ => avoids_ok _)

theorem advance_quiet (ro : ReadOnly) (m : Message) : Quiet log (ro.advance m) := by
  refine (ro.dequeue_quiet _ _).andThen (fun res => ?_)
  cases res with
  | none => exact avoids_ok _
  | some rss =>
    refine Quiet.andThen ?_ (fun _ => avoids_ok _)
    exact Avoids.foldlM (fun _ rs => rs.req.firstData_quiet.andThen (fun _ => avoids_ok _)) _

end ReadOnly

namespace Raft

theorem send_quiet (r : Raft) (m : Message) : Quiet log (r.send m) := by
  unfold send
  split_ifs <;> simp [Panic.fault]

theorem sendSnap_quiet (r : Raft) (dst : Nat) (pr : Progress) : Quiet log (r.sendSnap dst pr) := by
  unfold sendSnap
  dsimp only
  split_ifs
  · exact avoids_ok _
  · simp [Panic.fault]
  · exact (send_quiet _ _).andThen (fun _ => avoids_ok _)

/-- A peer that is not paused has room in its window and is not waiting for a snapshot. -/
theorem sendApp_quiet (r : Raft) (dst : Nat) {pr : Progress} (hp : pr.isPaused=false) (term : Nat)
    (ents : List Entry) : Quiet log (r.sendApp dst pr term ents) := by
  refine Quiet.andThen ?_ (fun _ => (send_quiet _ _).andThen (fun _ => avoids_ok _))
  unfold progressSent
  split
  · exact avoids_ok _
  · unfold Progress.isPaused at hp
    split <;> rename_i hs <;> rw [hs] at hp
    · exact (Inflights.add_quiet hp _).andThen (fun _ => avoids_ok _)
    · exact avoids_ok _
    · cases hp

section

variable [Raftpb] (r : Raft)

theorem maybeSendAppend_quiet (dst : Nat) (b : Bool) : Quiet log (r.maybeSendAppend dst b) := by
  unfold maybeSendAppend
  split
  · simp [Panic.fault]
  · split
    · exact avoids_ok _
    rename_i hp
    refine (r.raftLog.entries_quiet _ _).andThen (fun ents => ?_)
    split
    · exact Avoids.ite (avoids_ok _) (sendApp_quiet _ _ (Bool.eq_false_iff.mpr hp) _ _)
    · exact Avoids.ite (avoids_ok _) (sendSnap_quiet _ _ _)
    · exact Avoids.ite (avoids_ok _) (sendSnap_quiet _ _ _)

theorem sendAppend_quiet (dst : Nat) : Quiet log (r.sendAppend dst) :=
  (r.maybeSendAppend_quiet dst true).andThen (fun _ => avoids_ok _)

theorem bcastAppend_quiet : Quiet log r.bcastAppend := by
  refine Avoids.foldlM (fun r id => ?_) r
  split_ifs
  · exact avoids_ok _
  · exact r.sendAppend_quiet id

theorem probeAll_quiet : Quiet log r.probeAll :=
  Avoids.foldlM (fun r id => (r.maybeSendAppend_quiet id false).andThen (fun _ => avoids_ok _)) r

theorem sendAppendLoop_quiet (dst fuel : Nat) : Quiet log (sendAppendLoop dst fuel r) := by
  induction fuel generalizing r with
  | zero => simp [sendAppendLoop,Panic.fault]
  | succ fuel ih =>
    refine (r.maybeSendAppend_quiet dst false).andThen (fun ⟨r',sent⟩ => ?_)
    dsimp only
    split_ifs
    · exact ih r'
    · exact avoids_ok _

omit [Raftpb]

theorem bcastHeartbeatWithCtx_quiet (ctx : Bytes) : Quiet log (r.bcastHeartbeatWithCtx ctx) := by
  refine Avoids.foldlM (fun r id => ?_) r
  split_ifs
  · exact avoids_ok _
  · unfold sendHeartbeat
    split
    · simp [Panic.fault]
    · exact send_quiet _ _

theorem maybeCommit_quiet : Quiet log r.maybeCommit :=
  (r.raftLog.maybeCommit_quiet _ _).andThen (fun _ => avoids_ok _)

theorem committedEntryInCurrentTerm_quiet : Quiet log r.committedEntryInCurrentTerm :=
  (RaftLog.zeroTermOnErrCompacted_quiet _).andThen (fun _ => avoids_ok _)

theorem responseToReadIndexReq_quiet (req : Message) (i : Nat) :
    Quiet log (r.responseToReadIndexReq req i) := by
  unfold responseToReadIndexReq
  split_ifs
  · exact req.firstData_quiet.andThen (fun _ => avoids_ok _)
  · exact send_quiet _ _

theorem sendMsgReadIndexResponse_quiet (m : Message) : Quiet log (r.sendMsgReadIndexResponse m) := by
  unfold sendMsgReadIndexResponse
  split
  · exact (r.readOnly.addRequest_quiet _ m).andThen (fun _ =>
      m.firstData_quiet.andThen (fun _ => bcastHeartbeatWithCtx_quiet _ _))
  · exact r.responseToReadIndexReq_quiet m _

theorem releasePendingReadIndexMessages_quiet : Quiet log r.releasePendingReadIndexMessages := by
  refine r.committedEntryInCurrentTerm_quiet.andThen (fun current => ?_)
  split_ifs
  · exact avoids_ok _
  · exact Avoids.foldlM sendMsgReadIndexResponse_quiet _

theorem requestVotes_quiet (t : CampaignType) (v : MessageType) (term : Nat) :
    Quiet log (r.requestVotes t v term) := by
  refine Avoids.foldlM (fun r id => Avoids.ite (avoids_ok _) ?_) r
  exact r.raftLog.lastTerm_quiet.andThen (fun _ => send_quiet _ _)

theorem handleHeartbeat_quiet (m : Message) : Quiet log (r.handleHeartbeat m) := by
  unfold handleHeartbeat
  dsimp only
  split_ifs
  · exact send_quiet _ _
  · exact avoids_ok _

theorem rejectAppend_quiet (m : Message) : Quiet log (r.rejectAppend m) := by
  unfold rejectAppend
  dsimp only
  split
  · simp [Panic.fault]
  · exact send_quiet _ _

theorem handleVote_quiet (m : Message) : Quiet log (r.handleVote m) := by
  refine Quiet.andThen ?_ (fun up => Avoids.ite ?_ (send_quiet _ _))
  · exact Avoids.ite (r.raftLog.lastTerm_quiet.andThen (fun _ => avoids_ok _)) (avoids_ok _)
  · exact (send_quiet _ _).andThen (fun _ => Avoids.ite (avoids_ok _) (avoids_ok _))

theorem leaderReadIndex_quiet (m : Message) : Quiet log (r.leaderReadIndex m) := by
  unfold leaderReadIndex
  split_ifs
  · exact r.responseToReadIndexReq_quiet m _
  · refine r.committedEntryInCurrentTerm_quiet.andThen (fun current => ?_)
    split_ifs
    · exact avoids_ok _
    · exact r.sendMsgReadIndexResponse_quiet m

theorem leaderReadAck_quiet (m : Message) : Quiet log (r.leaderReadAck m) := by
  unfold leaderReadAck
  dsimp only
  split_ifs
  · exact avoids_ok _
  · exact avoids_ok _
  · refine (ReadOnly.advance_quiet _ m).andThen (fun ⟨ro,rss⟩ => ?_)
    exact Avoids.foldlM (fun r rs => r.responseToReadIndexReq_quiet _ _) _

theorem stepLower_quiet (m : Message) : Quiet log (r.stepLower m) := by
  unfold stepLower
  split_ifs
  · exact send_quiet _ _
  · exact send_quiet _ _
  · exact avoids_ok _

variable [Raftpb]

theorem sendAfterAck_quiet (dst : Nat) (b : Bool) : Quiet log (r.sendAfterAck dst b) := by
  refine r.maybeCommit_quiet.andThen (fun ⟨r',adv⟩ => ?_)
  dsimp only
  split_ifs
  · exact (releasePendingReadIndexMessages_quiet _).andThen (fun _ => bcastAppend_quiet _)
  · exact sendAppend_quiet _ _
  · exact avoids_ok _

theorem leaderAppResp_quiet (m : Message) (pr : Progress) : Quiet log (r.leaderAppResp m pr) := by
  refine Avoids.ite (Avoids.ite (sendAppend_quiet _ _) (avoids_ok _))
    (Avoids.ite (avoids_ok _) (Quiet.andThen ?_ (fun pr' => (sendAfterAck_quiet _ _ _).andThen
      (fun r' => (sendAppendLoop_quiet _ _ _).andThen
        (fun r'' => Avoids.ite (send_quiet _ _) (avoids_ok _))))))
  unfold progressAcked
  split
  · exact avoids_ok _
  · exact Avoids.ite (avoids_ok _) (avoids_ok _)
  · exact (Inflights.freeLE_quiet _ _).andThen (fun _ => avoids_ok _)

theorem leaderHeartbeatResp_quiet (m : Message) (pr : Progress) :
    Quiet log (r.leaderHeartbeatResp m pr) := by
  refine Quiet.andThen ?_ (fun pr' => Quiet.andThen ?_ (fun r' => leaderReadAck_quiet _ m))
  · unfold progressHeard
    dsimp only
    split_ifs
    · refine Quiet.andThen ?_ (fun _ => avoids_ok _)
      unfold Inflights.freeFirstOne
      split
      · simp [Panic.fault]
      · exact Inflights.freeLE_quiet _ _
    · exact avoids_ok _
  · split_ifs
    · exact sendAppend_quiet _ _
    · exact avoids_ok _

theorem leaderTransfer_quiet (m : Message) (pr : Progress) : Quiet log (r.leaderTransfer m pr) := by
  unfold leaderTransfer
  dsimp only
  split_ifs <;> first | exact avoids_ok _ | exact send_quiet _ _ | exact sendAppend_quiet _ _

theorem stepLeaderPeer_quiet (m : Message) (pr : Progress) : Quiet log (r.stepLeaderPeer m pr) := by
  unfold stepLeaderPeer
  split
  · exact r.leaderAppResp_quiet m pr
  · exact r.leaderHeartbeatResp_quiet m pr
  · exact avoids_ok _
  · exact avoids_ok _
  · exact r.leaderTransfer_quiet m pr
  · exact avoids_ok _

theorem switchToConfig_quiet (t : Tracked) : Quiet log (r.switchToConfig t) := by
  unfold switchToConfig
  dsimp only
  split_ifs
  · exact avoids_ok _
  · exact avoids_ok _
  · refine Quiet.andThen ?_ (fun _ => avoids_ok _)
    refine (maybeCommit_quiet _).andThen (fun ⟨r',committed⟩ => Quiet.andThen ?_ (fun r'' => ?_))
    · split_ifs
      · exact bcastAppend_quiet _
      · exact probeAll_quiet _
    · split_ifs <;> exact avoids_ok _

theorem applyConfChange_quiet (cc : ConfChangeV2) : Quiet log (r.applyConfChange cc) := by
  unfold applyConfChange
  split
  · simp [Panic.fault]
  · exact r.switchToConfig_quiet _

theorem confChangeOf_quiet (e : Entry) : Quiet log (confChangeOf e) := by
  unfold confChangeOf
  split
  · exact avoids_ok _
  · split <;> simp [Panic.fault]
  · split <;> simp [Panic.fault]

theorem handleSnapshot_quiet (m : Message) : Quiet log (r.handleSnapshot m) := by
  refine Quiet.andThen ?_ (fun ⟨r',restored⟩ => Avoids.ite (send_quiet _ _) (send_quiet _ _))
  unfold restore
  refine Avoids.ite (avoids_ok _) (Avoids.ite (avoids_ok _) (Avoids.ite (avoids_ok _)
    (Avoids.ite (avoids_ok _) (Quiet.andThen (Quiet.andThen ?_ (fun r' => ?_))
      (fun _ => avoids_ok _)))))
  · unfold restoreConfig
    split
    · simp [Panic.fault]
    · refine (switchToConfig_quiet _ _).andThen (fun ⟨r',cs⟩ => Avoids.ite (avoids_ok _) ?_)
      simp [Panic.fault]
  · split
    · simp [Panic.fault]
    · exact avoids_ok _

theorem screenEntries_quiet (i : Nat) (es : List Entry) : Quiet log (r.screenEntries i es) := by
  induction es generalizing r i with
  | nil => exact avoids_ok _
  | cons e es ih =>
    refine Quiet.andThen ?_ (fun ⟨r',e'⟩ => (ih r' (i+1)).andThen (fun _ => avoids_ok _))
    refine (confChangeOf_quiet e).andThen (fun cc => ?_)
    cases cc with
    | none => exact avoids_ok _
    | some cc => exact Avoids.ite (avoids_ok _) (avoids_ok _)

end

end Raft

section

variable [Raftpb]

/-- Wherever the node gets from here, its log takes the entries it is given. -/
structure Core.Tame (log : Bool) (S : Message → Prop) (c : Core) : Prop where
  accept : ∀ {c' : Core} {m : Message}, HostMoves S c c' → S m → m.type=.msgApp →
    m.term=c'.term → Quiet log (c'.raftLog.maybeAppend m.index m.logTerm m.commit m.entries)
  append : ∀ {c' : Core} (es : List Entry), HostMoves S c c' → c'.state=.stateLeader →
    Quiet log (c'.raftLog.append (Raft.stampEntries c'.term c'.raftLog.lastIndex es))

variable {S : Message → Prop}

theorem Core.Tame.hostMoves {c c' : Core} (h : c.Tame log S) (hm : HostMoves S c c') :
    c'.Tame log S :=
  ⟨fun hm' => h.accept (hm.trans hm'),fun es hm' => h.append es (hm.trans hm')⟩

theorem Core.Tame.moves {c c' : Core} (h : c.Tame log S) (hm : Moves S c c') : c'.Tame log S :=
  h.hostMoves hm.host

theorem Core.Tame.move {c c' : Core} (h : c.Tame log S) (hm : Move S c c') : c'.Tame log S :=
  h.moves (.single hm)

omit [Raftpb] in
theorem RaftLog.append_tolerant (l : RaftLog) (es : List Entry) : Quiet false (l.append es) := by
  unfold append
  split
  · exact avoids_ok _
  · refine Avoids.ite (by simp [Panic.fault]) (Quiet.andThen ?_ (fun _ => avoids_ok _))
    unfold Unstable.truncateAndAppend
    exact Avoids.ite (avoids_ok _) (Avoids.ite (avoids_ok _)
      ((Unstable.slice_quiet _ _ _).andThen (fun _ => avoids_ok _)))

/-- The flow control alone never fails, whatever the log does. -/
theorem Core.tame_flow (S : Message → Prop) (c : Core) : c.Tame false S := by
  refine ⟨fun _ _ _ _ => ?_,fun _ _ _ => RaftLog.append_tolerant _ _⟩
  refine Avoids.ite (Quiet.andThen ?_ (fun _ => avoids_ok _)) (avoids_ok _)
  exact Avoids.ite (avoids_ok _) (Avoids.ite (by simp [Panic.fault]) (Avoids.ite
    (by simp [Panic.fault]) (RaftLog.append_tolerant _ _)))

namespace Raft

open RaftTesting.Core

variable {r : Raft} {m : Message}

theorem appendEntry_quiet (h : r.core.Tame log S) (hlead : r.state=.stateLeader) (es : List Entry) :
    Quiet log (r.appendEntry es) := by
  unfold appendEntry increaseUncommittedSize
  dsimp only
  split <;> dsimp only
  · exact Avoids.ite (avoids_ok _) ((h.append es .refl hlead).andThen (fun l => by
      split
      · simp [Panic.fault]
      · exact (maybeCommit_quiet _).andThen (fun _ => avoids_ok _)))
  · exact Avoids.ite (avoids_ok _) ((h.append es .refl hlead).andThen (fun l => by
      split
      · simp [Panic.fault]
      · exact (maybeCommit_quiet _).andThen (fun _ => avoids_ok _)))

theorem becomeLeader_quiet (h : r.core.Tame log S) (hcand : r.state=.stateCandidate)
    (hwon : r.prs.tallyVotes=.voteWon) : Quiet log r.becomeLeader := by
  unfold becomeLeader
  refine Avoids.ite (by simp [Panic.fault]) ?_
  dsimp only
  split
  · simp [Panic.fault]
  · rename_i pr hget
    have helect : Move S r.core _ := .elect hcand hwon hget
    refine Quiet.andThen ?_ (fun ⟨r',ok⟩ => ?_)
    · refine appendEntry_quiet (S := S) ?_ rfl _
      exact h.move helect
    exact Avoids.ite (by simp [Panic.fault]) (avoids_ok _)

theorem campaignVote_quiet {t : CampaignType} (h : r.core.Tame log S) (hlead : r.state≠.stateLeader)
    (hok : r.state=.statePreCandidate ∨ r.core.HupOk) : Quiet log (r.campaignVote t) := by
  unfold campaignVote becomeCandidate
  rw [if_neg hlead]
  refine Avoids.bind (avoids_ok _) ?_
  rintro r1 hr1
  cases hr1
  have hstand := h.move (.stand hlead hok)
  have hpoll := hstand.move (poll_move
    (r := { r.reset (r.term+1) with vote := r.id, state := .stateCandidate })
    r.id true (.inr rfl) (fun _ _ => .inl rfl))
  dsimp only
  split
  · rename_i hwon
    exact becomeLeader_quiet hpoll rfl hwon
  · exact requestVotes_quiet _ _ _ _

theorem campaign_quiet {t : CampaignType} (h : r.core.Tame log S) (hlead : r.state≠.stateLeader)
    (hok : r.core.HupOk) : Quiet log (r.campaign t) := by
  unfold campaign
  split
  · unfold becomePreCandidate
    rw [if_neg hlead]
    refine Avoids.bind (avoids_ok _) ?_
    rintro r1 hr1
    cases hr1
    have hstand := h.move (.preStand hlead hok)
    have hpoll := hstand.move (poll_move (r := { r with
      prs := r.prs.resetVotes, lead := noNode, state := .statePreCandidate })
      r.id true (.inl rfl) (fun h => nomatch h))
    dsimp only
    split
    · exact campaignVote_quiet hpoll (fun h => nomatch h) (.inl rfl)
    · exact requestVotes_quiet _ _ _ _
  · exact campaignVote_quiet h hlead (.inr hok)

theorem hup_quiet {t : CampaignType} (h : r.core.Tame log S) : Quiet log (r.hup t) := by
  unfold hup
  split
  · exact avoids_ok _
  · rename_i hlead
    split
    · exact avoids_ok _
    · rename_i hprom
      refine (r.raftLog.slice_quiet _ _ _).bind (fun res hslice => ?_)
      split
      · simp [Panic.fault]
      · split
        · exact avoids_ok _
        · rename_i ents hpend
          obtain ⟨htracked,hsettled⟩ := promotable_spec (by simpa using hprom)
          refine campaign_quiet h hlead ⟨htracked,hsettled,ents,hslice,?_⟩
          by_cases hn : numOfPendingConf ents=0
          · exact .inl hn
          · exact .inr (Nat.not_lt.mp (fun hlt => hpend ⟨hn,hlt⟩))

theorem handleAppendEntries_quiet (h : r.core.Tame log S) (hS : S m) (htype : m.type=.msgApp)
    (hterm : m.term=r.term) : Quiet log (r.handleAppendEntries m) := by
  unfold handleAppendEntries
  refine Avoids.ite (send_quiet _ _) ((h.accept .refl hS htype hterm).andThen (fun ⟨l,res⟩ => ?_))
  dsimp only
  split
  · exact send_quiet _ _
  · exact rejectAppend_quiet _ _

theorem leaderProp_quiet (h : r.core.Tame log S) (hlead : r.state=.stateLeader) :
    Quiet log (r.leaderProp m) := by
  unfold leaderProp
  refine Avoids.ite (by simp [Panic.fault]) (Avoids.ite (avoids_ok _)
    (Avoids.ite (avoids_ok _) ((r.screenEntries_quiet 0 m.entries).bind ?_)))
  rintro ⟨r1,es⟩ hscreen
  obtain ⟨hr1,hs⟩ := screenEntries_spec hscreen
  refine Quiet.andThen ?_ (fun ⟨r2,ok⟩ =>
    Avoids.ite (avoids_ok _) ((bcastAppend_quiet _).andThen (fun _ => avoids_ok _)))
  rw [hr1]
  exact appendEntry_quiet (r := { r with pendingConfIndex := r1.pendingConfIndex })
    (h.move (.pend hlead hs)) hlead es

theorem stepLeader_quiet (h : r.core.Tame log S) (hlead : r.state=.stateLeader) :
    Quiet log (r.stepLeader m) := by
  unfold stepLeader
  split
  · exact (bcastHeartbeatWithCtx_quiet _ _).andThen (fun _ => avoids_ok _)
  · exact avoids_ok _
  · exact leaderProp_quiet h hlead
  · exact (r.leaderReadIndex_quiet m).andThen (fun _ => avoids_ok _)
  · split
    · exact avoids_ok _
    · exact (r.stepLeaderPeer_quiet m _).andThen (fun _ => avoids_ok _)

theorem candidateVoteResp_quiet (h : r.core.Tame log S) (hS : S m) (htype : m.type=r.myVoteRespType)
    (hterm : m.type.needsTerm=true → m.term=r.term)
    (hstate : r.state=.statePreCandidate ∨ r.state=.stateCandidate) :
    Quiet log (r.candidateVoteResp m) := by
  have hpoll := h.move (poll_of_resp hS htype hterm hstate)
  unfold candidateVoteResp
  dsimp only
  split
  · rename_i hwon
    split
    · rename_i hpre
      unfold campaign
      exact campaignVote_quiet hpoll (by rw [hpre]; exact fun h => nomatch h) (.inl hpre)
    · rename_i hpre
      have hcand : r.state=.stateCandidate := hstate.resolve_left hpre
      exact (becomeLeader_quiet hpoll hcand hwon).andThen (fun _ => bcastAppend_quiet _)
  · exact avoids_ok _
  · exact avoids_ok _

theorem stepCandidate_quiet (h : r.core.Tame log S) (hS : S m)
    (hterm : m.type.needsTerm=true → m.term=r.term)
    (hstate : r.state=.statePreCandidate ∨ r.state=.stateCandidate) :
    Quiet log (r.stepCandidate m) := by
  unfold stepCandidate
  split
  · exact avoids_ok _
  · rename_i ht
    have hfollow := h.move (becomeFollower_move r m.fromId (hterm (by rw [ht]; rfl)).ge)
    exact (handleAppendEntries_quiet hfollow hS ht rfl).andThen (fun _ => avoids_ok _)
  · exact (handleHeartbeat_quiet _ _).andThen (fun _ => avoids_ok _)
  · exact (handleSnapshot_quiet _ _).andThen (fun _ => avoids_ok _)
  · split
    · rename_i ht
      exact (candidateVoteResp_quiet h hS ht hterm hstate).andThen (fun _ => avoids_ok _)
    · exact avoids_ok _

theorem stepFollower_quiet (h : r.core.Tame log S) (hS : S m)
    (hterm : m.type.needsTerm=true → m.term=r.term) : Quiet log (r.stepFollower m) := by
  unfold stepFollower
  split
  · exact Avoids.ite (avoids_ok _) (Avoids.ite (avoids_ok _)
      ((send_quiet _ _).andThen (fun _ => avoids_ok _)))
  · rename_i ht
    exact Quiet.andThen (handleAppendEntries_quiet (r := r.hearLeader m.fromId) h hS ht
      (hterm (by rw [ht]; rfl))) (fun _ => avoids_ok _)
  · exact (handleHeartbeat_quiet _ _).andThen (fun _ => avoids_ok _)
  · exact (handleSnapshot_quiet _ _).andThen (fun _ => avoids_ok _)
  · exact Avoids.ite (avoids_ok _) ((send_quiet _ _).andThen (fun _ => avoids_ok _))
  · exact (hup_quiet h).andThen (fun _ => avoids_ok _)
  · exact Avoids.ite (avoids_ok _) ((send_quiet _ _).andThen (fun _ => avoids_ok _))
  · split <;> exact avoids_ok _
  · exact avoids_ok _

theorem stepType_quiet (h : r.core.Tame log S) (hS : fromTick m.type=false → S m)
    (hterm : m.type.needsTerm=true → m.term=r.term) : Quiet log (r.stepType m) := by
  unfold stepType
  split
  · exact (hup_quiet h).andThen (fun _ => avoids_ok _)
  · exact (r.handleVote_quiet m).andThen (fun _ => avoids_ok _)
  · exact (r.handleVote_quiet m).andThen (fun _ => avoids_ok _)
  · rename_i hhup _ _
    unfold stepState
    by_cases htick : fromTick m.type=true
    · have ht : m.type=.msgBeat ∨ m.type=.msgCheckQuorum := by
        cases hm : m.type <;> simp_all [fromTick]
      split
      · unfold stepFollower
        rcases ht with ht | ht <;> rw [ht] <;> exact avoids_ok _
      · rename_i hs
        unfold stepCandidate
        rcases ht with ht | ht <;> simp only [ht,myVoteRespType,hs] <;> exact avoids_ok _
      · rename_i hs
        unfold stepCandidate
        rcases ht with ht | ht <;> simp only [ht,myVoteRespType,hs] <;> exact avoids_ok _
      · rename_i hlead
        exact stepLeader_quiet h hlead
    · have hS := hS (by simpa using htick)
      split
      · exact stepFollower_quiet h hS hterm
      · rename_i hs
        exact stepCandidate_quiet h hS hterm (.inr hs)
      · rename_i hs
        exact stepCandidate_quiet h hS hterm (.inl hs)
      · rename_i hs
        exact stepLeader_quiet h hs

/-- A step of a tame node keeps quiet. -/
theorem step_quiet (h : r.core.Tame log S) (hS : fromTick m.type=false → S m) (hstamp : m.Stamped) :
    Quiet log (r.step m) := by
  unfold step
  split
  · rename_i h0
    exact stepType_quiet h hS (fun hn => absurd h0 (hstamp hn))
  · split
    · rename_i hlt
      split
      · exact avoids_ok _
      · split
        · rename_i hkeep
          refine stepType_quiet h hS (fun hn => ?_)
          unfold keepsTerm at hkeep
          cases hm : m.type <;> simp_all [MessageType.needsTerm]
        · exact stepType_quiet (h.move (becomeFollower_move r _ hlt.le)) hS (fun _ => rfl)
    · rename_i hnlt
      split
      · exact (r.stepLower_quiet m).andThen (fun _ => avoids_ok _)
      · exact stepType_quiet h hS (fun _ => by omega)

theorem stepIgnored_quiet (h : r.core.Tame log S) (hS : fromTick m.type=false → S m)
    (hstamp : m.Stamped) : Quiet log (r.stepIgnored m) :=
  (step_quiet h hS hstamp).andThen (fun _ => avoids_ok _)

theorem tick_quiet (h : r.core.Tame log S) : Quiet log r.tick := by
  unfold tick
  refine Avoids.ite ?_ ?_
  · unfold tickHeartbeat
    refine Avoids.bind ?_ (fun r1 hr1 => ?_)
    · refine Avoids.ite (Quiet.andThen ?_ (fun _ => Avoids.ite (avoids_ok _) (avoids_ok _)))
        (avoids_ok _)
      exact Avoids.ite (stepIgnored_quiet h (fun h => nomatch h) (fun h => nomatch h)) (avoids_ok _)
    · have hm : Moves S r.core r1.core := by
        split at hr1
        · exact (leaderTimeout_ticked (r := { r with
            heartbeatElapsed := r.heartbeatElapsed+1
            electionElapsed := r.electionElapsed+1 }) hr1).moves
        · cases hr1
          exact .refl
      exact Avoids.ite (avoids_ok _) (Avoids.ite (stepIgnored_quiet
        (r := { r1 with heartbeatElapsed := 0 }) (h.moves hm) (fun h => nomatch h)
        (fun h => nomatch h)) (avoids_ok _))
  · unfold tickElection
    exact Avoids.ite (stepIgnored_quiet (r := { r with electionElapsed := 0 }) h
      (fun h => nomatch h) (fun h => nomatch h)) (avoids_ok _)

theorem advance_quiet {rd : Ready} (h : r.core.Tame log S) : Quiet log (r.advance rd) := by
  refine Quiet.andThen ?_ (fun _ => avoids_ok _)
  unfold advanceApplied
  refine Avoids.ite (avoids_ok _) ((RaftLog.appliedTo_quiet _ _).bind (fun l hl => ?_))
  dsimp only
  split
  · rename_i hleave
    have happ : HostMoves S r.core (r.core.setLog l) := .single (.applied hl)
    refine Quiet.andThen (appendEntry_quiet (r := (r.reduceUncommittedSize _).setLog l)
      (h.hostMoves happ) hleave.2.2.2 _) (fun _ => ?_)
    exact Avoids.ite (by simp [Panic.fault]) (avoids_ok _)
  · exact avoids_ok _

end Raft

end

end RaftTesting
