import RaftTesting.Transition.Campaign

namespace RaftTesting

namespace Core

theorem Flow.refl (pr : Progress) : Flow pr pr := ⟨⟨rfl,rfl,le_rfl,.inl rfl⟩,fun _ h => h⟩

/-- Only what the flow control notes about the peer has changed. -/
theorem Flow.of_same {pr pr' : Progress} (h : pr'={ pr with
    recentActive := pr'.recentActive
    probeSent := pr'.probeSent }) : Flow pr pr' := by
  refine ⟨⟨by rw [h],by rw [h],by rw [h],.inl (by rw [h])⟩,fun n hp => ?_⟩
  rw [h]
  exact hp.of_same rfl rfl rfl rfl

theorem drift_becomeProbe (pr : Progress) : Drift pr pr.becomeProbe := by
  unfold Progress.becomeProbe
  split_ifs
  · refine ⟨rfl,rfl,Nat.zero_le _,?_⟩
    dsimp only
    omega
  · exact ⟨rfl,rfl,Nat.zero_le _,.inr (.inl rfl)⟩

theorem flow_becomeProbe (pr : Progress) : Flow pr pr.becomeProbe :=
  ⟨drift_becomeProbe pr,fun _ h => h.becomeProbe⟩

theorem drift_becomeReplicate (pr : Progress) : Drift pr pr.becomeReplicate :=
  ⟨rfl,rfl,Nat.zero_le _,.inr (.inl rfl)⟩

theorem progressAcked_drift {pr pr' : Progress} {index : Nat}
    (h : Raft.progressAcked pr index=.ok pr') : Drift pr pr' := by
  unfold Raft.progressAcked at h
  split at h
  · cases h
    exact drift_becomeReplicate pr
  · split at h <;> cases h
    · refine ⟨?_,?_,Nat.zero_le _,.inr (.inl ?_)⟩
      · exact (drift_becomeProbe pr).matchIndex
      · exact (drift_becomeProbe pr).isLearner
      · exact congrArg (·+1) (drift_becomeProbe pr).matchIndex
    · exact (Flow.refl pr).toDrift
  · obtain ⟨i,_,h⟩ := bind_eq_ok.mp h
    cases h
    exact ⟨rfl,rfl,le_rfl,.inl rfl⟩

/-- Match moves up to the acknowledged index, and what is in flight up to it is freed. -/
theorem progressAcked_paced {pr pr' : Progress} {index n : Nat} (hp : pr.Paced n)
    (hlt : pr.matchIndex < index)
    (h : Raft.progressAcked (pr.maybeUpdate index).1 index=.ok pr') : pr'.Paced n := by
  have hstate : (pr.maybeUpdate index).1.state=pr.state := by rw [Progress.maybeUpdate_fst]
  have hflight : (pr.maybeUpdate index).1.inflights=pr.inflights := by
    rw [Progress.maybeUpdate_fst]
  have hmatch : (pr.maybeUpdate index).1.matchIndex=index := by
    rw [Progress.maybeUpdate_fst]
    exact Nat.max_eq_right hlt.le
  have hnext : (pr.maybeUpdate index).1.next=max pr.next (index+1) := by
    rw [Progress.maybeUpdate_fst]
  generalize (pr.maybeUpdate index).1=upd at h hstate hflight hmatch hnext
  unfold Raft.progressAcked at h
  split at h
  · cases h
    exact hp.resetState (congrArg Inflights.reset hflight) rfl (fun _ => Nat.lt_succ_self _)
  · rename_i hs
    split at h <;> cases h
    · refine hp.resetState ?_ rfl (fun _ => Nat.lt_succ_self _)
      rw [← hflight]
      unfold Progress.becomeProbe
      rw [if_pos hs]
      rfl
    · have hne : pr.state≠.stateReplicate := by
        rw [← hstate,hs]
        nofun
      refine Progress.paced_empty (hflight ▸ hp.ringed) (hflight ▸ hp.size) (fun hr => ?_)
        (hflight ▸ hp.idle hne)
      exact absurd (hstate.symm.trans hr) hne
  · obtain ⟨i,hi,h⟩ := bind_eq_ok.mp h
    cases h
    rw [hflight] at hi
    obtain ⟨i',hi',hr,hsize,hw⟩ := hp.ringed.freeLE index
    cases hi.symm.trans hi'
    refine hp.freed hr hsize hw hstate (fun _ => ?_) ?_ (.inl hmatch)
    all_goals
      dsimp only
      omega

theorem progressHeard_flow {pr pr' : Progress} (h : Raft.progressHeard pr=.ok pr') :
    Flow pr pr' := by
  unfold Raft.progressHeard at h
  dsimp only at h
  split at h
  · obtain ⟨i,hi,h⟩ := bind_eq_ok.mp h
    cases h
    refine ⟨⟨rfl,rfl,le_rfl,.inl rfl⟩,fun n hp => ?_⟩
    obtain ⟨v,hv⟩ := Inflights.freeFirstOne_eq_ok hi
    obtain ⟨i',hi',hr,hsize,hw⟩ := hp.ringed.freeLE v
    cases hv.symm.trans hi'
    exact hp.freed hr hsize hw rfl hp.ahead le_rfl (.inr rfl)
  · cases h
    exact .of_same rfl

/-- What a rejection does to the progress of its sender. -/
theorem back_reject {pr pr0 pr' : Progress} {rejected hint : Nat} {b : Bool}
    (hpr : pr={ pr0 with recentActive := true }) (h : pr.maybeDecrTo rejected hint=(pr',b)) :
    Back pr0 (if b && decide (pr'.state=.stateReplicate) then pr'.becomeProbe else pr') := by
  subst hpr
  unfold Progress.maybeDecrTo at h
  dsimp only at h
  have hsame : Back pr0 { pr0 with recentActive := true } :=
    ⟨rfl,rfl,le_rfl,.inl rfl,fun n hp => hp.of_same rfl rfl rfl rfl⟩
  split_ifs at h with hs hm hr
  · cases h
    exact hsame
  · cases h
    have hprobe : (true && decide (pr0.state=.stateReplicate))=true := by simp [hs]
    rw [if_pos hprobe]
    have hne : pr0.state≠.stateSnapshot := by
      rw [hs]
      nofun
    unfold Progress.becomeProbe
    rw [if_neg hne]
    exact ⟨rfl,rfl,Nat.zero_le _,.inr (.inr (.inl rfl)),fun n hp => hp.resetState rfl rfl nofun⟩
  · cases h
    exact hsame
  · cases h
    rw [if_neg (by simp [hs])]
    refine ⟨rfl,rfl,le_rfl,?_,fun n hp => ?_⟩
    · dsimp only
      omega
    · exact Progress.paced_empty hp.ringed hp.size (fun hr => absurd hr hs) (hp.idle hs)

section

variable [Raftpb] {S : Message → Prop} {c : Core}

theorem track_one {id : Nat} {pr pr' : Progress} (hget : c.prs.progress.get? id=some pr)
    (hf : Flow pr pr') : Send S c (c.setProgress id pr') := by
  refine .track (fun id' => ?_)
  rw [SortedMap.get?_insert]
  split_ifs with h
  · rw [h,hget]
    exact .some hf
  · cases c.prs.progress.get? id' with
    | none => exact .none
    | some pr => exact .some (.refl pr)

end

end Core

namespace Raft

open RaftTesting.Core

section

variable {r r' : Raft}

theorem maybeUpdate_active {pr pr0 : Progress} (i : Nat)
    (hpr : pr={ pr0 with recentActive := true }) :
    (pr.maybeUpdate i).1={ (pr0.maybeUpdate i).1 with recentActive := true } := by
  rw [hpr]
  unfold Progress.maybeUpdate
  dsimp only
  split_ifs <;> rfl

theorem acksOf_recvAck (ro : ReadOnly) (id : Nat) (ctx : Bytes) :
    (ro.recvAck id ctx).1.acksOf ctx=(ro.recvAck id ctx).2 := by
  unfold ReadOnly.acksOf
  rw [ReadOnly.lookup_recvAck]
  unfold ReadOnly.recvAck
  cases ro.pendingReadIndex.lookup ctx <;> simp

theorem answerAll_core {rss : List ReadIndexStatus}
    (h : rss.foldlM (fun r rs => r.responseToReadIndexReq rs.req rs.index) r=.ok r') :
    r.core.answerAll rss=.ok r'.core := by
  unfold answerAll
  induction rss generalizing r with
  | nil =>
    cases h
    rfl
  | cons rs rss ih =>
    simp only [List.foldlM_cons] at h ⊢
    obtain ⟨r1,h1,h⟩ := bind_eq_ok.mp h
    rw [responseToReadIndexReq_core h1]
    exact ih h

end

section

variable [Raftpb] {T : Prop} {S : Message → Prop} {r r' : Raft} {m : Message}

theorem clearActive_sent (r : Raft) : Sent T S r r.clearActive := by
  refine ⟨fun _ => .single (.track (fun id => ?_)),
    .single (.track ⟨fun id => ?_,fun id pr' hget ha => ?_⟩)⟩
  · rw [SortedMap.get?_mapVals]
    change Option.Rel Flow (r.prs.progress.get? id) _
    cases r.prs.progress.get? id with
    | none => exact .none
    | some pr =>
      refine .some ?_
      split_ifs
      · exact .refl pr
      · exact .of_same rfl
  · rw [SortedMap.get?_mapVals]
    cases r.prs.progress.get? id with
    | none => rfl
    | some pr =>
      simp only [Option.map_some]
      split_ifs <;> rfl
  · rw [SortedMap.get?_mapVals] at hget
    by_cases hid : id=r.id
    · exact .inl hid
    · obtain ⟨pr,-,hpr⟩ := Option.map_eq_some_iff.mp hget
      rw [if_neg hid] at hpr
      rw [← hpr] at ha
      cases ha

/-- A leader counts itself as active. -/
theorem activate_sent {pr : Progress} (hget : r.prs.progress.get? r.id=some pr) :
    Sent T S r (r.setProgress r.id { pr with recentActive := true }) := by
  refine ⟨fun _ => .single (track_one (c := r.core) hget (.of_same rfl)),
    .single (.track ⟨fun id => ?_,fun id pr' hid ha => ?_⟩)⟩
  · rw [SortedMap.get?_insert]
    split_ifs with hid
    · rw [hid,hget]
      rfl
    · rfl
  · rw [SortedMap.get?_insert] at hid
    split_ifs at hid with hself
    · exact .inl hself
    · exact .inr (.inl ⟨pr',hid,ha⟩)

theorem stepDown_stepped (hlead : r.state=.stateLeader) : Stepped T S r
    (if r.prs.quorumActive then r else r.becomeFollower r.term noNode) := by
  split_ifs
  · exact .refl r
  · exact becomeFollower_stepped r (.inr ⟨rfl,by rw [hlead]; decide⟩) (.inl rfl)

theorem leaderCheckQuorum_stepped (hlead : r.state=.stateLeader) :
    Stepped T S r r.leaderCheckQuorum := by
  unfold leaderCheckQuorum
  dsimp only
  refine Walk.trans ?_ (Sent.stepped (clearActive_sent _))
  split
  · rename_i pr hget
    exact (activate_sent hget).stepped.trans (stepDown_stepped (by exact hlead))
  · exact stepDown_stepped hlead

theorem confChangeOf_none {e : Entry} (h : confChangeOf e=.ok none) : e.isConf=false := by
  unfold confChangeOf at h
  unfold Entry.isConf
  split at h
  · rename_i ht
    simp [ht]
  · split at h <;> cases h
  · split at h <;> cases h

theorem confChangeOf_some {e : Entry} {cc : ConfChangeV2} (h : confChangeOf e=.ok (some cc)) :
    e.isConf=true := by
  unfold confChangeOf at h
  unfold Entry.isConf
  split at h
  · cases h
  · rename_i ht
    simp [ht]
  · rename_i ht
    simp [ht]

theorem screenEntry_spec {i : Nat} {e e' : Entry} (h : r.screenEntry i e=.ok (r',e')) :
    r'={ r with pendingConfIndex := r'.pendingConfIndex } ∧
    ((e'.isConf=false ∧ r'.pendingConfIndex=r.pendingConfIndex) ∨
      (r.pendingConfIndex≤r.raftLog.applied ∧
        r'.pendingConfIndex=r.raftLog.lastIndex+i+1)) := by
  obtain ⟨res,hres,h⟩ := bind_eq_ok.mp h
  split at h
  · cases h
    exact ⟨rfl,.inl ⟨confChangeOf_none hres,rfl⟩⟩
  · split at h
    · cases h
      exact ⟨rfl,.inl ⟨rfl,rfl⟩⟩
    · rename_i hrefused
      cases h
      refine ⟨rfl,.inr ⟨?_,rfl⟩⟩
      unfold refusesConfChange at hrefused
      simp only [Bool.or_eq_true,not_or,decide_eq_true_eq] at hrefused
      omega

theorem screenEntries_spec {i : Nat} {es es' : List Entry}
    (h : r.screenEntries i es=.ok (r',es')) :
    r'={ r with pendingConfIndex := r'.pendingConfIndex } ∧
    Screened r.raftLog.lastIndex r.raftLog.applied i r.pendingConfIndex es'
      r'.pendingConfIndex := by
  induction es generalizing r i es' with
  | nil =>
    cases h
    exact ⟨rfl,.nil⟩
  | cons e es ih =>
    obtain ⟨⟨r1,e1⟩,h1,h⟩ := bind_eq_ok.mp h
    obtain ⟨⟨r2,es2⟩,h2,h⟩ := bind_eq_ok.mp h
    cases h
    obtain ⟨hr1,hcase⟩ := screenEntry_spec h1
    obtain ⟨hr2,hscr⟩ := ih h2
    have hlog : r1.raftLog=r.raftLog := by rw [hr1]
    rw [hlog] at hscr
    refine ⟨?_,?_⟩
    · rw [hr2,hr1]
    · rcases hcase with ⟨hconf,hp⟩ | ⟨hp,hp'⟩
      · exact .keep hconf (hp ▸ hscr)
      · exact .pend hp (hp' ▸ hscr)

/-- The screened entries are the proposed ones, or empty. -/
theorem screenEntries_sourced {i : Nat} {es es' : List Entry} (hes : ∀ e ∈ es, Entry.Sourced S e)
    (h : r.screenEntries i es=.ok (r',es')) : ∀ e ∈ es', Entry.Sourced S e := by
  induction es generalizing r i es' with
  | nil =>
    cases h
    exact fun e he => by cases he
  | cons e es ih =>
    obtain ⟨⟨r1,e1⟩,h1,h⟩ := bind_eq_ok.mp h
    obtain ⟨⟨r2,es2⟩,h2,h⟩ := bind_eq_ok.mp h
    cases h
    have he1 : Entry.Sourced S e1 := by
      obtain ⟨cc,-,h1⟩ := bind_eq_ok.mp h1
      split at h1
      · cases h1
        exact hes e List.mem_cons_self
      · split at h1
        · cases h1
          exact .inl rfl
        · cases h1
          exact hes e List.mem_cons_self
    intro x hx
    rcases List.mem_cons.mp hx with rfl | hx
    · exact he1
    · exact ih (fun y hy => hes y (List.mem_cons_of_mem _ hy)) h2 x hx

theorem leaderProp_stepped {err : Option StepErr} (hlead : r.state=.stateLeader) (hS : S m)
    (ht : m.type=.msgProp) (h : r.leaderProp m=.ok (r',err)) : Stepped T S r r' := by
  unfold leaderProp at h
  split at h
  · cases h
  · split at h
    · cases h
      exact .refl r
    · split at h
      · cases h
        exact .refl r
      · obtain ⟨⟨r1,es⟩,hscr,h⟩ := bind_eq_ok.mp h
        obtain ⟨⟨r2,accepted⟩,happ,h⟩ := bind_eq_ok.mp h
        have hsrc := screenEntries_sourced (fun e he => .inr ⟨m,hS,ht,he⟩) hscr
        obtain ⟨hr1,hscr⟩ := screenEntries_spec hscr
        have hstate : r1.state=.stateLeader := by rw [hr1]; exact hlead
        have hlog : r1.raftLog=r.raftLog := by rw [hr1]
        rw [← hlog] at hscr
        obtain ⟨hm,hl⟩ := appendEntry_stepped (T := T) hstate hscr (.inl ⟨m,hS,ht⟩) hsrc happ
        have hback : { r1 with pendingConfIndex := r.pendingConfIndex }=r := by rw [hr1]
        rw [hback] at hm
        dsimp only at h
        split at h
        · cases h
          exact hm
        · obtain ⟨r3,hb,h⟩ := bind_eq_ok.mp h
          cases h
          exact hm.trans (Sent.stepped (bcastAppend_sent hl hb))

theorem leaderReadIndex_sent (hlead : r.state=.stateLeader) (hS : S m)
    (ht : m.type=.msgReadIndex) (h : r.leaderReadIndex m=.ok r') : Sent T S r r' := by
  unfold leaderReadIndex at h
  split at h
  · rename_i hsingle
    exact ⟨fun _ => .single (.read (.singleton hS ht hlead hsingle
      (responseToReadIndexReq_core h))),.single (responseToReadIndexReq_post h)⟩
  · obtain ⟨current,hcur,h⟩ := bind_eq_ok.mp h
    split at h
    · cases h
      exact ⟨fun _ => .single (.read (.park hS ht hlead)),.single (post_pending r _)⟩
    · rename_i hnot
      obtain ⟨t,ht',hcur⟩ := bind_eq_ok.mp hcur
      cases hcur
      have hterm : t=r.term := by simpa using hnot
      subst hterm
      exact (sendMsgReadIndexResponse_sent hlead h).given ⟨.inl ⟨hS,ht⟩,ht'⟩

/-- A progress after its peer was heard from. -/
theorem setProgress_heard {pr pr0 pr' : Progress} (hS : S m) (ht : m.type.answers=true)
    (hget : r.prs.progress.get? m.fromId=some pr0) (hpr : pr.isLearner=pr0.isLearner)
    (hl : pr'.isLearner=pr.isLearner) : Post S r (r.setProgress m.fromId pr') :=
  setProgress_post pr' hget (hl.trans hpr) (fun _ => .inr ⟨m,hS,ht,rfl⟩)

/-- A rejection changes the progress of its sender first. -/
theorem leaderAppReject_sets {pr : Progress} (h : r.leaderAppReject m pr=.ok r') :
    ∃ pr1 b, pr.maybeDecrTo m.index (nextProbeIdx r.raftLog m)=(pr1,b) ∧
      (b=false → r'=r.setProgress m.fromId pr1) ∧
      (b=true → (r.setProgress m.fromId
        (if pr1.state=.stateReplicate then pr1.becomeProbe else pr1)).sendAppend m.fromId=
          .ok r') := by
  unfold leaderAppReject at h
  dsimp only at h
  rcases hdecr : pr.maybeDecrTo m.index (nextProbeIdx r.raftLog m) with ⟨pr1,decreased⟩
  rw [hdecr] at h
  refine ⟨pr1,decreased,rfl,?_,?_⟩
  · rintro rfl
    cases h
    rfl
  · rintro rfl
    exact h

theorem leaderAppReject_sent {pr pr0 : Progress} (hlead : r.state=.stateLeader) (hS : S m)
    (htype : m.type=.msgAppResp) (hrej : m.reject=true)
    (hget : r.prs.progress.get? m.fromId=some pr0) (hpr : pr={ pr0 with recentActive := true })
    (h : r.leaderAppReject m pr=.ok r') : Sent T S r r' := by
  have hanswers : m.type.answers=true := by rw [htype]; rfl
  obtain ⟨pr1,decreased,hdecr,hkept,hsent⟩ := leaderAppReject_sets h
  have hback := back_reject hpr hdecr
  have hset : ∀ {pr' : Progress}, Back pr0 pr' → Sent T S r (r.setProgress m.fromId pr') :=
    fun hb => ⟨fun _ => .single (.back (c := r.core) hS htype hrej hget hb),
      .single (setProgress_heard hS hanswers hget rfl hb.isLearner)⟩
  cases decreased with
  | false =>
    rw [hkept rfl]
    exact hset hback
  | true =>
    simp only [Bool.true_and,decide_eq_true_eq] at hback
    exact (hset hback).trans (sendAppend_sent (by exact hlead) (hsent rfl))

theorem sendAfterAck_handled {dst : Nat} {b : Bool} (hlead : r.state=.stateLeader)
    (h : r.sendAfterAck dst b=.ok r') : Handled T S r r' := by
  obtain ⟨⟨r1,advanced⟩,hc,h⟩ := bind_eq_ok.mp h
  have hm : Handled T S r r1 := maybeCommit_handled hlead hc
  have hl1 : r1.state=.stateLeader := hm.state.trans hlead
  refine hm.trans (Sent.handled ?_)
  dsimp only at h
  split at h
  · obtain ⟨r2,hrel,h⟩ := bind_eq_ok.mp h
    have h2 : Sent T S r1 r2 := releasePendingReadIndexMessages_sent hl1 hrel
    exact h2.trans (bcastAppend_sent (h2.state.trans hl1) h)
  · split at h
    · exact sendAppend_sent hl1 h
    · cases h
      exact .refl _

/-- An acknowledgement that moves Match. -/
theorem ack_move {pr pr0 pr1 : Progress} (hlead : r.state=.stateLeader) (hS : S m)
    (htype : m.type=.msgAppResp) (hterm : m.term=r.term) (hrej : m.reject=false)
    (hget : r.prs.progress.get? m.fromId=some pr0) (hpr : pr={ pr0 with recentActive := true })
    (hupd : (pr.maybeUpdate m.index).2=true)
    (hacked : progressAcked (pr.maybeUpdate m.index).1 m.index=.ok pr1) :
    Move S r.core (r.setProgress m.fromId pr1).core := by
  have hdrift : Drift (pr0.maybeUpdate m.index).1 pr1 := by
    have hf := progressAcked_drift hacked
    rw [maybeUpdate_active m.index hpr] at hf
    exact ⟨hf.matchIndex,hf.isLearner,hf.pendingSnapshot,hf.next⟩
  have hlt : pr.matchIndex < m.index := by
    unfold Progress.maybeUpdate at hupd
    by_contra hle
    rw [if_neg hle] at hupd
    cases hupd
  have hpaced : ∀ n, pr0.Paced n → pr1.Paced n := by
    intro n hp
    have hp' : pr.Paced n := hpr ▸ hp.of_same rfl rfl rfl rfl
    exact progressAcked_paced hp' hlt hacked
  exact .ack (c := r.core) hlead hS htype hterm hrej hget hdrift hpaced

theorem leaderAppAccept_handled {pr pr0 : Progress} (hlead : r.state=.stateLeader) (hS : S m)
    (htype : m.type=.msgAppResp) (hrej : m.reject=false)
    (hget : r.prs.progress.get? m.fromId=some pr0) (hpr : pr={ pr0 with recentActive := true })
    (h : r.leaderAppAccept m pr=.ok r') : Handled (m.term=r.term) S r r' := by
  have hheard : ∀ {pr' : Progress}, pr'.isLearner=pr.isLearner →
      Tend S r (r.setProgress m.fromId pr') := fun hl =>
    .post (setProgress_heard hS (by rw [htype]; rfl) hget (by rw [hpr]) hl)
  have hup : (pr.maybeUpdate m.index).1.isLearner=pr.isLearner := by
    rw [Progress.maybeUpdate_fst]
  unfold leaderAppAccept at h
  dsimp only at h
  split at h
  · cases h
    rename_i hnot
    refine ⟨fun hterm => .single (.ack (c := r.core) hlead hS htype hterm hrej hget ?_
      (fun n hp => ?_)),.single (hheard hup)⟩
    · rw [maybeUpdate_active m.index hpr]
      exact ⟨rfl,rfl,le_rfl,.inl rfl⟩
    · have hle : m.index≤pr0.matchIndex := by
        unfold Progress.maybeUpdate at hnot
        subst hpr
        by_contra hlt
        rw [if_pos (Nat.not_le.mp hlt)] at hnot
        cases hnot
      rw [maybeUpdate_active m.index hpr,Progress.maybeUpdate_fst]
      exact hp.raise (Nat.max_eq_left hle) rfl rfl rfl
  · rename_i hupd
    obtain ⟨pr1,hacked,h⟩ := bind_eq_ok.mp h
    obtain ⟨r1,hafter,h⟩ := bind_eq_ok.mp h
    obtain ⟨r2,hloop,h⟩ := bind_eq_ok.mp h
    have hset : Handled (m.term=r.term) S r (r.setProgress m.fromId pr1) :=
      ⟨fun hterm => .single (ack_move hlead hS htype hterm hrej hget hpr (by simpa using hupd)
        hacked),.single (hheard ((progressAcked_drift hacked).isLearner.trans hup))⟩
    have h1 : Handled (m.term=r.term) S (r.setProgress m.fromId pr1) r1 :=
      sendAfterAck_handled (by exact hlead) hafter
    have hl : r1.state=.stateLeader := h1.state.trans hlead
    have h2 : Sent (m.term=r.term) S r1 r2 := sendAppendLoop_sent hl hloop
    refine hset.trans (h1.trans (h2.handled.trans ?_))
    split at h
    · exact Sent.handled (sendTimeoutNow_sent (h2.state.trans hl) h)
    · cases h
      exact .refl _

theorem leaderAppResp_handled {pr : Progress} (hlead : r.state=.stateLeader) (hS : S m)
    (htype : m.type=.msgAppResp) (hget : r.prs.progress.get? m.fromId=some pr)
    (h : r.leaderAppResp m pr=.ok r') : Handled (m.term=r.term) S r r' := by
  unfold leaderAppResp at h
  dsimp only at h
  split at h
  · rename_i hrej
    exact Sent.handled (leaderAppReject_sent hlead hS htype hrej hget rfl h)
  · rename_i hrej
    exact leaderAppAccept_handled hlead hS htype (by simpa using hrej) hget rfl h

theorem leaderReadAck_sent (hlead : r.state=.stateLeader) (hS : S m)
    (htype : m.type=.msgHeartbeatResp) (h : r.leaderReadAck m=.ok r') :
    Sent (m.term=r.term) S r r' := by
  unfold leaderReadAck at h
  split at h
  · cases h
    exact .refl r
  · rename_i hopt
    simp only [ne_eq,not_or,not_not] at hopt
    obtain ⟨hsafe,hctx⟩ := hopt
    have hack : Sent (m.term=r.term) S r { r with
        readOnly := (r.readOnly.recvAck m.fromId m.context).1 } :=
      ⟨fun hterm => .single (.read (.ack hS htype hterm hlead (by simpa using hctx) hsafe)),
        .single (post_readOnly r _)⟩
    dsimp only at h
    split at h
    · cases h
      exact hack
    · rename_i hwon
      obtain ⟨⟨ro,rss⟩,hadv,h⟩ := bind_eq_ok.mp h
      refine hack.trans ⟨fun _ => .single (.read ?_),.head (post_readOnly _ ro) ?_⟩
      · refine .release (m := m) hS htype hlead ((recvAck_option _ _ _).trans hsafe) ?_ hadv
          (answerAll_core h)
        change r.prs.config.voters.voteResult
          ((r.readOnly.recvAck m.fromId m.context).1.acksOf m.context)=_
        rw [acksOf_recvAck]
        simpa using hwon
      · exact foldlM_rel (fun _ => .refl) (fun _ _ _ => .trans)
          (fun _ _ _ _ h => .single (responseToReadIndexReq_post h)) h

theorem leaderHeartbeatResp_sent {pr : Progress} (hlead : r.state=.stateLeader) (hS : S m)
    (htype : m.type=.msgHeartbeatResp) (hget : r.prs.progress.get? m.fromId=some pr)
    (h : r.leaderHeartbeatResp m pr=.ok r') : Sent (m.term=r.term) S r r' := by
  obtain ⟨pr1,hpr,h⟩ := bind_eq_ok.mp h
  obtain ⟨r1,hsend,h⟩ := bind_eq_ok.mp h
  have hflow : Flow pr pr1 := progressHeard_flow hpr
  have hset : Sent (m.term=r.term) S r (r.setProgress m.fromId pr1) :=
    ⟨fun _ => .single (track_one (c := r.core) hget hflow),
      .single (setProgress_heard hS (by rw [htype]; rfl) hget rfl hflow.isLearner)⟩
  have h1 : Sent (m.term=r.term) S (r.setProgress m.fromId pr1) r1 := by
    split at hsend
    · exact sendAppend_sent (by exact hlead) hsend
    · cases hsend
      exact .refl _
  have hterm : r1.term=r.term := by rw [Posts.same h1.node]; rfl
  have hack : Sent (m.term=r1.term) S r1 r' :=
    leaderReadAck_sent (h1.state.trans hlead) hS htype h
  rw [hterm] at hack
  exact hset.trans (h1.trans hack)

/-- The progress of a peer that has not been heard from. -/
theorem track_sent {id : Nat} {pr pr' : Progress} (hget : r.prs.progress.get? id=some pr)
    (hf : Flow pr pr') (ha : pr'.recentActive=pr.recentActive) :
    Sent T S r (r.setProgress id pr') :=
  ⟨fun _ => .single (track_one (c := r.core) hget hf),
    .single (setProgress_post pr' hget hf.isLearner (fun h => .inl (ha.symm.trans h)))⟩

theorem leaderSnapStatus_sent {pr : Progress} (hget : r.prs.progress.get? m.fromId=some pr) :
    Sent T S r (r.leaderSnapStatus m pr) := by
  unfold leaderSnapStatus
  split_ifs with hs
  · exact .refl r
  · refine track_sent hget ?_ (pr.becomeProbe_active)
    have hf := flow_becomeProbe pr
    exact ⟨⟨hf.matchIndex,hf.isLearner,hf.pendingSnapshot,hf.next⟩,
      fun n hp => (hf.paced n hp).of_same rfl rfl rfl rfl⟩
  · refine track_sent hget ?_ (Progress.becomeProbe_active { pr with pendingSnapshot := 0 })
    simp only [not_not] at hs
    refine ⟨?_,fun n hp => ?_⟩
    · refine ⟨?_,?_,?_,.inr (.inl ?_)⟩ <;>
        simp [Progress.becomeProbe,Progress.resetState,hs]
    · have hprobe : { pr with pendingSnapshot := 0 }.becomeProbe.state=.stateProbe := by
        simp [Progress.becomeProbe,Progress.resetState,hs]
      refine hp.resetState ?_ hprobe nofun
      simp [Progress.becomeProbe,Progress.resetState,hs]

theorem leaderUnreachable_sent {pr : Progress} (hget : r.prs.progress.get? m.fromId=some pr) :
    Sent T S r (r.leaderUnreachable m pr) := by
  unfold leaderUnreachable
  split_ifs
  · exact track_sent hget (flow_becomeProbe pr) pr.becomeProbe_active
  · exact .refl r

theorem leaderTransfer_stepped {pr : Progress} (hlead : r.state=.stateLeader) (hS : S m)
    (ht : m.type=.msgTransferLeader) (h : r.leaderTransfer m pr=.ok r') : Stepped T S r r' := by
  unfold leaderTransfer at h
  split at h
  · cases h
    exact .refl r
  · split at h
    · cases h
      exact .refl r
    · dsimp only at h
      -- the transferee is not part of the core
      have habort : Stepped T S r
          (if r.leadTransferee≠noNode then r.abortLeaderTransfer else r) := by
        split_ifs
        · exact ⟨fun _ => .refl,.single .abort⟩
        · exact .refl r
      have hstate : (if r.leadTransferee≠noNode then r.abortLeaderTransfer else r).state=
          .stateLeader := by
        split_ifs <;> exact hlead
      generalize (if r.leadTransferee≠noNode then r.abortLeaderTransfer else r)=r1
        at h habort hstate
      refine habort.trans ?_
      split at h
      · cases h
        exact .refl _
      · have haim : Stepped T S r1 { r1 with electionElapsed := 0, leadTransferee := m.fromId } :=
          ⟨fun _ => .refl,.single (.aim hS ht hstate)⟩
        refine haim.trans (Sent.stepped ?_)
        split at h
        · exact sendTimeoutNow_sent (by exact hstate) h
        · exact sendAppend_sent (by exact hstate) h

theorem stepLeaderPeer_stepped {pr : Progress} (hlead : r.state=.stateLeader)
    (hS : S m) (hterm : m.type.needsTerm=true → m.term=r.term)
    (hget : r.prs.progress.get? m.fromId=some pr) (h : r.stepLeaderPeer m pr=.ok r') :
    Stepped T S r r' := by
  unfold stepLeaderPeer at h
  split at h
  · rename_i ht
    exact Handled.stepped
      ((leaderAppResp_handled hlead hS ht hget h).given (hterm (by rw [ht]; rfl)))
  · rename_i ht
    exact Sent.stepped
      ((leaderHeartbeatResp_sent hlead hS ht hget h).given (hterm (by rw [ht]; rfl)))
  · cases h
    exact Sent.stepped (leaderSnapStatus_sent hget)
  · cases h
    exact Sent.stepped (leaderUnreachable_sent hget)
  · rename_i ht
    exact leaderTransfer_stepped hlead hS ht h
  · cases h
    exact .refl r

theorem stepLeader_stepped {err : Option StepErr} (hlead : r.state=.stateLeader)
    (hS : m.type≠.msgBeat → m.type≠.msgCheckQuorum → S m)
    (hterm : m.type.needsTerm=true → m.term=r.term) (h : r.stepLeader m=.ok (r',err)) :
    Stepped T S r r' := by
  unfold stepLeader at h
  split at h
  · obtain ⟨r1,h1,h⟩ := bind_eq_ok.mp h
    cases h
    exact Sent.stepped (bcastHeartbeat_sent hlead h1)
  · cases h
    exact leaderCheckQuorum_stepped hlead
  · rename_i ht
    exact leaderProp_stepped hlead (hS (by simp [ht]) (by simp [ht])) ht h
  · rename_i ht
    obtain ⟨r1,h1,h⟩ := bind_eq_ok.mp h
    cases h
    exact Sent.stepped (leaderReadIndex_sent hlead (hS (by simp [ht]) (by simp [ht])) ht h1)
  · rename_i hbeat hquorum _ _
    split at h
    · cases h
      exact .refl r
    · rename_i pr hget
      obtain ⟨r1,h1,h⟩ := bind_eq_ok.mp h
      cases h
      exact stepLeaderPeer_stepped hlead (hS hbeat hquorum) hterm hget h1

end

end Raft

end RaftTesting
