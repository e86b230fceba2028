import RaftTesting.Node.Firm
import RaftTesting.Node.Windows
import RaftTesting.Transition.Turn

namespace RaftTesting

namespace Progress

/-- Next is ahead of Match, and neither it nor a pending snapshot lies past the log. -/
structure Ahead (last : Nat) (pr : Progress) : Prop where
  behind : pr.matchIndex<pr.next
  within : pr.next≤last+1
  pending : pr.pendingSnapshot≤last

variable {last : Nat} {pr pr' : Progress}

theorem Ahead.mono {last' : Nat} (h : pr.Ahead last) (hle : last≤last') : pr.Ahead last' :=
  ⟨h.behind,h.within.trans (Nat.succ_le_succ hle),h.pending.trans hle⟩

/-- Only the three indexes count. -/
theorem Ahead.of_same (h : pr.Ahead last) (hm : pr'.matchIndex=pr.matchIndex)
    (hn : pr'.next=pr.next) (hp : pr'.pendingSnapshot=pr.pendingSnapshot) : pr'.Ahead last :=
  ⟨hm ▸ hn ▸ h.behind,hn ▸ h.within,hp ▸ h.pending⟩

/-- The flow control moves Next only behind Match or a pending snapshot. -/
theorem Ahead.drift (h : pr.Ahead last) (hd : Core.Drift pr pr') : pr'.Ahead last := by
  have hm := hd.matchIndex
  have hb := h.behind
  have hw := h.within
  have hp := h.pending
  refine ⟨?_,?_,hd.pendingSnapshot.trans hp⟩
  · rcases hd.next with hn | hn | ⟨hn,hle⟩ <;> omega
  · rcases hd.next with hn | hn | ⟨hn,hle⟩ <;> omega

theorem Ahead.maybeUpdate {k : Nat} (h : pr.Ahead last) (hk : k≤last) :
    (pr.maybeUpdate k).1.Ahead last := by
  have hb := h.behind
  have hw := h.within
  rw [maybeUpdate_fst]
  refine ⟨?_,?_,h.pending⟩ <;> dsimp only <;> omega

/-- A rejection of what was just probed, which leaves Next ahead of Match. -/
theorem Ahead.decr {rejected hint : Nat} {b : Bool} (h : pr.Ahead last)
    (hcur : pr.state≠.stateReplicate → usub pr.next 1=rejected →
      pr.matchIndex < max (min rejected (hint+1)) 1)
    (hd : pr.maybeDecrTo rejected hint=(pr',b)) :
    (if b && decide (pr'.state=.stateReplicate) then pr'.becomeProbe else pr').Ahead last := by
  have hb := h.behind
  have hw := h.within
  unfold maybeDecrTo at hd
  split_ifs at hd with hs hm hr
  · cases hd
    exact h
  · cases hd
    have hnext : Ahead last { pr with next := pr.matchIndex+1 } :=
      ⟨Nat.lt_succ_self _,by dsimp only; omega,h.pending⟩
    have hprobe : (true && decide (pr.state=.stateReplicate))=true := by simp [hs]
    rw [if_pos hprobe]
    exact hnext.drift (Core.drift_becomeProbe _)
  · cases hd
    exact h
  · cases hd
    rw [if_neg (by simp [hs])]
    have hr := not_not.mp hr
    refine ⟨hcur hs hr,?_,h.pending⟩
    rw [usub_of_le (by omega)] at hr
    dsimp only
    omega

theorem Ahead.sent {ents : List Entry} (h : pr.Ahead last)
    (hents : ∀ e, ents.getLast?=some e → pr.next≤e.index ∧ e.index≤last)
    (hs : Raft.progressSent pr ents=.ok pr') : pr'.Ahead last := by
  obtain ⟨hm,-,hp,hn⟩ := Core.progressSent_same hs
  have hb := h.behind
  have hw := h.within
  refine ⟨?_,?_,hp ▸ h.pending⟩
  · rcases hn with hn | ⟨e,he,hn⟩
    · omega
    · have := hents e he
      omega
  · rcases hn with hn | ⟨e,he,hn⟩
    · omega
    · have := hents e he
      omega

end Progress

/-- The entries that a leader sends are entries of its log. -/
theorem RaftLog.Placed.entries_within [Raftpb] {l : RaftLog} {i n : Nat} {ents : List Entry}
    {e : Entry} (hl : l.Placed) (h : l.entries i n=.ok (.ok ents)) (he : ents.getLast?=some e) :
    i≤e.index ∧ e.index≤l.lastIndex := by
  refine ⟨hl.last_entry h he,?_⟩
  unfold RaftLog.entries at h
  split at h
  · cases h
    cases he
  rename_i hle
  obtain ⟨-,-,-,hreads,hlen⟩ := slice_reads h
  rw [List.getLast?_eq_getElem?] at he
  have hi := entryAt_index hl.pos hl.stored hl.unstable (hreads _ e he)
  have hlt := (List.getElem?_eq_some_iff.mp he).1
  omega

namespace Core

/-- Next is ahead of Match for every peer of a leader. -/
def Ahead (c : Core) : Prop := c.state=.stateLeader → ∀ id pr,
  c.prs.progress.get? id=some pr → pr.Ahead c.raftLog.lastIndex

variable {c c' : Core} {x : LogSession}

theorem ahead_of_not (h : c.state≠.stateLeader) : c.Ahead := fun hl => absurd hl h

theorem Ahead.of_same (ha : c.Ahead) (hs : c'.state=c.state)
    (hp : c'.prs.progress=c.prs.progress) (hl : c.raftLog.lastIndex≤c'.raftLog.lastIndex) :
    c'.Ahead := by
  intro hlead id pr hget
  rw [hp] at hget
  exact (ha (hs ▸ hlead) id pr hget).mono hl

/-- The progress of one peer is written, and the log may have grown. -/
theorem Ahead.set (ha : c.Ahead) {id : Nat} {pr : Progress} (hs : c'.state=c.state)
    (hp : c'.prs.progress=c.prs.progress.insert id pr)
    (hl : c.raftLog.lastIndex≤c'.raftLog.lastIndex)
    (hpr : c.state=.stateLeader → pr.Ahead c'.raftLog.lastIndex) : c'.Ahead := by
  intro hlead id' pr' hget
  rw [hp,SortedMap.get?_insert] at hget
  split_ifs at hget with he
  · cases hget
    exact hpr (hs ▸ hlead)
  · exact (ha (hs ▸ hlead) id' pr' hget).mono hl

theorem Firm.snapshot_le (h : Firm x c) (hs : c.state≠.stateFollower) :
    c.raftLog.snapshot.index≤c.raftLog.lastIndex := by
  unfold RaftLog.snapshot
  rw [h.calm.vacant hs]
  exact h.old.trans (h.settled hs)

section

variable [Raftpb] {S : Message → Prop}

theorem Send.ahead (hf : Firm x c) (hS : ∀ m, S m → m.type≠.msgAppResp) (ha : c.Ahead)
    (h : Send S c c') : c'.Ahead := by
  cases h with
  | app hs hget _ hents hpr =>
    refine ha.set rfl rfl le_rfl (fun hl => ?_)
    exact (ha hl _ _ hget).sent (fun e he => hf.base.placed.entries_within hents he) hpr
  | snap hs hget _ =>
    refine ha.set rfl rfl le_rfl (fun hl => ?_)
    have hold := ha hl _ _ hget
    exact ⟨hold.behind,hold.within,hf.snapshot_le (by rw [hl]; nofun)⟩
  | heartbeat | plain => exact ha.of_same rfl rfl le_rfl
  | track hflow =>
    intro hl id pr hget
    have hrel := hflow id
    change SortedMap.get? _ id=some pr at hget
    rw [hget] at hrel
    generalize hold : c.prs.progress.get? id=a at hrel
    cases hrel with
    | some hflow => exact (ha hl id _ hold).drift hflow.toDrift
  | back hm ht => exact absurd ht (hS _ hm)
  | read hr =>
    refine ha.of_same hr.frame.state ?_ (by rw [hr.frame.raftLog])
    rw [hr.said.1]

/-- Without acknowledgements and rejections every move of a node keeps Next ahead of Match. -/
theorem Move.ahead (hf : Firm x c) (hS : ∀ m, S m → m.type≠.msgAppResp) (ha : c.Ahead)
    (h : Move S c c') : c'.Ahead := by
  cases h with
  | send h => exact h.ahead hf hS ha
  | follow | preStand | stand => exact ahead_of_not (fun h => nomatch h)
  | poll hs =>
    refine ahead_of_not (fun hl => ?_)
    change c.state=_ at hl
    rw [hl] at hs
    exact hs.elim (fun h => nomatch h) (fun h => nomatch h)
  | elect hs hwon hget =>
    -- all progress starts anew behind the end of the log
    have hnew : ∀ id pr, (c.reset c.term).prs.progress.get? id=some pr →
        pr.matchIndex≤c.raftLog.lastIndex ∧ pr.Ahead c.raftLog.lastIndex := by
      intro id pr hget
      change (SortedMap.mapVals _ _).get? id=some pr at hget
      rw [SortedMap.get?_mapVals,Option.map_eq_some_iff] at hget
      obtain ⟨pr0,-,rfl⟩ := hget
      dsimp only
      refine ⟨?_,⟨?_,le_rfl,Nat.zero_le _⟩⟩
      · split_ifs <;> omega
      · dsimp only
        split_ifs <;> omega
    intro _ id pr hget'
    change (SortedMap.insert _ _ _).get? id=some pr at hget'
    rw [SortedMap.get?_insert] at hget'
    split_ifs at hget'
    · cases hget'
      exact ⟨Nat.lt_succ_self _,Nat.succ_le_succ (hnew _ _ hget).1,Nat.zero_le _⟩
    · exact (hnew id pr hget').2
  | append hs _ happ hget =>
    have hle := append_grows happ
    refine ha.set rfl rfl hle (fun hl => ?_)
    exact ((ha hl _ _ hget).mono hle).maybeUpdate le_rfl
  | pend | vote => exact ha.of_same rfl rfl le_rfl
  | commit _ hl =>
    refine ha.of_same rfl rfl (le_of_eq ?_)
    rcases RaftLog.maybeCommit_spec hl with ⟨hb,-⟩ | ⟨-,-,-,rfl⟩
    · cases hb
    · change _=(RaftLog.commitTo _ _).1.lastIndex
      rw [RaftLog.commitTo_fst]
      rfl
  | ack _ hm ht => exact absurd ht (hS _ hm)
  | accept _ _ _ hfol | stale _ _ _ hfol | beat _ _ _ hfol | skip _ _ _ hfol
  | forward _ _ _ hfol | restore _ _ _ _ hfol =>
    refine ahead_of_not (fun hl => ?_)
    cases hfol.symm.trans hl

theorem HostMove.ahead (hf : Firm x c) (hS : ∀ m, S m → m.type≠.msgAppResp) (ha : c.Ahead)
    (h : HostMove S c c') : c'.Ahead := by
  cases h with
  | move h => exact h.ahead hf hS ha
  | applied happ =>
    refine ha.of_same rfl rfl (le_of_eq ?_)
    rcases RaftLog.appliedTo_spec happ with ⟨-,rfl⟩ | ⟨-,-,-,rfl⟩ <;> rfl
  | leave hs _ happ hget =>
    have hle := append_grows happ
    refine ha.set rfl rfl hle (fun hl => ?_)
    exact ((ha hl _ _ hget).mono hle).maybeUpdate le_rfl

theorem HostMoves.ahead (hM : ∀ m, S m → m.Fine ∧ m.Anchored) (hf : Firm x c)
    (hS : ∀ m, S m → m.type≠.msgAppResp) (ha : c.Ahead) (h : HostMoves S c c') : c'.Ahead := by
  induction h with
  | refl => exact ha
  | tail h1 h ih => exact h.ahead (HostMoves.firm hM hf h1) hS ih

theorem Moves.ahead (hM : ∀ m, S m → m.Fine ∧ m.Anchored) (hf : Firm x c)
    (hS : ∀ m, S m → m.type≠.msgAppResp) (ha : c.Ahead) (h : Moves S c c') : c'.Ahead :=
  HostMoves.ahead hM hf hS ha h.host

end

/-- New peers start at the last entry, and one of them may be the leader itself. -/
theorem Ahead.install {t : Tracked} (ha : c.Ahead)
    (hled : c.state=.stateLeader → 1≤c.raftLog.lastIndex)
    (hk : Kept c.prs.maxInflight c.raftLog.lastIndex c.prs.progress t.prs) :
    (c.install t).Ahead := by
  intro hl id pr hget
  rcases hk id pr hget with ⟨pr0,hget0,hsame⟩ | hnew
  · rw [hsame]
    exact (ha hl id pr0 hget0).of_same rfl rfl rfl
  · rw [hnew]
    have hone := hled hl
    exact ⟨hone,Nat.le_succ _,Nat.zero_le _⟩

end Core

namespace Raft

open RaftTesting.Core

variable [Raftpb] {r r' : Raft} {m : Message} {x : LogSession} {pr : Progress}

/-- A leader that has only noted something about a peer, and goes on sending. -/
theorem sends_ahead {id : Nat} (hf : Firm x r.core) (ha : r.core.Ahead)
    (hpr : pr.Ahead r.raftLog.lastIndex)
    (h : Moves (fun _ => False) (r.setProgress id pr).core r'.core) : r'.core.Ahead := by
  have hf' : Firm x (r.setProgress id pr).core := ⟨hf.base,hf.old,hf.calm,hf.tidy,hf.settled⟩
  have ha' : (r.setProgress id pr).core.Ahead := ha.set rfl rfl le_rfl (fun _ => hpr)
  exact Moves.ahead (fun _ hm => hm.elim) hf' (fun _ hm => hm.elim) ha' h

theorem leaderAppReject_ahead (hf : Firm x r.core) (ha : r.core.Ahead)
    (hlead : r.state=.stateLeader) (hpr : pr.Ahead r.raftLog.lastIndex)
    (hcur : pr.state≠.stateReplicate → usub pr.next 1=m.index →
      pr.matchIndex < max (min m.index (nextProbeIdx r.raftLog m+1)) 1)
    (h : r.leaderAppReject m pr=.ok r') : r'.core.Ahead := by
  obtain ⟨pr1,decreased,hdecr,hkept,hsent⟩ := leaderAppReject_sets h
  have hpr1 := hpr.decr hcur hdecr
  cases decreased with
  | false =>
    rw [hkept rfl]
    exact sends_ahead hf ha hpr1 .refl
  | true =>
    simp only [Bool.true_and,decide_eq_true_eq] at hpr1
    have hlead1 : ∀ p : Progress, (r.setProgress m.fromId p).state=.stateLeader := fun _ => hlead
    exact sends_ahead hf ha hpr1 (sendAppend_sent (hlead1 _) (hsent rfl)).sends.moves

theorem leaderAppAccept_ahead (hf : Firm x r.core) (ha : r.core.Ahead)
    (hlead : r.state=.stateLeader) (hpr : pr.Ahead r.raftLog.lastIndex)
    (hi : m.index≤r.raftLog.lastIndex) (h : r.leaderAppAccept m pr=.ok r') : r'.core.Ahead := by
  have hupd := hpr.maybeUpdate hi
  unfold leaderAppAccept at h
  dsimp only at h
  split at h
  · cases h
    exact sends_ahead hf ha hupd .refl
  · obtain ⟨pr1,hacked,h⟩ := bind_eq_ok.mp h
    obtain ⟨r1,hafter,h⟩ := bind_eq_ok.mp h
    obtain ⟨r2,hloop,h⟩ := bind_eq_ok.mp h
    have hlead1 : (r.setProgress m.fromId pr1).state=.stateLeader := hlead
    have h1 := sendAfterAck_handled (T := True) (S := fun _ => False) hlead1 hafter
    have hl := h1.state.trans hlead1
    have h2 := sendAppendLoop_sent (T := True) (S := fun _ => False) hl hloop
    refine sends_ahead hf ha (hupd.drift (progressAcked_drift hacked))
      (h1.moves.trans (h2.sends.moves.trans ?_))
    split at h
    · exact (sendTimeoutNow_sent (h2.state.trans hl) h).sends.moves
    · cases h
      exact .refl

/-- Only a leader does anything about an answer to an append. -/
theorem step_appResp {err : Option StepErr} (ht : m.type=.msgAppResp) (h0 : m.term≠0)
    (h : r.step m=.ok (r',err)) : (r.state=.stateLeader ∧ m.term=r.term ∧ ∃ pr,
      r.prs.progress.get? m.fromId=some pr ∧ r.leaderAppResp m pr=.ok r') ∨ r'=r ∨
      r'.state≠.stateLeader := by
  have htype : ∀ r : Raft, r.stepType m=r.stepState m := by
    intro r
    unfold stepType
    rw [ht]
  have hfol : ∀ r : Raft, r.stepFollower m=.ok (r,none) := by
    intro r
    unfold stepFollower
    rw [ht]
  unfold step at h
  rw [if_neg h0] at h
  split at h
  · have hvote : r.ignoresVote m=false := by simp [ignoresVote,ht]
    have hkeep : keepsTerm m=false := by simp [keepsTerm,ht]
    rw [hvote,if_neg Bool.false_ne_true,hkeep,if_neg Bool.false_ne_true,htype] at h
    change (r.becomeFollower m.term (leadOf m)).stepFollower m=_ at h
    rw [hfol] at h
    cases h
    have hstate : StateType.stateFollower≠.stateLeader := by decide
    exact .inr (.inr hstate)
  rename_i hle
  split at h
  · obtain ⟨r1,h1,h⟩ := bind_eq_ok.mp h
    cases h
    unfold stepLower at h1
    simp only [ht,reduceCtorEq,or_self,and_false,if_false] at h1
    cases h1
    exact .inr (.inl rfl)
  · rename_i hge
    rw [htype] at h
    have hcand : r.stepCandidate m=.ok (r,none) := by
      unfold stepCandidate myVoteRespType
      rw [ht]
      dsimp only
      split_ifs <;> first | rfl | contradiction
    unfold stepState at h
    split at h
    · rw [hfol] at h
      cases h
      exact .inr (.inl rfl)
    · rw [hcand] at h
      cases h
      exact .inr (.inl rfl)
    · rw [hcand] at h
      cases h
      exact .inr (.inl rfl)
    · rename_i hs
      unfold stepLeader at h
      rw [ht] at h
      dsimp only at h
      split at h
      · cases h
        exact .inr (.inl rfl)
      · rename_i pr hget
        obtain ⟨r1,h1,h⟩ := bind_eq_ok.mp h
        cases h
        unfold stepLeaderPeer at h1
        rw [ht] at h1
        exact .inl ⟨hs,by omega,pr,hget,h1⟩

theorem step_appResp_leader (ht : m.type=.msgAppResp) (h0 : m.term≠0) (hs : r.state=.stateLeader)
    (hterm : m.term=r.term) (hget : r.prs.progress.get? m.fromId=some pr) :
    r.step m=(do let r ← r.leaderAppResp m pr; .ok (r,none)) := by
  have hlead : r.stepType m=r.stepLeader m := by
    unfold stepType stepState
    rw [ht,hs]
  unfold step
  rw [if_neg h0,if_neg (by omega),if_neg (by omega),hlead]
  unfold stepLeader stepLeaderPeer
  rw [ht,hget]

/-- Sending to a peer that is not replicated to leaves Next where it is. -/
theorem sendAppend_keeps {dst : Nat} (hget : r.prs.progress.get? dst=some pr)
    (hs : pr.state≠.stateReplicate) (h : r.sendAppend dst=.ok r') : ∃ pr',
      r'.prs.progress.get? dst=some pr' ∧ pr'.next=pr.next ∧ pr'.matchIndex=pr.matchIndex := by
  have hwrite : ∀ {pr1 : Progress} {n : Message} {r1 : Raft},
      (r.setProgress dst pr1).send n=.ok r1 → r1.prs.progress.get? dst=some pr1 := by
    intro pr1 n r1 hn
    rw [(send_eq_ok hn).1]
    exact SortedMap.get?_insert_self _ _ _
  have hsnap : ∀ {b : Bool}, r.sendSnap dst pr=.ok (r',b) → ∃ pr',
      r'.prs.progress.get? dst=some pr' ∧ pr'.next=pr.next ∧ pr'.matchIndex=pr.matchIndex := by
    intro b hn
    unfold sendSnap at hn
    dsimp only at hn
    split at hn
    · cases hn
      exact ⟨pr,hget,rfl,rfl⟩
    · split at hn
      · cases hn
      · obtain ⟨r1,h1,hn⟩ := bind_eq_ok.mp hn
        cases hn
        exact ⟨_,hwrite h1,rfl,rfl⟩
  have happ : ∀ {b : Bool} {t : Nat} {ents : List Entry}, r.sendApp dst pr t ents=.ok (r',b) →
      ∃ pr', r'.prs.progress.get? dst=some pr' ∧ pr'.next=pr.next ∧
        pr'.matchIndex=pr.matchIndex := by
    intro b t ents hn
    obtain ⟨pr1,h1,hn⟩ := bind_eq_ok.mp hn
    obtain ⟨r1,h2,hn⟩ := bind_eq_ok.mp hn
    cases hn
    refine ⟨pr1,hwrite h2,?_⟩
    unfold progressSent at h1
    split at h1
    · cases h1
      exact ⟨rfl,rfl⟩
    · split at h1
      · rename_i hr
        exact absurd hr hs
      · cases h1
        exact ⟨rfl,rfl⟩
      · cases h1
  obtain ⟨⟨r1,b⟩,h1,h⟩ := bind_eq_ok.mp h
  cases h
  unfold maybeSendAppend at h1
  rw [hget] at h1
  dsimp only at h1
  split at h1
  · cases h1
    exact ⟨pr,hget,rfl,rfl⟩
  obtain ⟨ents,-,h1⟩ := bind_eq_ok.mp h1
  split at h1
  · split at h1
    · cases h1
      exact ⟨pr,hget,rfl,rfl⟩
    · exact happ h1
  · split at h1
    · cases h1
      exact ⟨pr,hget,rfl,rfl⟩
    · exact hsnap h1
  · split at h1
    · cases h1
      exact ⟨pr,hget,rfl,rfl⟩
    · exact hsnap h1

end Raft

namespace Session

open LogSession RaftTesting.Core

variable [Raftpb] {x x' y : Session} {a : Act} {acts : List Act}

/-- What a peer acknowledges to the leader of its term, that leader has. -/
def Honest (x : Session) : Act → Prop
  | .step m => m.type=.msgAppResp → m.reject=false → x.rn.raft.state=.stateLeader →
      m.term=x.rn.raft.term → m.index≤x.raftLog.lastIndex
  | _ => True

/-- A rejection of the very index that the leader would probe next, although the peer has
acknowledged what it is going to be sent then. -/
def Stale (x : Session) (m : Message) : Prop :=
  x.rn.raft.state=.stateLeader ∧ m.type=.msgAppResp ∧ m.reject=true ∧ m.term=x.rn.raft.term ∧
    ∃ pr ∈ x.rn.raft.prs.progress.get? m.fromId, pr.state≠.stateReplicate ∧
      usub pr.next 1=m.index ∧
      max (min m.index (Raft.nextProbeIdx x.raftLog m+1)) 1≤pr.matchIndex

def Current (x : Session) : Act → Prop
  | .step m => ¬x.Stale m
  | _ => True

instance decidableHonest (x : Session) : (a : Act) → Decidable (x.Honest a)
  | .step m => inferInstanceAs (Decidable (m.type=.msgAppResp → m.reject=false →
      x.rn.raft.state=.stateLeader → m.term=x.rn.raft.term → m.index≤x.raftLog.lastIndex))
  | .tick | .applyConfChange _ | .ready | .save | .append | .compact _ | .advance => .isTrue trivial

instance decidableStale (x : Session) (m : Message) : Decidable (x.Stale m) :=
  inferInstanceAs (Decidable (_ ∧ _ ∧ _ ∧ _ ∧ ∃ pr ∈ x.rn.raft.prs.progress.get? m.fromId, _))

instance decidableCurrent (x : Session) : (a : Act) → Decidable (x.Current a)
  | .step m => inferInstanceAs (Decidable (¬x.Stale m))
  | .tick | .applyConfChange _ | .ready | .save | .append | .compact _ | .advance => .isTrue trivial

/-- What holds of the peers of a node along a run. -/
structure Leads (x : Session) : Prop where
  firm : x.Firm
  led : x.rn.raft.Led
  ahead : x.rn.raft.core.Ahead

omit [Raftpb] in
/-- The application has written to storage. -/
theorem Leads.same (h : x.Leads) (hf : x'.Firm) (hr : x'.rn.raft.state=x.rn.raft.state)
    (hp : x'.rn.raft.prs=x.rn.raft.prs)
    (hl : x.raftLog.unstable.snapshot=none → x'.raftLog.lastIndex=x.raftLog.lastIndex) :
    x'.Leads := by
  have hlast : x.rn.raft.state=.stateLeader → x'.raftLog.lastIndex=x.raftLog.lastIndex := by
    intro hs
    refine hl (h.firm.calm.vacant ?_)
    change x.rn.raft.state≠_
    rw [hs]
    nofun
  refine ⟨hf,fun hs => ?_,fun hs id pr hget => ?_⟩
  · have hs : x.rn.raft.state=.stateLeader := hr ▸ hs
    have hone := h.led hs
    exact hone.trans (hlast hs).ge
  · have hs : x.rn.raft.state=.stateLeader := hr.symm.trans hs
    change x'.rn.raft.prs.progress.get? id=some pr at hget
    rw [hp] at hget
    exact (h.ahead hs id pr hget).mono (hlast hs).ge

theorem Leads.step {m : Message} {r : Raft} {err : Option StepErr} (h : x.Leads)
    (hfine : m.Fine) (hanch : m.Anchored) (hhon : x.Honest (.step m)) (hcur : x.Current (.step m))
    (hr : x.rn.raft.step m=.ok (r,err)) : r.core.Ahead := by
  by_cases ht : m.type=.msgAppResp
  · have h0 : m.term≠0 := hfine.stamped (by rw [ht]; rfl)
    rcases Raft.step_appResp ht h0 hr with ⟨hlead,hterm,pr,hget,happ⟩ | rfl | hnot
    · have hpr := h.ahead hlead m.fromId pr hget
      unfold Raft.leaderAppResp at happ
      dsimp only at happ
      have hactive : ({ pr with recentActive := true } : Progress).Ahead x.raftLog.lastIndex :=
        hpr.of_same rfl rfl rfl
      split at happ
      · rename_i hrej
        refine Raft.leaderAppReject_ahead h.firm h.ahead hlead hactive (fun hs hn => ?_) happ
        by_contra hle
        exact hcur ⟨hlead,ht,hrej,hterm,pr,hget,hs,hn,Nat.not_lt.mp hle⟩
      · rename_i hrej
        exact Raft.leaderAppAccept_ahead h.firm h.ahead hlead hactive
          (hhon ht (by simpa using hrej) hlead hterm) happ
    · exact h.ahead
    · exact ahead_of_not hnot
  · have hS : ∀ m', m'=m → m'.Fine ∧ m'.Anchored := by
      rintro _ rfl
      exact ⟨hfine,hanch⟩
    refine Moves.ahead hS h.firm ?_ h.ahead (Raft.step_moves (fun _ => rfl) hfine.stamped hr)
    rintro _ rfl
    exact ht

theorem Leads.advance {w : Work} {rn : RawNode} (h : x.Leads) (hw : x.work=some w)
    (hst : x.stage=.stored) (hadv : x.rn.advance w.ready=.ok rn)
    (hf : Firm { rn := rn, handed := x.handed }) : Leads { rn := rn, handed := x.handed } := by
  obtain ⟨r',hr',hadv⟩ := bind_eq_ok.mp hadv
  cases hadv
  obtain ⟨r1,h1,hr'⟩ := bind_eq_ok.mp hr'
  cases hr'
  have hm : HostMoves (fun _ => False) x.rn.raft.core r1.core :=
    Raft.advanceApplied_moves (r := x.rn.raft.reduceUncommittedSize _) h1
  have hf1 := hm.firm (fun _ hm => hm.elim) h.firm
  have ha1 := hm.ahead (fun _ hm => hm.elim) h.firm (fun _ hm => hm.elim) h.ahead
  have hled1 : r1.Led := Raft.advanceApplied_led (r := x.rn.raft.reduceUncommittedSize _) h.led h1
  have hlast : r1.state=.stateLeader →
      (w.ready.stabilize r1.raftLog).lastIndex=r1.raftLog.lastIndex := by
    intro hs
    refine stabilize_last hf1.base hw hst (hf1.calm.vacant ?_)
    change r1.state≠_
    rw [hs]
    nofun
  refine ⟨hf,fun hs => ?_,fun hs id pr hget => ?_⟩
  · exact (hled1 hs).trans (hlast hs).ge
  · exact (ha1 hs id pr hget).mono (hlast hs).ge

theorem Leads.act (h : x.Leads) (hf : x.Fits a) (ha : x.Anchored a) (hhon : x.Honest a)
    (hcur : x.Current a) (hact : x.act a=.ok x') : x'.Leads := by
  have hfirm := h.firm.act hf ha hact
  have hdoes := act_does hact
  cases hdoes with
  | stay => exact h
  | step hr => exact ⟨hfirm,(Raft.step_turn hr).led h.led,h.step hf ha hhon hcur hr⟩
  | tick hr =>
    exact ⟨hfirm,(Raft.tick_turn (A := fun _ => True) hr).led h.led,
      Moves.ahead (S := fun _ => False) (fun _ hm => hm.elim) h.firm (fun _ hm => hm.elim) h.ahead
        (Raft.tick_moves hr)⟩
  | applyConfChange hr =>
    obtain ⟨t,ht,hm⟩ := Raft.applyConfChange_moves (S := fun _ => False) hr
    have hf' : Core.Firm x.log (x.rn.raft.core.install t) :=
      ⟨h.firm.base,h.firm.old,h.firm.calm,h.firm.tidy,h.firm.settled⟩
    refine ⟨hfirm,Raft.applyConfChange_led h.led hr,Moves.ahead (fun _ hm => hm.elim) hf'
      (fun _ hm => hm.elim) (h.ahead.install h.led (Changer.change_kept ht)) hm⟩
  | ready hw hr => exact h.same hfirm rfl rfl (fun _ => rfl)
  | save hw hst =>
    exact h.same hfirm rfl rfl (fun hnone => h.firm.sane.does_last hnone (.inl rfl) (act_does hact))
  | append hw hst hms =>
    exact h.same hfirm rfl rfl
      (fun hnone => h.firm.sane.does_last hnone (.inr (.inl rfl)) (act_does hact))
  | compact hms =>
    exact h.same hfirm rfl rfl
      (fun hnone => h.firm.sane.does_last hnone (.inr (.inr ⟨_,rfl⟩)) (act_does hact))
  | advance hw hst hadv => exact h.advance hw hst hadv hfirm

/-- A stale rejection takes Next back behind Match. -/
theorem stale_breaks {m : Message} (hm : m.Stamped) (hst : x.Stale m)
    (hact : x.act (.step m)=.ok x') :
    ∃ pr, x'.rn.raft.prs.progress.get? m.fromId=some pr ∧ pr.next≤pr.matchIndex := by
  obtain ⟨hlead,ht,hrej,hterm,pr,hget,hs,hn,hle⟩ := hst
  have h0 : m.term≠0 := hm (by rw [ht]; rfl)
  obtain ⟨⟨rn,err⟩,h1,hact⟩ := bind_eq_ok.mp hact
  cases hact
  obtain ⟨⟨r,err'⟩,h2,h1⟩ := bind_eq_ok.mp h1
  cases h1
  change ∃ pr, r.prs.progress.get? m.fromId=some pr ∧ _
  rw [Raft.step_appResp_leader ht h0 hlead hterm hget] at h2
  obtain ⟨r1,h3,h2⟩ := bind_eq_ok.mp h2
  cases h2
  unfold Raft.leaderAppResp at h3
  dsimp only at h3
  rw [if_pos hrej] at h3
  obtain ⟨pr1,b,hdecr,-,hsent⟩ := Raft.leaderAppReject_sets h3
  unfold Progress.maybeDecrTo at hdecr
  dsimp only at hdecr
  rw [if_neg hs,if_neg (not_not.mpr hn)] at hdecr
  cases hdecr
  have hsent := hsent rfl
  dsimp only at hsent
  rw [if_neg hs] at hsent
  obtain ⟨pr',hget',hnext,hmatch⟩ :=
    Raft.sendAppend_keeps (SortedMap.get?_insert_self _ _ _) (by exact hs) hsent
  exact ⟨pr',hget',by rw [hnext,hmatch]; exact hle⟩

/-- As long as no stale rejection arrives, Next stays ahead of Match for every peer of a leader,
and not past its log. A stale one breaks that at once. -/
theorem run_ahead (hx : x.Start) (hfits : x.Along Fits acts) (hanch : x.Along Anchored acts)
    (hhon : x.Along Honest acts) (hcur : x.Along Current acts) (hy : x.run acts=.ok y)
    (hlead : y.rn.raft.state=.stateLeader) :
    (∀ id pr, y.rn.raft.prs.progress.get? id=some pr →
      pr.matchIndex<pr.next ∧ pr.next≤y.raftLog.lastIndex+1) ∧
    ∀ m y', m.Stamped → ¬y.Current (.step m) → y.act (.step m)=.ok y' → ∃ pr,
      y'.rn.raft.prs.progress.get? m.fromId=some pr ∧ ¬pr.matchIndex<pr.next := by
  have hstart : x.Leads := by
    have hfol : x.rn.raft.state≠.stateLeader := by
      rw [hx.follower]
      nofun
    exact ⟨hx.firm,Raft.led_of_not hfol,ahead_of_not hfol⟩
  have hleads : y.Leads := run_induct (I := Leads)
    (fun _ _ _ h hP hact => h.act hP.1.1 hP.1.2 hP.2.1 hP.2.2 hact) hstart
    ((hfits.and hanch).and (hhon.and hcur)) hy
  refine ⟨fun id pr hget => ?_,fun m y' hm hst hact => ?_⟩
  · have hpr := hleads.ahead hlead id pr hget
    exact ⟨hpr.behind,hpr.within⟩
  · obtain ⟨pr,hget,hle⟩ := stale_breaks hm (not_not.mp hst) hact
    exact ⟨pr,hget,Nat.not_lt.mpr hle⟩

end Session

namespace Session

section

local instance aheadWire : Raftpb := Wire.small

/-- The other voter has acknowledged the first of three entries. -/
theorem run_ahead_acknowledged : ∃ x y pr, pair=.ok x ∧ x.run acknowledged=.ok y ∧
    y.rn.raft.prs.progress.get? 2=some pr ∧ pr.matchIndex=1 ∧ pr.matchIndex<pr.next ∧
    pr.next≤y.raftLog.lastIndex+1 := by
  obtain ⟨x,y,pr,hx,hfits,hanch,hhon,hcur,hy,hlead,hget,hmatch⟩ : ∃ x y pr, pair=.ok x ∧
      x.Along Fits acknowledged ∧ x.Along Anchored acknowledged ∧ x.Along Honest acknowledged ∧
      x.Along Current acknowledged ∧ x.run acknowledged=.ok y ∧ y.rn.raft.state=.stateLeader ∧
      y.rn.raft.prs.progress.get? 2=some pr ∧ pr.matchIndex=1 :=
    ⟨_,_,_,rfl,by decide +kernel,by decide +kernel,by decide +kernel,by decide +kernel,rfl,
      by decide +kernel,rfl,by decide +kernel⟩
  obtain ⟨hpeers,-⟩ := run_ahead (pair_start hx) hfits hanch hhon hcur hy hlead
  exact ⟨x,y,pr,hx,hy,hget,hmatch,hpeers 2 pr hget⟩

end

end Session

end RaftTesting
