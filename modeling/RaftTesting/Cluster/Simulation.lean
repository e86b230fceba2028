import RaftTesting.Cluster.Sends
import RaftTesting.ConfChange.Progress
import RaftTesting.Transition.Log

namespace RaftTesting

open Consensus

namespace Core

theorem reset_vote (c : Core) (term : Nat) : (c.reset term).node.vote=
    if c.term=term then c.node.vote else none := by
  simp only [node,reset]
  split_ifs <;> simp_all

theorem reset_get {c : Core} {term j : Nat} {pr : Progress}
    (hget : (c.reset term).prs.progress.get? j=some pr) :
    pr.matchIndex=(if j=c.id then c.raftLog.lastIndex else 0) ∧
      pr.next=c.raftLog.lastIndex+1 ∧ pr.pendingSnapshot=0 := by
  change SortedMap.get? (SortedMap.mapVals _ c.prs.progress) j=some pr at hget
  rw [SortedMap.get?_mapVals,Option.map_eq_some_iff] at hget
  obtain ⟨_,_,rfl⟩ := hget
  exact ⟨rfl,rfl,rfl⟩

theorem reset_granted (c : Core) (term j : Nat) : ¬(c.reset term).granted j := by
  unfold granted reset
  simp

end Core

section

variable {B : Base Entry} {Q : (Nat → Prop) → Prop} {h : Hist Entry} {i : Nat} {c : Core}

namespace CoreInv

/-- The node falls back into the follower state, in its own term or a later one. -/
theorem sim_follow (hc : CoreInv B h i c) {term : Nat} (hle : c.term≤term) :
    Sim B Q i h c h { c.reset term with state := .stateFollower } := by
  refine .of_log hc (.inr ?_) rfl rfl rfl nofun (fun _ => .inl)
  have hvote := c.reset_vote term
  rcases hle.eq_or_lt with heq | hlt
  · rw [if_pos heq] at hvote
    have he : ({ c.reset term with state := .stateFollower } : Core).node=
        { c.node with
          role := .follower
          votes := (c.reset term).granted
          matched := (c.reset term).matched } :=
      Node.ext heq.symm hvote rfl rfl rfl rfl rfl
    rw [he]
    exact .rest
  · rw [if_neg (Nat.ne_of_lt hlt)] at hvote
    have he : ({ c.reset term with state := .stateFollower } : Core).node=
        { c.node with
          term := term
          vote := none
          role := .follower
          votes := (c.reset term).granted
          matched := (c.reset term).matched } :=
      Node.ext rfl hvote rfl rfl rfl rfl rfl
    rw [he]
    exact .adopt hlt

theorem sim_preStand (hc : CoreInv B h i c) : Sim B Q i h c h
    { c with prs := c.prs.resetVotes, state := .statePreCandidate } :=
  .of_log hc (.inr .rest) rfl rfl rfl nofun (fun _ => .inl)

theorem sim_stand (hc : CoreInv B h i c) (hs : c.state≠.stateLeader) :
    Sim B Q i h c (h.stand (c.term+1) i c.raftLog.all)
      { c.reset (c.term+1) with vote := c.id, state := .stateCandidate } := by
  refine .of_log hc (.inr ?_) rfl rfl rfl nofun (fun _ => .inl)
  have he : ({ c.reset (c.term+1) with vote := c.id, state := .stateCandidate } : Core).node=
      { c.node with
        term := c.term+1
        vote := some i
        role := .candidate
        votes := fun _ => False
        matched := (c.reset (c.term+1)).matched } := by
    refine Node.ext rfl ?_ rfl rfl rfl (funext fun j => eq_false (c.reset_granted (c.term+1) j)) rfl
    change (if c.id=noNode then none else some c.id)=some i
    rw [hc.id,if_neg hc.pos]
  rw [he]
  exact .stand (fun hr => hs (StateType.role_leader.mp hr))

/-- A vote is recorded: the node's own, or one that was cast for it. -/
theorem sim_poll (hc : CoreInv B h i c) {id : Nat} {v : Bool}
    (hs : c.state=.statePreCandidate ∨ c.state=.stateCandidate)
    (hv : c.state=.stateCandidate → v=true → id=i ∨ h.voted c.term id i) :
    Sim B Q i h c h { c with prs := c.prs.recordVote id v } := by
  have hprog : (c.prs.recordVote id v).progress=c.prs.progress := by
    unfold ProgressTracker.recordVote
    split <;> rfl
  refine .of_log hc (.inr ?_) rfl rfl rfl ?_ (fun _ => .inl)
  · rcases hs with hs | hs
    · have hr : c.node.role=.follower := by
        change c.state.role=_
        rw [hs]
        rfl
      have he : ({ c with prs := c.prs.recordVote id v } : Core).node={ c.node with
          role := .follower
          votes := ({ c with prs := c.prs.recordVote id v } : Core).granted
          matched := ({ c with prs := c.prs.recordVote id v } : Core).matched } :=
        Node.ext rfl rfl hr rfl rfl rfl rfl
      rw [he]
      exact .rest
    · refine .tally (StateType.role_candidate.mpr hs) ?_
      intro j hj
      change (c.prs.recordVote id v).votes.get? j=some true at hj
      unfold ProgressTracker.recordVote at hj
      split at hj
      · exact .inl hj
      · dsimp only at hj
        rw [SortedMap.get?_insert] at hj
        split_ifs at hj with he
        · rcases hv hs (Option.some.inj hj) with hid | hid
          · exact .inr (.inr (he.trans hid))
          · exact .inr (.inl (he ▸ hid))
        · exact .inl hj
  · intro hl
    rcases hs with hs | hs <;> cases hs.symm.trans hl

theorem sim_elect (hc : CoreInv B h i c) (hw : ElectOk Q h c) {pr : Progress}
    (hs : c.state=.stateCandidate) (ht : c.prs.tallyVotes=.voteWon)
    (hget : (c.reset c.term).prs.progress.get? c.id=some pr) :
    Sim B Q i h c (h.win c.term i c.raftLog.all c.granted)
      { (c.reset c.term).setProgress c.id pr.becomeReplicate with
        state := .stateLeader
        pendingConfIndex := c.raftLog.lastIndex } := by
  obtain ⟨hV,hnone,hcomp⟩ := hw hs ht
  have hvote := c.reset_vote c.term
  rw [if_pos rfl] at hvote
  have hpos := Core.reset_get hget
  refine .of_log hc (.inr ?_) rfl rfl rfl ?_ (fun _ => .inl)
  · have he : ({ (c.reset c.term).setProgress c.id pr.becomeReplicate with
        state := .stateLeader, pendingConfIndex := c.raftLog.lastIndex } : Core).node=
        { c.node with
          role := .leader
          votes := (c.reset c.term).granted
          matched := ((c.reset c.term).setProgress c.id pr.becomeReplicate).matched } :=
      Node.ext rfl hvote rfl rfl rfl rfl rfl
    rw [he]
    have hm : ∀ j, ((c.reset c.term).setProgress c.id pr.becomeReplicate).matched j=
        if j=c.id then pr.matchIndex else (c.reset c.term).matched j := by
      intro j
      rw [Core.matched_setProgress]
      rfl
    refine .win (StateType.role_candidate.mpr hs) hV (fun _ hv => hv) hnone hcomp ?_ ?_
    · intro j hj
      rw [← hc.id] at hj
      rw [hm,if_neg hj]
      unfold Core.matched
      cases hg : (c.reset c.term).prs.progress.get? j with
      | none => rfl
      | some q => exact (Core.reset_get hg).1.trans (if_neg hj)
    · rw [hm,← hc.id,if_pos rfl,hpos.1,if_pos rfl]
      exact hc.log.lastIndex_eq.le
  · intro _ j q hq
    change (SortedMap.insert _ _ _).get? j=some q at hq
    rw [SortedMap.get?_insert] at hq
    have hlast := hc.log.lastIndex_eq
    split_ifs at hq with he
    · cases hq
      refine ⟨Nat.le_add_left _ _,?_,rfl⟩
      change pr.matchIndex+1≤c.raftLog.all.length+1
      rw [hpos.1,if_pos rfl,hlast]
    · obtain ⟨_,hn,hp⟩ := Core.reset_get hq
      refine ⟨by omega,?_,hp⟩
      change q.next≤c.raftLog.all.length+1
      omega

/-- The leader appends entries of its own term. -/
theorem sim_append (hh : HistInv B h) (hc : CoreInv B h i c) {es : List Entry} {l : RaftLog}
    {pr : Progress} (p : Nat) (hs : c.state=.stateLeader)
    (ha : c.raftLog.append (Raft.stampEntries c.term c.raftLog.lastIndex es)=.ok l)
    (hget : c.prs.progress.get? c.id=some pr) :
    ∃ h', Sim B Q i h c h' { (c.setLog l).setProgress c.id (pr.maybeUpdate l.lastIndex).1 with
      pendingConfIndex := p } := by
  have hlast := hc.log.lastIndex_eq
  have hn := Raft.stampEntries_numbered c.term c.raftLog.lastIndex es
  obtain ⟨hw,hall,hoff,hents⟩ := hc.log.append ha hn hlast.le (fun _ => hlast)
  rw [hlast,List.take_length] at hall
  have hlen : c.raftLog.all.length≤l.all.length := by
    rw [hall,List.length_append]
    exact Nat.le_add_right _ _
  have hlast' : l.lastIndex=l.all.length := hw.lastIndex_eq
  have hmatch : pr.matchIndex≤c.raftLog.all.length := hc.matched_le_log hh hs hget
  have hup : (pr.maybeUpdate l.lastIndex).1.matchIndex=l.lastIndex ∧
      (pr.maybeUpdate l.lastIndex).1.next=max pr.next (l.lastIndex+1) ∧
      (pr.maybeUpdate l.lastIndex).1.pendingSnapshot=pr.pendingSnapshot := by
    unfold Progress.maybeUpdate
    split
    · exact ⟨rfl,rfl,rfl⟩
    · exact ⟨by dsimp only; omega,rfl,rfl⟩
  have hcm : l.committed=c.raftLog.committed := by rw [RaftLog.append_spec ha]
  have hst : l.storage=c.raftLog.storage := by rw [RaftLog.append_spec ha]
  refine ⟨h.extend c.term i
    (c.raftLog.all++Raft.stampEntries c.term c.raftLog.all.length es),
    ⟨.inr ?_,rfl,hw,hst,hoff,hents,?_,fun _ => .inl⟩⟩
  · have he : ({ (c.setLog l).setProgress c.id (pr.maybeUpdate l.lastIndex).1 with
        pendingConfIndex := p } : Core).node={ c.node with
        log := c.raftLog.all++Raft.stampEntries c.term c.raftLog.all.length es
        matched := ((c.setLog l).setProgress c.id (pr.maybeUpdate l.lastIndex).1).matched } :=
      Node.ext rfl rfl rfl hall hcm rfl rfl
    rw [he]
    refine .extend (StateType.role_leader.mpr hs) ?_ ?_ ?_
    · exact fun e he => Raft.stampEntries_term he
    · intro j hj
      rw [← hc.id] at hj
      rw [Core.matched_setProgress,if_neg hj]
      exact le_rfl
    · rw [← hc.id,Core.matched_setProgress,if_pos rfl,hup.1,hlast',hall]
      exact le_rfl
  · intro _ j q hq
    change (SortedMap.insert _ _ _).get? j=some q at hq
    rw [SortedMap.get?_insert] at hq
    have hold := hc.tracks hs
    change q.Sound l.all.length
    split_ifs at hq with he
    · cases hq
      have hpr := hold _ _ hget
      have h1 := hpr.pos
      have h2 := hpr.next
      exact ⟨by rw [hup.2.1]; omega,by rw [hup.2.1]; omega,hup.2.2.trans hpr.pendingSnapshot⟩
    · exact (hold j q hq).mono hlen

theorem commit_spec (hh : HistInv B h) (hc : CoreInv B h i c) {l : RaftLog}
    (hs : c.state=.stateLeader)
    (ha : c.raftLog.maybeCommit c.prs.committed c.term=.ok (l,true)) :
    c.raftLog.committed<c.prs.committed ∧ c.prs.committed≤c.raftLog.all.length ∧
      termAt c.raftLog.all c.prs.committed=c.term ∧
      l={ c.raftLog with committed := c.prs.committed } := by
  rcases RaftLog.maybeCommit_spec ha with ⟨hb,_⟩ | ⟨_,hlt,ht,hl⟩
  · cases hb
  rw [hc.log.term_eq] at ht
  have ht := Except.ok.inj ht
  have hterm := hc.leader_term hh hs
  have hle : c.prs.committed≤c.raftLog.all.length := by
    by_contra hgt
    rw [termAt_past (by omega)] at ht
    exact hterm ht.symm
  refine ⟨hlt,hle,ht,?_⟩
  rw [hl,RaftLog.commitTo_fst,hc.log.lastIndex_eq,if_pos ⟨hlt,hle⟩]

theorem sim_commit (hh : HistInv B h) (hc : CoreInv B h i c) (hd : DecideOk Q h c) {l : RaftLog}
    (hs : c.state=.stateLeader)
    (ha : c.raftLog.maybeCommit c.prs.committed c.term=.ok (l,true)) :
    Sim B Q i h c (h.commit c.term c.prs.committed (fun v => c.prs.committed≤c.matched v))
      (c.setLog l) := by
  obtain ⟨hlt,hle,ht,rfl⟩ := hc.commit_spec hh hs ha
  obtain ⟨hA,hcomp⟩ := hd hs hlt ht
  refine .of_log hc (.inr ?_) rfl rfl rfl hc.tracks (fun _ => .inl)
  have he : (c.setLog { c.raftLog with committed := c.prs.committed }).node=
      { c.node with commit := c.prs.committed } := rfl
  rw [he]
  exact .commit (StateType.role_leader.mpr hs) hlt hle ht hA (fun _ hv => hv) hcomp

theorem sim_ack (hh : HistInv B h) (hc : CoreInv B h i c) {j k : Nat} {pr pr' : Progress}
    (hs : c.state=.stateLeader) (hk : k≤h.ack c.term j) (hget : c.prs.progress.get? j=some pr)
    (hf : Core.Drift (pr.maybeUpdate k).1 pr') : Sim B Q i h c h (c.setProgress j pr') := by
  have hup : (pr.maybeUpdate k).1.matchIndex=max pr.matchIndex k ∧
      (pr.maybeUpdate k).1.next=max pr.next (k+1) ∧
      (pr.maybeUpdate k).1.pendingSnapshot=pr.pendingSnapshot := by
    unfold Progress.maybeUpdate
    split
    · exact ⟨by dsimp only [Progress.probeAcked]; omega,rfl,rfl⟩
    · exact ⟨by dsimp only; omega,rfl,rfl⟩
  have hmax : max pr.matchIndex k≤h.ack c.term j := Nat.max_le.mpr ⟨hc.matched_le hs hget,hk⟩
  have hlen : h.ack c.term j≤c.raftLog.all.length := by
    rw [(hc.leader hs).2]
    exact hh.ackLen _ j
  refine .of_log hc (.inr ?_) rfl rfl rfl ?_ (fun _ => .inl)
  · refine .track (StateType.role_leader.mpr hs) ?_
    intro j'
    rw [Core.matched_setProgress]
    split_ifs with he
    · rw [he]
      exact .inr (hf.matchIndex.trans hup.1 ▸ hmax)
    · exact .inl le_rfl
  · intro _ j' q hq
    change (SortedMap.insert _ _ _).get? j'=some q at hq
    rw [SortedMap.get?_insert] at hq
    have hold := hc.tracks hs
    split_ifs at hq with he
    · cases hq
      have hpr := hold _ _ hget
      have h1 := hpr.pos
      have h2 := hpr.next
      refine hf.sound ⟨?_,?_,hup.2.2.trans hpr.pendingSnapshot⟩ ?_
      · rw [hup.2.1]
        omega
      · rw [hup.2.1]
        change _≤c.raftLog.all.length+1
        omega
      · rw [hup.1]
        exact hmax.trans hlen
    · exact hold j' q hq

theorem sim_vote (hh : HistInv B h) (hc : CoreInv B h i c) {m : Message} (hm : m.Ok h)
    (htype : m.type=.msgVote) (hterm : m.term=c.term) (hv : c.vote=m.fromId ∨ c.vote=noNode)
    (hup : c.raftLog.isUpToDate m.index m.logTerm=.ok true) :
    Sim B Q i h c (h.vote c.term i m.fromId) ({ c with vote := m.fromId }.say {
      type := .msgVoteResp, toId := m.fromId, fromId := c.id, term := c.term }) := by
  unfold Message.Ok at hm
  rw [htype] at hm
  obtain ⟨hne,l,hl,hidx,hlt⟩ := hm
  rw [hterm] at hl
  refine .of_log hc (.inr ?_) rfl rfl rfl ?_ ?_
  · have he : ({ c with vote := m.fromId }.say {
        type := .msgVoteResp, toId := m.fromId, fromId := c.id, term := c.term }).node=
        { c.node with vote := some m.fromId } :=
      Node.ext rfl (if_neg hne) rfl rfl rfl rfl rfl
    rw [he]
    refine .vote hl ?_ ?_
    · change (if _ then _ else _)=_ ∨ (if _ then _ else _)=_
      rcases hv with hv | hv
      · rw [hv,if_neg hne]
        exact .inr rfl
      · rw [if_pos hv]
        exact .inl rfl
    · have := hc.log.isUpToDate_eq hup
      rw [hlt,hidx] at this
      exact this
  · exact fun hs => hc.tracks hs
  · intro m' hm'
    refine said_mem (P := fun m => m.Ok _ ∧ m.Stamped) ⟨?_,?_⟩ hm'
    · intro _
      change _ ∨ _
      rw [hc.id]
      exact .inr ⟨rfl,rfl,rfl⟩
    · intro _
      have := (hh.cand _ _ _ hl).1
      change c.term≠0
      omega

theorem sim_accept (hh : HistInv B h) (hc : CoreInv B h i c) {m : Message} {l : RaftLog}
    {last : Nat} (hm : m.Ok h) (htype : m.type=.msgApp) (hterm : m.term=c.term)
    (hs : c.state=.stateFollower)
    (ha : c.raftLog.maybeAppend m.index m.logTerm m.commit m.entries=.ok (l,some last)) :
    Sim B Q i h c (h.ackTo c.term i last) ((c.setLog l).say {
      type := .msgAppResp, toId := m.fromId, fromId := c.id, term := c.term, index := last }) := by
  unfold Message.Ok at hm
  rw [htype] at hm
  obtain ⟨hlead,hseg,hlt,hcm⟩ := hm
  rw [hterm] at hlead hseg hlt hcm
  rw [hlt] at ha
  have hL := hh.llog_inv hlead
  obtain ⟨rfl,hw,hst,hall,hcommit,hoff,hents⟩ := hc.log.maybeAppend hc.node.log.coherent
    hL.coherent (fun k => hh.termAt_pos hL) hseg ha
  have hr : c.node.role=.follower := by
    change c.state.role=_
    rw [hs]
    rfl
  refine ⟨.inr ?_,rfl,hw,hst,hoff,hents,?_,?_⟩
  · have he : ((c.setLog l).say {
        type := .msgAppResp
        toId := m.fromId
        fromId := c.id
        term := c.term
        index := m.index+m.entries.length }).node={ c.node with
          log := l.all
          commit := max c.raftLog.committed (min m.commit (m.index+m.entries.length)) } :=
      Node.ext rfl rfl rfl rfl hcommit rfl rfl
    rw [he]
    exact .accept hr hlead hseg.fits hcm hall
  · intro hl
    cases hs.symm.trans hl
  · intro m' hm'
    refine said_mem (P := fun m => m.Ok _ ∧ m.Stamped) ⟨?_,fun _ => ?_⟩ hm'
    · intro _
      change _≤(if _ then _ else _)
      rw [if_pos ⟨rfl,hc.id⟩]
      exact Nat.le_max_right _ _
    · have := (hh.lead_isSome hlead).1
      change c.term≠0
      omega

theorem sim_stale (hh : HistInv B h) (hc : CoreInv B h i c) {m : Message} (hm : m.Ok h)
    (htype : m.type=.msgApp) (hterm : m.term=c.term) (hs : c.state=.stateFollower) :
    Sim B Q i h c (h.ackTo c.term i c.raftLog.committed) (c.say {
      type := .msgAppResp
      toId := m.fromId
      fromId := c.id
      term := c.term
      index := c.raftLog.committed }) := by
  unfold Message.Ok at hm
  rw [htype] at hm
  have hlead := hm.1
  rw [hterm] at hlead
  have hr : c.node.role=.follower := by
    change c.state.role=_
    rw [hs]
    rfl
  refine .of_log hc (.inr (.stale hr hlead)) rfl rfl rfl ?_ ?_
  · intro hl
    cases hs.symm.trans hl
  · intro m' hm'
    refine said_mem (P := fun m => m.Ok _ ∧ m.Stamped) ⟨?_,fun _ => ?_⟩ hm'
    · intro _
      change _≤(if _ then _ else _)
      rw [if_pos ⟨rfl,hc.id⟩]
      exact Nat.le_max_right _ _
    · have := (hh.lead_isSome hlead).1
      change c.term≠0
      omega

theorem sim_beat (hc : CoreInv B h i c) {m : Message} (hm : Given h i m)
    (htype : m.type=.msgHeartbeat) (hterm : m.term=c.term) (hs : c.state=.stateFollower)
    (hok : (c.raftLog.commitTo m.commit).2=true) :
    Sim B Q i h c h ((c.setLog (c.raftLog.commitTo m.commit).1).say {
      type := .msgHeartbeatResp
      toId := m.fromId
      fromId := c.id
      term := c.term
      context := m.context }) := by
  obtain ⟨hm,hstamp,hto⟩ := hm
  have hneed : m.type.needsTerm=true := htype ▸ rfl
  unfold Message.Ok at hm
  rw [htype] at hm
  obtain ⟨hack,hcm⟩ := hm
  rw [hterm] at hack hcm
  rw [hto hneed] at hack
  have hr : c.node.role=.follower := by
    change c.state.role=_
    rw [hs]
    rfl
  have hcommit : (c.raftLog.commitTo m.commit).1.committed=max c.raftLog.committed m.commit := by
    unfold RaftLog.commitTo at hok ⊢
    split_ifs at hok ⊢ <;> dsimp only <;> omega
  have hlog : (c.raftLog.commitTo m.commit).1.storage=c.raftLog.storage ∧
      (c.raftLog.commitTo m.commit).1.unstable=c.raftLog.unstable := by
    rw [RaftLog.commitTo_fst]
    exact ⟨rfl,rfl⟩
  refine .of_log hc (.inr ?_) rfl hlog.1 hlog.2 ?_ ?_
  · have he : ((c.setLog (c.raftLog.commitTo m.commit).1).say {
        type := .msgHeartbeatResp
        toId := m.fromId
        fromId := c.id
        term := c.term
        context := m.context }).node={ c.node with
          commit := max c.raftLog.committed m.commit } :=
      Node.ext rfl rfl rfl (RaftLog.all_congr hlog.1 hlog.2) hcommit rfl rfl
    rw [he]
    exact .beat hr hack hcm
  · intro hl
    cases hs.symm.trans hl
  · intro m' hm'
    refine said_mem (P := fun m => m.Ok _ ∧ m.Stamped) ⟨?_,fun _ => ?_⟩ hm'
    · trivial
    · exact hterm ▸ hstamp hneed

/-- A membership change only forgets peers or adds ones that have acknowledged nothing. -/
theorem sim_config (hc : CoreInv B h i c) {t : Tracked}
    (hk : Kept c.prs.maxInflight c.raftLog.lastIndex c.prs.progress t.prs)
    (hne : 0<c.raftLog.all.length) :
    Sim B Q i h c h (c.install t) := by
  have hmatch : ∀ j, (c.install t).matched j≤c.matched j := by
    intro j
    change ((t.prs.get? j).map _).getD 0≤((c.prs.progress.get? j).map _).getD 0
    cases hg : t.prs.get? j with
    | none => exact Nat.zero_le _
    | some pr' =>
      rcases hk j pr' hg with ⟨pr,hpr,hsame⟩ | hnew
      · rw [hpr,hsame]
        exact le_rfl
      · rw [hnew]
        exact Nat.zero_le _
  refine .of_log hc (.inr ?_) rfl rfl rfl ?_ (fun _ => .inl)
  · cases hs : c.state with
    | stateLeader =>
      exact .track (StateType.role_leader.mpr hs) (fun j => .inl (hmatch j))
    | stateCandidate => exact .tally (StateType.role_candidate.mpr hs) (fun _ => .inl)
    | stateFollower | statePreCandidate =>
      have he : (c.install t).node={ c.node with
          role := .follower, votes := c.granted, matched := (c.install t).matched } := by
        refine Node.ext rfl rfl ?_ rfl rfl rfl rfl
        change c.state.role=_
        rw [hs]
        rfl
      rw [he]
      exact .rest
  · intro hl j q hq
    have hlast := hc.log.lastIndex_eq
    change q.Sound c.raftLog.all.length
    rcases hk j q hq with ⟨pr,hpr,hsame⟩ | hnew
    · have hold := hc.tracks hl j pr hpr
      rw [hsame]
      exact ⟨hold.pos,hold.next,hold.pendingSnapshot⟩
    · rw [hnew]
      exact ⟨by dsimp only [Progress.joining]; omega,by dsimp only [Progress.joining]; omega,rfl⟩

end CoreInv

end

section

variable [Raftpb] {B : Base Entry} {Q : (Nat → Prop) → Prop} {h : Hist Entry} {i : Nat}
  {S : Message → Prop} {c c' : Core}

/-- Every move of a node is a step of the consensus machine or none at all. -/
theorem Core.Move.sim (hS : ∀ m, S m → Given h i m) (hh : HistInv B h) (hc : CoreInv B h i c)
    (hw : ElectOk Q h c) (hd : DecideOk Q h c) (hm : Move S c c') :
    ∃ h', Sim B Q i h c h' c' := by
  cases hm with
  | send hs => exact ⟨h,hs.sim hh hc⟩
  | follow hle => exact ⟨h,hc.sim_follow hle⟩
  | preStand => exact ⟨h,hc.sim_preStand⟩
  | stand hs _ => exact ⟨_,hc.sim_stand hs⟩
  | poll hs hv =>
    refine ⟨h,hc.sim_poll hs ?_⟩
    intro hcand htrue
    rcases hv hcand htrue with hid | ⟨m,hm,ht,hf,hr,hterm⟩
    · exact .inl (hid.trans hc.id)
    · obtain ⟨hok,_,hto⟩ := hS m hm
      unfold Message.Ok at hok
      rw [ht] at hok hto
      have := hok hr
      rw [hterm,hf,hto rfl] at this
      exact .inr this
  | elect hs ht hget => exact ⟨_,hc.sim_elect hw hs ht hget⟩
  | append hs _ ha hget => exact hc.sim_append hh _ hs ha hget
  | pend hs _ => exact ⟨h,.of_log hc (.inl ⟨rfl,rfl⟩) rfl rfl rfl hc.tracks (fun _ => .inl)⟩
  | commit hs ha => exact ⟨_,hc.sim_commit hh hd hs ha⟩
  | ack hs hm ht hterm hr hget hf _ =>
    have hok := (hS _ hm).1
    unfold Message.Ok at hok
    rw [ht] at hok
    have hk := hok hr
    rw [hterm] at hk
    exact ⟨h,hc.sim_ack hh hs hk hget hf⟩
  | vote hm ht hterm hv hup => exact ⟨_,hc.sim_vote hh (hS _ hm).1 ht hterm hv hup⟩
  | accept hm ht hterm hs _ ha => exact ⟨_,hc.sim_accept hh (hS _ hm).1 ht hterm hs ha⟩
  | stale hm ht hterm hs _ => exact ⟨_,hc.sim_stale hh (hS _ hm).1 ht hterm hs⟩
  | beat hm ht hterm hs hok => exact ⟨h,hc.sim_beat (hS _ hm) ht hterm hs hok⟩
  | skip hm ht | forward hm ht | restore _ hm ht =>
    have hok := (hS _ hm).1
    unfold Message.Ok at hok
    rw [ht] at hok
    exact hok.elim

end

end RaftTesting
