import RaftTesting.Cluster.View

namespace RaftTesting

open Consensus

namespace Core

variable {S : Message → Prop} {c c' : Core}

/-- Two cores with the same place in the protocol. -/
theorem node_congr (ht : c'.term=c.term) (hv : c'.vote=c.vote) (hs : c'.state=c.state)
    (hl : c'.raftLog=c.raftLog) (hg : c'.prs.votes=c.prs.votes)
    (hm : ∀ j, c'.matched j=c.matched j) : c'.node=c.node := by
  have hm' : c'.matched=c.matched := funext hm
  have hg' : c'.granted=c.granted := by
    funext j
    unfold granted
    rw [hg]
  unfold node
  rw [ht,hv,hs,hl,hg',hm']

theorem matched_setProgress (c : Core) (id j : Nat) (pr : Progress) :
    (c.setProgress id pr).matched j=if j=id then pr.matchIndex else c.matched j := by
  unfold matched setProgress ProgressTracker.setProgress
  dsimp only
  rw [SortedMap.get?_insert]
  split_ifs <;> rfl

theorem matched_setProgress_same {id : Nat} {pr pr' : Progress}
    (hget : c.prs.progress.get? id=some pr) (hm : pr'.matchIndex=pr.matchIndex) (j : Nat) :
    (c.setProgress id pr').matched j=c.matched j := by
  rw [matched_setProgress]
  split_ifs with he
  · rw [he,matched_of_get hget]
    exact hm
  · rfl

theorem matched_flow {ps : SortedMap Progress} {j : Nat}
    (hf : Option.Rel Flow (c.prs.progress.get? j) (ps.get? j)) :
    ({ c with prs := { c.prs with progress := ps } } : Core).matched j=c.matched j := by
  unfold matched
  dsimp only
  revert hf
  generalize c.prs.progress.get? j=a
  generalize ps.get? j=b
  rintro (hf | _)
  · exact hf.matchIndex
  · rfl

end Core

namespace CoreInv

variable {B : Base Entry} {h : Hist Entry} {i : Nat} {c : Core}

theorem leader (hc : CoreInv B h i c) (hs : c.state=.stateLeader) :
    h.lead c.term=some i ∧ c.raftLog.all=h.llog c.term := by
  obtain ⟨hl,hlog,_⟩ := hc.node.leader (StateType.role_leader.mpr hs)
  exact ⟨hl,hlog⟩

theorem leader_term (hh : HistInv B h) (hc : CoreInv B h i c) (hs : c.state=.stateLeader) :
    c.term≠0 := by
  have := (hh.lead _ i (hc.leader hs).1).1
  omega

theorem commitOk (hc : CoreInv B h i c) : h.CommitOk c.term c.raftLog.committed := by
  obtain ⟨T,hT,hk,_⟩ := hc.node.commit
  exact ⟨T,hT,hk⟩

theorem matched_le (hc : CoreInv B h i c) (hs : c.state=.stateLeader) {j : Nat} {pr : Progress}
    (hget : c.prs.progress.get? j=some pr) : pr.matchIndex≤h.ack c.term j := by
  have := hc.node.matched (StateType.role_leader.mpr hs) j
  rwa [show c.node.matched j=pr.matchIndex from Core.matched_of_get hget] at this

/-- A leader knows of no more than it has. -/
theorem matched_le_log (hh : HistInv B h) (hc : CoreInv B h i c) (hs : c.state=.stateLeader)
    {j : Nat} {pr : Progress} (hget : c.prs.progress.get? j=some pr) :
    pr.matchIndex≤c.raftLog.all.length := by
  rw [(hc.leader hs).2]
  exact (hc.matched_le hs hget).trans (hh.ackLen _ j)

theorem committed_le (hc : CoreInv B h i c) : c.raftLog.committed≤c.raftLog.all.length := by
  obtain ⟨_,_,_,hcov⟩ := hc.node.commit
  exact hcov.length_le

end CoreInv

theorem Core.Drift.sound {n : Nat} {pr pr' : Progress} (hf : Drift pr pr') (h : pr.Sound n)
    (hm : pr.matchIndex≤n) : pr'.Sound n := by
  have h1 := h.pos
  have h2 := h.next
  have h3 := h.pendingSnapshot
  have h4 := hf.pendingSnapshot
  have hn := hf.next
  exact ⟨by omega,by omega,by omega⟩

theorem Core.Back.sound {n : Nat} {pr pr' : Progress} (hf : Back pr pr') (h : pr.Sound n)
    (hm : pr.matchIndex≤n) : pr'.Sound n := by
  have h1 := h.pos
  have h2 := h.next
  have h3 := h.pendingSnapshot
  have h4 := hf.pendingSnapshot
  have hn := hf.next
  rw [usub_of_le h1] at hn
  exact ⟨by omega,by omega,by omega⟩

section

variable {B : Base Entry} {Q : (Nat → Prop) → Prop} {h : Hist Entry} {i : Nat}
  {S : Message → Prop} {c c' : Core}

theorem Core.Plain.ok (hc : CoreInv B h i c) {m : Message}
    (hp : Plain S c m) : m.Ok h := by
  unfold Plain at hp
  unfold Message.Ok
  cases ht : m.type <;> rw [ht] at hp <;> dsimp only at hp ⊢
  case msgVote =>
    obtain ⟨hid,hs,hterm,hidx,hlast⟩ := hp
    obtain ⟨_,_,hcand,_⟩ := hc.node.candidate (StateType.role_candidate.mpr hs)
    refine ⟨?_,c.raftLog.all,?_,hidx.trans hc.log.lastIndex_eq,?_⟩
    · rw [hid,hc.id]
      exact hc.pos
    · rw [hterm,hid,hc.id]
      exact hcand
    · rw [hc.log.lastTerm_eq] at hlast
      exact (Except.ok.inj hlast).symm
  case msgVoteResp => exact fun hr => Bool.noConfusion (hp.2.symm.trans hr)
  case msgAppResp =>
    intro hr
    rcases hp.2.2 with hp | hp
    · exact Bool.noConfusion (hp.symm.trans hr)
    · rw [hp]
      exact Nat.zero_le _

/-- A message appended to what is said already. -/
theorem said_mem {ms : List Message} {m m' : Message} {P : Message → Prop} (hP : P m)
    (hm : m' ∈ ms++[m]) : m' ∈ ms ∨ P m' := by
  rcases List.mem_append.mp hm with hm | hm
  · exact .inl hm
  · rw [List.mem_singleton.mp hm]
    exact .inr hP

theorem RaftLog.Whole.snapshot_empty {l : RaftLog} (hl : l.Whole) :
    isEmptySnap l.snapshot=true := by
  simp [RaftLog.snapshot,hl.snapshot,isEmptySnap,hl.storage.snapshot]

/-- A step that keeps the log and what is known of the peers, and says only what is true. -/
theorem CoreInv.sim_of_frame (hc : CoreInv B h i c) (hf : Core.Frame c c')
    (hm : ∀ j, c'.matched j=c.matched j)
    (ht : c.state=.stateLeader → ∀ j pr, c'.prs.progress.get? j=some pr →
      pr.Sound c.raftLog.all.length)
    (hmsgs : ∀ m ∈ c'.msgs, m ∈ c.msgs ∨ m.Ok h ∧ m.Stamped) : Sim B Q i h c h c' := by
  have hnode : c'.node=c.node := Core.node_congr hf.term hf.vote hf.state hf.raftLog hf.votes hm
  refine .of_log hc (.inl ⟨rfl,hnode⟩) hf.id (by rw [hf.raftLog]) (by rw [hf.raftLog]) ?_ hmsgs
  intro hl
  rw [hf.state] at hl
  rw [hf.raftLog]
  exact ht hl

theorem CoreInv.sound_setProgress (hc : CoreInv B h i c) (hs : c.state=.stateLeader) {id : Nat}
    {pr' : Progress} (hpr : pr'.Sound c.raftLog.all.length) (j : Nat) (pr : Progress)
    (hget : (c.setProgress id pr').prs.progress.get? j=some pr) :
    pr.Sound c.raftLog.all.length := by
  change (SortedMap.insert _ _ _).get? j=some pr at hget
  rw [SortedMap.get?_insert] at hget
  split_ifs at hget with he
  · cases hget
    exact hpr
  · exact hc.tracks hs j pr hget

theorem CoreInv.sim_say (hc : CoreInv B h i c) {m : Message} (hok : m.Ok h) (hst : m.Stamped) :
    Sim B Q i h c h (c.say m) :=
  hc.sim_of_frame (Core.say_frame _ _) (fun _ => rfl) hc.tracks
    (fun _ hm => said_mem (P := fun m => m.Ok h ∧ m.Stamped) ⟨hok,hst⟩ hm)

theorem CoreInv.sim_heartbeat (hh : HistInv B h) (hc : CoreInv B h i c) {j : Nat} {pr : Progress}
    {ctx : Bytes} (hs : c.state=.stateLeader) (hget : c.prs.progress.get? j=some pr) :
    Sim B Q i h c h (c.say {
      type := .msgHeartbeat
      toId := j
      fromId := c.id
      term := c.term
      commit := min pr.matchIndex c.raftLog.committed
      context := ctx }) := by
  refine hc.sim_say ?_ (fun _ => hc.leader_term hh hs)
  obtain ⟨T,hT,hk⟩ := hc.commitOk
  exact ⟨(Nat.min_le_left _ _).trans (hc.matched_le hs hget),T,hT,(Nat.min_le_right _ _).trans hk⟩

theorem CoreInv.sim_back (hh : HistInv B h) (hc : CoreInv B h i c) {j : Nat} {pr pr' : Progress}
    (hget : c.prs.progress.get? j=some pr) (hb : Core.Back pr pr') :
    Sim B Q i h c h (c.setProgress j pr') :=
  hc.sim_of_frame (Core.setProgress_frame hget hb.isLearner)
    (Core.matched_setProgress_same hget hb.matchIndex)
    (fun hs => hc.sound_setProgress hs
      (hb.sound (hc.tracks hs _ _ hget) (hc.matched_le_log hh hs hget)))
    (fun _ hm => .inl hm)

theorem CoreInv.sim_read (hc : CoreInv B h i c) (hr : Core.Read S c c') : Sim B Q i h c h c' := by
  obtain ⟨hprs,hmsgs⟩ := hr.said
  refine hc.sim_of_frame hr.frame (fun j => ?_) ?_ (fun m hm => ?_)
  · unfold Core.matched
    rw [hprs]
  · rw [hprs]
    exact hc.tracks
  · -- an answer to a read carries no promise, and need not be stamped
    refine (hmsgs m hm).imp_right (fun ht => ⟨?_,fun hn => ?_⟩)
    · unfold Message.Ok
      rw [ht]
      trivial
    · rw [ht] at hn
      cases hn

variable [Raftpb]

/-- Where the entries of a MsgApp stand in the leader's log. -/
theorem CoreInv.app_segment (hc : CoreInv B h i c) {j n : Nat} {pr : Progress}
    {ents : List Entry} (hs : c.state=.stateLeader) (hget : c.prs.progress.get? j=some pr)
    (he : c.raftLog.entries pr.next n=.ok (.ok ents)) :
    1≤pr.next ∧ Segment c.raftLog.all (pr.next-1) ents := by
  obtain ⟨h1,hpre⟩ := hc.log.entries_isPrefix he
  have := (hc.tracks hs j pr hget).next
  exact ⟨h1,.of_isPrefix hc.log.numbered (by omega) hpre⟩

/-- What the leader notes of a peer after an append stays within its log. -/
theorem CoreInv.sent_sound (hc : CoreInv B h i c) {j n : Nat} {pr pr' : Progress}
    {ents : List Entry} (hs : c.state=.stateLeader) (hget : c.prs.progress.get? j=some pr)
    (he : c.raftLog.entries pr.next n=.ok (.ok ents)) (hpr : Raft.progressSent pr ents=.ok pr') :
    pr'.Sound c.raftLog.all.length := by
  obtain ⟨h1,hseg⟩ := hc.app_segment hs hget he
  obtain ⟨-,-,hpending,hnext⟩ := Core.progressSent_same hpr
  have hpr0 := hc.tracks hs _ _ hget
  rcases hnext with hnext | ⟨last,hlast,hnext⟩
  · exact ⟨hnext ▸ hpr0.pos,hnext ▸ hpr0.next,hpending.trans hpr0.pendingSnapshot⟩
  · rw [List.getLast?_eq_getElem?] at hlast
    have hidx := hseg.numbered _ last hlast
    have hlen := (List.getElem?_eq_some_iff.mp hlast).1
    have hfit := hseg.fits
    exact ⟨by omega,by omega,hpending.trans hpr0.pendingSnapshot⟩

/-- The MsgApp of a leader tells a piece of the leader's log and where it stands. -/
theorem CoreInv.app_ok (hc : CoreInv B h i c) {j n t : Nat} {pr : Progress} {ents : List Entry}
    (hs : c.state=.stateLeader) (hget : c.prs.progress.get? j=some pr)
    (ht : c.raftLog.term (usub pr.next 1)=.ok t)
    (he : c.raftLog.entries pr.next n=.ok (.ok ents)) : Message.Ok h {
      type := .msgApp
      toId := j
      fromId := c.id
      term := c.term
      index := usub pr.next 1
      logTerm := t
      entries := ents
      commit := c.raftLog.committed } := by
  obtain ⟨hlead,hlog⟩ := hc.leader hs
  obtain ⟨h1,hseg⟩ := hc.app_segment hs hget he
  rw [usub_of_le h1] at ht ⊢
  rw [hc.log.term_eq] at ht
  rw [hlog] at hseg ht
  exact ⟨hlead ▸ rfl,hseg,(Except.ok.inj ht).symm,hc.commitOk⟩

theorem CoreInv.sim_app (hh : HistInv B h) (hc : CoreInv B h i c) {j n t : Nat}
    {pr pr' : Progress} {ents : List Entry} (hs : c.state=.stateLeader)
    (hget : c.prs.progress.get? j=some pr) (ht : c.raftLog.term (usub pr.next 1)=.ok t)
    (he : c.raftLog.entries pr.next n=.ok (.ok ents)) (hpr : Raft.progressSent pr ents=.ok pr') :
    Sim B Q i h c h ((c.setProgress j pr').say {
      type := .msgApp
      toId := j
      fromId := c.id
      term := c.term
      index := usub pr.next 1
      logTerm := t
      entries := ents
      commit := c.raftLog.committed }) := by
  obtain ⟨hmatch,hlearner,-⟩ := Core.progressSent_same hpr
  refine hc.sim_of_frame ((Core.setProgress_frame hget hlearner).trans (Core.say_frame _ _))
    (Core.matched_setProgress_same hget hmatch)
    (fun _ => hc.sound_setProgress hs (hc.sent_sound hs hget he hpr)) (fun m hm => ?_)
  exact said_mem (P := fun m => m.Ok h ∧ m.Stamped)
    ⟨hc.app_ok hs hget ht he,fun _ => hc.leader_term hh hs⟩ hm

theorem CoreInv.sim_track (hh : HistInv B h) (hc : CoreInv B h i c) {ps : SortedMap Progress}
    (hf : ∀ id, Option.Rel Core.Flow (c.prs.progress.get? id) (ps.get? id)) :
    Sim B Q i h c h { c with prs := { c.prs with progress := ps } } := by
  have hframe : Core.Frame c { c with prs := { c.prs with progress := ps } } :=
    (Core.Send.track (S := fun _ => True) hf).frame
  refine hc.sim_of_frame hframe (fun j => Core.matched_flow (hf j)) ?_ (fun _ hm => .inl hm)
  intro hs j pr' hget'
  have hrel := hf j
  change ps.get? j=some pr' at hget'
  rw [hget'] at hrel
  generalize hget : c.prs.progress.get? j=a at hrel
  cases hrel with
  | some hflow => exact hflow.sound (hc.tracks hs j _ hget) (hc.matched_le_log hh hs hget)

theorem Core.Send.sim (hh : HistInv B h) (hc : CoreInv B h i c) (hs : Send S c c') :
    Sim B Q i h c h c' := by
  cases hs with
  | app hl hget ht hents hpr => exact hc.sim_app hh hl hget ht hents hpr
  | snap _ _ hne => exact Bool.noConfusion (hc.log.snapshot_empty.symm.trans hne)
  | heartbeat hl hget _ => exact hc.sim_heartbeat hh hl hget
  | plain hp hst => exact hc.sim_say (hp.ok hc) hst
  | track hf => exact hc.sim_track hh hf
  | back _ _ _ hget hb => exact hc.sim_back hh hget hb
  | read hr => exact hc.sim_read hr

end

end RaftTesting
