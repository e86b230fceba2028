import RaftTesting.ConfChange.Changer

namespace RaftTesting

namespace JointConfig

/-- One membership change apart: a single voter is exchanged, a joint configuration
is entered, or it is left. -/
inductive Adjacent (c c' : JointConfig) : Prop
  | simple : MajorityConfig.len c.outgoing=0 → c'.outgoing=c.outgoing →
      symdiff c.incoming c'.incoming≤1 → Adjacent c c'
  | enter : MajorityConfig.len c.outgoing=0 →
      MajorityConfig.ids c'.outgoing=MajorityConfig.ids c.incoming → Adjacent c c'
  | leave : MajorityConfig.len c'.outgoing=0 → c'.incoming=c.incoming → Adjacent c c'

theorem card_sdiff_ids (l r : MajorityConfig) :
    (MajorityConfig.ids l \ MajorityConfig.ids r).card=
      ((MajorityConfig.slice l).filter (fun id => !MajorityConfig.has r id)).length := by
  have heq : MajorityConfig.ids l \ MajorityConfig.ids r=
      (MajorityConfig.ids l).filter (fun id => (!MajorityConfig.has r id)=true) := by
    ext id
    simp
  rw [heq,MajorityConfig.card_filter_ids]
  simp

/-- Decisions under adjacent configurations share a voter. -/
theorem Adjacent.overlap {c c' : JointConfig} {S T : Nat → Prop} (h : Adjacent c c')
    (hne : MajorityConfig.len c.incoming≠0) (hne' : MajorityConfig.len c'.incoming≠0)
    (hS : c.QuorumOf S) (hT : c'.QuorumOf T) : ∃ x, S x ∧ T x := by
  have hS1 := hS.1.resolve_left hne
  have hT1 := hT.1.resolve_left hne'
  cases h with
  | simple _ _ hn =>
    refine hS1.overlap_of_near ?_ hT1
    rw [card_sdiff_ids,card_sdiff_ids]
    exact hn
  | enter _ hids =>
    -- the outgoing half is a copy of the old voters
    have hlen : MajorityConfig.len c'.outgoing≠0 := by
      rw [← MajorityConfig.card_ids,hids,MajorityConfig.card_ids]
      exact hne
    have hT2 := hT.2.resolve_left hlen
    rw [hids] at hT2
    obtain ⟨x,_,hx⟩ := hS1.overlap hT2
    exact ⟨x,hx⟩
  | leave _ heq =>
    rw [heq] at hT1
    obtain ⟨x,_,hx⟩ := hS1.overlap hT1
    exact ⟨x,hx⟩

end JointConfig

namespace Tracked

theorem checkAndReturn_eq {t t' : Tracked} (h : t.checkAndReturn=.ok t') : t'=t := by
  obtain ⟨_,_,h⟩ := bind_eq_ok.mp h
  cases h
  rfl

theorem setLearner_cfg (t : Tracked) (id : Nat) (b : Bool) : (t.setLearner id b).cfg=t.cfg := by
  unfold setLearner
  split <;> rfl

end Tracked

namespace Changer

theorem checkAndCopy_eq {c : Changer} {t : Tracked} (h : c.checkAndCopy=.ok t) :
    t=⟨c.tracker.config.clone,c.tracker.progress⟩ :=
  Tracked.checkAndReturn_eq h

theorem remove_outgoing (t : Tracked) (id : Nat) :
    (remove t id).cfg.voters.outgoing=t.cfg.voters.outgoing := by
  unfold remove
  split
  · rfl
  · dsimp only
    split <;> rfl

/-- No change touches the outgoing half. -/
theorem applyOne_outgoing {c : Changer} {t t' : Tracked} {cc : ConfChangeSingle}
    (h : c.applyOne t cc=.ok t') : t'.cfg.voters.outgoing=t.cfg.voters.outgoing := by
  unfold applyOne at h
  split at h
  · cases h
    rfl
  · split at h <;> cases h
    · unfold makeVoter initProgress
      split
      · rfl
      · simp only [TrackerConfig.addIncoming,Tracked.setLearner_cfg]
    · unfold makeLearner initProgress
      split
      · rfl
      · split
        · rfl
        · dsimp only
          split <;> exact remove_outgoing t cc.nodeID
    · exact remove_outgoing t cc.nodeID
    · rfl

theorem apply_spec {c : Changer} {t t' : Tracked} {ccs : List ConfChangeSingle}
    (h : c.apply t ccs=.ok t') : t'.cfg.voters.outgoing=t.cfg.voters.outgoing ∧
      MajorityConfig.len t'.cfg.voters.incoming≠0 := by
  obtain ⟨t1,h1,h⟩ := bind_eq_ok.mp h
  split at h
  · cases h
  · rename_i hne
    cases h
    refine ⟨?_,hne⟩
    exact foldlM_rel (R := fun a b : Tracked => b.cfg.voters.outgoing=a.cfg.voters.outgoing)
      (fun _ => rfl) (fun _ _ _ hab hbc => hbc.trans hab) (fun _ _ _ _ => applyOne_outgoing) h1

theorem simple_adjacent {c : Changer} {t : Tracked} {ccs : List ConfChangeSingle}
    (h : c.simple ccs=.ok t) : c.tracker.config.voters.Adjacent t.cfg.voters ∧
      MajorityConfig.len t.cfg.voters.incoming≠0 := by
  obtain ⟨t0,h0,h⟩ := bind_eq_ok.mp h
  cases checkAndCopy_eq h0
  split at h
  · cases h
  · rename_i hjoint
    obtain ⟨t1,h1,h⟩ := bind_eq_ok.mp h
    obtain ⟨hout,hne⟩ := apply_spec h1
    split at h
    · cases h
    · rename_i hdiff
      cases Tracked.checkAndReturn_eq h
      exact ⟨.simple (TrackerConfig.joint_eq_false hjoint) hout (Nat.not_lt.mp hdiff),hne⟩

theorem enterJoint_adjacent {c : Changer} {t : Tracked} {autoLeave : Bool}
    {ccs : List ConfChangeSingle} (h : c.enterJoint autoLeave ccs=.ok t) :
    c.tracker.config.voters.Adjacent t.cfg.voters ∧
      MajorityConfig.len t.cfg.voters.incoming≠0 := by
  obtain ⟨t0,h0,h⟩ := bind_eq_ok.mp h
  cases checkAndCopy_eq h0
  split at h
  · cases h
  · rename_i hjoint
    split at h
    · cases h
    · obtain ⟨t1,h1,h⟩ := bind_eq_ok.mp h
      obtain ⟨hout,hne⟩ := apply_spec h1
      cases Tracked.checkAndReturn_eq h
      refine ⟨.enter (TrackerConfig.joint_eq_false hjoint) ?_,hne⟩
      ext id
      simp only [hout,MajorityConfig.mem_ids,MajorityConfig.has_some,
        IdSet.contains_ofList,MajorityConfig.mem_slice,decide_eq_true_eq]
      rfl

theorem foldl_promoteNext (l : List Nat) (t : Tracked) :
    (l.foldl promoteNext t).cfg.voters=t.cfg.voters := by
  induction l generalizing t with
  | nil => rfl
  | cons id l ih =>
    rw [List.foldl_cons,ih,promoteNext,Tracked.setLearner_cfg]

theorem leaveJoint_adjacent {c : Changer} {t : Tracked} (h : c.leaveJoint=.ok t) :
    c.tracker.config.voters.Adjacent t.cfg.voters ∧
      t.cfg.voters.incoming=c.tracker.config.voters.incoming := by
  obtain ⟨t0,h0,h⟩ := bind_eq_ok.mp h
  cases checkAndCopy_eq h0
  split at h
  · cases h
  · dsimp only at h
    cases Tracked.checkAndReturn_eq h
    have heq := congrArg JointConfig.incoming (foldl_promoteNext
      (MajorityConfig.slice c.tracker.config.clone.learnersNext)
      ⟨c.tracker.config.clone,c.tracker.progress⟩)
    exact ⟨.leave rfl heq,heq⟩

/-- Two elections on both sides of one membership change share a voter. -/
theorem votes_overlap (c : Changer) (t : Tracked) (autoLeave : Bool)
    (ccs : List ConfChangeSingle) (hne : MajorityConfig.len c.tracker.config.voters.incoming≠0)
    (h : c.simple ccs=.ok t ∨ c.enterJoint autoLeave ccs=.ok t ∨ c.leaveJoint=.ok t)
    (v v' : SortedMap Bool) (hv : c.tracker.config.voters.voteResult v=.voteWon)
    (hv' : t.cfg.voters.voteResult v'=.voteWon) :
    ∃ id, v.get? id=some true ∧ v'.get? id=some true := by
  rw [JointConfig.voteResult_won] at hv hv'
  rcases h with h | h | h
  · obtain ⟨hadj,hne'⟩ := simple_adjacent h
    exact hadj.overlap hne hne' hv hv'
  · obtain ⟨hadj,hne'⟩ := enterJoint_adjacent h
    exact hadj.overlap hne hne' hv hv'
  · obtain ⟨hadj,heq⟩ := leaveJoint_adjacent h
    exact hadj.overlap hne (by rw [heq]; exact hne) hv hv'

/-- Node 1 as the only voter. -/
def oneVoter : Changer where
  tracker := { ProgressTracker.makeProgressTracker 256 with
    config := ⟨⟨some (IdSet.ofList [1]),none⟩,false,none,none⟩
    progress := (∅ : ProgressMap).insert 1 {
      matchIndex := 0
      next := 1
      state := .stateProbe
      pendingSnapshot := 0
      recentActive := true
      probeSent := false
      inflights := .newInflights 256
      isLearner := false } }
  lastIndex := 1

theorem votes_overlap_add : ∃ t, oneVoter.simple [⟨.addNode,2⟩]=.ok t ∧
    ∃ id, ((∅ : SortedMap Bool).insert 1 true).get? id=some true ∧
      (((∅ : SortedMap Bool).insert 1 true).insert 2 true).get? id=some true :=
  ⟨_,rfl,votes_overlap oneVoter _ false [⟨.addNode,2⟩] (by decide) (.inl rfl) _ _ (by decide)
    (by decide)⟩

end Changer

end RaftTesting
