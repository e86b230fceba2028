import RaftTesting.ConfChange.Representation

namespace RaftTesting

namespace Role

/-- A change made in a joint configuration shows after leaving it as if it had been
made outside. -/
theorem leave_change (r : Role) (ty : ConfChangeType) (h : r.ok=true) :
    (r.change ty).leave=r.leave.change ty := by
  cases ty with
  | addNode =>
    revert r
    decide
  | removeNode =>
    revert r
    decide
  | updateNode => rfl
  | addLearnerNode =>
    revert r
    decide
  | unknown code => rfl

theorem leave_enter : ∀ r : Role, r.ok=true → r.outgoing=false → r.enter.leave=r := by decide

theorem leave_replay (id : Nat) (ccs : List ConfChangeSingle) (r : Role) (h : r.ok=true) :
    (replay id ccs r).leave=replay id ccs r.leave := by
  induction ccs generalizing r with
  | nil => rfl
  | cons cc ccs ih =>
    rw [replay_cons,replay_cons]
    split_ifs
    · rw [ih _ (change_ok r _ h),leave_change r _ h]
    · exact ih r h

end Role

/-- A change whose type the Changer knows, or one that is skipped. -/
def ConfChangeSingle.Known (cc : ConfChangeSingle) : Prop :=
  cc.nodeID=0 ∨ ∀ code, cc.type≠.unknown code

/-- Equal roles make equal configurations. -/
theorem Tracked.Sound.cfg_ext {t t' : Tracked} (h : t.Sound) (h' : t'.Sound)
    (hrole : ∀ id, t.role id=t'.role id) (hout : t.cfg.voters.outgoing=t'.cfg.voters.outgoing)
    (hauto : t.cfg.autoLeave=t'.cfg.autoLeave) : t.cfg=t'.cfg := by
  have hincoming : t.cfg.voters.incoming=t'.cfg.voters.incoming := by
    obtain ⟨s,hs⟩ := Option.ne_none_iff_exists'.mp h.incoming
    obtain ⟨s',hs'⟩ := Option.ne_none_iff_exists'.mp h'.incoming
    rw [hs,hs']
    refine congrArg some (IdSet.contains_ext (fun id => ?_))
    have hid := congrArg Role.incoming (hrole id)
    simpa [Tracked.role,hs,hs'] using hid
  have hlearners : t.cfg.learners=t'.cfg.learners :=
    h.learners.ext h'.learners (fun id => congrArg Role.learner (hrole id))
  have hnext : t.cfg.learnersNext=t'.cfg.learnersNext :=
    h.learnersNext.ext h'.learnersNext (fun id => congrArg Role.next (hrole id))
  cases ht : t.cfg with
  | mk voters autoLeave learners learnersNext =>
    cases ht' : t'.cfg with
    | mk voters' autoLeave' learners' learnersNext' =>
      rw [ht,ht'] at hincoming hlearners hnext hout hauto
      cases voters
      cases voters'
      cases hincoming
      cases hlearners
      cases hnext
      cases hout
      cases hauto
      rfl

namespace Changer

variable {c c' : Changer} {t t' : Tracked} {cc : ConfChangeSingle} {ccs : List ConfChangeSingle}

theorem applyOne_known (h : c.applyOne t cc=.ok t') : cc.Known := by
  unfold applyOne at h
  split at h
  · rename_i hzero
    exact .inl hzero
  · right
    intro code hty
    rw [hty] at h
    cases h

theorem applyOne_total (h : cc.Known) : ∃ t', c.applyOne t cc=.ok t' := by
  unfold applyOne
  split
  · exact ⟨t,rfl⟩
  · rename_i hne
    have hty := h.resolve_left hne
    split
    · exact ⟨_,rfl⟩
    · exact ⟨_,rfl⟩
    · exact ⟨_,rfl⟩
    · exact ⟨t,rfl⟩
    · rename_i code heq
      exact absurd heq (hty code)

theorem applyAll_total (h : ∀ cc∈ccs, cc.Known) : ∃ t', ccs.foldlM c.applyOne t=.ok t' := by
  induction ccs generalizing t with
  | nil => exact ⟨t,rfl⟩
  | cons cc ccs ih =>
    obtain ⟨t1,h1⟩ := applyOne_total (c := c) (t := t) (h cc List.mem_cons_self)
    obtain ⟨t2,h2⟩ := ih (t := t1) (fun cc' hcc' => h cc' (List.mem_cons_of_mem cc hcc'))
    exact ⟨t2,bind_eq_ok.mpr ⟨t1,h1,h2⟩⟩

/-- The tracked state that a changer holds. -/
def tracked (c : Changer) : Tracked := ⟨c.tracker.config,c.tracker.progress⟩

/-- What a chain of single changes does: the changes are known, the roles follow them, the
configuration stays a plain one with a voter. -/
theorem chainSimple_spec (h : c.Good) (hj : c.tracker.config.joint=false)
    (hchain : c.chainSimple ccs=.ok c') :
    c'.Good ∧ c'.tracker.config.joint=false ∧ (∀ cc∈ccs, cc.Known) ∧
      (∀ id, c'.tracked.role id=Role.replay id ccs (c.tracked.role id)) ∧
      (MajorityConfig.len c.tracker.config.voters.incoming≠0 →
        MajorityConfig.len c'.tracker.config.voters.incoming≠0) := by
  induction ccs generalizing c with
  | nil =>
    cases hchain
    exact ⟨h,hj,by simp,fun _ => rfl,id⟩
  | cons cc ccs ih =>
    obtain ⟨c1,hstep,hrest⟩ := bind_eq_ok.mp hchain
    obtain ⟨t,hsimple,hstep⟩ := bind_eq_ok.mp hstep
    cases hstep
    obtain ⟨-,happ,-⟩ := (simple_ok h).mp hsimple
    obtain ⟨hall,hne⟩ := apply_eq_ok.mp happ
    obtain ⟨t1,hone,hnil⟩ := bind_eq_ok.mp hall
    cases hnil
    obtain ⟨hsound,hsettled⟩ := h.perform (.simple [cc]) hsimple
    have hjoint : t.cfg.joint=false := by
      simp [TrackerConfig.joint,(applyAll_changed hall).outgoing,(h.copied_settled hj).1]
    obtain ⟨hgood,hj',hknown,hrole,hlen⟩ := ih (c := c.withTracked t) ⟨hsound,hsettled⟩ hjoint hrest
    refine ⟨hgood,hj',?_,fun id => ?_,fun _ => hlen hne⟩
    · intro cc' hcc'
      rcases List.mem_cons.mp hcc' with rfl | hcc'
      · exact applyOne_known hone
      · exact hknown cc' hcc'
    · rw [hrole id,Role.replay_cons]
      exact congrArg (Role.replay id ccs) (applyOne_role hone id)

theorem len_ne_zero_congr {m m' : MajorityConfig}
    (h : ∀ id, MajorityConfig.has m id=MajorityConfig.has m' id) (hne : MajorityConfig.len m≠0) :
    MajorityConfig.len m'≠0 := by
  simp only [ne_eq,MajorityConfig.len_eq_zero] at hne ⊢
  simpa only [h] using hne

/-- Whatever single changes achieve one by one, one joint change achieves too. -/
theorem joint_agrees {p : ProgressTracker} {lastIndex : Nat} (h : Reached p)
    (hj : p.config.joint=false) (hne : MajorityConfig.len p.config.voters.incoming≠0)
    (hchain : chainSimple ⟨p,lastIndex⟩ ccs=.ok c') (autoLeave : Bool) :
    ∃ t t', enterJoint ⟨p,lastIndex⟩ autoLeave ccs=.ok t ∧
      leaveJoint (withTracked ⟨p,lastIndex⟩ t)=.ok t' ∧ t'.cfg=c'.tracker.config ∧
      ∀ id, (t'.prs.get? id).map (·.isLearner)=(c'.tracker.progress.get? id).map (·.isLearner) := by
  have hgood := h.good lastIndex
  set c : Changer := ⟨p,lastIndex⟩ with hc
  obtain ⟨hgood',hj',hknown,hrole,hlen⟩ := chainSimple_spec hgood hj hchain
  obtain ⟨t,hall⟩ := applyAll_total (c := c) (t := c.entered) hknown
  have hok : ∀ id, (c.entered.role id).ok=true := (hgood.entered_sound hj).ok
  -- leaving after the changes gives the roles of the step-by-step run
  have hleave : ∀ id, (t.role id).leave=c'.tracked.role id := by
    intro id
    rw [applyAll_role hall,Role.leave_replay id ccs _ (hok id),entered_role,
      Role.leave_enter _ (hgood.copied_sound.ok id) (hgood.outgoing_role hj id),hrole id]
    rfl
  have hvoters : MajorityConfig.len t.cfg.voters.incoming≠0 :=
    len_ne_zero_congr (fun id => (congrArg Role.incoming (hleave id)).symm) (hlen hne)
  have henter : c.enterJoint autoLeave ccs=.ok ⟨{ t.cfg with autoLeave := autoLeave },t.prs⟩ :=
    (enterJoint_ok hgood).mpr ⟨hj,hne,t,apply_eq_ok.mpr ⟨hall,hvoters⟩,rfl⟩
  obtain ⟨hsound,hsettled⟩ := hgood.perform (.enterJoint autoLeave ccs) henter
  have hmid : (c.withTracked ⟨{ t.cfg with autoLeave := autoLeave },t.prs⟩).Good :=
    ⟨hsound,hsettled⟩
  have hjoint : t.cfg.joint=true := entered_joint (c := c) hne (applyAll_changed hall).outgoing
  refine ⟨_,_,henter,(leaveJoint_ok hmid).mpr ⟨hjoint,rfl⟩,?_,?_⟩
  · refine hmid.left_sound.cfg_ext hgood'.sound (fun id => ?_) ?_ ?_
    · rw [left_role]
      exact hleave id
    · exact (hgood'.settled hj').1.symm
    · exact (hgood'.settled hj').2.2.symm
  · intro id
    have hid := left_role (c.withTracked ⟨{ t.cfg with autoLeave := autoLeave },t.prs⟩) id
    exact congrArg Role.tracked (hid.trans (hleave id))

/-- Node 2 joins, then node 1 becomes a learner. -/
theorem joint_agrees_swap : ∃ p c', Reached p ∧
    chainSimple ⟨p,1⟩ [⟨.addNode,2⟩,⟨.addLearnerNode,1⟩]=.ok c' ∧
    ∃ t t', enterJoint ⟨p,1⟩ true [⟨.addNode,2⟩,⟨.addLearnerNode,1⟩]=.ok t ∧
      leaveJoint (withTracked ⟨p,1⟩ t)=.ok t' ∧ t'.cfg=c'.tracker.config ∧
      ∀ id, (t'.prs.get? id).map (·.isLearner)=
        (c'.tracker.progress.get? id).map (·.isLearner) := by
  have hone : Reached _ := @Reached.perform _ 1 (.simple [⟨.addNode,1⟩]) _ (.empty 256) rfl
  exact ⟨_,_,hone,rfl,joint_agrees hone (by decide) (by decide) rfl true⟩

end Changer

end RaftTesting
