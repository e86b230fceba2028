import RaftTesting.ConfChange.Restore
import RaftTesting.ConfChange.Role

namespace RaftTesting

namespace Tracked

/-- The same configuration; the progress of the members may differ in what it says about
their logs. -/
structure Alike (t t' : Tracked) : Prop where
  cfg : t'.cfg=t.cfg
  tracked : ∀ id, (t'.prs.get? id).map (·.isLearner)=(t.prs.get? id).map (·.isLearner)

variable {t t' : Tracked}

theorem Alike.role (h : Alike t t') (id : Nat) : t'.role id=t.role id := by
  unfold Tracked.role
  rw [h.cfg,h.tracked]

theorem Alike.get_none (h : Alike t t') (id : Nat) :
    t'.prs.get? id=none ↔ t.prs.get? id=none := by
  have htracked := h.tracked id
  rw [← Option.map_eq_none_iff (f := Progress.isLearner),htracked,Option.map_eq_none_iff]

/-- The checks look at the configuration and the learner flags only. -/
theorem Alike.checkInvariants (h : Alike t t') : t'.checkInvariants=t.checkInvariants := by
  have hprogress : t'.noProgress=t.noProgress := by
    funext id
    unfold noProgress
    rw [Bool.eq_iff_iff,Option.isNone_iff_eq_none,Option.isNone_iff_eq_none]
    exact h.get_none id
  have hlearner : t'.isLearner=t.isLearner := by
    funext id
    unfold Tracked.isLearner
    rw [h.tracked]
  have hprogress' : t'.checkProgress=t.checkProgress := by
    funext ids
    unfold checkProgress
    rw [hprogress]
  have hnext : t'.checkLearnersNext=t.checkLearnersNext := by
    funext id
    unfold checkLearnersNext
    rw [hlearner,h.cfg]
  have hlearners : t'.checkLearners=t.checkLearners := by
    funext id
    unfold checkLearners
    rw [hlearner,h.cfg]
  unfold Tracked.checkInvariants checkNonJoint
  rw [hprogress',hnext,hlearners,h.cfg]

theorem Alike.checkAndReturn {s : Tracked} (h : Alike t t') (hc : t.checkAndReturn=.ok s) :
    ∃ s', t'.checkAndReturn=.ok s' ∧ Alike s s' := by
  obtain ⟨u,hu,hc⟩ := bind_eq_ok.mp hc
  cases hc
  refine ⟨t',bind_eq_ok.mpr ⟨u,?_,rfl⟩,h⟩
  rw [h.checkInvariants]
  exact hu

end Tracked

namespace Changer

open Tracked

variable {c c' : Changer} {t t' s : Tracked}

theorem makeVoter_cfg (h : Alike t t') (id : Nat) :
    (c'.makeVoter t' id).cfg=(c.makeVoter t id).cfg := by
  have hnone := h.get_none id
  unfold makeVoter
  cases hg : t.prs.get? id with
  | none =>
    rw [hnone.mpr hg]
    simp only [initProgress,Bool.false_eq_true,if_false,h.cfg]
  | some pr =>
    cases hg' : t'.prs.get? id with
    | none =>
      rw [hnone.mp hg'] at hg
      cases hg
    | some pr' => simp only [Tracked.setLearner_cfg,h.cfg]

theorem remove_cfg (h : Alike t t') (id : Nat) : (remove t' id).cfg=(remove t id).cfg := by
  have hnone := h.get_none id
  unfold remove
  cases hg : t.prs.get? id with
  | none =>
    rw [hnone.mpr hg]
    exact h.cfg
  | some pr =>
    cases hg' : t'.prs.get? id with
    | none =>
      rw [hnone.mp hg'] at hg
      cases hg
    | some pr' =>
      simp only [h.cfg]
      split <;> rfl

theorem makeLearner_cfg (h : Alike t t') (id : Nat) :
    (c'.makeLearner t' id).cfg=(c.makeLearner t id).cfg := by
  have htracked := h.tracked id
  unfold makeLearner
  cases hg : t.prs.get? id with
  | none =>
    rw [(h.get_none id).mpr hg]
    simp only [initProgress,if_true,h.cfg]
  | some pr =>
    cases hg' : t'.prs.get? id with
    | none =>
      rw [(h.get_none id).mp hg'] at hg
      cases hg
    | some pr' =>
      have hl : pr'.isLearner=pr.isLearner := by
        rw [hg,hg'] at htracked
        exact Option.some.inj htracked
      dsimp only
      rw [hl,remove_cfg h]
      split
      · exact h.cfg
      · split <;> rfl

theorem applyOne_alike {cc : ConfChangeSingle} (h : Alike t t') (ha : c.applyOne t cc=.ok s) :
    ∃ s', c'.applyOne t' cc=.ok s' ∧ Alike s s' := by
  have hcfg : ∃ s', c'.applyOne t' cc=.ok s' ∧ s'.cfg=s.cfg := by
    unfold applyOne at ha ⊢
    split at ha
    · rename_i hz
      cases ha
      exact ⟨t',if_pos hz,h.cfg⟩
    · rename_i hz
      rw [if_neg hz]
      split at ha <;> cases ha
      · exact ⟨_,rfl,makeVoter_cfg h _⟩
      · exact ⟨_,rfl,makeLearner_cfg h _⟩
      · exact ⟨_,rfl,remove_cfg h _⟩
      · exact ⟨_,rfl,h.cfg⟩
  obtain ⟨s',hs',hcfg⟩ := hcfg
  refine ⟨s',hs',hcfg,fun id => ?_⟩
  have hrole : s'.role id=s.role id := by
    rw [applyOne_role hs',applyOne_role ha,h.role]
  exact congrArg Role.tracked hrole

theorem apply_alike {ccs : List ConfChangeSingle} (h : Alike t t') (ha : c.apply t ccs=.ok s) :
    ∃ s', c'.apply t' ccs=.ok s' ∧ Alike s s' := by
  obtain ⟨s1,h1,ha⟩ := bind_eq_ok.mp ha
  obtain ⟨s1',h1',hs1⟩ := foldlM_simulates (R := Alike) (g := c'.applyOne)
    (fun _ _ _ _ hR hf => applyOne_alike hR hf) h h1
  split at ha
  · cases ha
  · rename_i hlen
    cases ha
    refine ⟨s1',bind_eq_ok.mpr ⟨s1',h1',?_⟩,hs1⟩
    rw [hs1.cfg]
    exact if_neg hlen

/-- Two trackers with the same configuration. -/
def Alike (c c' : Changer) : Prop :=
  Tracked.Alike ⟨c.tracker.config,c.tracker.progress⟩ ⟨c'.tracker.config,c'.tracker.progress⟩

theorem checkAndCopy_alike (h : c.Alike c') (hc : c.checkAndCopy=.ok s) :
    ∃ s', c'.checkAndCopy=.ok s' ∧ Tracked.Alike s s' := by
  have hcopy : Tracked.Alike ⟨c.tracker.config.clone,c.tracker.progress⟩
      ⟨c'.tracker.config.clone,c'.tracker.progress⟩ :=
    ⟨congrArg TrackerConfig.clone h.cfg,h.tracked⟩
  exact hcopy.checkAndReturn hc

theorem simple_alike {ccs : List ConfChangeSingle} (h : c.Alike c') (hs : c.simple ccs=.ok s) :
    ∃ s', c'.simple ccs=.ok s' ∧ Tracked.Alike s s' := by
  obtain ⟨t,ht,hs⟩ := bind_eq_ok.mp hs
  obtain ⟨t',ht',halike⟩ := checkAndCopy_alike h ht
  split at hs
  · cases hs
  rename_i hjoint
  obtain ⟨t1,h1,hs⟩ := bind_eq_ok.mp hs
  obtain ⟨t1',h1',halike1⟩ : ∃ t1', c'.apply t' ccs=.ok t1' ∧ Tracked.Alike t1 t1' :=
    apply_alike halike h1
  split at hs
  · cases hs
  rename_i hdiff
  obtain ⟨s',hs',halike'⟩ := halike1.checkAndReturn hs
  have hcfg : c'.tracker.config=c.tracker.config := h.cfg
  refine ⟨s',bind_eq_ok.mpr ⟨t',ht',?_⟩,halike'⟩
  rw [halike.cfg,if_neg hjoint]
  refine bind_eq_ok.mpr ⟨t1',h1',?_⟩
  rw [hcfg,halike1.cfg,if_neg hdiff]
  exact hs'

theorem enterJoint_alike {autoLeave : Bool} {ccs : List ConfChangeSingle} (h : c.Alike c')
    (hs : c.enterJoint autoLeave ccs=.ok s) :
    ∃ s', c'.enterJoint autoLeave ccs=.ok s' ∧ Tracked.Alike s s' := by
  obtain ⟨t,ht,hs⟩ := bind_eq_ok.mp hs
  obtain ⟨t',ht',halike⟩ := checkAndCopy_alike h ht
  split at hs
  · cases hs
  rename_i hjoint
  split at hs
  · cases hs
  rename_i hlen
  obtain ⟨t1,h1,hs⟩ := bind_eq_ok.mp hs
  have hcopy : Tracked.Alike ⟨{ t.cfg with voters := { t.cfg.voters with
      outgoing := some (IdSet.ofList (MajorityConfig.slice t.cfg.voters.incoming)) } },t.prs⟩
      ⟨{ t.cfg with voters := { t.cfg.voters with
      outgoing := some (IdSet.ofList (MajorityConfig.slice t.cfg.voters.incoming)) } },t'.prs⟩ :=
    ⟨rfl,halike.tracked⟩
  obtain ⟨t1',h1',halike1⟩ : ∃ t1', c'.apply _ ccs=.ok t1' ∧ Tracked.Alike t1 t1' :=
    apply_alike hcopy h1
  have hauto : Tracked.Alike ⟨{ t1.cfg with autoLeave := autoLeave },t1.prs⟩
      ⟨{ t1.cfg with autoLeave := autoLeave },t1'.prs⟩ := ⟨rfl,halike1.tracked⟩
  obtain ⟨s',hs',halike'⟩ := hauto.checkAndReturn hs
  refine ⟨s',bind_eq_ok.mpr ⟨t',ht',?_⟩,halike'⟩
  rw [halike.cfg,if_neg hjoint,if_neg hlen]
  refine bind_eq_ok.mpr ⟨t1',h1',?_⟩
  rw [halike1.cfg]
  exact hs'

theorem chainSimple_alike {ccs : List ConfChangeSingle} {d : Changer} (h : c.Alike c')
    (hc : c.chainSimple ccs=.ok d) : ∃ d', c'.chainSimple ccs=.ok d' ∧ d.Alike d' := by
  refine foldlM_simulates (R := Alike) (fun cc b b' d hb hd => ?_) h hc
  obtain ⟨t,ht,hd⟩ := bind_eq_ok.mp hd
  cases hd
  obtain ⟨t',ht',halike⟩ := simple_alike hb ht
  exact ⟨_,bind_eq_ok.mpr ⟨t',ht',rfl⟩,halike⟩

/-- Whether a ConfState can be restored, and to which configuration, depends on nothing
else. -/
theorem restore_alike {cs : ConfState} (h : c.Alike c') (hr : c.restore cs=.ok t) :
    ∃ t', c'.restore cs=.ok t' ∧ Tracked.Alike t t' := by
  unfold restore at hr ⊢
  dsimp only at hr ⊢
  split at hr
  · rename_i hempty
    rw [if_pos hempty]
    obtain ⟨d,hd,hr⟩ := bind_eq_ok.mp hr
    cases hr
    obtain ⟨d',hd',halike⟩ := chainSimple_alike h hd
    exact ⟨_,bind_eq_ok.mpr ⟨d',hd',rfl⟩,halike⟩
  · rename_i hempty
    rw [if_neg hempty]
    obtain ⟨d,hd,hr⟩ := bind_eq_ok.mp hr
    obtain ⟨d',hd',halike⟩ := chainSimple_alike h hd
    obtain ⟨t',ht',halike'⟩ := enterJoint_alike halike hr
    exact ⟨t',bind_eq_ok.mpr ⟨d',hd',ht'⟩,halike'⟩

end Changer

end RaftTesting
