import RaftTesting.ConfChange.Formed

namespace RaftTesting

/-- Whether an id is tracked, and as what, follows from its place in the configuration. -/
theorem Role.tracked_eq {r r' : Role} (h : r.ok=true) (h' : r'.ok=true)
    (hin : r'.incoming=r.incoming) (hout : r'.outgoing=r.outgoing)
    (hlearn : r'.learner=r.learner) : r'.tracked=r.tracked := by
  simp only [ok,Bool.and_eq_true,decide_eq_true_eq] at h h'
  rw [h.1.1,h'.1.1,hin,hout,hlearn]

namespace Tracked

variable {t t' : Tracked}

/-- The configuration determines which progresses there are. -/
theorem Sound.alike (h : t.Sound) (h' : t'.Sound) (hcfg : t'.cfg=t.cfg) : Alike t t' := by
  refine ⟨hcfg,fun id => ?_⟩
  refine Role.tracked_eq (h.ok id) (h'.ok id) ?_ ?_ ?_ <;>
    simp only [role,hcfg]

end Tracked

namespace Changer

open Tracked

variable {c c' : Changer} {t t' : Tracked} {cc : ConfChangeV2}

theorem leaveJoint_alike (h : c.Alike c') (hg : c.Good) (hg' : c'.Good)
    (hl : c.leaveJoint=.ok t) (hl' : c'.leaveJoint=.ok t') : t'.cfg=t.cfg := by
  obtain ⟨-,rfl⟩ := (leaveJoint_ok hg).mp hl
  obtain ⟨-,rfl⟩ := (leaveJoint_ok hg').mp hl'
  refine hg'.left_sound.cfg_ext hg.left_sound (fun id => ?_) rfl rfl
  have hcopy : Tracked.Alike c.copied c'.copied :=
    ⟨congrArg TrackerConfig.clone h.cfg,h.tracked⟩
  rw [left_role,left_role,hcopy.role]

/-- A change leads from equal configurations to equal ones, whatever is known of the logs of
the members. -/
theorem change_cfg_eq [Raftpb] (hf : c.tracked.Formed) (hf' : c'.tracked.Formed)
    (hcfg : c'.tracker.config=c.tracker.config) (hc : c.change cc=.ok t)
    (hc' : c'.change cc=.ok t') : t'.cfg=t.cfg := by
  have halike : c.Alike c' := hf.sound.alike hf'.sound hcfg
  unfold change at hc hc'
  split at hc
  · rename_i hleave
    rw [if_pos hleave] at hc'
    exact leaveJoint_alike halike (.of_formed hf) (.of_formed hf') hc hc'
  · rename_i hleave
    rw [if_neg hleave] at hc'
    split at hc
    · rename_i autoLeave henter
      rw [henter] at hc'
      obtain ⟨s,hs,hsame⟩ := enterJoint_alike halike hc
      cases hs.symm.trans hc'
      exact hsame.cfg
    · rename_i henter
      rw [henter] at hc'
      obtain ⟨s,hs,hsame⟩ := simple_alike halike hc
      cases hs.symm.trans hc'
      exact hsame.cfg

theorem change_adjacent [Raftpb] (hc : c.change cc=.ok t) :
    c.tracker.config.voters.Adjacent t.cfg.voters := by
  unfold change at hc
  split at hc
  · exact (leaveJoint_adjacent hc).1
  · split at hc
    · exact (enterJoint_adjacent hc).1
    · exact (simple_adjacent hc).1

end Changer

end RaftTesting
