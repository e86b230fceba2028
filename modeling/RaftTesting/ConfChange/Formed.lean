import RaftTesting.ConfChange.Alike
import RaftTesting.ConfChange.RoundTrip

namespace RaftTesting

namespace Role

/-- Whether an id is a voter after some changes does not depend on entering a joint
configuration before them. -/
theorem replay_enter_incoming (id : Nat) (ccs : List ConfChangeSingle) (r : Role)
    (h : r.ok=true) (ho : r.outgoing=false) :
    (replay id ccs r.enter).incoming=(replay id ccs r).incoming := by
  have hleave := leave_replay id ccs r.enter (enter_ok r h ho)
  rw [leave_enter r h ho] at hleave
  change (replay id ccs r.enter).leave.incoming=_
  rw [hleave]

end Role

namespace Tracked

/-- A configuration as the operations leave it: a member has a proper role, and there is a
voter as soon as there is a member. -/
structure Formed (t : Tracked) : Prop where
  sound : t.Sound
  settled : t.Settled
  voters : MajorityConfig.len t.cfg.voters.incoming≠0 ∨ ∀ id, (t.role id).tracked=none

variable {t t' : Tracked}

theorem Formed.alike (h : t.Formed) (ha : Alike t t') : t'.Formed := by
  obtain ⟨⟨⟨hin,hlearn,hnext⟩,hok,hzero⟩,hset,hvot⟩ := h
  have hrole := ha.role
  refine ⟨⟨⟨?_,?_,?_⟩,fun id => ?_,?_⟩,?_,?_⟩
  · rw [ha.cfg]
    exact hin
  · rw [ha.cfg]
    exact hlearn
  · rw [ha.cfg]
    exact hnext
  · rw [hrole id]
    exact hok id
  · rw [hrole 0]
    exact hzero
  · unfold Settled
    rw [ha.cfg]
    exact hset
  · rw [ha.cfg]
    refine hvot.imp_right (fun hnone id => ?_)
    rw [hrole id]
    exact hnone id

end Tracked

namespace Changer

variable {c c' : Changer} {t t' : Tracked} {cc : ConfChangeV2} {ccs : List ConfChangeSingle}

theorem Good.of_formed (h : c.tracked.Formed) : c.Good := ⟨h.sound,h.settled⟩

/-- Every operation leaves a voter. -/
theorem formed_perform (h : c.tracked.Formed) (op : Operation) (hop : c.perform op=.ok t) :
    t.Formed ∧ MajorityConfig.len t.cfg.voters.incoming≠0 := by
  have hgood := Good.of_formed h
  obtain ⟨hsound,hsettled⟩ := hgood.perform op hop
  have hvoters : MajorityConfig.len t.cfg.voters.incoming≠0 := by
    cases op with
    | simple ccs =>
      obtain ⟨-,happ,-⟩ := (simple_ok hgood).mp hop
      exact (apply_eq_ok.mp happ).2
    | enterJoint autoLeave ccs =>
      obtain ⟨-,-,t',happ,rfl⟩ := (enterJoint_ok hgood).mp hop
      exact (apply_eq_ok.mp happ).2
    | leaveJoint =>
      obtain ⟨hj,-⟩ := (leaveJoint_ok hgood).mp hop
      rw [(leaveJoint_adjacent hop).2]
      rcases h.voters with hne | hnone
      · exact hne
      · -- an outgoing voter would be tracked
        have hlen : MajorityConfig.len c.tracked.cfg.voters.outgoing≠0 := joint_len hj
        have hmember : ∀ r : Role, r.ok=true → r.tracked=none → r.outgoing=false := by decide
        refine absurd ((MajorityConfig.len_eq_zero _).mpr (fun id => ?_)) hlen
        exact hmember _ (h.sound.ok id) (hnone id)
  exact ⟨⟨hsound,hsettled,.inl hvoters⟩,hvoters⟩

theorem formed_change [Raftpb] (h : c.tracked.Formed) (hch : c.change cc=.ok t) :
    t.Formed ∧ MajorityConfig.len t.cfg.voters.incoming≠0 := by
  unfold change at hch
  split at hch
  · exact formed_perform h .leaveJoint hch
  · split at hch
    · exact formed_perform h (.enterJoint _ _) hch
    · exact formed_perform h (.simple _) hch

theorem formed_chainSimple (h : c.tracked.Formed) (hch : c.chainSimple ccs=.ok c') :
    c'.tracked.Formed := by
  refine foldlM_rel (R := fun c c' : Changer => c.tracked.Formed → c'.tracked.Formed)
    (fun _ h => h) (fun _ _ _ h h' hc => h' (h hc)) (fun cc _ a b hab ha => ?_) hch h
  obtain ⟨t,ht,hab⟩ := bind_eq_ok.mp hab
  cases hab
  exact (formed_perform ha (.simple [cc]) ht).1

theorem formed_empty (maxInflight lastIndex : Nat) : (vacant maxInflight lastIndex).tracked.Formed := by
  obtain ⟨hsound,hsettled⟩ := (Reached.empty maxInflight).good lastIndex
  refine ⟨hsound,hsettled,.inr (fun id => ?_)⟩
  exact congrArg Role.tracked (vacant_role maxInflight lastIndex id)

theorem formed_restore {cs : ConfState} {maxInflight lastIndex : Nat}
    (h : (vacant maxInflight lastIndex).restore cs=.ok t) : t.Formed := by
  have hempty := formed_empty maxInflight lastIndex
  rw [restore_eq] at h
  split_ifs at h
  · obtain ⟨c1,h1,h⟩ := bind_eq_ok.mp h
    cases h
    exact formed_chainSimple hempty h1
  · obtain ⟨c1,h1,h⟩ := bind_eq_ok.mp h
    exact (formed_perform (formed_chainSimple hempty h1) (.enterJoint _ _) h).1

/-- Known changes fail only if they leave no voter. -/
theorem apply_iff (hknown : ∀ cc∈ccs, cc.Known) : (∃ t', c.apply t ccs=.ok t') ↔
    ∃ id, (Role.replay id ccs (t.role id)).incoming=true := by
  obtain ⟨t1,hall⟩ := applyAll_total (c := c) (t := t) hknown
  have hrole : ∀ id, MajorityConfig.has t1.cfg.voters.incoming id=
      (Role.replay id ccs (t.role id)).incoming :=
    fun id => congrArg Role.incoming (applyAll_role hall id)
  constructor
  · rintro ⟨t',h⟩
    obtain ⟨hall',hne⟩ := apply_eq_ok.mp h
    cases hall.symm.trans hall'
    by_contra hno
    refine hne ((MajorityConfig.len_eq_zero _).mpr (fun id => ?_))
    rw [hrole id,Bool.eq_false_iff]
    exact fun hid => hno ⟨id,hid⟩
  · rintro ⟨id,hid⟩
    refine ⟨t1,apply_eq_ok.mpr ⟨hall,fun hzero => ?_⟩⟩
    have hno := (MajorityConfig.len_eq_zero _).mp hzero id
    rw [hrole id,hid] at hno
    cases hno

/-- A change of the defined types that a leader lets through, a change to leave a joint
configuration in one and any other outside of one, goes through unless it leaves no voter or
asks to leave with a transition of its own. -/
theorem change_iff [Raftpb] (h : c.tracked.Formed)
    (hv : MajorityConfig.len c.tracker.config.voters.incoming≠0)
    (hknown : ∀ s∈cc.changes, s.Known) (hacc : c.tracker.config.joint=cc.changes.isEmpty) :
    (∃ t, c.change cc=.ok t) ↔ Raftpb.leaveJoint cc=true ∨ cc.changes≠[] ∧
      ∃ id, (Role.replay id cc.changes (c.tracked.role id)).incoming=true := by
  have hgood := Good.of_formed h
  unfold change
  by_cases hleave : Raftpb.leaveJoint cc=true
  · have hempty : cc.changes.isEmpty=true :=
      List.isEmpty_iff.mpr ((Raftpb.leaveJoint_iff cc).mp hleave).2
    rw [if_pos hleave]
    exact ⟨fun _ => .inl hleave,fun _ => ⟨c.left,(leaveJoint_ok hgood).mpr ⟨hacc.trans hempty,rfl⟩⟩⟩
  rw [if_neg hleave]
  by_cases hnil : cc.changes=[]
  · -- the change is empty, but it goes through a joint configuration
    have hjoint : c.tracker.config.joint=true := by
      rw [hacc,hnil]
      rfl
    have htrans : cc.transition≠.auto :=
      fun hauto => hleave ((Raftpb.leaveJoint_iff cc).mpr ⟨hauto,hnil⟩)
    have henter : Raftpb.enterJoint cc=some (decide (cc.transition≠.jointExplicit)) :=
      (Raftpb.enterJoint_eq cc).trans (if_pos (.inl htrans))
    rw [henter]
    refine ⟨fun ⟨t,ht⟩ => ?_,fun hor => ?_⟩
    · obtain ⟨hno,-⟩ := (enterJoint_ok hgood).mp ht
      have hno : c.tracker.config.joint=false := hno
      rw [hjoint] at hno
      cases hno
    · rcases hor with hl | ⟨hne,-⟩
      · exact absurd hl hleave
      · exact absurd hnil hne
  have hjoint : c.tracker.config.joint=false := by
    rw [hacc]
    cases hc : cc.changes with
    | nil => exact absurd hc hnil
    | cons => rfl
  have hrhs : (Raftpb.leaveJoint cc=true ∨ cc.changes≠[] ∧
      ∃ id, (Role.replay id cc.changes (c.tracked.role id)).incoming=true) ↔
      ∃ id, (Role.replay id cc.changes (c.tracked.role id)).incoming=true :=
    ⟨fun hor => (hor.resolve_left hleave).2,fun hid => .inr ⟨hnil,hid⟩⟩
  rw [hrhs]
  cases henter : Raftpb.enterJoint cc with
  | some autoLeave =>
    dsimp only
    have happ := apply_iff (c := c) (t := c.entered) hknown
    have hsame : ∀ id, (Role.replay id cc.changes (c.entered.role id)).incoming=
        (Role.replay id cc.changes (c.tracked.role id)).incoming := by
      intro id
      rw [entered_role]
      exact Role.replay_enter_incoming id _ _ (hgood.copied_sound.ok id) (hgood.outgoing_role hjoint id)
    simp only [hsame] at happ
    rw [← happ]
    constructor
    · rintro ⟨t,ht⟩
      obtain ⟨-,-,t',happ',-⟩ := (enterJoint_ok hgood).mp ht
      exact ⟨t',happ'⟩
    · rintro ⟨t',ht'⟩
      exact ⟨_,(enterJoint_ok hgood).mpr ⟨hjoint,hv,t',ht',rfl⟩⟩
  | none =>
    dsimp only
    obtain ⟨s,hs⟩ : ∃ s, cc.changes=[s] := by
      rw [Raftpb.enterJoint_eq] at henter
      split_ifs at henter with hc
      have hlen := Nat.not_lt.mp (not_or.mp hc).2
      exact List.length_eq_one_iff.mp (Nat.le_antisymm hlen (List.length_pos_of_ne_nil hnil))
    rw [hs] at hknown ⊢
    constructor
    · rintro ⟨t,ht⟩
      obtain ⟨-,happ,-⟩ := (simple_ok hgood).mp ht
      exact (apply_iff (c := c) (t := c.copied) hknown).mp ⟨t,happ⟩
    · rintro ⟨id,hid⟩
      exact simple_total hgood hjoint (hknown s (List.mem_singleton_self s)) id hid

end Changer

end RaftTesting
