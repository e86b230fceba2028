import RaftTesting.ConfChange.Agreement
import RaftTesting.Protocol.Membership
import RaftTesting.Protocol.Wire

namespace RaftTesting

namespace Role

theorem replay_of_ne {id : Nat} {ccs : List ConfChangeSingle} (h : ∀ cc∈ccs, cc.nodeID≠id)
    (r : Role) : replay id ccs r=r := by
  induction ccs generalizing r with
  | nil => rfl
  | cons cc ccs ih =>
    have hcc : ¬(cc.nodeID=id ∧ id≠0) := fun hid => h cc List.mem_cons_self hid.1
    rw [replay_cons,if_neg hcc]
    exact ih (fun cc' hcc' => h cc' (List.mem_cons_of_mem cc hcc')) r

/-- The same change for every id of a list without repetitions. -/
theorem replay_map {id : Nat} (hid : id≠0) (ty : ConfChangeType) {l : List Nat} (hl : l.Nodup)
    (r : Role) :
    replay id (l.map (ConfChangeSingle.mk ty)) r=if id∈l then r.change ty else r := by
  induction l generalizing r with
  | nil => rfl
  | cons a l ih =>
    obtain ⟨ha,hl⟩ := List.nodup_cons.mp hl
    rw [List.map_cons,replay_cons,ih hl]
    by_cases hia : a=id
    · subst hia
      simp [ha,hid]
    · have hia' : id≠a := Ne.symm hia
      simp [hia,hia']

/-- The changes that Restore makes for an id of the given role, first the ones that build
the outgoing half. -/
def restored (r : Role) : Role :=
  let out := if r.outgoing then (absent.change .addNode).enter else absent
  let out := if r.outgoing then out.change .removeNode else out
  let out := if r.incoming then out.change .addNode else out
  let out := if r.learner then out.change .addLearnerNode else out
  if r.next then out.change .addLearnerNode else out

theorem restored_eq : ∀ r : Role, r.ok=true → r.restored=r := by decide

end Role

theorem symdiff_le_one {m m' : MajorityConfig} {k : Nat}
    (h : ∀ id, id≠k → MajorityConfig.has m id=MajorityConfig.has m' id) : symdiff m m'≤1 := by
  have hsub : (MajorityConfig.ids m \ MajorityConfig.ids m') ∪
      (MajorityConfig.ids m' \ MajorityConfig.ids m)⊆{k} := by
    intro id hid
    rw [Finset.mem_singleton]
    by_contra hne
    simp [h id hne] at hid
  have hdisj : Disjoint (MajorityConfig.ids m \ MajorityConfig.ids m')
      (MajorityConfig.ids m' \ MajorityConfig.ids m) := by
    rw [Finset.disjoint_left]
    intro id hid hid'
    simp only [Finset.mem_sdiff] at hid hid'
    exact hid.2 hid'.1
  have hcard := Finset.card_le_card hsub
  rw [Finset.card_union_of_disjoint hdisj,JointConfig.card_sdiff_ids,JointConfig.card_sdiff_ids,
    Finset.card_singleton] at hcard
  exact hcard

namespace Changer

variable {c c' : Changer} {cc : ConfChangeSingle} {ccs : List ConfChangeSingle}

/-- A single known change goes through outside of a joint configuration when it leaves
a voter. -/
theorem simple_total (h : c.Good) (hj : c.tracker.config.joint=false) (hcc : cc.Known)
    (id : Nat) (hid : (Role.replay id [cc] (c.tracked.role id)).incoming=true) :
    ∃ t, c.simple [cc]=.ok t := by
  obtain ⟨t,ht⟩ := applyOne_total (c := c) (t := c.copied) hcc
  have hall : [cc].foldlM c.applyOne c.copied=.ok t := bind_eq_ok.mpr ⟨t,ht,rfl⟩
  have hvoter : MajorityConfig.len t.cfg.voters.incoming≠0 := by
    intro hzero
    have hno := (MajorityConfig.len_eq_zero _).mp hzero id
    have hrole := congrArg Role.incoming (applyAll_role hall id)
    change MajorityConfig.has t.cfg.voters.incoming id=_ at hrole
    rw [hno] at hrole
    exact Bool.noConfusion (hrole.trans hid)
  refine ⟨t,(simple_ok h).mpr ⟨hj,apply_eq_ok.mpr ⟨hall,hvoter⟩,?_⟩⟩
  refine symdiff_le_one (k := cc.nodeID) (fun id hne => ?_)
  have hrole := applyOne_role ht id
  rw [if_neg (fun hid => hne hid.1.symm)] at hrole
  exact (congrArg Role.incoming hrole).symm

/-- A chain of known changes goes through when some voter is not concerned by any. -/
theorem chainSimple_total (h : c.Good) (hj : c.tracker.config.joint=false)
    (hknown : ∀ cc∈ccs, cc.Known) {id : Nat} (hid : (c.tracked.role id).incoming=true)
    (hstay : ∀ cc∈ccs, cc.nodeID≠id) : ∃ c', c.chainSimple ccs=.ok c' := by
  induction ccs generalizing c with
  | nil => exact ⟨c,rfl⟩
  | cons cc ccs ih =>
    have hkeep : Role.replay id [cc] (c.tracked.role id)=c.tracked.role id := by
      refine Role.replay_of_ne (fun cc' hcc' => hstay cc' ?_) _
      rw [List.mem_singleton.mp hcc']
      exact List.mem_cons_self
    obtain ⟨t,ht⟩ := simple_total h hj (hknown cc List.mem_cons_self) id (by rw [hkeep]; exact hid)
    have hone : c.chainSimple [cc]=.ok (c.withTracked t) :=
      bind_eq_ok.mpr ⟨_,bind_eq_ok.mpr ⟨t,ht,rfl⟩,rfl⟩
    obtain ⟨hgood,hj',-,hrole,-⟩ := chainSimple_spec h hj hone
    obtain ⟨c',hc'⟩ := ih hgood hj' (fun cc' hcc' => hknown cc' (List.mem_cons_of_mem cc hcc'))
      (by rw [hrole id,hkeep]; exact hid) (fun cc' hcc' => hstay cc' (List.mem_cons_of_mem cc hcc'))
    refine ⟨c',bind_eq_ok.mpr ⟨c.withTracked t,?_,hc'⟩⟩
    exact bind_eq_ok.mpr ⟨t,ht,rfl⟩

/-- The changer that Restore is called with: nothing is tracked yet. -/
def vacant (maxInflight lastIndex : Nat) : Changer := ⟨.makeProgressTracker maxInflight,lastIndex⟩

theorem vacant_role (maxInflight lastIndex id : Nat) :
    (vacant maxInflight lastIndex).tracked.role id=.absent := rfl

/-- A first voter is added, and no later change concerns it. -/
theorem vacant_chain (maxInflight lastIndex : Nat) {v : Nat} (hv : v≠0)
    (hknown : ∀ cc∈ccs, cc.Known) (hstay : ∀ cc∈ccs, cc.nodeID≠v) :
    ∃ c', (vacant maxInflight lastIndex).chainSimple (⟨.addNode,v⟩::ccs)=.ok c' := by
  have hgood : (vacant maxInflight lastIndex).Good := (Reached.empty maxInflight).good lastIndex
  have hadd : (Role.replay v [⟨.addNode,v⟩] .absent).incoming=true := by
    rw [Role.replay_cons,if_pos ⟨rfl,hv⟩]
    rfl
  have hcc : ConfChangeSingle.Known ⟨.addNode,v⟩ := .inr (fun _ => ConfChangeType.noConfusion)
  obtain ⟨t,ht⟩ := simple_total hgood rfl hcc v hadd
  have hone : (vacant maxInflight lastIndex).chainSimple [⟨.addNode,v⟩]=
      .ok ((vacant maxInflight lastIndex).withTracked t) :=
    bind_eq_ok.mpr ⟨_,bind_eq_ok.mpr ⟨t,ht,rfl⟩,rfl⟩
  obtain ⟨hgood',hj',-,hrole,-⟩ := chainSimple_spec hgood rfl hone
  have hvoter : (Changer.tracked ((vacant maxInflight lastIndex).withTracked t)).role v=
      Role.replay v [⟨.addNode,v⟩] .absent := hrole v
  obtain ⟨c',hc'⟩ := chainSimple_total hgood' hj' hknown (by rw [hvoter]; exact hadd) hstay
  exact ⟨c',bind_eq_ok.mpr ⟨_,bind_eq_ok.mpr ⟨t,ht,rfl⟩,hc'⟩⟩

/-- A reached configuration has a voter unless nothing has happened yet. -/
theorem Reached.voters {p : ProgressTracker} (h : Reached p) :
    MajorityConfig.len p.config.voters.incoming≠0 ∨
      ∃ maxInflight, p=.makeProgressTracker maxInflight := by
  induction h with
  | empty maxInflight => exact .inr ⟨maxInflight,rfl⟩
  | @perform p lastIndex op t hp hop ih =>
    left
    have hgood := hp.good lastIndex
    cases op with
    | simple ccs =>
      obtain ⟨-,happ,-⟩ := (simple_ok hgood).mp hop
      exact (apply_eq_ok.mp happ).2
    | enterJoint autoLeave ccs =>
      obtain ⟨-,-,t',happ,rfl⟩ := (enterJoint_ok hgood).mp hop
      exact (apply_eq_ok.mp happ).2
    | leaveJoint =>
      obtain ⟨hj,-⟩ := (leaveJoint_ok hgood).mp hop
      have heq := (leaveJoint_adjacent hop).2
      change MajorityConfig.len t.cfg.voters.incoming≠0
      rw [heq]
      rcases ih with hne | ⟨maxInflight,rfl⟩
      · exact hne
      · cases hj

variable {p : ProgressTracker}

/-- The changes that turn the outgoing half into the configuration give every id its role. -/
theorem restored_role (h : Reached p) (id : Nat) :
    Role.replay id (toConfChangeSingle p.confState).2
      (if MajorityConfig.has p.config.voters.outgoing id=true
        then (Role.absent.change .addNode).enter else .absent)=
      Tracked.role ⟨p.config,p.progress⟩ id := by
  have hgood := h.good 0
  by_cases hid : id=0
  · subst hid
    have hzero : Tracked.role ⟨p.config,p.progress⟩ 0=.absent := hgood.sound.zero
    have hout : MajorityConfig.has p.config.voters.outgoing 0=false := congrArg Role.outgoing hzero
    rw [hzero,Role.replay_zero,hout]
    rfl
  · have hrole := Role.restored_eq _ (hgood.sound.ok id)
    simp only [toConfChangeSingle,ProgressTracker.confState,Role.replay_append,
      Role.replay_map hid _ (MajorityConfig.slice_nodup _),MajorityConfig.mem_slice]
    exact hrole

theorem toConfChangeSingle_known (cs : ConfState) :
    (∀ cc∈(toConfChangeSingle cs).1, cc.Known) ∧ ∀ cc∈(toConfChangeSingle cs).2, cc.Known := by
  have hmap : ∀ ty, (∀ code, ty≠.unknown code) → ∀ l : List Nat,
      ∀ cc∈l.map (ConfChangeSingle.mk ty), cc.Known := by
    intro ty hty l cc hcc
    obtain ⟨id,-,rfl⟩ := List.mem_map.mp hcc
    exact .inr hty
  refine ⟨hmap _ (fun _ => ConfChangeType.noConfusion) _,fun cc hcc => ?_⟩
  simp only [toConfChangeSingle,List.mem_append] at hcc
  rcases hcc with ((hcc | hcc) | hcc) | hcc
  · exact hmap _ (fun _ => ConfChangeType.noConfusion) _ cc hcc
  · exact hmap _ (fun _ => ConfChangeType.noConfusion) _ cc hcc
  · exact hmap _ (fun _ => ConfChangeType.noConfusion) _ cc hcc
  · exact hmap _ (fun _ => ConfChangeType.noConfusion) _ cc hcc

theorem Reached.id_ne_zero (h : Reached p) {v : Nat}
    (hv : (Tracked.role ⟨p.config,p.progress⟩ v)≠.absent) : v≠0 := by
  rintro rfl
  exact hv (h.good 0).sound.zero

theorem Reached.plain (h : Reached p) (hj : p.config.joint=false) :
    p.config.voters.outgoing=none ∧ p.config.learnersNext=none ∧ p.config.autoLeave=false :=
  (h.good 0).settled hj

/-- Outside of a joint configuration the voters are added one by one, then the learners. -/
theorem restore_plain (h : Reached p) (hj : p.config.joint=false) (maxInflight lastIndex : Nat) :
    ∃ c', (vacant maxInflight lastIndex).chainSimple (toConfChangeSingle p.confState).2=.ok c' := by
  have hgood := h.good 0
  obtain ⟨hout,hnext,-⟩ := h.plain hj
  have hchanges : (toConfChangeSingle p.confState).2=
      (MajorityConfig.slice p.config.voters.incoming).map (ConfChangeSingle.mk .addNode)++
      (MajorityConfig.slice p.config.learners).map (ConfChangeSingle.mk .addLearnerNode) := by
    simp [toConfChangeSingle,ProgressTracker.confState,hout,hnext]
  have hknown := (toConfChangeSingle_known p.confState).2
  rw [hchanges] at hknown ⊢
  cases hv : MajorityConfig.slice p.config.voters.incoming with
  | nil =>
    rcases h.voters with hne | ⟨k,rfl⟩
    · exact absurd (congrArg List.length hv) hne
    · exact ⟨_,rfl⟩
  | cons v vs =>
    have hnodup := MajorityConfig.slice_nodup p.config.voters.incoming
    rw [hv] at hnodup hknown
    have hvoter : MajorityConfig.has p.config.voters.incoming v=true := by
      rw [← MajorityConfig.mem_slice,hv]
      exact List.mem_cons_self
    have hnolearner : MajorityConfig.has p.config.learners v≠true := by
      have hrole : ∀ r : Role, r.ok=true → r.incoming=true → r.learner≠true := by decide
      exact hrole _ (hgood.sound.ok v) hvoter
    refine vacant_chain maxInflight lastIndex (h.id_ne_zero (fun habs => ?_))
      (fun cc hcc => hknown cc (List.mem_cons_of_mem _ hcc)) (fun cc hcc => ?_)
    · have hno := congrArg Role.incoming habs
      exact Bool.noConfusion (hvoter.symm.trans hno)
    · rcases List.mem_append.mp hcc with hcc | hcc
      · obtain ⟨id,hid,rfl⟩ := List.mem_map.mp hcc
        rintro rfl
        exact (List.nodup_cons.mp hnodup).1 hid
      · obtain ⟨id,hid,rfl⟩ := List.mem_map.mp hcc
        rintro rfl
        exact hnolearner ((MajorityConfig.mem_slice _ _).mp hid)

theorem joint_len (hj : p.config.joint=true) : MajorityConfig.len p.config.voters.outgoing≠0 := by
  simp only [TrackerConfig.joint,decide_eq_true_eq] at hj
  omega

/-- The outgoing half is built first. -/
theorem restore_outgoing (h : Reached p) (hj : p.config.joint=true) (maxInflight lastIndex : Nat) :
    ∃ c', (vacant maxInflight lastIndex).chainSimple (toConfChangeSingle p.confState).1=.ok c' ∧
      MajorityConfig.len c'.tracker.config.voters.incoming≠0 := by
  have hgood := h.good 0
  change ∃ c', (vacant maxInflight lastIndex).chainSimple
    ((MajorityConfig.slice p.config.voters.outgoing).map (ConfChangeSingle.mk .addNode))=.ok c' ∧ _
  have hknown := (toConfChangeSingle_known p.confState).1
  change ∀ cc∈(MajorityConfig.slice p.config.voters.outgoing).map _, _ at hknown
  cases hv : MajorityConfig.slice p.config.voters.outgoing with
  | nil => exact absurd (congrArg List.length hv) (joint_len hj)
  | cons v vs =>
    have hnodup := MajorityConfig.slice_nodup p.config.voters.outgoing
    rw [hv] at hnodup hknown
    have hvoter : MajorityConfig.has p.config.voters.outgoing v=true := by
      rw [← MajorityConfig.mem_slice,hv]
      exact List.mem_cons_self
    have hzero : v≠0 := by
      refine h.id_ne_zero (fun habs => ?_)
      have hno := congrArg Role.outgoing habs
      exact Bool.noConfusion (hvoter.symm.trans hno)
    obtain ⟨c',hc'⟩ : ∃ c', (vacant maxInflight lastIndex).chainSimple
        (⟨.addNode,v⟩::vs.map (ConfChangeSingle.mk .addNode))=.ok c' := vacant_chain maxInflight
      lastIndex hzero (fun cc hcc => hknown cc (List.mem_cons_of_mem _ hcc)) (fun cc hcc => by
        obtain ⟨id,hid,rfl⟩ := List.mem_map.mp hcc
        rintro rfl
        exact (List.nodup_cons.mp hnodup).1 hid)
    refine ⟨c',hc',fun hno => ?_⟩
    obtain ⟨-,-,-,hrole,-⟩ := chainSimple_spec ((Reached.empty maxInflight).good lastIndex) rfl hc'
    have hin : (c'.tracked.role v).incoming=true := by
      have hrep : Role.replay v ((v::vs).map (ConfChangeSingle.mk .addNode)) .absent=
          Role.absent.change .addNode := by
        rw [Role.replay_map hzero _ hnodup,if_pos List.mem_cons_self]
      exact congrArg Role.incoming ((hrole v).trans hrep)
    have hfalse := (MajorityConfig.len_eq_zero _).mp hno v
    exact Bool.noConfusion (hin.symm.trans hfalse)

/-- The roles with which the joint configuration is entered. -/
theorem entered_outgoing (h : Reached p) {maxInflight lastIndex : Nat}
    (hc' : (vacant maxInflight lastIndex).chainSimple (toConfChangeSingle p.confState).1=.ok c')
    (id : Nat) : (c'.copied.role id).enter=
      if MajorityConfig.has p.config.voters.outgoing id=true
        then (Role.absent.change .addNode).enter else .absent := by
  obtain ⟨-,-,-,hrole,-⟩ := chainSimple_spec ((Reached.empty maxInflight).good lastIndex) rfl hc'
  have hid : c'.copied.role id=Role.replay id (toConfChangeSingle p.confState).1 .absent := hrole id
  rw [hid]
  by_cases hzero : id=0
  · subst hzero
    have hout : MajorityConfig.has p.config.voters.outgoing 0=false :=
      congrArg Role.outgoing (h.good 0).sound.zero
    rw [Role.replay_zero,hout]
    rfl
  · change (Role.replay id ((MajorityConfig.slice p.config.voters.outgoing).map _) _).enter=_
    rw [Role.replay_map hzero _ (MajorityConfig.slice_nodup _)]
    simp only [MajorityConfig.mem_slice]
    exact apply_ite Role.enter _ _ _

theorem restore_eq (c : Changer) (cs : ConfState) : c.restore cs=
    if (toConfChangeSingle cs).1.isEmpty then (do
      let c ← c.chainSimple (toConfChangeSingle cs).2
      .ok c.tracked)
    else (do
      let c ← c.chainSimple (toConfChangeSingle cs).1
      c.enterJoint cs.autoLeave (toConfChangeSingle cs).2) := rfl

/-- Restore rebuilds the configuration from its ConfState. -/
theorem restore_confState (h : Reached p) (maxInflight lastIndex : Nat) :
    ∃ t, (vacant maxInflight lastIndex).restore p.confState=.ok t ∧ t.cfg=p.config ∧
      ∀ id, (t.prs.get? id).map (·.isLearner)=(p.progress.get? id).map (·.isLearner) := by
  have hgood := h.good 0
  have hvacant : (vacant maxInflight lastIndex).Good := (Reached.empty maxInflight).good lastIndex
  rw [restore_eq]
  cases hj : p.config.joint with
  | false =>
    obtain ⟨hout,-,hauto⟩ := h.plain hj
    have hnone : (toConfChangeSingle p.confState).1=[] := by
      simp [toConfChangeSingle,ProgressTracker.confState,hout]
    obtain ⟨c',hc'⟩ := restore_plain h hj maxInflight lastIndex
    obtain ⟨hgood',hj',-,hrole,-⟩ := chainSimple_spec hvacant rfl hc'
    have hroles : ∀ id, c'.tracked.role id=Tracked.role ⟨p.config,p.progress⟩ id := by
      intro id
      rw [hrole id,← restored_role h id,vacant_role,hout]
      rfl
    refine ⟨c'.tracked,?_,?_,fun id => congrArg Role.tracked (hroles id)⟩
    · rw [hnone,if_pos List.isEmpty_nil]
      exact bind_eq_ok.mpr ⟨c',hc',rfl⟩
    · refine hgood'.sound.cfg_ext hgood.sound hroles ?_ ?_
      · exact (hgood'.settled hj').1.trans hout.symm
      · exact (hgood'.settled hj').2.2.trans hauto.symm
  | true =>
    obtain ⟨c',hc',hlen⟩ := restore_outgoing h hj maxInflight lastIndex
    obtain ⟨hgood',hj',-,hrole,-⟩ := chainSimple_spec hvacant rfl hc'
    obtain ⟨t,hall⟩ := applyAll_total (c := c') (t := c'.entered)
      (toConfChangeSingle_known p.confState).2
    have hroles : ∀ id, t.role id=Tracked.role ⟨p.config,p.progress⟩ id := by
      intro id
      rw [applyAll_role hall,entered_role,← restored_role h id]
      exact congrArg (Role.replay id _) (entered_outgoing h hc' id)
    have hvoters : MajorityConfig.len t.cfg.voters.incoming≠0 := by
      rcases h.voters with hne | ⟨k,rfl⟩
      · exact len_ne_zero_congr (fun id => (congrArg Role.incoming (hroles id)).symm) hne
      · cases hj
    have henter : c'.enterJoint p.config.autoLeave (toConfChangeSingle p.confState).2=
        .ok ⟨{ t.cfg with autoLeave := p.config.autoLeave },t.prs⟩ :=
      (enterJoint_ok hgood').mpr ⟨hj',hlen,t,apply_eq_ok.mpr ⟨hall,hvoters⟩,rfl⟩
    refine ⟨⟨{ t.cfg with autoLeave := p.config.autoLeave },t.prs⟩,?_,?_,
      fun id => congrArg Role.tracked (hroles id)⟩
    · have hsome : ¬(toConfChangeSingle p.confState).1.isEmpty=true := by
        intro hnone
        rw [List.isEmpty_iff] at hnone
        exact joint_len hj (congrArg List.length (List.map_eq_nil_iff.mp hnone))
      rw [if_neg hsome]
      exact bind_eq_ok.mpr ⟨c',hc',henter⟩
    · have hsound := (hgood'.perform (.enterJoint _ _) henter).1
      refine hsound.cfg_ext hgood.sound hroles ?_ rfl
      have hout : t.cfg.voters.outgoing=c'.entered.cfg.voters.outgoing :=
        (applyAll_changed hall).outgoing
      obtain ⟨s,hs⟩ : ∃ s, p.config.voters.outgoing=some s := by
        refine Option.ne_none_iff_exists'.mp (fun hnone => joint_len hj ?_)
        rw [hnone]
        rfl
      change t.cfg.voters.outgoing=p.config.voters.outgoing
      rw [hout,hs]
      refine congrArg some (IdSet.contains_ext (fun id => ?_))
      have hid := congrArg Role.outgoing (hroles id)
      change MajorityConfig.has t.cfg.voters.outgoing id=
        MajorityConfig.has p.config.voters.outgoing id at hid
      rw [hout,hs] at hid
      exact hid

end Changer

section

variable [Raftpb]

/-- A follower without a configuration installs the one that the ConfState describes. -/
theorem Raft.restoreConfig_reached {p : ProgressTracker} (h : Changer.Reached p) {r : Raft}
    {maxInflight : Nat} (hprs : r.prs=.makeProgressTracker maxInflight)
    (hstate : r.state=.stateFollower) :
    ∃ t, r.restoreConfig p.confState=.ok (r.installConfig t) ∧ t.cfg=p.config ∧
      ∀ id, (t.prs.get? id).map (·.isLearner)=(p.progress.get? id).map (·.isLearner) := by
  obtain ⟨t,ht,hcfg,htracked⟩ := Changer.restore_confState h maxInflight r.raftLog.lastIndex
  have hrestore : Changer.restore ⟨r.prs,r.raftLog.lastIndex⟩ p.confState=.ok t := by
    rw [hprs]
    exact ht
  have hcs : (r.installConfig t).prs.confState=p.confState := by
    simp [installConfig,ProgressTracker.confState,hcfg]
  have hswitch : r.switchToConfig t=.ok (r.installConfig t,p.confState) := by
    have hfollower : (r.installConfig t).state≠.stateLeader := by
      change r.state≠.stateLeader
      rw [hstate]
      exact StateType.noConfusion
    simp [switchToConfig,hfollower,hcs]
  refine ⟨t,?_,hcfg,htracked⟩
  unfold restoreConfig
  rw [hrestore]
  change (r.switchToConfig t >>= _)=_
  rw [hswitch]
  exact if_pos ((Raftpb.equivalent_iff _ _).mpr (.refl p.confState))

/-- A follower without a configuration takes the ConfState over. -/
theorem Raft.restoreConfig_confState {p : ProgressTracker} (h : Changer.Reached p) {r : Raft}
    {maxInflight : Nat} (hprs : r.prs=.makeProgressTracker maxInflight)
    (hstate : r.state=.stateFollower) :
    ∃ r', r.restoreConfig p.confState=.ok r' ∧ r'.prs.confState=p.confState := by
  obtain ⟨t,ht,hcfg,-⟩ := restoreConfig_reached h hprs hstate
  refine ⟨_,ht,?_⟩
  simp [installConfig,ProgressTracker.confState,hcfg]

end

namespace Changer

/-- The ConfState of a reached configuration brings it back, and no node that is given it
at its start or in a snapshot finds its own configuration to be another one. -/
theorem confState_roundTrip [Raftpb] {p : ProgressTracker} (h : Reached p)
    (maxInflight lastIndex : Nat) :
    (∃ t, restore ⟨.makeProgressTracker maxInflight,lastIndex⟩ p.confState=.ok t ∧
      t.cfg=p.config ∧
      (∀ id, (t.prs.get? id).map (·.isLearner)=(p.progress.get? id).map (·.isLearner)) ∧
      (withTracked ⟨.makeProgressTracker maxInflight,lastIndex⟩ t).tracker.confState=p.confState) ∧
    ∀ r : Raft, r.prs=.makeProgressTracker maxInflight → r.state=.stateFollower →
      ∃ r', r.restoreConfig p.confState=.ok r' ∧ r'.prs.confState=p.confState := by
  obtain ⟨t,ht,hcfg,htracked⟩ := restore_confState h maxInflight lastIndex
  refine ⟨⟨t,ht,hcfg,htracked,?_⟩,fun r => Raft.restoreConfig_confState h⟩
  simp [withTracked,ProgressTracker.confState,hcfg]

section

local instance : Raftpb := Wire.small

/-- A joint configuration with a staged learner. -/
theorem confState_roundTrip_staged : ∃ p, Reached p ∧
    p.confState={
      voters := [2]
      votersOutgoing := [1]
      learnersNext := [1]
      autoLeave := true } ∧
    (∃ t, restore ⟨.makeProgressTracker 256,7⟩ p.confState=.ok t ∧ t.cfg=p.config ∧
      (∀ id, (t.prs.get? id).map (·.isLearner)=(p.progress.get? id).map (·.isLearner)) ∧
      (withTracked ⟨.makeProgressTracker 256,7⟩ t).tracker.confState=p.confState) ∧
    ∀ r : Raft, r.prs=.makeProgressTracker 256 → r.state=.stateFollower →
      ∃ r', r.restoreConfig p.confState=.ok r' ∧ r'.prs.confState=p.confState := by
  have hone : Reached _ := @Reached.perform _ 1 (.simple [⟨.addNode,1⟩]) _ (.empty 256) rfl
  have htwo : Reached _ := @Reached.perform _ 2
    (.enterJoint true [⟨.addNode,2⟩,⟨.addLearnerNode,1⟩]) _ hone rfl
  exact ⟨_,htwo,by decide,confState_roundTrip htwo 256 7⟩

end

end Changer

end RaftTesting
