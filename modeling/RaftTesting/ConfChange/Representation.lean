import RaftTesting.ConfChange.Restore
import RaftTesting.ConfChange.Role

namespace RaftTesting

/-- No empty map stands in for nil. -/
def Tight (m : Option IdSet) : Prop := m≠some ∅

namespace Tight

theorem none : Tight none := (Option.some_ne_none _).symm

theorem nilAwareAdd (m : Option IdSet) (id : Nat) : Tight (nilAwareAdd m id) := by
  intro h
  have hhas : MajorityConfig.has (RaftTesting.nilAwareAdd m id) id=true := by simp
  rw [h] at hhas
  cases hhas

theorem nilAwareDelete {m : Option IdSet} (id : Nat) : Tight (nilAwareDelete m id) := by
  cases m with
  | none => exact .none
  | some s =>
    simp only [RaftTesting.nilAwareDelete,size_eq_zero]
    split_ifs with h
    · exact .none
    · exact fun heq => h (Option.some.inj heq)

/-- A tight map is determined by its members. -/
theorem ext {m m' : Option IdSet} (h : Tight m) (h' : Tight m')
    (he : ∀ id, MajorityConfig.has m id=MajorityConfig.has m' id) : m=m' := by
  have hempty : ∀ s : IdSet, (∀ id, s.contains id=false) → s=∅ :=
    fun s hs => IdSet.contains_ext (fun id => hs id)
  cases m with
  | none =>
    cases m' with
    | none => rfl
    | some s => exact absurd (congrArg some (hempty s (fun id => (he id).symm))) h'
  | some s =>
    cases m' with
    | none => exact absurd (congrArg some (hempty s he)) h
    | some s' => exact congrArg some (IdSet.contains_ext he)

theorem eq_none {m : Option IdSet} (h : Tight m) (he : ∀ id, MajorityConfig.has m id=false) :
    m=Option.none := h.ext .none he

end Tight

namespace Tracked

/-- The maps of a configuration are as the Changer leaves them: the incoming voters are
never nil, the learners never empty. -/
structure Shape (t : Tracked) : Prop where
  incoming : t.cfg.voters.incoming≠none
  learners : Tight t.cfg.learners
  learnersNext : Tight t.cfg.learnersNext

/-- Every id has a proper role, and zero has none. -/
structure Sound (t : Tracked) : Prop extends t.Shape where
  ok : ∀ id, (t.role id).ok=true
  zero : t.role 0=.absent

/-- Outside of a joint configuration nothing of one is left. -/
def Settled (t : Tracked) : Prop :=
  t.cfg.joint=false →
    t.cfg.voters.outgoing=none ∧ t.cfg.learnersNext=none ∧ t.cfg.autoLeave=false

variable {t t' : Tracked}

theorem checkProgress_ok {ids : List Nat} (h : ∀ id∈ids, (t.role id).tracked≠none) :
    t.checkProgress ids=.ok () := by
  have hfind : ids.find? (fun id => t.noProgress id)=none := by
    rw [List.find?_eq_none]
    intro id hid hno
    apply h id hid
    simp only [noProgress,Option.isNone_iff_eq_none] at hno
    simp [role,hno]
  simp [checkProgress,hfind]

theorem isLearner_eq (t : Tracked) (id : Nat) : t.isLearner id=(t.role id).tracked.getD false := rfl

theorem forM_ok {l : List Nat} {f : Nat → Except ConfErr Unit} (h : ∀ a∈l, f a=.ok ()) :
    l.forM f=.ok () := by
  induction l with
  | nil => rfl
  | cons a l ih =>
    have htail := ih (fun b hb => h b (List.mem_cons_of_mem a hb))
    change (f a >>= fun _ => l.forM f)=.ok ()
    rw [h a List.mem_cons_self]
    exact htail

theorem Sound.checkLearnersNext_ok (h : t.Sound) {id : Nat}
    (hid : MajorityConfig.has t.cfg.learnersNext id=true) : t.checkLearnersNext id=.ok () := by
  have hrole : ∀ r : Role, r.ok=true → r.next=true →
      r.outgoing=true ∧ r.tracked.getD false=false := by decide
  obtain ⟨hout,hmark⟩ := hrole _ (h.ok id) hid
  rw [checkLearnersNext,isLearner_eq,hmark]
  change (if (!(t.role id).outgoing)=true then _ else _)=_
  rw [hout]
  rfl

theorem Sound.checkLearners_ok (h : t.Sound) {id : Nat}
    (hid : MajorityConfig.has t.cfg.learners id=true) : t.checkLearners id=.ok () := by
  have hrole : ∀ r : Role, r.ok=true → r.learner=true →
      r.outgoing=false ∧ r.incoming=false ∧ r.tracked.getD false=true := by decide
  obtain ⟨hout,hin,hmark⟩ := hrole _ (h.ok id) hid
  rw [checkLearners,isLearner_eq,hmark]
  change (if (t.role id).outgoing=true then _ else if (t.role id).incoming=true then _ else _)=_
  rw [hout,hin]
  rfl

theorem Settled.checkNonJoint_ok (h : t.Settled) : t.checkNonJoint=.ok () := by
  unfold checkNonJoint
  cases hj : t.cfg.joint with
  | true => rfl
  | false =>
    obtain ⟨hout,hnext,hauto⟩ := h hj
    simp [hout,hnext,hauto]

/-- The check at the end of every operation passes. -/
theorem Sound.checkAndReturn_ok (h : t.Sound) (hs : t.Settled) : t.checkAndReturn=.ok t := by
  have hvoters : ∀ id∈t.cfg.voters.ids.keys, (t.role id).tracked≠none := by
    have hrole : ∀ r : Role, r.ok=true → (r.incoming || r.outgoing)=true → r.tracked≠none := by
      decide
    intro id hid
    rw [IdSet.mem_keys_contains,JointConfig.contains_ids] at hid
    exact hrole _ (h.ok id) hid
  have hlearners : ∀ id∈MajorityConfig.slice t.cfg.learners, (t.role id).tracked≠none := by
    have hrole : ∀ r : Role, r.ok=true → r.learner=true → r.tracked≠none := by decide
    intro id hid
    exact hrole _ (h.ok id) ((MajorityConfig.mem_slice _ _).mp hid)
  have hnext : ∀ id∈MajorityConfig.slice t.cfg.learnersNext, (t.role id).tracked≠none := by
    have hrole : ∀ r : Role, r.ok=true → r.next=true → r.tracked≠none := by decide
    intro id hid
    exact hrole _ (h.ok id) ((MajorityConfig.mem_slice _ _).mp hid)
  have hcheck : t.checkInvariants=.ok () := by
    unfold checkInvariants
    rw [checkProgress_ok hvoters,checkProgress_ok hlearners,checkProgress_ok hnext]
    have h1 := forM_ok (fun id hid => h.checkLearnersNext_ok ((MajorityConfig.mem_slice _ id).mp hid))
    have h2 := forM_ok (fun id hid => h.checkLearners_ok ((MajorityConfig.mem_slice _ id).mp hid))
    change (List.forM _ _ >>= fun _ => List.forM _ _ >>= fun _ => t.checkNonJoint)=_
    rw [h1,h2,hs.checkNonJoint_ok]
    rfl
  unfold checkAndReturn
  rw [hcheck]
  rfl

/-- What single changes keep, beside the roles. -/
structure Changed (t t' : Tracked) : Prop where
  outgoing : t'.cfg.voters.outgoing=t.cfg.voters.outgoing
  autoLeave : t'.cfg.autoLeave=t.cfg.autoLeave
  shape : t.Shape → t'.Shape

theorem Changed.refl (t : Tracked) : Changed t t := ⟨rfl,rfl,id⟩

theorem Changed.trans {t t' t'' : Tracked} (h : Changed t t') (h' : Changed t' t'') :
    Changed t t'' :=
  ⟨h'.outgoing.trans h.outgoing,h'.autoLeave.trans h.autoLeave,fun hs => h'.shape (h.shape hs)⟩

end Tracked

namespace Changer

open Tracked

theorem makeVoter_changed (c : Changer) (t : Tracked) (id : Nat) : Changed t (c.makeVoter t id) := by
  unfold makeVoter
  split
  · refine ⟨rfl,rfl,fun h => ⟨Option.some_ne_none _,h.learners,h.learnersNext⟩⟩
  · refine ⟨?_,?_,fun h => ⟨Option.some_ne_none _,.nilAwareDelete id,.nilAwareDelete id⟩⟩
    · simp only [TrackerConfig.addIncoming,setLearner_cfg]
    · simp only [TrackerConfig.addIncoming,setLearner_cfg]

theorem remove_changed (t : Tracked) (id : Nat) : Changed t (remove t id) := by
  unfold remove
  split
  · exact .refl t
  · have hshape : t.Shape → t.cfg.voters.incoming.map (fun s => s.erase id)≠none :=
      fun h hnone => h.incoming (Option.map_eq_none_iff.mp hnone)
    dsimp only
    split
    · exact ⟨rfl,rfl,fun h => ⟨hshape h,.nilAwareDelete id,.nilAwareDelete id⟩⟩
    · exact ⟨rfl,rfl,fun h => ⟨hshape h,.nilAwareDelete id,.nilAwareDelete id⟩⟩

theorem makeLearner_changed (c : Changer) (t : Tracked) (id : Nat) :
    Changed t (c.makeLearner t id) := by
  unfold makeLearner
  split
  · exact ⟨rfl,rfl,fun h => ⟨h.incoming,.nilAwareAdd _ _,h.learnersNext⟩⟩
  · split
    · exact .refl t
    · refine (remove_changed t id).trans ?_
      dsimp only
      split
      · exact ⟨rfl,rfl,fun h => ⟨h.incoming,h.learners,.nilAwareAdd _ _⟩⟩
      · exact ⟨rfl,rfl,fun h => ⟨h.incoming,.nilAwareAdd _ _,h.learnersNext⟩⟩

variable {c : Changer} {t t' : Tracked} {ccs : List ConfChangeSingle}

theorem applyOne_changed {cc : ConfChangeSingle} (h : c.applyOne t cc=.ok t') : Changed t t' := by
  unfold applyOne at h
  split at h
  · cases h
    exact .refl t
  · split at h <;> cases h
    · exact makeVoter_changed c t _
    · exact makeLearner_changed c t _
    · exact remove_changed t _
    · exact .refl t

theorem applyAll_changed (h : ccs.foldlM c.applyOne t=.ok t') : Changed t t' :=
  foldlM_rel (R := Changed) .refl (fun _ _ _ => .trans) (fun _ _ _ _ => applyOne_changed) h

theorem applyAll_sound (ht : t.Sound) (h : ccs.foldlM c.applyOne t=.ok t') : t'.Sound where
  toShape := (applyAll_changed h).shape ht.toShape
  ok := by
    intro id
    rw [applyAll_role h]
    exact Role.replay_ok id ccs _ (ht.ok id)
  zero := by
    rw [applyAll_role h,Role.replay_zero]
    exact ht.zero

/-- The operations start from a copy of the configuration. -/
def copied (c : Changer) : Tracked := ⟨c.tracker.config.clone,c.tracker.progress⟩

/-- The configuration and the progress are as the operations leave them. -/
structure Good (c : Changer) : Prop where
  sound : Tracked.Sound ⟨c.tracker.config,c.tracker.progress⟩
  settled : Tracked.Settled ⟨c.tracker.config,c.tracker.progress⟩

theorem Good.copied_sound (h : c.Good) : c.copied.Sound :=
  ⟨⟨h.sound.incoming,h.sound.learners,h.sound.learnersNext⟩,h.sound.ok,h.sound.zero⟩

theorem Good.copied_settled (h : c.Good) : c.copied.Settled :=
  fun hj => ⟨(h.settled hj).1,(h.settled hj).2.1,rfl⟩

theorem Good.checkAndCopy_ok (h : c.Good) : c.checkAndCopy=.ok c.copied :=
  h.copied_sound.checkAndReturn_ok h.copied_settled

/-- Outside of a joint configuration changes leave no trace of one. -/
theorem settled_of_outgoing (ht : t.Sound) (hout : t.cfg.voters.outgoing=none)
    (hauto : t.cfg.autoLeave=false) : t.Settled := by
  have hrole : ∀ r : Role, r.ok=true → r.outgoing=false → r.next=false := by decide
  refine fun _ => ⟨hout,ht.learnersNext.eq_none (fun id => ?_),hauto⟩
  refine hrole _ (ht.ok id) ?_
  simp [Tracked.role,hout]

theorem settled_of_joint (hj : t.cfg.joint=true) : t.Settled := by
  intro h
  rw [hj] at h
  cases h

theorem apply_eq_ok : c.apply t ccs=.ok t' ↔ ccs.foldlM c.applyOne t=.ok t' ∧
    MajorityConfig.len t'.cfg.voters.incoming≠0 := by
  unfold apply
  rw [bind_eq_ok]
  constructor
  · rintro ⟨t1,h1,h⟩
    split at h
    · cases h
    · rename_i hne
      cases h
      exact ⟨h1,hne⟩
  · rintro ⟨h,hne⟩
    exact ⟨t',h,if_neg hne⟩

/-- Simple without the checks, which never fail. -/
theorem simple_eq (h : c.Good) : c.simple ccs=
    if c.copied.cfg.joint then .error .simpleInJoint
    else (do
      let t ← c.apply c.copied ccs
      if 1<symdiff c.tracker.config.voters.incoming t.cfg.voters.incoming then
        .error .moreThanOneVoter
      else .ok t) := by
  unfold simple
  rw [h.checkAndCopy_ok]
  change (if c.copied.cfg.joint=true then _ else _)=_
  split_ifs with hj
  · rfl
  · cases happ : c.apply c.copied ccs with
    | error e => rfl
    | ok t =>
      obtain ⟨hall,-⟩ := apply_eq_ok.mp happ
      have ht := applyAll_sound h.copied_sound hall
      have hch := applyAll_changed hall
      have hout := (h.copied_settled (by simpa using hj)).1
      have hs := settled_of_outgoing ht (hch.outgoing.trans hout) hch.autoLeave
      change (if _ then _ else t.checkAndReturn)=_
      rw [ht.checkAndReturn_ok hs]
      rfl

/-- The copy with its incoming voters as outgoing ones. -/
def entered (c : Changer) : Tracked :=
  ⟨{ c.copied.cfg with voters := { c.copied.cfg.voters with
      outgoing := some (IdSet.ofList (MajorityConfig.slice c.copied.cfg.voters.incoming)) } },
    c.copied.prs⟩

theorem entered_role (c : Changer) (id : Nat) : c.entered.role id=(c.copied.role id).enter := by
  simp only [Tracked.role,Role.enter,entered,MajorityConfig.has_some,IdSet.contains_ofList,
    MajorityConfig.mem_slice,Bool.decide_eq_true]

theorem Good.outgoing_role (h : c.Good) (hj : c.copied.cfg.joint=false) (id : Nat) :
    (c.copied.role id).outgoing=false := by
  simp [Tracked.role,(h.copied_settled hj).1]

theorem Good.entered_sound (h : c.Good) (hj : c.copied.cfg.joint=false) : c.entered.Sound where
  incoming := h.sound.incoming
  learners := h.sound.learners
  learnersNext := h.sound.learnersNext
  ok := by
    intro id
    rw [entered_role]
    exact Role.enter_ok _ (h.copied_sound.ok id) (h.outgoing_role hj id)
  zero := by
    rw [entered_role,h.copied_sound.zero]
    rfl

theorem entered_joint (hne : MajorityConfig.len c.copied.cfg.voters.incoming≠0)
    (hout : t.cfg.voters.outgoing=c.entered.cfg.voters.outgoing) : t.cfg.joint=true := by
  have hlen : MajorityConfig.len t.cfg.voters.outgoing≠0 := by
    intro hzero
    rw [MajorityConfig.len_eq_zero] at hzero
    apply hne
    rw [MajorityConfig.len_eq_zero]
    intro id
    have hid : (c.entered.role id).outgoing=false := by
      rw [← hzero id,hout]
      rfl
    rw [entered_role] at hid
    exact hid
  simp only [TrackerConfig.joint,decide_eq_true_eq]
  omega

/-- EnterJoint without the checks. -/
theorem enterJoint_eq (h : c.Good) (autoLeave : Bool) : c.enterJoint autoLeave ccs=
    if c.copied.cfg.joint then .error .alreadyJoint
    else if MajorityConfig.len c.copied.cfg.voters.incoming=0 then .error .zeroVoterJoint
    else (do
      let t ← c.apply c.entered ccs
      .ok ⟨{ t.cfg with autoLeave := autoLeave },t.prs⟩) := by
  unfold enterJoint
  rw [h.checkAndCopy_ok]
  change (if c.copied.cfg.joint=true then _ else
    if MajorityConfig.len c.copied.cfg.voters.incoming=0 then _ else _)=_
  split_ifs with hj hne
  · rfl
  · rfl
  · change (c.apply c.entered ccs >>= _)=_
    cases happ : c.apply c.entered ccs with
    | error e => rfl
    | ok t =>
      obtain ⟨hall,-⟩ := apply_eq_ok.mp happ
      have ht := applyAll_sound (h.entered_sound (by simpa using hj)) hall
      have hjoint := entered_joint hne (applyAll_changed hall).outgoing
      have hsound : Tracked.Sound ⟨{ t.cfg with autoLeave := autoLeave },t.prs⟩ :=
        ⟨⟨ht.incoming,ht.learners,ht.learnersNext⟩,ht.ok,ht.zero⟩
      exact hsound.checkAndReturn_ok (settled_of_joint hjoint)

/-- The copy without its outgoing half. -/
def left (c : Changer) : Tracked :=
  let t := (MajorityConfig.slice c.copied.cfg.learnersNext).foldl promoteNext c.copied
  let cfg := { t.cfg with learnersNext := none }
  ⟨{ cfg with voters := { cfg.voters with outgoing := none }, autoLeave := false },
    (MajorityConfig.slice cfg.voters.outgoing).foldl (dropOutgoing cfg) t.prs⟩

theorem promoteNext_role (t : Tracked) (id id' : Nat) : (promoteNext t id).role id'=
    if id'=id then
      { t.role id with learner := true, tracked := (t.role id).tracked.map (fun _ => true) }
    else t.role id' := by
  unfold promoteNext
  split_ifs with hid
  · subst hid
    simp [Tracked.role,Tracked.setLearner_cfg,Tracked.setLearner_tracked]
  · simp [Tracked.role,Tracked.setLearner_cfg,Tracked.setLearner_tracked,hid]

theorem foldl_promoteNext_role (l : List Nat) (t : Tracked) (id : Nat) :
    (l.foldl promoteNext t).role id=
      if id∈l then
        { t.role id with learner := true, tracked := (t.role id).tracked.map (fun _ => true) }
      else t.role id := by
  induction l generalizing t with
  | nil => rfl
  | cons a l ih =>
    rw [List.foldl_cons,ih,promoteNext_role]
    by_cases ha : id=a
    · subst ha
      by_cases hl : id∈l <;> simp [hl,Function.comp_def]
    · by_cases hl : id∈l <;> simp [hl,ha]

theorem foldl_dropOutgoing_get (cfg : TrackerConfig) (l : List Nat) (prs : ProgressMap) (id : Nat) :
    (l.foldl (dropOutgoing cfg) prs).get? id=
      if id∈l ∧ (MajorityConfig.has cfg.voters.incoming id ||
        MajorityConfig.has cfg.learners id)=false then none else prs.get? id := by
  induction l generalizing prs with
  | nil => simp
  | cons a l ih =>
    rw [List.foldl_cons,ih]
    unfold dropOutgoing
    by_cases ha : id=a
    · subst ha
      by_cases hstay : (MajorityConfig.has cfg.voters.incoming id ||
          MajorityConfig.has cfg.learners id)=true
      · simp [hstay]
      · simp [hstay,SortedMap.get?_erase]
    · split_ifs <;> simp_all [SortedMap.get?_erase]

theorem left_role (c : Changer) (id : Nat) : c.left.role id=(c.copied.role id).leave := by
  have hpromote := foldl_promoteNext_role (MajorityConfig.slice c.copied.cfg.learnersNext) c.copied id
  have hnext : id∈MajorityConfig.slice c.copied.cfg.learnersNext ↔ (c.copied.role id).next=true :=
    MajorityConfig.mem_slice _ id
  simp only [hnext] at hpromote
  set t := (MajorityConfig.slice c.copied.cfg.learnersNext).foldl promoteNext c.copied with ht
  have htracked : (c.left.role id).tracked=
      if (t.role id).outgoing=true ∧ ((t.role id).incoming || (t.role id).learner)=false then none
      else (t.role id).tracked := by
    change ((List.foldl (dropOutgoing { t.cfg with learnersNext := none }) t.prs
      (MajorityConfig.slice t.cfg.voters.outgoing)).get? id).map (·.isLearner)=_
    rw [foldl_dropOutgoing_get]
    simp only [MajorityConfig.mem_slice]
    exact apply_ite (Option.map (fun pr : Progress => pr.isLearner)) _ _ _
  have hdrop : c.left.role id=⟨(t.role id).incoming,false,(t.role id).learner,false,
      if (t.role id).outgoing=true ∧ ((t.role id).incoming || (t.role id).learner)=false then none
      else (t.role id).tracked⟩ := by
    rw [← htracked]
    rfl
  rw [hdrop,hpromote]
  generalize c.copied.role id=r
  revert r
  decide

theorem foldl_promoteNext_shape (l : List Nat) (t : Tracked) (ht : t.Shape) :
    (l.foldl promoteNext t).Shape := by
  induction l generalizing t with
  | nil => exact ht
  | cons a l ih =>
    refine ih _ ⟨?_,?_,?_⟩
    · rw [promoteNext,Tracked.setLearner_cfg]
      exact ht.incoming
    · rw [promoteNext,Tracked.setLearner_cfg]
      exact .nilAwareAdd _ _
    · rw [promoteNext,Tracked.setLearner_cfg]
      exact ht.learnersNext

theorem Good.left_sound (h : c.Good) : c.left.Sound where
  incoming := (foldl_promoteNext_shape _ _ h.copied_sound.toShape).incoming
  learners := (foldl_promoteNext_shape _ _ h.copied_sound.toShape).learners
  learnersNext := .none
  ok := by
    intro id
    rw [left_role]
    exact Role.leave_ok _ (h.copied_sound.ok id)
  zero := by
    rw [left_role,h.copied_sound.zero]
    rfl

/-- LeaveJoint without the checks. -/
theorem leaveJoint_eq (h : c.Good) : c.leaveJoint=
    if !c.copied.cfg.joint then .error .leaveNonJoint else .ok c.left := by
  unfold leaveJoint
  rw [h.checkAndCopy_ok]
  change (if (!c.copied.cfg.joint)=true then _ else Tracked.checkAndReturn c.left)=_
  rw [h.left_sound.checkAndReturn_ok (fun _ => ⟨rfl,rfl,rfl⟩)]

/-- The operations of the Changer. -/
inductive Operation where
  | simple (ccs : List ConfChangeSingle)
  | enterJoint (autoLeave : Bool) (ccs : List ConfChangeSingle)
  | leaveJoint

def perform (c : Changer) : Operation → Except ConfErr Tracked
  | .simple ccs => c.simple ccs
  | .enterJoint autoLeave ccs => c.enterJoint autoLeave ccs
  | .leaveJoint => c.leaveJoint

theorem simple_ok (h : c.Good) : c.simple ccs=.ok t ↔
    c.copied.cfg.joint=false ∧ c.apply c.copied ccs=.ok t ∧
      symdiff c.tracker.config.voters.incoming t.cfg.voters.incoming≤1 := by
  rw [simple_eq h]
  split_ifs with hj
  · simp [hj]
  · rw [bind_eq_ok]
    constructor
    · rintro ⟨t1,happ,hlast⟩
      split at hlast
      · cases hlast
      · rename_i hdiff
        cases hlast
        exact ⟨by simpa using hj,happ,Nat.not_lt.mp hdiff⟩
    · rintro ⟨-,happ,hdiff⟩
      exact ⟨t,happ,if_neg (Nat.not_lt.mpr hdiff)⟩

theorem enterJoint_ok (h : c.Good) {autoLeave : Bool} : c.enterJoint autoLeave ccs=.ok t ↔
    c.copied.cfg.joint=false ∧ MajorityConfig.len c.copied.cfg.voters.incoming≠0 ∧
      ∃ t', c.apply c.entered ccs=.ok t' ∧ t=⟨{ t'.cfg with autoLeave := autoLeave },t'.prs⟩ := by
  rw [enterJoint_eq h]
  split_ifs with hj hne
  · simp [hj]
  · simp [hne]
  · rw [bind_eq_ok]
    constructor
    · rintro ⟨t1,happ,hlast⟩
      cases hlast
      exact ⟨by simpa using hj,hne,t1,happ,rfl⟩
    · rintro ⟨-,-,t1,happ,rfl⟩
      exact ⟨t1,happ,rfl⟩

theorem leaveJoint_ok (h : c.Good) : c.leaveJoint=.ok t ↔ c.copied.cfg.joint=true ∧ t=c.left := by
  rw [leaveJoint_eq h]
  cases c.copied.cfg.joint <;> simp [eq_comm]

/-- Every operation leaves a configuration and a progress map of the same kind. -/
theorem Good.perform (h : c.Good) (op : Operation) (hop : c.perform op=.ok t) :
    t.Sound ∧ t.Settled := by
  cases op with
  | simple ccs =>
    obtain ⟨hj,happ,-⟩ := (simple_ok h).mp hop
    obtain ⟨hall,-⟩ := apply_eq_ok.mp happ
    have ht := applyAll_sound h.copied_sound hall
    have hch := applyAll_changed hall
    exact ⟨ht,settled_of_outgoing ht (hch.outgoing.trans (h.copied_settled hj).1) hch.autoLeave⟩
  | enterJoint autoLeave ccs =>
    obtain ⟨hj,hne,t1,happ,rfl⟩ := (enterJoint_ok h).mp hop
    obtain ⟨hall,-⟩ := apply_eq_ok.mp happ
    have ht := applyAll_sound (h.entered_sound hj) hall
    refine ⟨⟨⟨ht.incoming,ht.learners,ht.learnersNext⟩,ht.ok,ht.zero⟩,settled_of_joint ?_⟩
    exact entered_joint hne (applyAll_changed hall).outgoing
  | leaveJoint =>
    obtain ⟨-,rfl⟩ := (leaveJoint_ok h).mp hop
    exact ⟨h.left_sound,fun _ => ⟨rfl,rfl,rfl⟩⟩

end Changer

/-- The errors that the invariant check raises. -/
def ConfErr.fromCheck : ConfErr → Bool
  | .noProgress _ | .nextNotOutgoing _ | .nextMarkedLearner _ | .learnerInOutgoing _
  | .learnerInIncoming _ | .learnerNotMarked _ | .outgoingNotNil | .learnersNextNotNil
  | .autoLeaveNotFalse => true
  | _ => false

namespace Changer

theorem applyOne_avoids (c : Changer) (t : Tracked) (cc : ConfChangeSingle) :
    Avoids ConfErr.fromCheck (c.applyOne t cc) := by
  unfold applyOne
  split
  · exact avoids_ok t
  · split
    · exact avoids_ok _
    · exact avoids_ok _
    · exact avoids_ok _
    · exact avoids_ok t
    · exact (avoids_error _).mpr rfl

theorem apply_avoids (c : Changer) (t : Tracked) (ccs : List ConfChangeSingle) :
    Avoids ConfErr.fromCheck (c.apply t ccs) := by
  refine (Avoids.foldlM (applyOne_avoids c) t).bind (fun t' _ => ?_)
  exact ((avoids_error _).mpr rfl).ite (avoids_ok t')

theorem Good.perform_avoids {c : Changer} (h : c.Good) (op : Operation) :
    Avoids ConfErr.fromCheck (c.perform op) := by
  cases op with
  | simple ccs =>
    change Avoids _ (c.simple ccs)
    rw [simple_eq h]
    refine ((avoids_error _).mpr rfl).ite ((apply_avoids _ _ _).bind (fun t _ => ?_))
    exact ((avoids_error _).mpr rfl).ite (avoids_ok t)
  | enterJoint autoLeave ccs =>
    change Avoids _ (c.enterJoint autoLeave ccs)
    rw [enterJoint_eq h]
    refine ((avoids_error _).mpr rfl).ite (((avoids_error _).mpr rfl).ite ?_)
    exact (apply_avoids _ _ _).bind (fun t _ => avoids_ok _)
  | leaveJoint =>
    change Avoids _ c.leaveJoint
    rw [leaveJoint_eq h]
    exact ((avoids_error _).mpr rfl).ite (avoids_ok _)

/-- The trackers that the operations lead to from the empty one; the last index of the log
may be another one at each of them. -/
inductive Reached : ProgressTracker → Prop
  | empty (maxInflight : Nat) : Reached (.makeProgressTracker maxInflight)
  | perform {p : ProgressTracker} {lastIndex : Nat} {op : Operation} {t : Tracked} :
      Reached p → perform ⟨p,lastIndex⟩ op=.ok t →
      Reached (withTracked ⟨p,lastIndex⟩ t).tracker

theorem Reached.good {p : ProgressTracker} (h : Reached p) (lastIndex : Nat) :
    Good ⟨p,lastIndex⟩ := by
  induction h generalizing lastIndex with
  | empty maxInflight =>
    have habsent : ∀ id, Tracked.role ⟨(ProgressTracker.makeProgressTracker maxInflight).config,
        (ProgressTracker.makeProgressTracker maxInflight).progress⟩ id=.absent := fun _ => rfl
    refine ⟨⟨⟨Option.some_ne_none _,.none,.none⟩,fun id => ?_,habsent 0⟩,fun _ => ⟨rfl,rfl,rfl⟩⟩
    rw [habsent]
    decide
  | perform _ hop ih =>
    obtain ⟨hsound,hsettled⟩ := (ih _).perform _ hop
    exact ⟨hsound,hsettled⟩

end Changer

/-- What a configuration and its progress map have to be to each other. -/
structure Tracked.Represented (t : Tracked) : Prop where
  keys : ∀ id, id∈t.prs.keys ↔ MajorityConfig.has t.cfg.voters.incoming id=true ∨
    MajorityConfig.has t.cfg.voters.outgoing id=true ∨ MajorityConfig.has t.cfg.learners id=true
  apart : ∀ id, MajorityConfig.has t.cfg.learners id=true →
    MajorityConfig.has t.cfg.voters.incoming id=false ∧
      MajorityConfig.has t.cfg.voters.outgoing id=false
  staged : ∀ id, MajorityConfig.has t.cfg.learnersNext id=true →
    MajorityConfig.has t.cfg.voters.outgoing id=true ∧
      MajorityConfig.has t.cfg.voters.incoming id=false
  marked : ∀ id pr, t.prs.get? id=some pr → pr.isLearner=MajorityConfig.has t.cfg.learners id
  nonJoint : t.cfg.joint=false →
    t.cfg.voters.outgoing=none ∧ t.cfg.learnersNext=none ∧ t.cfg.autoLeave=false

theorem Tracked.Sound.represented {t : Tracked} (h : t.Sound) (hs : t.Settled) : t.Represented where
  keys := by
    have hrole : ∀ r : Role, r.ok=true → (r.tracked.isSome=true ↔
        r.incoming=true ∨ r.outgoing=true ∨ r.learner=true) := by decide
    intro id
    have hid := hrole _ (h.ok id)
    rw [SortedMap.mem_keys]
    simpa [Tracked.role] using hid
  apart := by
    have hrole : ∀ r : Role, r.ok=true → r.learner=true → r.incoming=false ∧ r.outgoing=false := by
      decide
    exact fun id hid => hrole _ (h.ok id) hid
  staged := by
    have hrole : ∀ r : Role, r.ok=true → r.next=true → r.outgoing=true ∧ r.incoming=false := by
      decide
    exact fun id hid => hrole _ (h.ok id) hid
  marked := by
    have hrole : ∀ r : Role, r.ok=true → ∀ b, r.tracked=some b → b=r.learner := by decide
    intro id pr hpr
    exact hrole _ (h.ok id) _ (by simp [Tracked.role,hpr])
  nonJoint := hs

namespace Changer

/-- From the empty tracker the operations keep configuration and progress consistent, and
none of them ever fails in its invariant check. -/
theorem reached_represented {p : ProgressTracker} (h : Reached p) :
    Tracked.Represented ⟨p.config,p.progress⟩ ∧
      ∀ lastIndex op, Avoids ConfErr.fromCheck (perform ⟨p,lastIndex⟩ op) :=
  ⟨(h.good 0).sound.represented (h.good 0).settled,fun lastIndex => (h.good lastIndex).perform_avoids⟩

/-- Node 2 takes over from node 1, which is staged as a learner. -/
theorem reached_represented_staged : ∃ p, Reached p ∧
    p.confState={
      voters := [2]
      votersOutgoing := [1]
      learnersNext := [1]
      autoLeave := true } ∧
    Tracked.Represented ⟨p.config,p.progress⟩ ∧
      ∀ lastIndex op, Avoids ConfErr.fromCheck (perform ⟨p,lastIndex⟩ op) := by
  have hone : Reached _ := @Reached.perform _ 1 (.simple [⟨.addNode,1⟩]) _ (.empty 256) rfl
  have htwo : Reached _ := @Reached.perform _ 2
    (.enterJoint true [⟨.addNode,2⟩,⟨.addLearnerNode,1⟩]) _ hone rfl
  exact ⟨_,htwo,by decide,reached_represented htwo⟩

end Changer

end RaftTesting
