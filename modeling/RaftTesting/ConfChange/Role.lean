import RaftTesting.ConfChange.Overlap
import Mathlib.Data.Fintype.Option

namespace RaftTesting

/-- What a configuration and its progress map say about one id. A tracked id has a
progress, with its IsLearner flag. -/
structure Role where
  incoming : Bool
  outgoing : Bool
  learner : Bool
  next : Bool
  tracked : Option Bool
  deriving DecidableEq

namespace Role

/-- There are few roles, so what holds of all of them can be checked. -/
instance decidableForall (P : Role → Prop) [DecidablePred P] : Decidable (∀ r, P r) :=
  decidable_of_iff (∀ i o l n : Bool, ∀ t : Option Bool, P ⟨i,o,l,n,t⟩)
    ⟨fun h r => h r.incoming r.outgoing r.learner r.next r.tracked,fun h _ _ _ _ _ => h _⟩

def absent : Role := ⟨false,false,false,false,none⟩

def makeVoter (r : Role) : Role :=
  match r.tracked with
  | none => { r with incoming := true, tracked := some false }
  | some _ => ⟨true,r.outgoing,false,false,some false⟩

def remove (r : Role) : Role :=
  match r.tracked with
  | none => r
  | some _ => ⟨false,r.outgoing,false,false,if r.outgoing then r.tracked else none⟩

def makeLearner (r : Role) : Role :=
  match r.tracked with
  | none => { r with learner := true, tracked := some true }
  | some true => r
  | some false =>
    if r.outgoing then { r.remove with next := true, tracked := some false }
    else { r.remove with learner := true, tracked := some true }

def change (r : Role) : ConfChangeType → Role
  | .addNode => r.makeVoter
  | .addLearnerNode => r.makeLearner
  | .removeNode => r.remove
  | .updateNode | .unknown _ => r

/-- The incoming half is copied into the outgoing one. -/
def enter (r : Role) : Role := { r with outgoing := r.incoming }

/-- A staged learner becomes one, and an outgoing voter that is nothing else goes. -/
def leave (r : Role) : Role :=
  let learner := r.learner || r.next
  let tracked := if r.next then r.tracked.map (fun _ => true) else r.tracked
  ⟨r.incoming,false,learner,false,if r.outgoing && !(r.incoming || learner) then none else tracked⟩

/-- Voters and learners are apart and have a progress marked accordingly; only an
outgoing voter that is no incoming one is staged. -/
def ok (r : Role) : Bool :=
  decide (r.tracked=if r.incoming || r.outgoing || r.learner then some r.learner else none) &&
  (!r.learner || !(r.incoming || r.outgoing)) && (!r.next || (r.outgoing && !r.incoming))

theorem change_ok (r : Role) (ty : ConfChangeType) (h : r.ok=true) : (r.change ty).ok=true := by
  cases ty with
  | addNode =>
    revert r
    decide
  | removeNode =>
    revert r
    decide
  | updateNode => exact h
  | addLearnerNode =>
    revert r
    decide
  | unknown code => exact h

theorem enter_ok : ∀ r : Role, r.ok=true → r.outgoing=false → r.enter.ok=true := by decide

theorem leave_ok : ∀ r : Role, r.ok=true → r.leave.ok=true := by decide

/-- The changes of one id in a list of changes; a zero id is skipped. -/
def replay (id : Nat) (ccs : List ConfChangeSingle) (r : Role) : Role :=
  ccs.foldl (fun r cc => if cc.nodeID=id ∧ id≠0 then r.change cc.type else r) r

@[simp] theorem replay_nil (id : Nat) (r : Role) : replay id [] r=r := rfl

theorem replay_cons (id : Nat) (cc : ConfChangeSingle) (ccs : List ConfChangeSingle) (r : Role) :
    replay id (cc::ccs) r=
      replay id ccs (if cc.nodeID=id ∧ id≠0 then r.change cc.type else r) := rfl

theorem replay_append (id : Nat) (ccs ccs' : List ConfChangeSingle) (r : Role) :
    replay id (ccs++ccs') r=replay id ccs' (replay id ccs r) := List.foldl_append

theorem replay_zero (ccs : List ConfChangeSingle) (r : Role) : replay 0 ccs r=r := by
  induction ccs generalizing r with
  | nil => rfl
  | cons cc ccs ih => rw [replay_cons,if_neg (fun h => h.2 rfl),ih]

/-- What every change keeps is kept by a list of changes. -/
theorem replay_induct {P : Role → Prop} (hstep : ∀ r ty, P r → P (r.change ty)) (id : Nat)
    (ccs : List ConfChangeSingle) (r : Role) (h : P r) : P (replay id ccs r) := by
  induction ccs generalizing r with
  | nil => exact h
  | cons cc ccs ih =>
    rw [replay_cons]
    apply ih
    split_ifs
    · exact hstep r _ h
    · exact h

theorem replay_ok (id : Nat) (ccs : List ConfChangeSingle) (r : Role) (h : r.ok=true) :
    (replay id ccs r).ok=true := replay_induct change_ok id ccs r h

end Role

@[simp] theorem has_nilAwareAdd (m : Option IdSet) (id id' : Nat) :
    MajorityConfig.has (nilAwareAdd m id) id'=(decide (id'=id) || MajorityConfig.has m id') := by
  cases m <;> simp [nilAwareAdd,MajorityConfig.has]

theorem size_eq_zero {α : Type} (s : SortedMap α) : s.size=0 ↔ s=∅ := by
  constructor
  · intro h
    cases s with
    | mk pairs sorted =>
      cases List.eq_nil_of_length_eq_zero h
      rfl
  · rintro rfl
    rfl

@[simp] theorem has_nilAwareDelete (m : Option IdSet) (id id' : Nat) :
    MajorityConfig.has (nilAwareDelete m id) id'=
      (!decide (id'=id) && MajorityConfig.has m id') := by
  cases m with
  | none => simp [nilAwareDelete]
  | some s =>
    rw [MajorityConfig.has_some,← IdSet.contains_erase]
    simp only [nilAwareDelete,size_eq_zero]
    split_ifs with h
    · rw [h]
      rfl
    · rfl

@[simp] theorem has_map_erase (m : Option IdSet) (id id' : Nat) :
    MajorityConfig.has (m.map (fun s => s.erase id)) id'=
      (!decide (id'=id) && MajorityConfig.has m id') := by
  cases m with
  | none => simp
  | some s => exact IdSet.contains_erase s id id'

namespace Tracked

def role (t : Tracked) (id : Nat) : Role where
  incoming := MajorityConfig.has t.cfg.voters.incoming id
  outgoing := MajorityConfig.has t.cfg.voters.outgoing id
  learner := MajorityConfig.has t.cfg.learners id
  next := MajorityConfig.has t.cfg.learnersNext id
  tracked := (t.prs.get? id).map (·.isLearner)

theorem setLearner_tracked (t : Tracked) (id id' : Nat) (b : Bool) :
    ((t.setLearner id b).prs.get? id').map (·.isLearner)=
      if id'=id then ((t.prs.get? id).map (·.isLearner)).map (fun _ => b)
      else (t.prs.get? id').map (·.isLearner) := by
  unfold setLearner
  cases h : t.prs.get? id with
  | none =>
    split_ifs with hid
    · rw [hid,h]
      rfl
    · rfl
  | some pr =>
    simp only [SortedMap.get?_insert]
    split_ifs <;> rfl

end Tracked

namespace Changer

/-- Each change of the Changer is the same change of the role of its id, and no other role
changes. -/
theorem makeVoter_role (c : Changer) (t : Tracked) (id id' : Nat) :
    (c.makeVoter t id).role id'=if id'=id then (t.role id).makeVoter else t.role id' := by
  unfold makeVoter
  split
  · rename_i h
    split_ifs with hid
    · subst hid
      simp [initProgress,Tracked.role,Role.makeVoter,h,TrackerConfig.addIncoming]
    · simp [initProgress,Tracked.role,TrackerConfig.addIncoming,SortedMap.get?_insert,hid]
  · rename_i pr h
    split_ifs with hid
    · subst hid
      simp [Tracked.role,Role.makeVoter,h,TrackerConfig.addIncoming,Tracked.setLearner_tracked,
        Tracked.setLearner_cfg]
    · simp [Tracked.role,TrackerConfig.addIncoming,Tracked.setLearner_tracked,
        Tracked.setLearner_cfg,hid]

theorem remove_role (t : Tracked) (id id' : Nat) :
    (remove t id).role id'=if id'=id then (t.role id).remove else t.role id' := by
  unfold remove
  split
  · rename_i h
    split_ifs with hid
    · subst hid
      simp [Tracked.role,Role.remove,h]
    · rfl
  · rename_i pr h
    by_cases hout : MajorityConfig.has t.cfg.voters.outgoing id=true <;> by_cases hid : id'=id
    · subst hid
      simp [Tracked.role,Role.remove,h,hout,TrackerConfig.deleteIncoming]
    · simp [Tracked.role,hid,hout,TrackerConfig.deleteIncoming]
    · subst hid
      simp [Tracked.role,Role.remove,h,hout,SortedMap.get?_erase,TrackerConfig.deleteIncoming]
    · simp [Tracked.role,hid,hout,SortedMap.get?_erase,TrackerConfig.deleteIncoming]

/-- The node joins one of the two sets of learners. -/
theorem listed_role (t : Tracked) (id id' : Nat) (pr : Progress) (next : Bool) :
    Tracked.role ⟨if next then { t.cfg with learnersNext := nilAwareAdd t.cfg.learnersNext id }
      else { t.cfg with learners := nilAwareAdd t.cfg.learners id },t.prs.insert id pr⟩ id'=
      if id'=id then { t.role id with
        next := next || (t.role id).next
        learner := !next || (t.role id).learner
        tracked := some pr.isLearner }
      else t.role id' := by
  by_cases hid : id'=id
  · subst hid
    cases next <;> simp [Tracked.role]
  · cases next <;> simp [Tracked.role,hid,SortedMap.get?_insert]

theorem makeLearner_role (c : Changer) (t : Tracked) (id id' : Nat) :
    (c.makeLearner t id).role id'=if id'=id then (t.role id).makeLearner else t.role id' := by
  unfold makeLearner
  split
  · rename_i h
    split_ifs with hid
    · subst hid
      simp [initProgress,Tracked.role,Role.makeLearner,h]
    · simp [initProgress,Tracked.role,SortedMap.get?_insert,hid]
  · rename_i pr h
    have htracked : (t.role id).tracked=some pr.isLearner := by simp [Tracked.role,h]
    cases hl : pr.isLearner with
    | true =>
      rw [hl] at htracked
      rw [if_pos rfl]
      split_ifs with hid
      · rw [hid]
        simp [Role.makeLearner,htracked]
      · rfl
    | false =>
      rw [hl] at htracked
      have hout : MajorityConfig.has (remove t id).cfg.voters.outgoing id=(t.role id).outgoing := by
        rw [remove_outgoing]
        rfl
      simp only [Bool.false_eq_true,if_false,hout]
      cases ho : (t.role id).outgoing with
      | true =>
        refine (listed_role _ id id' _ true).trans ?_
        simp only [remove_role,if_true]
        split_ifs <;> simp [Role.makeLearner,htracked,ho,hl]
      | false =>
        refine (listed_role _ id id' _ false).trans ?_
        simp only [remove_role,if_true]
        split_ifs <;> simp [Role.makeLearner,htracked,ho]

theorem applyOne_role {c : Changer} {t t' : Tracked} {cc : ConfChangeSingle}
    (h : c.applyOne t cc=.ok t') (id : Nat) :
    t'.role id=if cc.nodeID=id ∧ id≠0 then (t.role id).change cc.type else t.role id := by
  unfold applyOne at h
  split at h
  · rename_i hzero
    cases h
    rw [if_neg (fun hid => hid.2 (hid.1 ▸ hzero))]
  · rename_i hne
    have hid : (cc.nodeID=id ∧ id≠0) ↔ id=cc.nodeID := by
      constructor
      · exact fun hid => hid.1.symm
      · rintro rfl
        exact ⟨rfl,hne⟩
    simp only [hid]
    split at h <;> rename_i hty <;> cases h <;> rw [hty]
    · rw [makeVoter_role]
      split_ifs with heq
      · rw [heq]
        rfl
      · rfl
    · rw [makeLearner_role]
      split_ifs with heq
      · rw [heq]
        rfl
      · rfl
    · rw [remove_role]
      split_ifs with heq
      · rw [heq]
        rfl
      · rfl
    · simp [Role.change]

theorem applyAll_role {c : Changer} {t t' : Tracked} {ccs : List ConfChangeSingle}
    (h : ccs.foldlM c.applyOne t=.ok t') (id : Nat) :
    t'.role id=Role.replay id ccs (t.role id) := by
  induction ccs generalizing t with
  | nil =>
    cases h
    rfl
  | cons cc ccs ih =>
    obtain ⟨t1,h1,h⟩ := bind_eq_ok.mp h
    rw [ih h,Role.replay_cons,applyOne_role h1]

end Changer

end RaftTesting
