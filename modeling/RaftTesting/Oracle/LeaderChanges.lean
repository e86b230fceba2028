import RaftTesting.Oracle.Netrix
import RaftTesting.Protocol.Raft

namespace RaftTesting

/-- StateType.String. -/
def StateType.string : StateType → String
  | .stateFollower => "StateFollower"
  | .stateCandidate => "StateCandidate"
  | .stateLeader => "StateLeader"
  | .statePreCandidate => "StatePreCandidate"

namespace Oracle

open Netrix

def isStateLeader (e : Event) : Bool :=
  match e.type with
  | .generic t params => t="StateChange" &&
      match params.lookup "new_state" with
      | some newState => newState=StateType.stateLeader.string
      | none => false
  | .other => false

/-- The replicas of the leader events, in order. -/
def leaders (tr : List Event) : List String := (tr.filter isStateLeader).map Event.replica

/-- How many differ from the one before them. -/
def changes : List String → Nat
  | a::b::l => (if b=a then 0 else 1)+changes (b::l)
  | _ => 0

/-- The leader events whose replica differs from that of the preceding leader event. -/
def leaderChanges (tr : List Event) : Nat := changes (leaders tr)

theorem changes_append (l r : List String) : changes l ≤ changes (l++r) := by
  induction l with
  | nil => exact Nat.zero_le _
  | cons a l ih =>
    cases l with
    | nil => exact Nat.zero_le _
    | cons b l => exact Nat.add_le_add_left ih _

theorem leaderChanges_dropLast (tr : List Event) : leaderChanges tr.dropLast ≤ leaderChanges tr := by
  obtain ⟨rest,hrest⟩ := List.dropLast_prefix tr
  have hleaders : leaders tr=leaders tr.dropLast++leaders rest := by
    rw [leaders,← hrest,List.filter_append,List.map_append,hrest]
    rfl
  rw [leaderChanges,leaderChanges,hleaders]
  exact changes_append _ _

section

variable [Netrix]

/-- A parameter that is missing reads as the empty string. -/
def countLeaderChanges (e : Event) (vars : Vars) : Vars :=
  match e.type with
  | .other => vars
  | .generic t params =>
    if t≠"StateChange" ∨ (params.lookup "new_state").getD ""≠StateType.stateLeader.string then vars
    else match getString vars "leader" with
      | none => vars
      | some curLeader =>
        if curLeader=e.replica then vars
        else
          let vars := set vars "leader" e.replica
          let vars := if has vars "leaderCount" then vars else setCounter vars "leaderCount"
          incr vars "leaderCount"

/-- The body that the three properties share. -/
def leaderProperty : Property Vars
  | .start => [(conditionWithAction isStateLeader countLeaderChanges,.start),
      (countGt "leaderCount" 4,.fail)]
  | _ => []

def livenessProperty : Property Vars := leaderProperty

def livenessNoCQProperty : Property Vars := leaderProperty

def noLivenessProperty : Property Vars := leaderProperty

/-- CountLeaderChanges on every event that IsStateLeader accepts. -/
def countAll (tr : List Event) : Vars :=
  tr.foldl (fun vars e => if isStateLeader e then countLeaderChanges e vars else vars) empty

/-- The oracle does what it is meant for on this trace: the counter tells the number of leader
changes, and each property fails if an event follows on more than four of them. -/
def Agrees (tr : List Event) : Prop :=
  (getCounter (countAll tr) "leaderCount").getD 0=leaderChanges tr ∧
  ∀ p∈[livenessProperty,livenessNoCQProperty,noLivenessProperty],
    (∃ s, Reaches p empty tr s ∧ s.label=.fail) ↔ 4<leaderChanges tr.dropLast

/-- Without a leader on record none is recorded: this is only done when there is one already. -/
theorem countLeaderChanges_eq {vars : Vars} (h : getString vars "leader"=none) (e : Event) :
    countLeaderChanges e vars=vars := by
  unfold countLeaderChanges
  split
  · rfl
  · rw [h]
    split <;> rfl

theorem countAll_eq (tr : List Event) : countAll tr=empty := by
  refine List.foldlRecOn (motive := fun vars => vars=empty) tr _ rfl ?_
  rintro _ rfl e _
  split
  · exact countLeaderChanges_eq (getString_empty "leader") e
  · rfl

/-- No leader is on record and nothing has been counted. -/
def Unset (vars : Vars) : Prop :=
  getString vars "leader"=none ∧ (getCounter vars "leaderCount").getD 0=0

theorem unset_empty : Unset (empty : Vars) := by
  refine ⟨getString_empty _,?_⟩
  rw [getCounter_empty]
  rfl

/-- With nothing counted no condition of the properties changes that or leads to failure. -/
theorem Unset.condition {vars : Vars} (h : Unset vars) (e : Event) {l : Label}
    {t : Transition Vars} (ht : t∈leaderProperty l) :
    Unset (t.1 e vars).2 ∧ ((t.1 e vars).1=true → t.2=.start) := by
  cases l with
  | leaderElected | fail | success => cases ht
  | start =>
    simp only [leaderProperty,List.mem_cons,List.not_mem_nil,or_false] at ht
    rcases ht with rfl | rfl
    · refine ⟨?_,fun _ => rfl⟩
      simp only [conditionWithAction_eq,countLeaderChanges_eq h.1]
      split_ifs <;> exact h
    · refine ⟨⟨?_,?_⟩,fun hgt => ?_⟩
      · rw [getString_countGt]
        exact h.1
      · rw [getCounter_countGt]
        exact h.2
      · rw [countGt_iff,h.2] at hgt
        omega

theorem Unset.evaluated {vars vars' : Vars} (h : Unset vars) {e : Event} {l : Label}
    (hv : Evaluated (leaderProperty l) e vars vars') : Unset vars' := by
  induction hv with
  | refl => exact h
  | tail _ hstep ih =>
    obtain ⟨t,ht,rfl⟩ := hstep
    exact (ih.condition e ht).1

theorem Reaches.unset {tr : List Event} {s : Machine Vars} (h : Reaches leaderProperty empty tr s) :
    s.label=.start ∧ Unset s.vars := by
  induction h with
  | nil => exact ⟨rfl,unset_empty⟩
  | snoc e _ hstep ih =>
    obtain ⟨hlabel,hunset⟩ := ih
    refine ⟨?_,hunset.evaluated (steps_vars hstep)⟩
    rcases steps_label hstep with hstay | ⟨t,ht,hto,vars,hvars,hcond⟩
    · exact hstay.trans hlabel
    · exact hto.trans (((hunset.evaluated hvars).condition e ht).2 hcond)

/-- The oracle never counts and never fails, so it is right on the traces without any change
of the leader, and on no others. -/
theorem agrees_iff (tr : List Event) : Agrees tr ↔ leaderChanges tr=0 := by
  have hcount : (getCounter (countAll tr) "leaderCount").getD 0=0 := by
    rw [countAll_eq]
    exact unset_empty.2
  constructor
  · intro h
    exact h.1.symm.trans hcount
  · intro h
    refine ⟨hcount.trans h.symm,fun p hp => ?_⟩
    have hp : p=leaderProperty := by
      simpa [livenessProperty,livenessNoCQProperty,noLivenessProperty] using hp
    subst hp
    constructor
    · rintro ⟨s,hs,hfail⟩
      rw [hs.unset.1] at hfail
      cases hfail
    · intro hmany
      have := leaderChanges_dropLast tr
      omega

end

section

local instance plainChanges : Netrix := .plain

def leaderEvent (replica : String) : Event :=
  ⟨replica,.generic "StateChange" [("new_state",StateType.stateLeader.string)]⟩

/-- Two replicas take turns. -/
def alternating : List Event := ["1","2","1","2","1","2","1"].map leaderEvent

/-- The fifth change is followed by another event, but nothing has been counted and no property
fails. -/
theorem alternating_unnoticed : leaderChanges alternating=6 ∧ 4<leaderChanges alternating.dropLast ∧
    getCounter (countAll alternating) "leaderCount"=none ∧
    (∃ s, Reaches livenessProperty empty alternating s) ∧
    ∀ p∈[livenessProperty,livenessNoCQProperty,noLivenessProperty],
      ∀ s, Reaches p empty alternating s → s.label=.start := by
  refine ⟨by decide,by decide,?_,?_,fun p hp s hs => ?_⟩
  · rw [countAll_eq]
    exact getCounter_empty "leaderCount"
  · exact exists_reaches _ _ _
  · have hp : p=leaderProperty := by
      simpa [livenessProperty,livenessNoCQProperty,noLivenessProperty] using hp
    subst hp
    exact hs.unset.1

end

end Oracle

end RaftTesting
