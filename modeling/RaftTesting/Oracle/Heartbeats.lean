import RaftTesting.Oracle.LeaderChanges

namespace RaftTesting.Oracle

open Netrix

/-- The event that becomeFollower, becomeCandidate, becomePreCandidate and becomeLeader
publish. -/
def stateChange (id : Nat) (state : StateType) (term : Nat) : Event :=
  ⟨toString id,.generic "StateChange" [("new_state",state.string),("term",toString term)]⟩

/-- The event that the loop of a node publishes when its term has changed. -/
def termChange (id : Nat) (term : Nat) : Event :=
  ⟨toString id,.generic "TermChange" [("term",toString term)]⟩

def isStateCandidate (e : Event) : Bool :=
  match e.type with
  | .generic t params => t="StateChange" &&
      match params.lookup "new_state" with
      | some newState => newState=StateType.stateCandidate.string
      | none => false
  | .other => false

/-- Some replica becomes leader, and later on the picked one becomes a candidate. -/
def Scenario (r : Option String) (tr : List Event) : Prop :=
  ∃ lead cand, [lead,cand].Sublist tr ∧ isStateLeader lead=true ∧ r=some cand.replica ∧
    isStateCandidate cand=true

section

variable [Netrix]

def isStateChange (e : Event) : Bool := isEventType "TermChange" e

/-- drawn is what ReplicaStore.GetRandom answers. The replica is drawn once and then kept. -/
def randomReplica (drawn : Option String) (vars : Vars) : Option String × Vars :=
  match getString vars "_random_replica" with
  | some rID => (some rID,vars)
  | none =>
    match drawn with
    | none => (none,vars)
    | some r => (some r,set vars "_random_replica" r)

def dropHeartbeatProperty (drawn : Option String) : Property Vars
  | .start => [(Netrix.and (plainly isStateChange) (plainly isStateLeader),.leaderElected)]
  | .leaderElected =>
    [(Netrix.and (Netrix.and (isEventOfF (randomReplica drawn)) (plainly isStateChange))
      (plainly isStateCandidate),.success)]
  | _ => []

/-- The replica that the property picks, or has found picked. -/
def picked (drawn : Option String) (vars : Vars) : Option String := (randomReplica drawn vars).1

/-- A state change to leader is not what IsStateChange asks for. -/
theorem not_isStateChange_of_isStateLeader {e : Event} (h : isStateLeader e=true) :
    isStateChange e≠true := by
  intro hchange
  obtain ⟨params,htype⟩ := (isEventType_iff "TermChange" e).mp hchange
  simp [isStateLeader,htype] at h

/-- The condition of the first transition never holds, so the property stays in its start
state. -/
theorem Reaches.label_eq_start {drawn : Option String} {vars : Vars} {tr : List Event}
    {s : Machine Vars} (h : Reaches (dropHeartbeatProperty drawn) vars tr s) : s.label=.start := by
  induction h with
  | nil => rfl
  | snoc e _ hstep ih =>
    rcases steps_label hstep with hstay | ⟨t,ht,-,w,-,hcond⟩
    · exact hstay.trans ih
    · rw [ih] at ht
      cases List.mem_singleton.mp ht
      obtain ⟨hchange,hleader⟩ := (and_iff _ _ e w).mp hcond
      exact absurd hchange (not_isStateChange_of_isStateLeader hleader)

/-- The property does not succeed at all, so it is right on the traces without the scenario. -/
theorem dropHeartbeat_iff (drawn : Option String) (vars : Vars) (tr : List Event) :
    ((∃ s, Reaches (dropHeartbeatProperty drawn) vars tr s ∧ s.label=.success) ↔
      Scenario (picked drawn vars) tr) ↔ ¬Scenario (picked drawn vars) tr := by
  have hnever : ¬∃ s, Reaches (dropHeartbeatProperty drawn) vars tr s ∧ s.label=.success := by
    rintro ⟨s,hs,hsuccess⟩
    cases hs.label_eq_start.symm.trans hsuccess
  rw [iff_false_left hnever]

end

section

local instance plainHeartbeats : Netrix := .plain

/-- Replica 1 becomes leader of term 2, and replica 2 stands for term 3. -/
def suspected : List Event :=
  [termChange 1 2,stateChange 1 .stateLeader 2,termChange 2 3,stateChange 2 .stateCandidate 3]

/-- With replica 2 picked before the run this is the scenario, but the property stays in its
start state. -/
theorem suspected_unnoticed :
    picked none (set empty "_random_replica" "2")=some "2" ∧
    Scenario (some "2") suspected ∧
    (∃ s, Reaches (dropHeartbeatProperty none) (set empty "_random_replica" "2") suspected s) ∧
    ∀ s, Reaches (dropHeartbeatProperty none) (set empty "_random_replica" "2") suspected s →
      s.label=.start := by
  refine ⟨?_,⟨stateChange 1 .stateLeader 2,stateChange 2 .stateCandidate 3,?_,?_⟩,
    exists_reaches _ _ _,fun s hs => hs.label_eq_start⟩
  · rw [picked,randomReplica,getString_set,if_pos rfl]
  · decide
  · decide

end

end RaftTesting.Oracle
