import Mathlib.Data.List.Induction
import Mathlib.Logic.Relation
import RaftTesting.Protocol.Raftpb

namespace RaftTesting.Oracle

/-- The types of netrix events; only the generic ones carry a name and parameters. -/
inductive EventType where
  | generic (t : String) (params : List (String × String))
  | other
  deriving DecidableEq

structure Event where
  replica : String
  type : EventType
  deriving DecidableEq

/-- The states of the machines that the tests build. -/
inductive Label where
  | start
  | leaderElected
  | fail
  | success
  deriving DecidableEq

section

variable {V : Type}

/-- A condition may change the variables of the run. -/
abbrev Condition (V : Type) := Event → V → Bool × V

/-- What On adds to a state: a condition and the state that it leads to. -/
abbrev Transition (V : Type) := Condition V × Label

/-- The transitions out of each state of a machine. -/
abbrev Property (V : Type) := Label → List (Transition V)

structure Machine (V : Type) where
  label : Label
  vars : V

/-- A filter set that only drops messages. -/
abbrev Filters := List (Message → Bool)

/-- A condition that does not touch the variables. -/
def plainly (cond : Event → Bool) : Condition V := fun e vars => (cond e,vars)

/-- The variables that evaluating some of the conditions may lead to, in any order. -/
abbrev Evaluated (ts : List (Transition V)) (e : Event) : V → V → Prop :=
  Relation.ReflTransGen (fun vars vars' => ∃ t∈ts, vars'=(t.1 e vars).2)

/-- The machine stays in its state, or takes a transition whose condition holds. -/
def Moved (ts : List (Transition V)) (e : Event) (s s' : Machine V) : Prop :=
  s'.label=s.label ∨ ∃ t∈ts, s'.label=t.2 ∧ ∃ vars, Evaluated ts e s.vars vars ∧
    (t.1 e vars).1=true

end

/-- What the tests use of the netrix library, which is known by its laws only. -/
class Netrix where
  Vars : Type
  /-- The variables at the start of a run. -/
  empty : Vars
  getString : Vars → String → Option String
  getCounter : Vars → String → Option Nat
  /-- Vars.Exists. -/
  has : Vars → String → Bool
  set : Vars → String → String → Vars
  setCounter : Vars → String → Vars
  /-- Incr of the counter that GetCounter finds. -/
  incr : Vars → String → Vars
  conditionWithAction : (Event → Bool) → (Event → Vars → Vars) → Condition Vars
  /-- Count(key).Gt(n). -/
  countGt : String → Nat → Condition Vars
  isEventType : String → Event → Bool
  isEventOfF : (Vars → Option String × Vars) → Condition Vars
  /-- Condition.And. -/
  and : Condition Vars → Condition Vars → Condition Vars
  isMessageBetween : Nat → Nat → Message → Bool
  /-- The filter set drops the message. -/
  drops : Filters → Message → Bool
  /-- An event takes the machine from one state to another. -/
  Steps : Property Vars → Machine Vars → Event → Machine Vars → Prop
  getString_empty : ∀ key, getString empty key=none
  getCounter_empty : ∀ key, getCounter empty key=none
  has_empty : ∀ key, has empty key=false
  getString_set : ∀ vars key v k,
    getString (set vars key v) k=if k=key then some v else getString vars k
  has_setCounter : ∀ vars key k, has (setCounter vars key) k=(decide (k=key) || has vars k)
  getCounter_setCounter : ∀ vars key k,
    getCounter (setCounter vars key) k=if k=key then some 0 else getCounter vars k
  has_incr : ∀ vars key k, has (incr vars key) k=has vars k
  getCounter_incr : ∀ vars key k, getCounter (incr vars key) k=
    if k=key then (getCounter vars key).map (·+1) else getCounter vars k
  conditionWithAction_eq : ∀ cond action e vars,
    conditionWithAction cond action e vars=if cond e then (true,action e vars) else (false,vars)
  /-- A counter that does not exist counts as zero, and may be set up by this. -/
  countGt_iff : ∀ key n e vars,
    (countGt key n e vars).1=true ↔ n < (getCounter vars key).getD 0
  getString_countGt : ∀ key n e vars k,
    getString (countGt key n e vars).2 k=getString vars k
  getCounter_countGt : ∀ key n e vars k,
    (getCounter (countGt key n e vars).2 k).getD 0=(getCounter vars k).getD 0
  isEventType_iff : ∀ t e, isEventType t e=true ↔ ∃ params, e.type=.generic t params
  /-- The second condition sees the variables that the first one leaves. -/
  and_iff : ∀ c d e vars,
    (and c d e vars).1=true ↔ (c e vars).1=true ∧ (d e (c e vars).2).1=true
  isMessageBetween_iff : ∀ a b m, isMessageBetween a b m=true ↔
    m.fromId=a ∧ m.toId=b ∨ m.fromId=b ∧ m.toId=a
  drops_iff : ∀ fs m, drops fs m=true ↔ ∃ f∈fs, f m=true
  steps_total : ∀ p s e, ∃ s', Steps p s e s'
  steps_vars : ∀ {p s e s'}, Steps p s e s' → Evaluated (p s.label) e s.vars s'.vars
  steps_label : ∀ {p s e s'}, Steps p s e s' → Moved (p s.label) e s s'

/-- The states that a machine may have reached after a trace, from these variables. -/
inductive Reaches [Netrix] (p : Property Netrix.Vars) (vars : Netrix.Vars) :
    List Event → Machine Netrix.Vars → Prop
  | nil : Reaches p vars [] ⟨.start,vars⟩
  | snoc {tr s s'} (e : Event) : Reaches p vars tr s → Netrix.Steps p s e s' →
      Reaches p vars (tr++[e]) s'

theorem exists_reaches [Netrix] (p : Property Netrix.Vars) (vars : Netrix.Vars)
    (tr : List Event) : ∃ s, Reaches p vars tr s := by
  induction tr using List.reverseRecOn with
  | nil => exact ⟨_,.nil⟩
  | append_singleton tr e ih =>
    obtain ⟨s,hs⟩ := ih
    obtain ⟨s',hs'⟩ := Netrix.steps_total p s e
    exact ⟨s',hs.snoc e hs'⟩

inductive Value where
  | string (s : String)
  | counter (n : Nat)
  deriving DecidableEq

namespace Plain

/-- Nothing is found under a key that was never set. -/
abbrev Vars := String → Option Value

def set (vars : Vars) (key : String) (v : Value) : Vars := fun k => if k=key then some v else vars k

def getString (vars : Vars) (key : String) : Option String :=
  match vars key with
  | some (.string s) => some s
  | _ => none

def getCounter (vars : Vars) (key : String) : Option Nat :=
  match vars key with
  | some (.counter n) => some n
  | _ => none

def incr (vars : Vars) (key : String) : Vars :=
  match getCounter vars key with
  | some n => set vars key (.counter (n+1))
  | none => vars

/-- The transitions are tried one after the other, and the first that applies is taken. -/
def tryAll {V : Type} (e : Event) (s : Machine V) : List (Transition V) → Machine V
  | [] => s
  | (cond,label)::ts =>
    match cond e s.vars with
    | (true,vars) => ⟨label,vars⟩
    | (false,vars) => tryAll e { s with vars := vars } ts

theorem tryAll_moved {V : Type} {all ts : List (Transition V)} (hts : ∀ t∈ts, t∈all) (e : Event)
    (s : Machine V) :
    Evaluated all e s.vars (tryAll e s ts).vars ∧ Moved all e s (tryAll e s ts) := by
  induction ts generalizing s with
  | nil => exact ⟨.refl,.inl rfl⟩
  | cons t ts ih =>
    have hmem := hts t (List.mem_cons_self ..)
    have hnext : Evaluated all e s.vars (t.1 e s.vars).2 := .single ⟨t,hmem,rfl⟩
    unfold tryAll
    split
    · rename_i vars hc
      rw [hc] at hnext
      exact ⟨hnext,.inr ⟨t,hmem,rfl,s.vars,.refl,by rw [hc]⟩⟩
    · rename_i vars hc
      rw [hc] at hnext
      obtain ⟨hvars,hlabel⟩ :=
        ih (fun t ht => hts t (List.mem_cons_of_mem _ ht)) { s with vars := vars }
      refine ⟨hnext.trans hvars,hlabel.imp_right ?_⟩
      rintro ⟨t',ht',hto,w,hw,hcond⟩
      exact ⟨t',ht',hto,w,hnext.trans hw,hcond⟩

theorem getCounter_incr (vars : Vars) (key k : String) : getCounter (incr vars key) k=
    if k=key then (getCounter vars key).map (·+1) else getCounter vars k := by
  unfold incr
  cases hget : getCounter vars key with
  | none =>
    split_ifs with hk
    · rw [hk,hget]
      rfl
    · rfl
  | some n =>
    simp only [getCounter,set]
    split_ifs <;> rfl

theorem isSome_incr (vars : Vars) (key k : String) : (incr vars key k).isSome=(vars k).isSome := by
  unfold incr
  cases hget : getCounter vars key with
  | none => rfl
  | some n =>
    simp only [set]
    split_ifs with hk
    · subst hk
      unfold getCounter at hget
      split at hget
      · rename_i hv
        rw [hv]
        rfl
      · cases hget
    · rfl

end Plain

open Plain in
/-- A netrix with the variables in a function, to run the examples with. -/
@[reducible] def Netrix.plain : Netrix where
  Vars := Plain.Vars
  empty := fun _ => none
  getString := Plain.getString
  getCounter := Plain.getCounter
  has vars key := (vars key).isSome
  set vars key v := Plain.set vars key (.string v)
  setCounter vars key := Plain.set vars key (.counter 0)
  incr := Plain.incr
  conditionWithAction cond action := fun e vars =>
    if cond e then (true,action e vars) else (false,vars)
  countGt key n := fun _ vars => (decide (n < (Plain.getCounter vars key).getD 0),vars)
  isEventType t e := match e.type with
    | .generic t' _ => decide (t'=t)
    | .other => false
  isEventOfF replica := fun e vars => (decide ((replica vars).1=some e.replica),(replica vars).2)
  and c d := fun e vars => ((c e vars).1 && (d e (c e vars).2).1,(d e (c e vars).2).2)
  isMessageBetween a b m := (m.fromId=a && m.toId=b) || (m.fromId=b && m.toId=a)
  drops fs m := fs.any (fun f => f m)
  Steps p s e s' := s'=tryAll e s (p s.label)
  getString_empty _ := rfl
  getCounter_empty _ := rfl
  has_empty _ := rfl
  getString_set vars key v k := by
    simp only [Plain.getString,Plain.set]
    split_ifs <;> rfl
  has_setCounter vars key k := by by_cases hk : k=key <;> simp [Plain.set,hk]
  getCounter_setCounter vars key k := by
    simp only [Plain.getCounter,Plain.set]
    split_ifs <;> rfl
  has_incr := isSome_incr
  getCounter_incr := Plain.getCounter_incr
  conditionWithAction_eq _ _ _ _ := rfl
  countGt_iff _ _ _ _ := decide_eq_true_iff
  getString_countGt _ _ _ _ _ := rfl
  getCounter_countGt _ _ _ _ _ := rfl
  isEventType_iff t e := by cases h : e.type <;> simp
  and_iff _ _ _ _ := by simp
  isMessageBetween_iff _ _ _ := by simp
  drops_iff _ _ := by simp
  steps_total _ _ _ := ⟨_,rfl⟩
  steps_vars := by
    rintro p s e _ rfl
    exact (tryAll_moved (fun _ ht => ht) e s).1
  steps_label := by
    rintro p s e _ rfl
    exact (tryAll_moved (fun _ ht => ht) e s).2

end RaftTesting.Oracle
