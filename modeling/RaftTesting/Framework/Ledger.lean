import Mathlib.Data.List.Infix
import Mathlib.Data.List.MinMax
import Mathlib.Logic.Function.Basic
import Mathlib.Logic.Relation

namespace RaftTesting

/-- A log that only grows, and how many of its entries each reader has been given. -/
structure Ledger (E : Type) where
  log : List E
  seen : Nat → Nat

namespace Ledger

variable {E : Type} {L L' : Ledger E}

/-- Entries are written at the end, and a reader is given some that it has not seen. -/
inductive Step : Ledger E → Ledger E → Prop
  | write (L : Ledger E) (es : List E) : Step L { L with log := L.log++es }
  | read (L : Ledger E) (i k : Nat) (h : L.seen i≤k) (hk : k≤L.log.length) :
      Step L { L with seen := Function.update L.seen i k }

def Steps : Ledger E → Ledger E → Prop := Relation.ReflTransGen Step

/-- What a reader has been given. -/
def given (L : Ledger E) (i : Nat) : List E := L.log.take (L.seen i)

theorem Steps.refl (L : Ledger E) : L.Steps L := Relation.ReflTransGen.refl

theorem Steps.trans {L'' : Ledger E} (h : L.Steps L') (h' : L'.Steps L'') : L.Steps L'' :=
  Relation.ReflTransGen.trans h h'

/-- Between two moments that only reader i has noticed. -/
theorem Steps.of_moved {i : Nat} (hlog : L.log<+:L'.log) (hother : ∀ j, j≠i → L'.seen j=L.seen j)
    (hle : L.seen i≤L'.seen i) (hlen : L'.seen i≤L'.log.length) : L.Steps L' := by
  obtain ⟨es,hes⟩ := hlog
  have hseen : L'.seen=Function.update L.seen i (L'.seen i) := by
    funext j
    by_cases hj : j=i
    · rw [hj,Function.update_self]
    · rw [Function.update_of_ne hj]
      exact hother j hj
  have hw : Step L { L with log := L.log++es } := .write L es
  rw [hes] at hw
  have hr := Step.read { L with log := L'.log } i (L'.seen i) hle hlen
  rw [← hseen] at hr
  exact (Relation.ReflTransGen.single hw).tail hr

theorem Steps.log_isPrefix (h : L.Steps L') : L.log<+:L'.log := by
  induction h with
  | refl => exact List.prefix_refl _
  | tail _ hs ih =>
    cases hs with
    | write es => exact ih.trans (List.prefix_append _ es)
    | read => exact ih

theorem Steps.seen_le (h : L.Steps L') (i : Nat) : L.seen i≤L'.seen i := by
  induction h with
  | refl => exact le_rfl
  | tail _ hs ih =>
    cases hs with
    | write => exact ih
    | read j k hk =>
      refine ih.trans ?_
      dsimp only
      by_cases hj : i=j
      · rw [hj,Function.update_self]
        exact hj ▸ hk
      · rw [Function.update_of_ne hj]

/-- Nothing that a reader was given is taken back. -/
theorem Steps.given_isPrefix (h : L.Steps L') (i : Nat) : L.given i<+:L'.given i :=
  (h.log_isPrefix.take (L.seen i)).trans (List.take_prefix_take_left (h.seen_le i))

end Ledger

section

variable {E : Type}

/-- The longest of the lists. -/
def longest (ls : List (List E)) : List E := (ls.argmax List.length).getD []

/-- Of lists that are prefixes of each other, the longest one is the longest prefix. -/
theorem isPrefix_longest {ls : List (List E)}
    (hc : ∀ l ∈ ls, ∀ l' ∈ ls, l.length≤l'.length → l<+:l') {l : List E} (hl : l ∈ ls) :
    l<+:longest ls := by
  unfold longest
  cases hm : ls.argmax List.length with
  | none =>
    rw [List.argmax_eq_none.mp hm] at hl
    cases hl
  | some m => exact hc l hl m (List.argmax_mem hm) (List.le_of_mem_argmax hl hm)

theorem longest_mem {ls : List (List E)} (h : ls≠[]) : longest ls ∈ ls := by
  unfold longest
  cases hm : ls.argmax List.length with
  | none => exact absurd (List.argmax_eq_none.mp hm) h
  | some m => exact List.argmax_mem hm

end

end RaftTesting
