import Mathlib.Algebra.Order.Group.Nat
import Mathlib.Data.List.Infix

namespace RaftTesting.Consensus

/-- Log entries carry the term of the leader that created them. -/
class Termed (E : Type) where
  termOf : E → Nat

export Termed (termOf)

section

variable {E : Type} [Termed E]

/-- The term at a position counted from 1; position 0 and those past the end have 0. -/
def termAt (l : List E) : Nat → Nat
  | 0 => 0
  | k+1 => (l[k]?.map termOf).getD 0

def lastTerm (l : List E) : Nat := termAt l l.length

/-- The candidate's log is at least as up to date as the voter's. -/
def UpToDate (cand voter : List E) : Prop :=
  lastTerm voter<lastTerm cand ∨
    lastTerm cand=lastTerm voter ∧ voter.length≤cand.length

/-- l holds the first k entries of l'. -/
def Covers (k : Nat) (l l' : List E) : Prop := k≤l'.length ∧ l.take k=l'.take k

theorem termAt_pos {l : List E} {k : Nat} (hk : 0<k) : termAt l k=(l[k-1]?.map termOf).getD 0 := by
  obtain ⟨k,rfl⟩ := Nat.exists_eq_succ_of_ne_zero hk.ne'
  rfl

theorem termAt_past {l : List E} {k : Nat} (hk : l.length<k) : termAt l k=0 := by
  rw [termAt_pos (by omega),List.getElem?_eq_none (by omega)]
  rfl

theorem termAt_append_left {l x : List E} {k : Nat} (hk : k≤l.length) :
    termAt (l++x) k=termAt l k := by
  cases k with
  | zero => rfl
  | succ k => simp only [termAt,List.getElem?_append_left (show k<l.length by omega)]

theorem termAt_take {l : List E} {n k : Nat} (hk : k≤n) : termAt (l.take n) k=termAt l k := by
  cases k with
  | zero => rfl
  | succ k => simp only [termAt,List.getElem?_take_of_lt (show k<n by omega)]

/-- Past the first part the terms are those of the second. -/
theorem termAt_append_right {l x : List E} {k : Nat} (h0 : l.length<k)
    (hk : k≤(l++x).length) : ∃ e ∈ x, termAt (l++x) k=termOf e := by
  have hlt : k-1-l.length<x.length := by
    rw [List.length_append] at hk
    omega
  refine ⟨x[k-1-l.length],List.getElem_mem _,?_⟩
  rw [termAt_pos (by omega),List.getElem?_append_right (by omega),List.getElem?_eq_getElem hlt]
  rfl

end

namespace Covers

variable {E : Type} {l l' l'' x : List E} {k k' : Nat}

theorem zero (l l' : List E) : Covers 0 l l' := ⟨Nat.zero_le _,rfl⟩

theorem refl (h : k≤l.length) : Covers k l l := ⟨h,rfl⟩

theorem length_le (h : Covers k l l') : k≤l.length := by
  have hlen := congrArg List.length h.2
  rw [List.length_take,List.length_take] at hlen
  have := h.1
  omega

theorem symm (h : Covers k l l') : Covers k l' l := ⟨h.length_le,h.2.symm⟩

theorem trans (h : Covers k l l') (h' : Covers k l' l'') : Covers k l l'' :=
  ⟨h'.1,h.2.trans h'.2⟩

theorem mono (h : Covers k l l') (hk : k'≤k) : Covers k' l l' := by
  refine ⟨hk.trans h.1,?_⟩
  have := congrArg (List.take k') h.2
  rwa [List.take_take,List.take_take,Nat.min_eq_left hk] at this

theorem append_left (h : Covers k l l') : Covers k (l++x) l' := by
  refine ⟨h.1,?_⟩
  rw [List.take_append_of_le_length h.length_le]
  exact h.2

theorem of_isPrefix (h : l<+:l') (hk : k≤l.length) : Covers k l' l := by
  obtain ⟨x,rfl⟩ := h
  exact (Covers.refl hk).append_left

/-- A list that grew still has the same first entries. -/
theorem grow (h : l'<+:l'') (hc : Covers k l l') : Covers k l l'' :=
  hc.trans (of_isPrefix h hc.1).symm

theorem shrink (h : l'<+:l'') (hk : k≤l'.length) (hc : Covers k l l'') : Covers k l l' :=
  hc.trans (of_isPrefix h hk)

theorem take (hk : k≤l.length) : Covers k (l.take k) l :=
  ⟨hk,by rw [List.take_take,Nat.min_self]⟩

theorem termAt_eq [Termed E] (h : Covers k l l') (hk : k'≤k) : termAt l k'=termAt l' k' := by
  rw [← termAt_take hk,h.2,termAt_take hk]

/-- The entries that both the log and the leader's log share with a third log survive
the splice. -/
theorem splice {m : Nat} {log ll : List E} (hm : m≤ll.length)
    (hl : Covers m log ll ∧ l=log ∨ ¬Covers m log ll ∧ l=ll.take m) (h1 : Covers k log x)
    (h2 : Covers k ll x) : Covers k l x := by
  rcases hl with ⟨_,rfl⟩ | ⟨hne,rfl⟩
  · exact h1
  · have hk : k ≤ m := by
      by_contra hlt
      exact hne ((h1.trans h2.symm).mono (by omega))
    exact ((Covers.take hm).mono hk).trans h2

end Covers

section

variable {E : Type} [Termed E]

/-- Every entry of l, with all that precedes it, stands in the log of its own term. -/
def Coherent (L : Nat → List E) (l : List E) : Prop :=
  ∀ k, 0<k → k≤l.length → Covers k l (L (termAt l k))

/-- Log matching: coherent logs that agree on a term agree up to there. -/
theorem Coherent.covers {L : Nat → List E} {l l' : List E} {k : Nat} (h : Coherent L l)
    (h' : Coherent L l') (hk : k≤l.length) (hk' : k≤l'.length)
    (ht : termAt l k=termAt l' k) : Covers k l l' := by
  rcases Nat.eq_zero_or_pos k with rfl | h0
  · exact .zero l l'
  · exact (h k h0 hk).trans (ht ▸ (h' k h0 hk').symm)

theorem Coherent.take {L : Nat → List E} {l : List E} (h : Coherent L l) (n : Nat) :
    Coherent L (l.take n) := by
  intro k h0 hk
  rw [List.length_take] at hk
  rw [termAt_take (by omega)]
  have hc := h k h0 (by omega)
  refine ⟨hc.1,?_⟩
  rw [List.take_take,Nat.min_eq_left (by omega)]
  exact hc.2

end

end RaftTesting.Consensus
