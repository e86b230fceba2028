import Mathlib.Data.Finset.Card
import Mathlib.Data.Finset.SymmDiff
import Mathlib.Tactic.Linarith

namespace RaftTesting

/-- More than half of the ids satisfy the predicate. -/
def MajorityOf (ids : Finset Nat) (S : Nat → Prop) : Prop :=
  ∃ q ⊆ ids, ids.card<2*q.card ∧ ∀ x ∈ q, S x

namespace MajorityOf

variable {ids jds : Finset Nat} {S T : Nat → Prop}

theorem mono (h : MajorityOf ids S) (hs : ∀ x ∈ ids, S x → T x) : MajorityOf ids T := by
  obtain ⟨q,hq,hc,hall⟩ := h
  exact ⟨q,hq,hc,fun x hx => hs x (hq hx) (hall x hx)⟩

/-- Inclusion and exclusion: two sets inside a common universe that together
outnumber it share an element. -/
theorem exists_common {u q r : Finset Nat} (hq : q ⊆ u) (hr : r ⊆ u)
    (hc : u.card<q.card+r.card) : ∃ x, x ∈ q ∧ x ∈ r := by
  have hu : (q ∪ r).card≤u.card := Finset.card_le_card (Finset.union_subset hq hr)
  have hi := Finset.card_union_add_card_inter q r
  have hpos : 0<(q ∩ r).card := by omega
  obtain ⟨x,hx⟩ := Finset.card_pos.mp hpos
  exact ⟨x,(Finset.mem_inter.mp hx).1,(Finset.mem_inter.mp hx).2⟩

theorem overlap (h : MajorityOf ids S) (h' : MajorityOf ids T) :
    ∃ x ∈ ids, S x ∧ T x := by
  obtain ⟨q,hq,hc,hs⟩ := h
  obtain ⟨r,hr,hd,ht⟩ := h'
  obtain ⟨x,hxq,hxr⟩ := exists_common hq hr (by omega)
  exact ⟨x,hq hxq,hs x hxq,ht x hxr⟩

/-- Majorities of two sets that differ in at most one id still meet. -/
theorem overlap_of_near (hn : (ids \ jds).card+(jds \ ids).card≤1)
    (h : MajorityOf ids S) (h' : MajorityOf jds T) : ∃ x, S x ∧ T x := by
  obtain ⟨q,hq,hc,hs⟩ := h
  obtain ⟨r,hr,hd,ht⟩ := h'
  have h1 := Finset.card_sdiff_add_card jds ids
  have h2 := Finset.card_sdiff_add_card_inter ids jds
  have h3 := Finset.card_sdiff_add_card_inter jds ids
  rw [Finset.inter_comm] at h3
  have hu : (jds ∪ ids).card=(jds \ ids).card+ids.card := h1.symm
  obtain ⟨x,hxq,hxr⟩ := exists_common (u := jds ∪ ids)
    (hq.trans Finset.subset_union_right) (hr.trans Finset.subset_union_left) (by omega)
  exact ⟨x,hs x hxq,ht x hxr⟩

/-- A decidable predicate holds on a majority exactly when the count says so. -/
theorem iff_filter (ids : Finset Nat) (p : Nat → Bool) :
    MajorityOf ids (fun x => p x=true) ↔ ids.card<2*(ids.filter (fun x => p x=true)).card := by
  constructor
  · rintro ⟨q,hq,hc,hall⟩
    have : q.card≤(ids.filter (fun x => p x=true)).card :=
      Finset.card_le_card (fun x hx => Finset.mem_filter.mpr ⟨hq hx,hall x hx⟩)
    omega
  · intro h
    exact ⟨_,Finset.filter_subset _ _,h,fun x hx => (Finset.mem_filter.mp hx).2⟩

end MajorityOf

end RaftTesting
