import Mathlib.Tactic.SplitIfs
import Mathlib.Data.List.Basic

namespace RaftTesting.Ring

/-- The position k places behind start in a ring of the given size. -/
def slot (size start k : Nat) : Nat := if size ≤ start+k then start+k-size else start+k

/-- The next position. -/
def next (size idx : Nat) : Nat := if size ≤ idx+1 then idx+1-size else idx+1

variable {α : Type} {buf : List α} {size start n k : Nat}

/-- The n elements of a ring from start on. -/
def contents (buf : List α) (size start n : Nat) : List α :=
  (List.range n).filterMap (fun k => buf[slot size start k]?)

/-- n elements from start on are in the buffer, which is grown up to size before positions
are used again. -/
structure Laid (buf : List α) (size start n : Nat) : Prop where
  length : buf.length ≤ size
  count : n ≤ size
  place : start+n≤buf.length ∨ (buf.length=size ∧ start<size)

theorem Laid.slot_lt (h : Laid buf size start n) (hk : k<n) : slot size start k<buf.length := by
  obtain ⟨hlen,hn,hplace⟩ := h
  unfold slot
  split_ifs <;> omega

theorem slot_zero (h : Laid buf size start (n+1)) : slot size start 0=start := by
  obtain ⟨hlen,hn,hplace⟩ := h
  unfold slot
  split_ifs <;> omega

theorem slot_next (h : Laid buf size start (n+1)) (hk : k<n) :
    slot size (next size start) k=slot size start (k+1) := by
  obtain ⟨hlen,hn,hplace⟩ := h
  unfold slot next
  split_ifs <;> omega

theorem slot_ne (hk : k<n) (hn : n<size) : slot size start k≠slot size start n := by
  unfold slot
  split_ifs <;> omega

theorem Laid.next (h : Laid buf size start (n+1)) : Laid buf size (next size start) n := by
  obtain ⟨hlen,hn,hplace⟩ := h
  refine ⟨hlen,by omega,?_⟩
  unfold Ring.next
  split_ifs <;> omega

theorem contents_congr {β : Type} {f : Nat → Option β} {g : Nat → Option β}
    (h : ∀ k<n, f k=g k) : (List.range n).filterMap f=(List.range n).filterMap g :=
  List.filterMap_congr (fun k hk => h k (List.mem_range.mp hk))

theorem contents_cons (h : Laid buf size start (n+1)) : ∃ v, buf[start]?=some v ∧
    contents buf size start (n+1)=v::contents buf size (next size start) n := by
  have hlt : start<buf.length := by
    have := h.slot_lt (Nat.succ_pos n)
    rwa [slot_zero h] at this
  refine ⟨buf[start],List.getElem?_eq_getElem hlt,?_⟩
  unfold contents
  rw [List.range_succ_eq_map,List.filterMap_cons,slot_zero h,List.getElem?_eq_getElem hlt]
  dsimp only
  rw [List.filterMap_map]
  congr 1
  exact contents_congr (fun k hk => by
    dsimp only [Function.comp_apply]
    rw [slot_next h hk])

theorem contents_length (h : Laid buf size start n) : (contents buf size start n).length=n := by
  induction n generalizing start with
  | zero => rfl
  | succ n ih =>
    obtain ⟨v,-,heq⟩ := contents_cons h
    rw [heq,List.length_cons,ih h.next]

/-- An element written behind the others is the last one. -/
theorem contents_set {v : α} (hn : n<size) (hlt : slot size start n<buf.length) :
    contents (buf.set (slot size start n) v) size start (n+1)=contents buf size start n++[v] := by
  unfold contents
  rw [List.range_succ,List.filterMap_append]
  congr 1
  · exact contents_congr (fun k hk => List.getElem?_set_ne (slot_ne hk hn).symm)
  · simp [hlt]

theorem contents_append {ext : List α} (h : Laid buf size start n) :
    contents (buf++ext) size start n=contents buf size start n :=
  contents_congr (fun _ hk => List.getElem?_append_left (h.slot_lt hk))

end RaftTesting.Ring
