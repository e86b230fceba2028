import RaftTesting.Tracker.Window

namespace RaftTesting

namespace Inflights

inductive Op where
  | add (inflight : Nat)
  | freeLE (upto : Nat)
  | freeFirstOne
  | reset
  deriving DecidableEq

def apply (i : Inflights) : Op → Except Panic Inflights
  | .add inflight => i.add inflight
  | .freeLE upto => i.freeLE upto
  | .freeFirstOne => i.freeFirstOne
  | .reset => .ok i.reset

def run (i : Inflights) (ops : List Op) : Except Panic Inflights := ops.foldlM apply i

/-- What an operation means for a plain queue, the oldest index first. -/
def Op.onQueue (q : List Nat) : Op → List Nat
  | .add inflight => q++[inflight]
  | .freeLE upto => q.dropWhile (fun v => decide (v≤upto))
  | .freeFirstOne => q.tail
  | .reset => []

def queueAfter (q : List Nat) (ops : List Op) : List Nat := ops.foldl Op.onQueue q

/-- An index is only added when there is room for it, and is larger than those in flight; the
first one is only released when there is one. -/
def Op.Allowed (size : Nat) (q : List Nat) : Op → Prop
  | .add inflight => q.length<size ∧ ∀ v ∈ q, v < inflight
  | .freeFirstOne => q≠[]
  | _ => True

instance (size : Nat) (q : List Nat) (op : Op) : Decidable (op.Allowed size q) := by
  cases op <;> unfold Op.Allowed <;> infer_instance

def AllAllowed (size : Nat) (q : List Nat) : List Op → Prop
  | [] => True
  | op::ops => op.Allowed size q ∧ AllAllowed size (op.onQueue q) ops

instance AllAllowed.decidable (size : Nat) : (q : List Nat) → (ops : List Op) →
    Decidable (AllAllowed size q ops)
  | _,[] => .isTrue trivial
  | q,op::ops =>
    have := AllAllowed.decidable size (op.onQueue q) ops
    inferInstanceAs (Decidable (op.Allowed size q ∧ AllAllowed size (op.onQueue q) ops))

/-- The ring stands for the queue. -/
structure Holds (size : Nat) (q : List Nat) (i : Inflights) : Prop where
  ringed : i.Ringed
  size : i.size=size
  window : i.window=q
  ascending : q.Pairwise (· < ·)

variable {i : Inflights} {size : Nat} {q : List Nat}

theorem newInflights_holds (size : Nat) : Holds size [] (newInflights size) :=
  ⟨newInflights_ringed size,rfl,rfl,List.Pairwise.nil⟩

theorem Ringed.grow_window (h : i.Ringed) : i.grow.window=i.window := by
  have hgrow : ∃ ext, i.grow={ i with buffer := i.buffer++ext } := by
    rcases Nat.lt_or_ge i.buffer.length i.size with hlt | hge
    · obtain ⟨ext,hext,-⟩ := i.grow_buffer hlt
      exact ⟨ext,hext⟩
    · have := h.laid.length
      unfold grow
      dsimp only
      split_ifs
      all_goals exact ⟨_,by rw [List.take_of_length_le (by omega)]⟩
  obtain ⟨ext,hgrow⟩ := hgrow
  rw [hgrow]
  exact Ring.contents_append h.laid

theorem Ringed.grow_length (h : i.Ringed) (hsize : 0 < i.size) : i.grow.buffer.length ≤ i.size := by
  have := h.laid.length
  unfold grow
  dsimp only
  rw [List.length_append,List.length_take,List.length_replicate]
  split_ifs <;> omega

namespace Holds

variable (h : Holds size q i)
include h

theorem count : i.count=q.length := by rw [← h.ringed.length,h.window]

theorem full_iff : i.full=true ↔ q.length=size := by
  rw [← h.count,← h.size]
  exact decide_eq_true_iff

theorem add {n : Nat} (hroom : q.length<size) (hn : ∀ v ∈ q, v<n) :
    ∃ i', i.add n=.ok i' ∧ Holds size (q++[n]) i' := by
  have hfull : i.full=false := by
    rw [← Bool.not_eq_true,h.full_iff]
    omega
  obtain ⟨i',hadd,hr,hs,hw⟩ := h.ringed.add hfull n
  refine ⟨i',hadd,hr,hs.trans h.size,by rw [hw,h.window],?_⟩
  rw [List.pairwise_append]
  refine ⟨h.ascending,List.pairwise_singleton _ _,fun v hv m hm => ?_⟩
  rw [List.mem_singleton.mp hm]
  exact hn v hv

theorem freeLE (upto : Nat) : ∃ i', i.freeLE upto=.ok i' ∧
    Holds size (q.dropWhile (fun v => decide (v≤upto))) i' := by
  obtain ⟨i',hfree,hr,hs,hw⟩ := h.ringed.freeLE upto
  exact ⟨i',hfree,hr,hs.trans h.size,by rw [hw,h.window],
    h.ascending.sublist (List.dropWhile_sublist _)⟩

/-- The index read at the start of the window is the first one of the queue. -/
theorem head {v : Nat} {rest : List Nat} (hq : q=v::rest) : i.buffer[i.start]?=some v := by
  have hcount : i.count=rest.length+1 := by rw [h.count,hq,List.length_cons]
  have hlaid := h.ringed.laid
  rw [hcount] at hlaid
  obtain ⟨w,hw,hcons⟩ := Ring.contents_cons hlaid
  rw [← hcount] at hcons
  have hwindow : Ring.contents i.buffer i.size i.start i.count=q := h.window
  rw [hcons,hq] at hwindow
  rw [hw,(List.cons.inj hwindow).1]

/-- The others are larger than the first one, so it alone is released. -/
theorem freeFirstOne (hne : q≠[]) : ∃ i', i.freeFirstOne=.ok i' ∧ Holds size q.tail i' := by
  cases hq : q with
  | nil => exact absurd hq hne
  | cons v rest =>
    have hlarger : ∀ w ∈ rest, v<w := by
      have := h.ascending
      rw [hq] at this
      exact (List.pairwise_cons.mp this).1
    have hdrop : (v::rest).dropWhile (fun w => decide (w≤v))=rest := by
      rw [List.dropWhile_cons_of_pos (by simp)]
      cases rest with
      | nil => rfl
      | cons w rest =>
        have hw := hlarger w (List.mem_cons_self ..)
        exact List.dropWhile_cons_of_neg (by simpa using hw)
    obtain ⟨i',hfree,hholds⟩ := h.freeLE v
    rw [hq,hdrop] at hholds
    unfold Inflights.freeFirstOne
    rw [h.head hq]
    exact ⟨i',hfree,hholds⟩

theorem reset : Holds size [] i.reset := ⟨h.ringed.reset,h.size,rfl,List.Pairwise.nil⟩

/-- Each operation does to the ring what it does to the queue. -/
theorem apply {op : Op} (ha : op.Allowed size q) :
    ∃ i', i.apply op=.ok i' ∧ Holds size (op.onQueue q) i' := by
  cases op with
  | add n => exact h.add ha.1 ha.2
  | freeLE upto => exact h.freeLE upto
  | freeFirstOne => exact h.freeFirstOne ha
  | reset => exact ⟨_,rfl,h.reset⟩

theorem run {ops : List Op} (ha : AllAllowed size q ops) :
    ∃ i', i.run ops=.ok i' ∧ Holds size (queueAfter q ops) i' := by
  induction ops generalizing i q with
  | nil => exact ⟨i,rfl,h⟩
  | cons op ops ih =>
    obtain ⟨i₁,hop,h₁⟩ := h.apply ha.1
    obtain ⟨i',hrun,h'⟩ := ih h₁ ha.2
    exact ⟨i',bind_eq_ok.mpr ⟨i₁,hop,hrun⟩,h'⟩

end Holds

/-- No operation fails, and the ring is the queue that the operations leave. -/
theorem run_queue (size : Nat) (hsize : 0<size) (ops : List Op) (ha : AllAllowed size [] ops) :
    ∃ i, (newInflights size).run ops=.ok i ∧ i.window=queueAfter [] ops ∧
      i.count=(queueAfter [] ops).length ∧ (i.full=true ↔ (queueAfter [] ops).length=size) ∧
      i.buffer.length ≤ size ∧ i.grow.buffer.length ≤ size ∧ i.grow.window=i.window := by
  obtain ⟨i,hrun,h⟩ := (newInflights_holds size).run ha
  have hs := h.size
  have hgrow := h.ringed.grow_length (by omega)
  have hlen := h.ringed.laid.length
  rw [hs] at hgrow hlen
  exact ⟨i,hrun,h.window,h.count,h.full_iff,hlen,hgrow,h.ringed.grow_window⟩

/-- The fourth index is written in front of the others. -/
def rotation : List Op := [.add 1,.add 2,.freeFirstOne,.add 3,.add 5,.freeLE 4,.add 6]

theorem run_queue_rotated : AllAllowed 3 [] rotation ∧ queueAfter [] rotation=[5,6] ∧
    ∃ i, (newInflights 3).run rotation=.ok i ∧ i.window=queueAfter [] rotation ∧
      i.count=(queueAfter [] rotation).length ∧
      (i.full=true ↔ (queueAfter [] rotation).length=3) ∧
      i.buffer.length≤3 ∧ i.grow.buffer.length≤3 ∧ i.grow.window=i.window :=
  ⟨by decide,by decide,run_queue 3 (by decide) rotation (by decide)⟩

end Inflights

end RaftTesting
