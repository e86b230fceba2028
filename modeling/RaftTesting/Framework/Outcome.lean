import Mathlib.Data.List.Basic

namespace RaftTesting

section Outcome

variable {ε α β : Type}

/-- A sequence of two steps succeeds exactly when both do. -/
theorem bind_eq_ok {x : Except ε α} {f : α → Except ε β} {b : β} :
    (x >>= f)=.ok b ↔ ∃ a, x=.ok a ∧ f a=.ok b := by
  cases x with
  | error e => simp [bind,Except.bind]
  | ok a => simp [bind,Except.bind]

theorem pure_eq_ok {a b : α} : (pure a : Except ε α)=.ok b ↔ a=b := by
  simp [pure,Except.pure]

theorem map_eq_ok {x : Except ε α} {f : α → β} {b : β} :
    (f <$> x)=.ok b ↔ ∃ a, x=.ok a ∧ f a=b := by
  cases x with
  | error e => simp [Functor.map,Except.map]
  | ok a => simp [Functor.map,Except.map]

/-- The step succeeds with a value that passes the test. -/
def passes (x : Except ε α) (p : α → Bool) : Bool :=
  match x with
  | .ok a => p a
  | .error _ => false

theorem passes_iff {x : Except ε α} {p : α → Bool} :
    passes x p=true ↔ ∃ a, x=.ok a ∧ p a=true := by
  cases x <;> simp [passes]

/-- A relation that is reflexive, transitive and respected by every iteration of
a fallible loop is respected by the loop. -/
theorem foldlM_rel {R : β → β → Prop} (hrefl : ∀ b, R b b)
    (htrans : ∀ a b c, R a b → R b c → R a c) {f : β → α → Except ε β} {l : List α}
    (hf : ∀ a ∈ l, ∀ b b', f b a=.ok b' → R b b') {b b' : β} (h : l.foldlM f b=.ok b') :
    R b b' := by
  induction l generalizing b with
  | nil =>
    simp only [List.foldlM_nil,pure_eq_ok] at h
    exact h ▸ hrefl b
  | cons a l ih =>
    simp only [List.foldlM_cons,bind_eq_ok] at h
    obtain ⟨c,hc,h⟩ := h
    exact htrans _ _ _ (hf a (by simp) b c hc) (ih (fun a ha => hf a (by simp [ha])) h)

/-- Of two fallible loops over the same list the second one succeeds with the first, when
each of its iterations does. -/
theorem foldlM_simulates {γ δ : Type} {R : β → γ → Prop} {f : β → α → Except ε β}
    {g : γ → α → Except δ γ} (hstep : ∀ a b c b', R b c → f b a=.ok b' →
      ∃ c', g c a=.ok c' ∧ R b' c') {l : List α} {b b' : β} {c : γ} (hR : R b c)
    (h : l.foldlM f b=.ok b') : ∃ c', l.foldlM g c=.ok c' ∧ R b' c' := by
  induction l generalizing b c with
  | nil =>
    cases h
    exact ⟨c,rfl,hR⟩
  | cons a l ih =>
    obtain ⟨b1,h1,h⟩ := bind_eq_ok.mp h
    obtain ⟨c1,hc1,hR1⟩ := hstep a b c b1 hR h1
    obtain ⟨c',hc',hR'⟩ := ih hR1 h
    exact ⟨c',bind_eq_ok.mpr ⟨c1,hc1,hc'⟩,hR'⟩

/-- A fallible loop commutes with a map that every iteration commutes with. -/
theorem foldlM_comm {g : β → β} {f : β → α → Except ε β} {l : List α}
    (hf : ∀ a b, f (g b) a=(f b a).map g) (b : β) :
    l.foldlM f (g b)=(l.foldlM f b).map g := by
  induction l generalizing b with
  | nil => rfl
  | cons a l ih =>
    simp only [List.foldlM_cons,hf]
    cases f b a with
    | error e => rfl
    | ok b' => exact ih b'

/-- The computation does not fail in the way that P describes. -/
def Avoids (P : ε → Bool) (x : Except ε α) : Prop := ∀ e, x=.error e → P e=false

variable {P : ε → Bool}

@[simp] theorem avoids_ok (a : α) : Avoids P (.ok a : Except ε α) := by
  intro e h
  cases h

@[simp] theorem avoids_error (e : ε) : Avoids P (.error e : Except ε α) ↔ P e=false := by
  constructor
  · exact fun h => h e rfl
  · rintro h e' he
    cases he
    exact h

theorem Avoids.ite {c : Prop} [Decidable c] {x y : Except ε α} (hx : Avoids P x)
    (hy : Avoids P y) : Avoids P (if c then x else y) := by
  split
  · exact hx
  · exact hy

theorem Avoids.bind {x : Except ε α} {f : α → Except ε β} (hx : Avoids P x)
    (hf : ∀ a, x=.ok a → Avoids P (f a)) : Avoids P (x >>= f) := by
  cases x with
  | error e => exact (avoids_error e).mpr (hx e rfl)
  | ok a => exact hf a rfl

theorem Avoids.foldlM {f : β → α → Except ε β} {l : List α} (hf : ∀ b a, Avoids P (f b a)) (b : β) :
    Avoids P (l.foldlM f b) := by
  induction l generalizing b with
  | nil => exact avoids_ok b
  | cons a l ih =>
    rw [List.foldlM_cons]
    exact (hf b a).bind (fun b' _ => ih b')

end Outcome

end RaftTesting
