/-!
# Computations that may fail

What the result of a computation tells of its steps, and how a reader goes on from entry to
entry until one of them is refused.
-/

namespace Shaderwright

universe u v w

section
variable {ε : Type u} {α β : Type v}

theorem bind_eq_ok {x : Except ε α} {f : α → Except ε β} {b : β} :
    x >>= f = .ok b ↔ ∃ a, x = .ok a ∧ f a = .ok b := by
  cases x with
  | error e => simp [bind, Except.bind]
  | ok a => simp [bind, Except.bind]

theorem toOption_eq_some_iff {result : Except ε α} {a : α} :
    result.toOption = some a ↔ result = .ok a := by
  cases result <;> simp [Except.toOption]

end

section
variable {ε : Type u} {α : Type w} {β : Type v} {f : β → α → Except ε β}

/-- A reader goes on from what the first entry leaves. -/
theorem foldlM_cons_of_ok {a : α} {as : List α} {b c : β} (h : f b a = .ok c) :
    (a :: as).foldlM f b = as.foldlM f c := by
  rw [List.foldlM_cons, h]
  rfl

/-- What no entry breaks holds once all entries are read. -/
theorem foldlM_keeps {P : β → Prop} (hf : ∀ b a b', P b → f b a = .ok b' → P b') {as : List α}
    {b b' : β} (hb : P b) (h : as.foldlM f b = .ok b') : P b' := by
  induction as generalizing b with
  | nil =>
      obtain rfl := Except.ok.inj h
      exact hb
  | cons a as ih =>
      rw [List.foldlM_cons] at h
      obtain ⟨next, hfirst, hrest⟩ := bind_eq_ok.1 h
      exact ih (hf b a next hb hfirst) hrest

end

end Shaderwright
