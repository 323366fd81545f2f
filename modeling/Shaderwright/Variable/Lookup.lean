import Shaderwright.Variable.Basic
import Shaderwright.Text.Words

/-!
# Looking variables up

A pattern with a star at its start, or else at its end, stands for every name
that contains the rest of it; one star is taken off, never two. Any other
pattern stands for itself. Of several matches the one declared last is found.
-/

namespace Shaderwright

/-- What a pattern asks of a name. -/
inductive Pattern where
  | exact (name : String)
  | containing (part : String)
deriving DecidableEq, Repr

namespace Pattern

/-- Reads a pattern, the leading star before the trailing one. -/
def ofString (s : String) : Pattern :=
  match s.toList with
  | '*' :: rest => .containing (String.ofList rest)
  | cs => if cs.getLast? = some '*' then .containing (String.ofList cs.dropLast) else .exact s

def accepts : Pattern → String → Bool
  | .exact name, s => s == name
  | .containing part, s => Text.contains s part

def isWildcard : Pattern → Bool
  | .exact _ => false
  | .containing _ => true

end Pattern

/-- The position of the last element that satisfies `p`. -/
def lastIndex? (p : α → Bool) : List α → Option Nat
  | [] => none
  | a :: as =>
      match lastIndex? p as with
      | some i => some (i + 1)
      | none => if p a then some 0 else none

/-- The last element that satisfies `p`. -/
def findLast? (p : α → Bool) : List α → Option α
  | [] => none
  | a :: as => (findLast? p as).or (if p a then some a else none)

/-- The list with `f` applied to the last element that satisfies `p`, if there is
one. -/
def updateLast? (p : α → Bool) (f : α → α) : List α → Option (List α)
  | [] => none
  | a :: as =>
      match updateLast? p f as with
      | some bs => some (a :: bs)
      | none => if p a then some (f a :: as) else none

namespace Variable

def lookupIndex? (pattern : String) (vars : List Variable) : Option Nat :=
  lastIndex? (fun v => (Pattern.ofString pattern).accepts v.name) vars

/-- The variable declared last under a name that the pattern stands for. -/
def lookup? (pattern : String) (vars : List Variable) : Option Variable :=
  findLast? (fun v => (Pattern.ofString pattern).accepts v.name) vars

end Variable

/-! ## Facts -/

theorem findLast?_append (p : α → Bool) (as bs : List α) :
    findLast? p (as ++ bs) = (findLast? p bs).or (findLast? p as) := by
  induction as with
  | nil => simp [findLast?]
  | cons a as ih => simp [findLast?, ih, Option.or_assoc]

theorem findLast?_eq_none_iff {p : α → Bool} {as : List α} :
    findLast? p as = none ↔ ∀ a ∈ as, p a = false := by
  induction as with
  | nil => simp [findLast?]
  | cons a as ih =>
      simp only [findLast?, Option.or_eq_none_iff, ih, List.mem_cons, forall_eq_or_imp]
      constructor
      · rintro ⟨h, ha⟩
        exact ⟨by simpa using ha, h⟩
      · rintro ⟨ha, h⟩
        exact ⟨h, by simp [ha]⟩

/-- What is found stands in the list, and nothing after it satisfies `p`. -/
theorem findLast?_eq_some_iff {p : α → Bool} {as : List α} {a : α} :
    findLast? p as = some a ↔
      p a = true ∧ ∃ before after, as = before ++ a :: after ∧ ∀ b ∈ after, p b = false := by
  induction as with
  | nil => simp [findLast?]
  | cons x xs ih =>
      rw [findLast?, Option.or_eq_some_iff, ih, findLast?_eq_none_iff]
      constructor
      · rintro (⟨hp, before, after, rfl, h⟩ | ⟨h, hx⟩)
        · exact ⟨hp, x :: before, after, rfl, h⟩
        · split at hx
          · next hp =>
              obtain rfl := Option.some.inj hx
              exact ⟨hp, [], xs, rfl, h⟩
          · exact absurd hx (by simp)
      · rintro ⟨hp, before, after, h, ha⟩
        cases before with
        | nil =>
            obtain ⟨rfl, rfl⟩ := List.cons.inj h
            exact .inr ⟨ha, by simp [hp]⟩
        | cons b before =>
            obtain ⟨rfl, rfl⟩ := List.cons.inj h
            exact .inl ⟨hp, before, after, rfl, ha⟩

theorem lastIndex?_lt {p : α → Bool} {as : List α} {i : Nat} (h : lastIndex? p as = some i) :
    i < as.length := by
  induction as generalizing i with
  | nil => simp [lastIndex?] at h
  | cons a as ih =>
      rw [lastIndex?] at h
      cases hl : lastIndex? p as with
      | none =>
          rw [hl] at h
          simp at h
          simp [← h.2]
      | some j =>
          have := ih hl
          simp_all
          omega

/-- The position found is that of the element found. -/
theorem lastIndex?_bind_getElem? (p : α → Bool) (as : List α) :
    (lastIndex? p as).bind (fun i => as[i]?) = findLast? p as := by
  induction as with
  | nil => rfl
  | cons a as ih =>
      rw [lastIndex?, findLast?, ← ih]
      cases h : lastIndex? p as with
      | none => by_cases hp : p a = true <;> simp [hp]
      | some i =>
          cases hi : as[i]? with
          | none =>
              have hlt := lastIndex?_lt h
              simp at hi
              omega
          | some b => simp [hi]

end Shaderwright
