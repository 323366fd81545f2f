import Shaderwright.Proofs.Shader.Growth
import Shaderwright.Proofs.Shader.Slots

/-!
# What patterns find

A name is looked up as it is. A pattern with a star at one of its ends stands for the names that
hold the rest of it, and a pattern with a star at each end is meant to do so as well
(`StandsFor`). Only one star is taken off, though: of a pattern with two, the second is looked
for in the names as if it were a letter (`accepts_of_twoStars`). Such a pattern misses the name
that is spelled like its middle, so that the two readings of a pattern agree exactly if it does
not have a star at each end (`findsLast_standsFor_iff`).
-/

namespace Shaderwright

namespace Pattern

/-! ## Stars -/

def withoutLeadingStar : List Char → List Char
  | '*' :: rest => rest
  | cs => cs

def withoutTrailingStar (cs : List Char) : List Char :=
  if cs.getLast? = some '*' then cs.dropLast else cs

/-- What a pattern is without the stars at its ends. -/
def unstarred (pattern : String) : List Char :=
  withoutTrailingStar (withoutLeadingStar pattern.toList)

/-- A name without stars at its ends stands for itself, any other pattern for the names that hold
what it is without them. -/
def StandsFor (pattern name : String) : Prop :=
  if IsPlainName pattern then name = pattern else unstarred pattern <:+: name.toList

/-- There is a star at each end of the pattern. -/
def HasTwoStars (pattern : String) : Prop :=
  ∃ middle, pattern.toList = '*' :: (middle ++ ['*'])

section
variable {pattern : String} {rest middle : List Char}

theorem ofString_of_leading (h : pattern.toList = '*' :: rest) :
    ofString pattern = .containing (String.ofList rest) := by
  unfold ofString
  rw [h]
  rfl

theorem ofString_of_trailing (h : pattern.toList = rest ++ ['*']) (hhead : rest.head? ≠ some '*')
    (hne : rest ≠ []) : ofString pattern = .containing (String.ofList rest) := by
  obtain ⟨c, cs, rfl⟩ := List.exists_cons_of_ne_nil hne
  have hc : c ≠ '*' := by
    rintro rfl
    exact hhead rfl
  have hlast : (c :: (cs ++ ['*'])).getLast? = some '*' := List.getLast?_concat (l := c :: cs)
  have hinit : (c :: (cs ++ ['*'])).dropLast = c :: cs := by
    rw [← List.cons_append, List.dropLast_concat]
  unfold ofString
  rw [h, List.cons_append]
  simp [hc, hlast, hinit]

theorem not_isPlainName_of_leading (h : pattern.toList = '*' :: rest) : ¬ IsPlainName pattern := by
  intro hplain
  exact hplain.1 (by rw [h]; rfl)

theorem not_isPlainName_of_trailing (h : pattern.toList = rest ++ ['*']) :
    ¬ IsPlainName pattern := by
  intro hplain
  exact hplain.2 (by rw [h]; simp)

/-- A pattern is a plain name, or has a star at its start only, at its end only or at both. -/
theorem stars_cases (pattern : String) :
    IsPlainName pattern ∨
    (∃ rest, pattern.toList = '*' :: rest ∧ rest.getLast? ≠ some '*') ∨
    (∃ rest, pattern.toList = rest ++ ['*'] ∧ rest.head? ≠ some '*' ∧ rest ≠ []) ∨
    HasTwoStars pattern := by
  by_cases hhead : pattern.toList.head? = some '*'
  · obtain ⟨rest, hrest⟩ := List.head?_eq_some_iff.1 hhead
    by_cases hlast : rest.getLast? = some '*'
    · obtain ⟨middle, rfl⟩ := List.getLast?_eq_some_iff.1 hlast
      exact .inr (.inr (.inr ⟨middle, hrest⟩))
    · exact .inr (.inl ⟨rest, hrest, hlast⟩)
  · by_cases hlast : pattern.toList.getLast? = some '*'
    · obtain ⟨rest, hrest⟩ := List.getLast?_eq_some_iff.1 hlast
      have hne : rest ≠ [] := by
        rintro rfl
        exact hhead (by rw [hrest]; rfl)
      have hfirst : rest.head? ≠ some '*' := by
        rwa [hrest, List.head?_append_of_ne_nil _ hne] at hhead
      exact .inr (.inr (.inl ⟨rest, hrest, hfirst, hne⟩))
    · exact .inl ⟨hhead, hlast⟩

theorem unstarred_of_leading (h : pattern.toList = '*' :: rest)
    (hlast : rest.getLast? ≠ some '*') : unstarred pattern = rest := by
  unfold unstarred
  rw [h]
  exact if_neg hlast

theorem unstarred_of_trailing (h : pattern.toList = rest ++ ['*'])
    (hhead : rest.head? ≠ some '*') (hne : rest ≠ []) : unstarred pattern = rest := by
  obtain ⟨c, cs, rfl⟩ := List.exists_cons_of_ne_nil hne
  have hlead : withoutLeadingStar (c :: (cs ++ ['*'])) = c :: (cs ++ ['*']) := by
    unfold withoutLeadingStar
    split
    · next heq => exact absurd (congrArg List.head? heq) hhead
    · rfl
  unfold unstarred withoutTrailingStar
  rw [h, List.cons_append, hlead, ← List.cons_append, List.getLast?_concat, if_pos rfl,
    List.dropLast_concat]

theorem unstarred_of_twoStars (h : pattern.toList = '*' :: (middle ++ ['*'])) :
    unstarred pattern = middle := by
  unfold unstarred
  rw [h]
  simp [withoutLeadingStar, withoutTrailingStar]

/-! ## Names -/

theorem accepts_containing_iff {name : String} :
    (containing (String.ofList rest)).accepts name = true ↔ rest <:+: name.toList := by
  show Text.contains name (String.ofList rest) = true ↔ _
  rw [Text.contains, Text.occursIn_iff, String.toList_ofList]

theorem accepts_iff_standsFor (h : ¬ HasTwoStars pattern) (name : String) :
    (ofString pattern).accepts name = true ↔ StandsFor pattern name := by
  unfold StandsFor
  rcases stars_cases pattern with hplain | ⟨rest, hrest, hlast⟩ | ⟨rest, hrest, hhead, hne⟩ | htwo
  · rw [if_pos hplain, accepts_of_plain hplain, beq_iff_eq]
  · rw [if_neg (not_isPlainName_of_leading hrest), unstarred_of_leading hrest hlast,
      ofString_of_leading hrest, accepts_containing_iff]
  · rw [if_neg (not_isPlainName_of_trailing hrest), unstarred_of_trailing hrest hhead hne,
      ofString_of_trailing hrest hhead hne, accepts_containing_iff]
  · exact absurd htwo h

/-- Of two stars the second is taken for a part of the names. -/
theorem accepts_of_twoStars (h : pattern.toList = '*' :: (middle ++ ['*'])) (name : String) :
    (ofString pattern).accepts name = true ↔ middle ++ ['*'] <:+: name.toList := by
  rw [ofString_of_leading h, accepts_containing_iff]

end

end Pattern

namespace Variable

open Pattern

/-- What is found under the pattern is the last variable of a list whose name has the property,
and nothing exactly if no name has it. -/
def FindsLast (pattern : String) (P : String → Prop) : Prop :=
  ∀ vars : List Variable,
    (∀ v, lookup? pattern vars = some v ↔ IsLast (fun u => P u.name) vars v) ∧
    (lookup? pattern vars = none ↔ ∀ u ∈ vars, ¬ P u.name)

theorem findsLast_of_accepts_iff {pattern : String} {P : String → Prop}
    (h : ∀ name, (ofString pattern).accepts name = true ↔ P name) : FindsLast pattern P := by
  intro vars
  constructor
  · intro v
    simp only [lookup?, findLast?_eq_some_iff, IsLast, Bool.eq_false_iff, ne_eq, h]
  · simp only [lookup?, findLast?_eq_none_iff, Bool.eq_false_iff, ne_eq, h]

/-- What is found tells of every name whether it has the property. -/
theorem FindsLast.unique {pattern : String} {P Q : String → Prop} (hP : FindsLast pattern P)
    (hQ : FindsLast pattern Q) (name : String) : P name ↔ Q name := by
  have halone : ∀ {R : String → Prop}, FindsLast pattern R →
      (lookup? pattern [{ role := .local, ty := .unset, name }] = none ↔ ¬ R name) := by
    intro R hR
    rw [(hR _).2, List.forall_mem_singleton]
  exact not_iff_not.1 ((halone hP).symm.trans (halone hQ))

/-- **What patterns find.** They find the last variable whose name they stand for, unless there is
a star at each end of the pattern; then the names have to hold its end with the second star. -/
theorem findsLast_standsFor_iff (pattern : String) :
    (FindsLast pattern (StandsFor pattern) ↔ ¬ HasTwoStars pattern) ∧
    ∀ middle : List Char, pattern.toList = '*' :: (middle ++ ['*']) →
      FindsLast pattern fun name => middle ++ ['*'] <:+: name.toList := by
  have htwo : ∀ middle : List Char, pattern.toList = '*' :: (middle ++ ['*']) →
      FindsLast pattern fun name => middle ++ ['*'] <:+: name.toList := fun middle h =>
    findsLast_of_accepts_iff (accepts_of_twoStars h)
  refine ⟨⟨?_, fun h => findsLast_of_accepts_iff (accepts_iff_standsFor h)⟩, htwo⟩
  rintro hfinds ⟨middle, h⟩
  -- The name that is spelled like the middle is stood for and not found.
  have hstands : StandsFor pattern (String.ofList middle) := by
    unfold StandsFor
    rw [if_neg (not_isPlainName_of_leading h), unstarred_of_twoStars h]
    exact ⟨[], [], by simp⟩
  have hin := (hfinds.unique (htwo middle h) _).1 hstands
  have hlength := hin.length_le
  rw [String.toList_ofList, List.length_append, List.length_singleton] at hlength
  omega

/-- The normal that was declared last. -/
def lastNormal : Variable := { role := .input, ty := .vec 3, name := "normal_geo" }

/-- Two normals and a tangent. -/
def handedOn : List Variable :=
  [{ role := .input, ty := .vec 3, name := "normal_vsh" },
    { role := .input, ty := .vec 3, name := "tangent_vsh" }, lastNormal]

/-- A star at the end finds the last normal. -/
theorem findsLast_standsFor_iff_normal :
    ¬ HasTwoStars "normal_*" ∧
      IsLast (fun u => StandsFor "normal_*" u.name) handedOn lastNormal := by
  have hone : ¬ HasTwoStars "normal_*" := by
    rintro ⟨middle, h⟩
    exact absurd (List.cons.inj h).1 (by decide)
  exact ⟨hone, (((findsLast_standsFor_iff "normal_*").1.2 hone handedOn).1 _).1 (by decide)⟩

/-- A star at each end finds nothing, though two of the names hold what stands between the
stars, and with the last star alone the last of them is found. -/
theorem twoStars_find_nothing :
    IsLast (fun u => StandsFor "*normal*" u.name) handedOn lastNormal ∧
      lookup? "*normal*" handedOn = none ∧ lookup? "normal*" handedOn = some lastNormal := by
  have hstands : unstarred "*normal*" <:+: lastNormal.name.toList :=
    ⟨[], "_geo".toList, by decide⟩
  exact ⟨⟨hstands, handedOn.dropLast, [], rfl, by simp⟩, by decide, by decide⟩

end Variable

end Shaderwright
