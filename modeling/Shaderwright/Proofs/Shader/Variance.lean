import Mathlib.Algebra.Order.Field.Basic
import Mathlib.Tactic.NormNum
import Shaderwright.Proofs.Glsl.Evaluation
import Shaderwright.Proofs.Shader.Redeclaration

/-!
# The light that a variance shadow leaves

The statements of the variance shadow are run over the rational numbers, on whatever values the
names have before. With the mean `r` and the mean square `g` of the stored distances they leave
all light at a distance `d ≤ r`. Farther away they leave the share `v / (v + (r - d)²)` for the
variance `v = g - r²`, which is Chebyshev's bound on how much of what is stored lies at `d` or
beyond.

A mean square is at least the square of the mean. The share then lies between none and all of
the light, and nothing is divided by zero to get it, not even if the variance is zero.
-/

namespace Shaderwright.Glsl

open Shaderwright.Expr (ident ofFloat32 texture)
open Feature

/-! ## The estimate -/

/-- The values that the estimate gives to its locals. -/
def varianceEstimate : List (String × Expr) :=
  [ ("l_query", (texture (ident "u_shadow_cube") (ident "l_light_dir")).member "rg"
      * ofFloat32 momentScale),
    ("l_depth", (ident "l_light_dir").length),
    ("l_E_x2", (ident "l_query").member "g"),
    ("l_Ex_2", ((ident "l_query").member "r").pow (ofFloat32 2.0)),
    ("l_var", ident "l_E_x2" - ident "l_Ex_2"),
    ("l_md", (ident "l_query").member "r" - ident "l_depth"),
    ("l_md_2", (ident "l_md").pow (ofFloat32 2.0)),
    ("l_p", ident "l_var" / (ident "l_var" + ident "l_md_2")) ]

/-- The estimate counts for what is farther away than the mean. -/
def varianceComparison : Edit :=
  .conditional (.binary .gt (ident "l_depth") ((ident "l_query").member "r"))
    (.set (ident "l_lit") (ident "l_p"))

theorem shadowMappedVarianceEdits_eq (position : Variable) :
    shadowMappedVarianceEdits position = shadowPrologue position ++
      [ parameter "u_light_proj_matrix" (.mat 4), localVar "l_query" (.vec 2),
        localVar "l_depth" .float, localVar "l_E_x2" .float, localVar "l_Ex_2" .float,
        localVar "l_var" .float, localVar "l_md" .float, localVar "l_md_2" .float,
        localVar "l_p" .float ] ++
      (varianceEstimate.map fun entry => Edit.statement (.set (.ident entry.1) entry.2)) ++
      [varianceComparison] := rfl

theorem singleAssignment_varianceEstimate : SingleAssignment varianceEstimate := by
  simp [varianceEstimate, SingleAssignment, Expr.names, Expr.argNames, texture, Expr.length,
    Expr.pow, ofFloat32]

theorem literalValue_one : literalValue (Decimal.ofFloat32 1.0) = .number 1 := by
  decide +kernel

theorem literalValue_two : literalValue (Decimal.ofFloat32 2.0) = .number 2 := by
  decide +kernel

theorem literalValue_momentScale :
    literalValue (Decimal.ofFloat32 momentScale) = .number 1000 := by
  decide +kernel

namespace Surroundings

/-- The stored distances, on the way to the light, are texels on another scale. -/
def mean (S : Surroundings) (τ : Store) : ℚ :=
  (S.texel (τ "u_shadow_cube") (τ "l_light_dir")).1 * 1000

def meanSquare (S : Surroundings) (τ : Store) : ℚ :=
  (S.texel (τ "u_shadow_cube") (τ "l_light_dir")).2.1 * 1000

def distance (S : Surroundings) (τ : Store) : ℚ := S.length (τ "l_light_dir")

/-- The share of the light at a distance beyond the mean. -/
def litShare (S : Surroundings) (r g d : ℚ) : ℚ :=
  S.divide (g - r * r) ((g - r * r) + (r - d) * (r - d))

section
variable {S : Surroundings} {τ : Store}

/-- A power to two is a square. -/
theorem eval_square {e : Expr} {x : ℚ} (h : S.eval τ e = .number x) :
    S.eval τ (e.pow (ofFloat32 2.0)) = .number (x * x) := by
  simp only [Expr.pow, ofFloat32, eval, evalArgs, apply, h, literalValue_two, raise, if_pos]

/-- What the locals have to do with each other once the estimate is done. -/
theorem estimate_spec (h : ∀ entry ∈ varianceEstimate, τ entry.1 = S.eval τ entry.2) :
    τ "l_query" = .row [S.mean τ, S.meanSquare τ] ∧ τ "l_depth" = .number (S.distance τ) ∧
      τ "l_p" = .number (S.litShare (S.mean τ) (S.meanSquare τ) (S.distance τ)) := by
  simp only [varianceEstimate, List.forall_mem_cons] at h
  obtain ⟨hquery, hdepth, hmeanSquare, hsquare, hvariance, hoff, hoffSquare, hshare, -⟩ := h
  have hquery : τ "l_query" = .row [S.mean τ, S.meanSquare τ] := by
    simp only [hquery, texture, ofFloat32, eval, evalArgs, apply, memberValue,
      literalValue_momentScale]
    rfl
  have hdepth : τ "l_depth" = .number (S.distance τ) := hdepth
  generalize S.mean τ = r, S.meanSquare τ = g, S.distance τ = d at hquery hdepth ⊢
  have hr : S.eval τ ((ident "l_query").member "r") = .number r := by
    simp only [eval, hquery]
    rfl
  have hg : τ "l_E_x2" = .number g := by
    simp only [hmeanSquare, eval, hquery]
    rfl
  have hsquare : τ "l_Ex_2" = .number (r * r) := hsquare.trans (eval_square hr)
  have hvariance : τ "l_var" = .number (g - r * r) := by
    simp only [hvariance, Expr.sub_eq, eval, hg, hsquare]
    rfl
  have hoff : S.eval τ (ident "l_md") = .number (r - d) := by
    simp only [eval, hoff, Expr.sub_eq, hquery, hdepth]
    rfl
  have hoffSquare : τ "l_md_2" = .number ((r - d) * (r - d)) :=
    hoffSquare.trans (eval_square hoff)
  have hshare : τ "l_p" = .number (S.litShare r g d) := by
    simp only [hshare, Expr.div_eq, Expr.add_eq, eval, hvariance, hoffSquare]
    rfl
  exact ⟨hquery, hdepth, hshare⟩

/-- The comparison leaves the light as it was up to the mean and replaces it beyond. -/
theorem comparison_spec {r g d lit share : ℚ} (hquery : τ "l_query" = .row [r, g])
    (hdepth : τ "l_depth" = .number d) (hlit : τ "l_lit" = .number lit)
    (hshare : τ "l_p" = .number share) :
    S.perform τ varianceComparison
      = τ.set "l_lit" (.number (if d ≤ r then lit else share)) := by
  have hcondition : S.eval τ (.binary .gt (ident "l_depth") ((ident "l_query").member "r"))
      = .truth (r < d) := by
    simp only [eval, hquery, hdepth]
    rfl
  rw [varianceComparison, perform, hcondition]
  by_cases hnear : d ≤ r
  · rw [if_neg (by simpa using hnear), if_pos hnear]
    funext x
    rw [Store.set_apply]
    split
    · next hx => rw [hx, hlit]
    · rfl
  · have hbody : S.exec τ (.set (ident "l_lit") (ident "l_p")) = τ.set "l_lit" (τ "l_p") := rfl
    rw [if_pos (by simpa using hnear), if_neg hnear, hbody, hshare]

end

/-! ## The whole run -/

/-- The values after the edits of the feature: those of the estimate, and the estimated share
for the light if the distance is beyond the mean. -/
theorem perform_shadowMappedVariance (S : Surroundings) (σ : Store) (position : Variable) :
    let τ := (shadowMappedVarianceEdits position).foldl S.perform σ
    τ "l_query" = .row [S.mean τ, S.meanSquare τ] ∧
      τ "l_lit" = .number (if S.distance τ ≤ S.mean τ then 1
        else S.litShare (S.mean τ) (S.meanSquare τ) (S.distance τ)) := by
  let start := (shadowPrologue position).foldl S.perform σ
  have hstart : start "l_lit" = .number 1 := by
    have hliteral : start "l_lit" = literalValue (Decimal.ofFloat32 1.0) := rfl
    rw [hliteral, literalValue_one]
  have hrun : (shadowMappedVarianceEdits position).foldl S.perform σ
      = S.perform (S.settle start varianceEstimate) varianceComparison := by
    simp only [shadowMappedVarianceEdits_eq, List.foldl_append, perform_sets]
    rfl
  have hlit : S.settle start varianceEstimate "l_lit" = .number 1 :=
    (settle_of_not_mem (by decide)).trans hstart
  obtain ⟨hquery, hdepth, hshare⟩ :=
    estimate_spec (S := S) singleAssignment_varianceEstimate.settle_eq
  rw [hrun, comparison_spec hquery hdepth hlit hshare]
  -- The comparison assigns to the light alone, so the rest is what it was.
  exact ⟨hquery, rfl⟩

/-- Given that a mean square is at least the square of the mean, the share is between none and
all of the light, and its divisor is not zero. -/
theorem litShare_bounds (S : Surroundings) {r g d : ℚ} (hvariance : r * r ≤ g) (hfar : r < d) :
    (g - r * r) + (r - d) * (r - d) ≠ 0 ∧ 0 ≤ S.litShare r g d ∧ S.litShare r g d ≤ 1 := by
  have hnonneg : 0 ≤ g - r * r := sub_nonneg.2 hvariance
  have hoff : 0 < (r - d) * (r - d) := mul_pos_of_neg_of_neg (sub_neg.2 hfar) (sub_neg.2 hfar)
  have hpos : 0 < (g - r * r) + (r - d) * (r - d) := add_pos_of_nonneg_of_pos hnonneg hoff
  have hshare : S.litShare r g d = (g - r * r) / ((g - r * r) + (r - d) * (r - d)) :=
    if_neg hpos.ne'
  refine ⟨hpos.ne', ?_, ?_⟩
  · rw [hshare]
    exact div_nonneg hnonneg hpos.le
  · rw [hshare, div_le_one hpos]
    exact le_add_of_nonneg_right hoff.le

/-- Surroundings in which every texture and every length is the same. -/
def uniform (r g d : ℚ) (overZero : ℚ → ℚ) : Surroundings where
  overZero := overZero
  length _ := d
  power _ _ := 0
  texel _ _ := (r / 1000, g / 1000, 0, 0)
  call _ _ := .other

end Surroundings

/-- **What the variance shadow leaves of the light.** Whatever a stage has already, whatever
values its names have and whatever surrounds it: the lines that the feature appends leave all
light up to the mean of the stored distances and Chebyshev's bound beyond it, a share that is
well defined and no more than all of the light for moments that belong together. The moments
and the distance may be any. -/
theorem lit_shadowMappedVariance {s t : Shader} (h : s.apply .shadowMappedVariance = .ok t) :
    ∃ appended, t.statements = s.statements ++ appended ∧
      (∀ (S : Surroundings) (σ : Store), ∃ r g, S.run σ appended "l_query" = .row [r, g]) ∧
      (∀ (S : Surroundings) (σ : Store) (r g d : ℚ),
        S.run σ appended "l_query" = .row [r, g] →
        S.length (S.run σ appended "l_light_dir") = d →
        ∃ lit, S.run σ appended "l_lit" = .number lit ∧
          (d ≤ r → lit = 1) ∧
          (r < d → lit = S.divide (g - r * r) ((g - r * r) + (r - d) * (r - d))) ∧
          (r * r ≤ g → 0 ≤ lit ∧ lit ≤ 1 ∧
            (r < d → (g - r * r) + (r - d) * (r - d) ≠ 0))) ∧
      ∀ (r g d : ℚ) (overZero : ℚ → ℚ), ∃ S : Surroundings, S.overZero = overZero ∧
        ∀ σ : Store, S.run σ appended "l_query" = .row [r, g] ∧
          S.length (S.run σ appended "l_light_dir") = d := by
  obtain ⟨es, hyields, rfl⟩ := Shader.yields_of_apply h
  cases hyields with
  | @shadowMappedVariance position hposition =>
      have hspec : ∀ (S : Surroundings) (σ : Store),
          let τ := S.run σ ((shadowMappedVarianceEdits position).flatMap (Edit.lines s.depth))
          τ "l_query" = .row [S.mean τ, S.meanSquare τ] ∧
            τ "l_lit" = .number (if S.distance τ ≤ S.mean τ then 1
              else S.litShare (S.mean τ) (S.meanSquare τ) (S.distance τ)) := by
        intro S σ
        rw [Surroundings.run_edits]
        exact S.perform_shadowMappedVariance σ position
      refine ⟨_, Shader.statements_editAll s _, ?_, ?_, ?_⟩
      · intro S σ
        exact ⟨_, _, (hspec S σ).1⟩
      · rintro S σ r g d hquery hdistance
        obtain ⟨hmoments, hlit⟩ := hspec S σ
        obtain ⟨hmean, hmeanSquare⟩ : r = _ ∧ g = _ := by
          simpa using hquery.symm.trans hmoments
        rw [← hmean, ← hmeanSquare, Surroundings.distance, hdistance] at hlit
        refine ⟨_, hlit, fun hnear => if_pos hnear, fun hfar => if_neg (not_le.2 hfar), ?_⟩
        intro hvariance
        by_cases hnear : d ≤ r
        · rw [if_pos hnear]
          exact ⟨zero_le_one, le_refl 1, fun hfar => absurd hnear (not_le.2 hfar)⟩
        · obtain ⟨hne, hnonneg, hle⟩ := S.litShare_bounds hvariance (not_le.1 hnear)
          rw [if_neg hnear]
          exact ⟨hnonneg, hle, fun _ => hne⟩
      · intro r g d overZero
        refine ⟨.uniform r g d overZero, rfl, fun σ => ⟨?_, rfl⟩⟩
        rw [(hspec (.uniform r g d overZero) σ).1]
        simp [Surroundings.mean, Surroundings.meanSquare, Surroundings.uniform]

/-- A stage that takes the position in. -/
def placed : Shader :=
  (Shader.empty "lit" .fragment).put .input "position_vsh" [.ty (.vec 4), .slot (some .position)]

/-- With a mean of 10 and a variance of 4, half of the light is left at a distance of 12. -/
theorem lit_shadowMappedVariance_placed :
    ∃ (t : Shader) (appended : List Statement) (S : Surroundings),
      placed.apply .shadowMappedVariance = .ok t ∧ t.statements = placed.statements ++ appended ∧
        ∀ σ : Store, S.run σ appended "l_query" = .row [10, 104] ∧
          S.run σ appended "l_lit" = .number (1 / 2) := by
  have hplaced : placed.apply .shadowMappedVariance
      = .ok (placed.extend .shadowMappedVariance) := rfl
  obtain ⟨appended, hstatements, -, hlit, hany⟩ := lit_shadowMappedVariance hplaced
  obtain ⟨S, -, hS⟩ := hany 10 104 12 fun _ => 0
  refine ⟨_, appended, S, hplaced, hstatements, fun σ => ⟨(hS σ).1, ?_⟩⟩
  obtain ⟨lit, hend, -, hfar, -⟩ := hlit S σ 10 104 12 (hS σ).1 (hS σ).2
  have hhalf : lit = 1 / 2 := by
    rw [hfar (by norm_num), Surroundings.divide]
    norm_num
  rw [hend, hhalf]

end Shaderwright.Glsl
