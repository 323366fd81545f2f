import Mathlib.Algebra.Group.Nat.Units
import Mathlib.Order.Interval.Finset.Nat
import Shaderwright.Proofs.Shader.Growth
import Shaderwright.Proofs.Shader.Locations

/-!
# Locations that inputs take up

Each input of a vertex stage is given the location of its place among the inputs. From there on
it takes up one location for each column of a matrix, and that for each element of an array.
Inputs that take up more than one therefore reach into the locations of those behind them: the
locations are apart exactly if this is so of the last input at most (`apart_iff`).
-/

namespace Shaderwright

/-! ## What an input takes up -/

/-- The locations of a single value: one for each column. -/
def ShaderType.locations : ShaderType → Nat
  | .mat rank => rank.toNat
  | _ => 1

/-- The locations of a variable: those of a value, element by element. -/
def Variable.locations (v : Variable) : Nat := max v.arraySize 1 * v.ty.locations

theorem ShaderType.one_le_locations {ty : ShaderType} (h : ty ≠ .mat 0) : 1 ≤ ty.locations := by
  cases ty with
  | mat rank =>
      have hrank : rank ≠ 0 := fun hzero => h (congrArg ShaderType.mat hzero)
      have hpos : rank.toNat ≠ (0 : UInt8).toNat := mt UInt8.toNat_inj.1 hrank
      exact Nat.one_le_iff_ne_zero.2 hpos
  | _ => exact Nat.le_refl 1

theorem ShaderType.locations_eq_one_iff {ty : ShaderType} :
    ty.locations = 1 ↔ ∀ rank, ty = .mat rank → rank = 1 := by
  cases ty with
  | mat rank =>
      have hone : rank.toNat = 1 ↔ rank = 1 := UInt8.toNat_inj (b := 1)
      simp [locations, hone]
  | _ => simp [locations]

namespace Variable
variable {v : Variable}

theorem one_le_locations (h : v.ty ≠ .mat 0) : 1 ≤ v.locations :=
  Nat.mul_pos (Nat.le_max_right ..) (ShaderType.one_le_locations h)

/-- One location is enough for what is neither an array of several nor a matrix. -/
theorem locations_eq_one_iff :
    v.locations = 1 ↔ v.arraySize ≤ 1 ∧ ∀ rank, v.ty = .mat rank → rank = 1 := by
  rw [locations, mul_eq_one, ShaderType.locations_eq_one_iff]
  simp

end Variable

namespace Shader

/-- The locations that variables take up, one behind the other. -/
def claims (vars : List Variable) : List (Finset Nat) :=
  vars.zipIdx.map fun (v, location) => Finset.Ico location (location + v.locations)

theorem disjoint_Ico_iff {a b m n : Nat} (hn : 1 ≤ n) (hab : a < b) :
    Disjoint (Finset.Ico a (a + m)) (Finset.Ico b (b + n)) ↔ a + m ≤ b := by
  rw [Finset.disjoint_left]
  constructor
  · intro h
    by_contra hlt
    have hb : b ∈ Finset.Ico a (a + m) := Finset.mem_Ico.2 ⟨by omega, by omega⟩
    exact h hb (Finset.mem_Ico.2 ⟨by omega, by omega⟩)
  · intro h x hx hx'
    rw [Finset.mem_Ico] at hx hx'
    omega

/-- **Variables that are numbered one by one are apart** exactly if only the last takes up more
than one location. -/
theorem pairwise_claims_iff {vars : List Variable} (h : ∀ v ∈ vars, v.ty ≠ .mat 0) :
    (claims vars).Pairwise Disjoint ↔ ∀ v ∈ vars.dropLast, v.locations = 1 := by
  have hpos : ∀ i (hi : i < vars.length), 1 ≤ vars[i].locations := fun i hi =>
    Variable.one_le_locations (h _ (List.getElem_mem hi))
  have hpair : (claims vars).Pairwise Disjoint ↔
      ∀ i j (hi : i < vars.length) (hj : j < vars.length), i < j → i + vars[i].locations ≤ j := by
    rw [List.pairwise_iff_getElem]
    simp only [claims, List.length_map, List.length_zipIdx, List.getElem_map,
      List.getElem_zipIdx, Nat.zero_add]
    constructor
    · exact fun hall i j hi hj hij => (disjoint_Ico_iff (hpos j hj) hij).1 (hall i j hi hj hij)
    · exact fun hall i j hi hj hij => (disjoint_Ico_iff (hpos j hj) hij).2 (hall i j hi hj hij)
  rw [hpair]
  constructor
  · intro hall v hv
    rw [List.dropLast_eq_take, List.mem_take_iff_getElem] at hv
    obtain ⟨i, hi, rfl⟩ := hv
    have hnext := hall i (i + 1) (by omega) (by omega) (Nat.lt_succ_self i)
    have hone := hpos i (by omega)
    omega
  · intro hall i j hi hj hij
    have hmem : vars[i] ∈ vars.dropLast := by
      rw [List.dropLast_eq_take, List.mem_take_iff_getElem]
      exact ⟨i, by omega, rfl⟩
    rw [hall _ hmem]
    exact hij

/-! ## Lines that give locations -/

theorem Reachable.indented {s : Shader} (h : s.Reachable) : s.Indented := by
  induction h with
  | empty name stage => exact ⟨Nat.le_refl 1, by simp [Shader.empty]⟩
  | declare h hu ih =>
      obtain ⟨vars, rfl, -⟩ := declare_cases hu
      exact ih.withVars ..
  | next h e ih => exact ih.push _
  | @extend s h f hprevious ih =>
      rcases s.extend_cases f with heq | ⟨es, -, heq⟩
      · rwa [heq]
      · rw [heq]
        exact ih.editAll es
  | openIf h condition ih => exact ih.openIf condition
  | closeIf h hopen ih => exact ih.closeIf hopen

/-- **The inputs of a vertex stage lie apart exactly if none but the last is a matrix or an
array of several.** The lines of the source that give locations number the inputs one by one, in
order, whatever they take up. -/
theorem apart_iff {s : Shader} (hs : s.Reachable) (hstage : s.stage = .vertex)
    (version : Option Version) :
    (s.lines version).filter opensLocation = locationLines s.inputs ∧
      ((∀ v ∈ s.inputs, v.ty ≠ .mat 0) →
        ((claims s.inputs).Pairwise Disjoint ↔
          ∀ v ∈ s.inputs.dropLast, v.arraySize ≤ 1 ∧ ∀ rank, v.ty = .mat rank → rank = 1)) := by
  refine ⟨filter_opensLocation_lines hs.indented hstage version, fun htypes => ?_⟩
  rw [pairwise_claims_iff htypes]
  exact forall₂_congr fun v _ => Variable.locations_eq_one_iff

/-- A vertex stage that takes in a position and, behind it, two matrices. -/
def skinned : Shader :=
  ((Shader.empty "skinned" .vertex).put .input "position_in" [.ty (.vec 3)]).put .input "joint_in"
    [.ty (.mat 4), .array 2]

/-- A vertex stage that takes in a matrix and, behind it, a position. -/
def instanced : Shader :=
  ((Shader.empty "instanced" .vertex).put .input "model_in" [.ty (.mat 4)]).put .input "position_in"
    [.ty (.vec 3)]

theorem apart_skinned :
    skinned.Reachable ∧ skinned.stage = .vertex ∧
      (skinned.lines none).filter opensLocation
        = [ "layout(location = 0) in vec3 position_in;",
            "layout(location = 1) in mat4 joint_in[2];" ] ∧
      (∀ v ∈ skinned.inputs, v.ty ≠ .mat 0) ∧
      (claims skinned.inputs).Pairwise Disjoint := by
  have hreachable : skinned.Reachable := .put (.put (.empty ..) (by decide) ..) (by decide) ..
  have htypes : ∀ v ∈ skinned.inputs, v.ty ≠ .mat 0 := by decide
  obtain ⟨hlines, hiff⟩ := apart_iff hreachable rfl none
  refine ⟨hreachable, rfl, hlines.trans (by decide), htypes, (hiff htypes).2 ?_⟩
  have honly : skinned.inputs.dropLast
      = [{ role := .input, ty := .vec 3, name := "position_in" }] := by decide
  simp [honly]

/-- Behind a matrix of four columns, which takes up the locations from zero to three, the next
input is given location one. -/
theorem not_apart_instanced :
    instanced.Reachable ∧ instanced.stage = .vertex ∧
      (instanced.lines none).filter opensLocation
        = [ "layout(location = 0) in mat4 model_in;",
            "layout(location = 1) in vec3 position_in;" ] ∧
      claims instanced.inputs = [Finset.Ico 0 4, Finset.Ico 1 2] ∧
      ¬ (claims instanced.inputs).Pairwise Disjoint := by
  have hreachable : instanced.Reachable := .put (.put (.empty ..) (by decide) ..) (by decide) ..
  have hlines := filter_opensLocation_lines hreachable.indented rfl none
  exact ⟨hreachable, rfl, hlines.trans (by decide), by decide, by decide⟩

end Shader

end Shaderwright
