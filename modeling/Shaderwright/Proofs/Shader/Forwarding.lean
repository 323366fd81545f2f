import Shaderwright.Proofs.Glsl.Evaluation
import Shaderwright.Proofs.Shader.Growth
import Shaderwright.Shader.Source

/-!
# Inputs that are carried on

The output that carries an input on is called after the part of its name before the first
underscore. Two inputs with different parts there are carried on side by side: each has an
output of its own, in its shape and with its value. Two inputs with the same part meet in one
output (`carriedApart_iff`). The second gives it its own type and array size and overwrites the
value, and nothing is refused.
-/

namespace Shaderwright

namespace Feature

/-! ## Names of what is carried on -/

section
variable {s : Shader} {a b : Variable}

theorem stemOf_forwardedName : stemOf (forwardedName s a) = stemOf a.name := by
  have hname : (forwardedName s a).toList
      = (stemOf a.name).toList ++ '_' :: s.suffix.toList := by
    have hforwarded : forwardedName s a = stemOf a.name ++ "_" ++ s.suffix := rfl
    simp [hforwarded]
  rw [stemOf_of_toList_eq (underscore_not_mem_stemOf a.name) hname]
  exact String.ofList_toList

theorem forwardedName_eq_iff :
    forwardedName s a = forwardedName s b ↔ stemOf a.name = stemOf b.name := by
  constructor
  · intro h
    rw [← stemOf_forwardedName (s := s) (a := a), h, stemOf_forwardedName]
  · intro h
    exact congrArg (fun stem => stem ++ "_" ++ s.suffix) h

/-- An output is not called like an input that begins in another way. -/
theorem forwardedName_ne (h : stemOf a.name ≠ stemOf b.name) : forwardedName s a ≠ b.name := by
  intro hname
  rw [← stemOf_forwardedName (s := s) (a := a), hname] at h
  exact h rfl

end

end Feature

namespace Shader

open Feature (forwardedName stemOf shapeOf)

/-! ## Carrying one input on -/

/-- An input is found under its exact name. -/
theorem Named.find?_name {s : Shader} (hs : s.Named) {v : Variable} (hv : v ∈ s.inputs) :
    s.find? .input v.name = some v := by
  have hplain : IsPlainName v.name := hs.plain .input _ (List.mem_map_of_mem hv)
  have hnodup : (s.inputs.map Variable.name).Nodup := hs.nodup .input
  have hfind : s.find? .input v.name = findLast? (fun u => u.name == v.name) s.inputs := by
    simp only [find?, vars, Variable.lookup?, Pattern.accepts_of_plain hplain]
  rw [hfind]
  cases hlast : findLast? (fun u => u.name == v.name) s.inputs with
  | none => exact absurd (findLast?_eq_none_iff.1 hlast v hv) (by simp)
  | some u =>
      obtain ⟨hu, hname⟩ := mem_of_findLast? hlast
      exact congrArg some (List.inj_on_of_nodup_map hnodup hu hv (by simpa using hname))

/-- The line that gives an output the value of an input. -/
def forwardingLine (s : Shader) (output : String) (v : Variable) : Statement :=
  ⟨s.depth, .statement (.set (.ident output) v.toExpr)⟩

/-- **What it is to carry an input on**: one output is declared or changed, one line is added. -/
theorem Named.apply_passThrough {s : Shader} (hs : s.Named) {v : Variable} (hv : v ∈ s.inputs) :
    s.apply (.passThrough v.name) = .ok { s with
      outputs := Variable.put .output (forwardedName s v) (shapeOf v) s.outputs
      statements := s.statements ++ [s.forwardingLine (forwardedName s v) v] } := by
  rw [apply, Feature.edits, hs.find?_name hv]
  rfl

/-- The output that an input is carried on by. -/
def forwarded (s : Shader) (v : Variable) : Variable where
  role := .output
  ty := v.ty
  name := forwardedName s v
  arraySize := v.arraySize
  slot := v.slot

theorem put_forwarded {s : Shader} {v : Variable} {outputs : List Variable}
    (h : forwardedName s v ∉ outputs.map Variable.name) :
    Variable.put .output (forwardedName s v) (shapeOf v) outputs = outputs ++ [s.forwarded v] := by
  rw [Variable.put_of_not_mem h, Variable.changeAll_shapeOf]
  cases hslot : v.slot <;> simp [forwarded, Variable.plain, hslot]

/-- What two such lines leave, one after the other. -/
theorem run_forwardingLines (S : Glsl.Surroundings) (σ : Glsl.Store) (s : Shader) (x y : String)
    (a b : Variable) : S.run σ [s.forwardingLine x a, s.forwardingLine y b]
      = (σ.set x (σ a.name)).set y (σ.set x (σ a.name) b.name) := rfl

/-! ## Carrying two inputs on -/

/-- An output has the shape of an input. -/
structure ShapedAs (x v : Variable) : Prop where
  ty : x.ty = v.ty
  arraySize : x.arraySize = v.arraySize
  slot : x.slot = v.slot

/-- Two inputs are carried on side by side, from one shader to the next. -/
structure CarriedApart (s t : Shader) (a b x y : Variable) : Prop where
  outputs : t.outputs = [x, y]
  apart : x.name ≠ y.name
  first : ShapedAs x a
  second : ShapedAs y b
  /-- Each output is assigned to once, from its own input. -/
  statements : t.statements = s.statements ++ [s.forwardingLine x.name a, s.forwardingLine y.name b]
  /-- The lines leave the values of the inputs in the outputs. -/
  values : ∀ (S : Glsl.Surroundings) (σ : Glsl.Store),
    S.run σ [s.forwardingLine x.name a, s.forwardingLine y.name b] x.name = σ a.name ∧
      S.run σ [s.forwardingLine x.name a, s.forwardingLine y.name b] y.name = σ b.name

/-- Two inputs meet in one output, from one shader to the next. It has the type of the second, and
both lines assign to it. -/
structure CarriedTogether (s t : Shader) (a b x : Variable) : Prop where
  outputs : t.outputs = [x]
  ty : x.ty = b.ty
  arraySize : x.arraySize = b.arraySize
  slot : x.slot = b.slot.or a.slot
  statements : t.statements = s.statements ++ [s.forwardingLine x.name a, s.forwardingLine x.name b]
  /-- The value of the first is lost, unless the second is called like the output. -/
  value : b.name ≠ x.name → ∀ (S : Glsl.Surroundings) (σ : Glsl.Store),
    S.run σ [s.forwardingLine x.name a, s.forwardingLine x.name b] x.name = σ b.name

/-- What a shader without outputs comes to when two inputs are carried on. -/
def carryingBoth (s : Shader) (a b : Variable) : Shader :=
  { s with
    outputs := Variable.put .output (forwardedName s b) (shapeOf b) [s.forwarded a]
    statements := s.statements
      ++ [s.forwardingLine (forwardedName s a) a, s.forwardingLine (forwardedName s b) b] }

theorem apply_passThrough_twice {s : Shader} (hs : s.Reachable) (hnone : s.outputs = [])
    {a b : Variable} (ha : a ∈ s.inputs) (hb : b ∈ s.inputs) :
    ∃ t, s.apply (.passThrough a.name) = .ok t ∧
      t.apply (.passThrough b.name) = .ok (s.carryingBoth a b) := by
  have hfirst := hs.named.apply_passThrough ha
  rw [hnone, put_forwarded (by simp), List.nil_append] at hfirst
  have hreached : (s.extend (.passThrough a.name)).Reachable := hs.extend (by simp)
  rw [extend, hfirst] at hreached
  refine ⟨_, hfirst, (hreached.named.apply_passThrough hb).trans ?_⟩
  simp only [carryingBoth, List.append_assoc, List.singleton_append]
  rfl

section
variable {s : Shader} {a b : Variable}

theorem carriedApart_of_ne (h : stemOf a.name ≠ stemOf b.name) :
    CarriedApart s (s.carryingBoth a b) a b (s.forwarded a) (s.forwarded b) := by
  have hnames : forwardedName s a ≠ forwardedName s b := mt Feature.forwardedName_eq_iff.1 h
  constructor
  case outputs => exact put_forwarded (by simpa [forwarded] using hnames.symm)
  case apart => exact hnames
  case first => exact ⟨rfl, rfl, rfl⟩
  case second => exact ⟨rfl, rfl, rfl⟩
  case statements => rfl
  case values =>
    intro S σ
    have hread : (s.forwarded a).name ≠ b.name := Feature.forwardedName_ne h
    have hapart : (s.forwarded a).name ≠ (s.forwarded b).name := hnames
    rw [run_forwardingLines]
    simp [Glsl.Store.set_apply, hapart, hread.symm]

theorem carriedTogether_of_eq (h : stemOf a.name = stemOf b.name) :
    ∃ x, CarriedTogether s (s.carryingBoth a b) a b x := by
  have hname : forwardedName s b = forwardedName s a := Feature.forwardedName_eq_iff.2 h.symm
  refine ⟨(s.forwarded a).changeAll (shapeOf b), ?_⟩
  have hput : Variable.put .output (forwardedName s b) (shapeOf b) [s.forwarded a]
      = [(s.forwarded a).changeAll (shapeOf b)] := by
    have hnodup : ([s.forwarded a].map Variable.name).Nodup := List.nodup_singleton _
    rw [Variable.put_of_mem hnodup (by simp [forwarded, hname])]
    simp [forwarded, hname]
  rw [Variable.changeAll_shapeOf] at hput ⊢
  constructor
  case outputs => exact hput
  case ty => rfl
  case arraySize => rfl
  case slot => rfl
  case statements =>
    rw [carryingBoth, hname]
    rfl
  case value =>
    intro hb S σ
    rw [run_forwardingLines]
    simp [Glsl.Store.set_apply, hb]

end

/-- **Two inputs are carried on side by side exactly if their names differ before the first
underscore.** Else both meet in one output; neither call is refused. -/
theorem carriedApart_iff {s : Shader} (hs : s.Reachable) (hnone : s.outputs = [])
    {a b : Variable} (ha : a ∈ s.inputs) (hb : b ∈ s.inputs) :
    ∃ t u, s.apply (.passThrough a.name) = .ok t ∧ t.apply (.passThrough b.name) = .ok u ∧
      ((∃ x y, CarriedApart s u a b x y) ↔ stemOf a.name ≠ stemOf b.name) ∧
      (stemOf a.name = stemOf b.name → ∃ x, CarriedTogether s u a b x) := by
  obtain ⟨t, hfirst, hsecond⟩ := apply_passThrough_twice hs hnone ha hb
  refine ⟨t, s.carryingBoth a b, hfirst, hsecond, ⟨?_, ?_⟩, carriedTogether_of_eq⟩
  · rintro ⟨x, y, hapart⟩ hstem
    obtain ⟨z, htogether⟩ := carriedTogether_of_eq (s := s) hstem
    have houtputs : [x, y] = [z] := hapart.outputs.symm.trans htogether.outputs
    simp at houtputs
  · exact fun hstem => ⟨_, _, carriedApart_of_ne hstem⟩

/-- A stage with two inputs, declared by hand. -/
def mapped (first second : String) : Shader :=
  ((Shader.empty "mapped" .vertex).put .input first [.ty (.vec 2), .array 4]).put .input second
    [.ty (.vec 3), .slot (some .texCoord)]

theorem reachable_mapped {first second : String} (hfirst : IsPlainName first)
    (hsecond : IsPlainName second) : (mapped first second).Reachable :=
  .put (.put (.empty ..) hfirst ..) hsecond ..

/-- The first of the two inputs: coordinates in the plane. -/
def planar (name : String) : Variable := { role := .input, ty := .vec 2, name, arraySize := 4 }

/-- The second of the two inputs: a coordinate in space. -/
def solid (name : String) : Variable :=
  { role := .input, ty := .vec 3, name, slot := some .texCoord }

theorem carriedApart_mapped :
    (mapped "uv_a" "st_b").Reachable ∧ (mapped "uv_a" "st_b").outputs = [] ∧
      planar "uv_a" ∈ (mapped "uv_a" "st_b").inputs ∧
      solid "st_b" ∈ (mapped "uv_a" "st_b").inputs ∧
      ∃ t u, (mapped "uv_a" "st_b").apply (.passThrough "uv_a") = .ok t ∧
        t.apply (.passThrough "st_b") = .ok u ∧
        ∃ x y, CarriedApart (mapped "uv_a" "st_b") u (planar "uv_a") (solid "st_b") x y := by
  have hreachable : (mapped "uv_a" "st_b").Reachable := reachable_mapped (by decide) (by decide)
  have hfirst : planar "uv_a" ∈ (mapped "uv_a" "st_b").inputs := by decide
  have hsecond : solid "st_b" ∈ (mapped "uv_a" "st_b").inputs := by decide
  obtain ⟨t, u, ht, hu, hiff, -⟩ := carriedApart_iff hreachable (by decide) hfirst hsecond
  exact ⟨hreachable, by decide, hfirst, hsecond, t, u, ht, hu, hiff.2 (by decide)⟩

/-- Two inputs whose names begin alike meet in one output, which has the type of the second and
is assigned from both. -/
theorem not_carriedApart_mapped :
    (mapped "uv_a" "uv_b").Reachable ∧ (mapped "uv_a" "uv_b").outputs = [] ∧
      (mapped "uv_a" "uv_b").inputs = [planar "uv_a", solid "uv_b"] ∧
      ∃ t u, (mapped "uv_a" "uv_b").apply (.passThrough "uv_a") = .ok t ∧
        t.apply (.passThrough "uv_b") = .ok u ∧
        u.outputs.map Variable.declaration = ["out vec3 uv_vsh"] ∧
        u.statements.map (fun st => st.line.text) = ["uv_vsh = uv_a;", "uv_vsh = uv_b;"] ∧
        ¬ ∃ x y, CarriedApart (mapped "uv_a" "uv_b") u (planar "uv_a") (solid "uv_b") x y := by
  have hreachable : (mapped "uv_a" "uv_b").Reachable := reachable_mapped (by decide) (by decide)
  have hfirst : planar "uv_a" ∈ (mapped "uv_a" "uv_b").inputs := by decide
  have hsecond : solid "uv_b" ∈ (mapped "uv_a" "uv_b").inputs := by decide
  obtain ⟨t, ht, hu⟩ := apply_passThrough_twice hreachable (by decide) hfirst hsecond
  have hone : ((mapped "uv_a" "uv_b").carryingBoth (planar "uv_a") (solid "uv_b")).outputs.length
      = 1 := by decide
  refine ⟨hreachable, by decide, by decide, t, _, ht, hu, by decide, by decide, ?_⟩
  rintro ⟨x, y, hapart⟩
  rw [hapart.outputs] at hone
  cases hone

end Shader

end Shaderwright
