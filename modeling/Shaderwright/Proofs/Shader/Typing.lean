import Shaderwright.Proofs.Glsl.Typing
import Shaderwright.Proofs.Shader.Scope

/-!
# Main functions are well typed

A stage that is given only what the two stages of a lighting pipeline are made of
declares only variables of a fixed catalogue, each with the type, slot and size it
has there, and every line it emits is typed under the catalogue. The lines name only
what the stage declares, so they have the same types under its own declarations.

The catalogue of a stage is what it declares when all its features are there.
-/

namespace Shaderwright

/-! ## Typed lines -/

/-- The type of the values of a variable that is no array. -/
def Variable.valueType? (v : Variable) : Option ShaderType :=
  if v.arraySize = 0 then some v.ty else none

/-- Statements have a type, conditions are truth values. -/
def Line.Typed (Γ : String → Option ShaderType) : Line → Prop
  | .statement e => (e.typeOf? Γ).isSome = true
  | .openIf condition => condition.typeOf? Γ = some .bool
  | .close => True

instance (Γ : String → Option ShaderType) (line : Line) : Decidable (line.Typed Γ) := by
  cases line <;> unfold Line.Typed <;> infer_instance

namespace Shader

/-- What the main function sees, the innermost declaration first. -/
def visible (s : Shader) : List Variable :=
  s.locals ++ s.outputs ++ s.inputs ++ s.parameters ++ Builtin.table s.stage

/-- The types of names in the main function. -/
def typeEnv (s : Shader) (x : String) : Option ShaderType :=
  (s.visible.find? fun v => v.name = x).bind Variable.valueType?

/-- **Every line of the main function is typed** by what the shader declares. -/
def WellTyped (s : Shader) : Prop := ∀ st ∈ s.statements, st.line.Typed s.typeEnv

end Shader

/-! ## Catalogues -/

/-- Everything a vertex stage declares. -/
def vertexCatalogue : Shader where
  name := "vertex"
  stage := .vertex
  inputs :=
    [ ⟨.input, .vec 3, "position_in", 0, some .position, []⟩,
      ⟨.input, .vec 3, "normal_in", 0, some .normal, []⟩,
      ⟨.input, .vec 3, "tangent_in", 0, some .tangent, []⟩,
      ⟨.input, .vec 3, "texcoord_in", 0, some .texCoord, []⟩ ]
  outputs :=
    [ ⟨.output, .vec 4, "position_vsh", 0, some .position, []⟩,
      ⟨.output, .vec 3, "normal_vsh", 0, some .normal, []⟩,
      ⟨.output, .vec 3, "tangent_vsh", 0, some .tangent, []⟩,
      ⟨.output, .vec 3, "binormal_vsh", 0, some .binormal, []⟩,
      ⟨.output, .vec 3, "texcoord_vsh", 0, some .texCoord, []⟩ ]
  parameters :=
    [ .plain .uniform (.mat 4) "u_world_matrix",
      .plain .uniform (.mat 4) "u_view_matrix",
      .plain .uniform (.mat 4) "u_proj_matrix",
      .plain .uniform (.mat 3) "u_normal_matrix" ]
  locals :=
    [ .plain .local (.vec 4) "l_pos_trans",
      .plain .local (.vec 4) "l_pos_view",
      .plain .local (.vec 4) "l_pos_proj" ]

/-- Everything a fragment stage declares, its inputs being the outputs of the vertex
stage. -/
def fragmentCatalogue : Shader where
  name := "fragment"
  stage := .fragment
  inputs := vertexCatalogue.outputs.map fun v => { v with role := .input }
  outputs := [⟨.output, .vec 4, "color", 0, some .color, []⟩]
  parameters :=
    [ .plain .uniform .sampler2d "u_color_sampler",
      .plain .uniform .sampler2d "u_normal_sampler",
      .plain .uniform .sampler2d "u_specular_sampler",
      .plain .uniform .samplerCube "u_shadow_cube",
      .plain .uniform (.vec 3) "u_light_position",
      .plain .uniform (.vec 3) "u_light_power",
      .plain .uniform (.vec 3) "u_view_position",
      .plain .uniform .float "u_light_ambience",
      .plain .uniform (.mat 4) "u_light_proj_matrix" ]
  locals :=
    [ .plain .local (.vec 3) "l_normal",
      .plain .local (.mat 3) "l_basis",
      .plain .local (.vec 3) "l_norm_sample",
      .plain .local (.vec 3) "l_view_dir",
      .plain .local (.vec 3) "l_light_color",
      .plain .local (.vec 3) "l_half",
      .plain .local .float "l_intensity",
      .plain .local (.vec 3) "l_light_dir",
      .plain .local .float "l_light_dist",
      .plain .local .float "l_ndh",
      .plain .local .float "l_lit",
      .plain .local .float "l_calc_dist",
      .plain .local .float "l_samp_dist",
      .plain .local (.vec 2) "l_query",
      .plain .local .float "l_depth",
      .plain .local .float "l_E_x2",
      .plain .local .float "l_Ex_2",
      .plain .local .float "l_var",
      .plain .local .float "l_md",
      .plain .local .float "l_md_2",
      .plain .local .float "l_p" ]

/-- An edit that declares only what the catalogue has, as the catalogue has it, and
whose lines are typed there. -/
def Edit.Fits (C : Shader) : Edit → Prop
  | .declare st x cs =>
      (∀ v ∈ C.vars st, v.name = x → v.changeAll cs = v) ∧
        (Variable.plain st.role .unset x).changeAll cs ∈ C.vars st
  | .statement e => (Line.statement e).Typed C.typeEnv
  | .conditional condition body =>
      (Line.openIf condition).Typed C.typeEnv ∧ (Line.statement body).Typed C.typeEnv

instance (C : Shader) (e : Edit) : Decidable (e.Fits C) := by
  cases e <;> unfold Edit.Fits <;> infer_instance

/-- Whether an input can be found for a slot, by the slot itself or by its stem. -/
def Variable.mayBear (v : Variable) (slot : Slot) : Bool :=
  decide (v.slot = some slot) || Text.contains v.name (slot.stem ++ "_")

namespace Shader

/-- A shader that declares only what the catalogue has and whose lines are typed
there. -/
structure Fits (C s : Shader) : Prop where
  stage : s.stage = C.stage
  vars : ∀ storage, ∀ v ∈ s.vars storage, v ∈ C.vars storage
  lines : ∀ st ∈ s.statements, st.line.Typed C.typeEnv

theorem Fits.empty (C : Shader) (name : String) : Fits C (Shader.empty name C.stage) where
  stage := rfl
  vars storage v hv := by cases storage <;> simp [Shader.empty, Shader.vars] at hv
  lines st hst := by simp [Shader.empty] at hst

theorem Fits.editAll {C s : Shader} (hs : Fits C s) {es : List Edit}
    (hes : ∀ e ∈ es, e.Fits C) : Fits C (s.editAll es) where
  stage := (stage_editAll s es).trans hs.stage
  vars := by
    refine forall_vars_editAll hs.vars fun st x cs hmem => ?_
    obtain ⟨hchange, hfresh⟩ := hes _ hmem
    refine ⟨fun v hname hv => ?_, hfresh⟩
    rwa [hchange v hv hname]
  lines st hst := by
    rw [statements_editAll, List.mem_append] at hst
    rcases hst with hst | hst
    · exact hs.lines st hst
    · obtain ⟨e, he, hst⟩ := List.mem_flatMap.1 hst
      have hfit := hes e he
      cases e with
      | declare storage x cs => simp [Edit.lines] at hst
      | statement e =>
          obtain rfl := List.mem_singleton.1 hst
          exact hfit
      | conditional condition body =>
          obtain ⟨hcondition, hbody⟩ := hfit
          simp only [Edit.lines, List.mem_cons, List.not_mem_nil, or_false] at hst
          rcases hst with rfl | rfl | rfl
          · exact hcondition
          · exact hbody
          · trivial

/-! ## What is found is in the catalogue -/

theorem mayBear_of_slotInput? {s : Shader} {slot : Slot} {v : Variable}
    (h : s.slotInput? slot = some v) : v.mayBear slot = true := by
  rw [Variable.mayBear, Bool.or_eq_true]
  rcases Option.or_eq_some_iff.1 h with h | ⟨-, h⟩
  · exact .inl (mem_of_findLast? h).2
  · have hpattern : Pattern.ofString (slot.stem ++ "_*") = .containing (slot.stem ++ "_") := by
      cases slot <;> decide
    have haccepts := (mem_of_findLast? h).2
    rw [hpattern] at haccepts
    exact .inr haccepts

theorem mayBear_of_produced {s : Shader} {f : Feature} {slot : Slot} {v : Variable}
    (h : Feature.produced s f slot = .ok v) : v.mayBear slot = true := by
  rw [Feature.produced] at h
  cases ho : findLast? (fun v => v.slot = some slot) s.outputs with
  | some w =>
      rw [ho] at h
      obtain rfl := Except.ok.inj h
      exact Bool.or_eq_true .. ▸ .inl (mem_of_findLast? ho).2
  | none =>
      rw [ho] at h
      exact mayBear_of_slotInput? (Feature.requireSlot_eq_ok.1 h)

namespace Fits

variable {C s : Shader} {P : Variable → Prop}

/-- To show something of an input that was found for a slot, show it of all that the
catalogue has for the slot. -/
theorem forall_slot (hs : Fits C s) {slot : Slot} {v : Variable}
    (h : s.slotInput? slot = some v)
    (hall : ∀ w ∈ C.inputs, w.mayBear slot = true → P w) : P v :=
  hall v (hs.vars .input v (mem_of_slotInput? h)) (mayBear_of_slotInput? h)

theorem forall_produced (hs : Fits C s) {f : Feature} {slot : Slot} {v : Variable}
    (h : Feature.produced s f slot = .ok v)
    (hall : ∀ w ∈ C.outputs ++ C.inputs, w.mayBear slot = true → P w) : P v :=
  hall v (List.mem_append.2 ((mem_of_produced h).imp (hs.vars .output v) (hs.vars .input v)))
    (mayBear_of_produced h)

/-- The same for a variable of a plain name. -/
theorem forall_find? (hs : Fits C s) {storage : Storage} {x : String} {v : Variable}
    (h : s.find? storage x = some v) (hx : Pattern.ofString x = .exact x)
    (hall : ∀ w ∈ C.vars storage, w.name = x → P w) : P v :=
  hall v (hs.vars storage v (mem_of_find? h)) (name_of_find? h hx)

theorem forall_builtin? (hs : Fits C s) {x : String} {v : Variable}
    (h : s.builtin? x = some v)
    (hall : ∀ w ∈ Builtin.table C.stage, w.name = x → P w) : P v := by
  obtain ⟨hmem, hname⟩ := mem_of_builtin? h
  exact hall v (hs.stage ▸ hmem) hname

end Fits

end Shader

/-! ## The vertex stage -/

namespace Feature

open Shader

/-- What the vertex stage of the pipeline is given. -/
def isVertexStep : Feature → Bool
  | .vertexInputs _ | .transform | .view | .project | .computeBinormal | .emitPosition
  | .emitClipPosition => true
  | .passThrough pattern => pattern == "texcoord_in"
  | _ => false

theorem fits_rotated {s : Shader} (hs : Fits vertexCatalogue s) {slot : Slot}
    (hslot : slot = .normal ∨ slot = .tangent) :
    ∀ e ∈ rotated s slot, e.Fits vertexCatalogue := by
  cases hsource : s.slotInput? slot with
  | none => simp [rotated, hsource]
  | some source =>
      simp only [rotated, hsource, hs.stage]
      apply hs.forall_slot hsource
      rcases hslot with rfl | rfl <;> decide +kernel

/-- What a step finds is one of finitely many variables of the catalogue, so its edits
are checked for each of them. -/
theorem fits_of_vertexStep {s : Shader} (hs : Fits vertexCatalogue s) {f : Feature}
    (hf : f.isVertexStep = true) {es : List Edit} (h : f.Yields s es) :
    ∀ e ∈ es, e.Fits vertexCatalogue := by
  cases h with
  | vertexInputs inputs =>
      -- Sixteen choices of inputs, checked one by one.
      obtain ⟨position, normal, tangent, texCoord⟩ := inputs
      clear hf
      revert position normal tangent texCoord
      decide +kernel
  | transform hposition =>
      rw [transformEdits, List.forall_mem_append, List.forall_mem_append]
      refine ⟨⟨?_, fits_rotated hs (.inl rfl)⟩, fits_rotated hs (.inr rfl)⟩
      apply hs.forall_slot hposition
      decide +kernel
  | view ht =>
      apply hs.forall_find? ht (by decide)
      decide +kernel
  | project hv =>
      apply hs.forall_find? hv (by decide)
      decide +kernel
  | computeBinormal hnormal htangent =>
      simp only [binormalEdits, hs.stage]
      apply hs.forall_produced htangent
      apply hs.forall_produced hnormal
      decide +kernel
  | @passThrough pattern source hsource =>
      obtain rfl : pattern = "texcoord_in" := by simpa [isVertexStep] using hf
      simp only [passThroughEdits, forwardedName, suffix, hs.stage]
      apply hs.forall_find? hsource (by decide)
      decide +kernel
  | emitPosition ht =>
      simp only [emitPositionEdits, hs.stage]
      apply hs.forall_find? ht (by decide)
      decide +kernel
  | emitClipPosition hp hclip =>
      apply hs.forall_builtin? hclip
      apply hs.forall_find? hp (by decide)
      decide +kernel
  | _ => simp [isVertexStep] at hf

/-! ## The fragment stage -/

/-- What the fragment stage of the pipeline is given. -/
def isFragmentStep : Feature → Bool
  | .colorWhite | .colorTextured | .normalMapped | .shadowMapped | .shadowMappedVariance
  | .blinn => true
  | _ => false

theorem fits_dimmed {s : Shader} (hs : Fits fragmentCatalogue s) :
    ∀ e ∈ dimmed s (.ident "l_intensity"), e.Fits fragmentCatalogue := by
  cases hlit : s.find? .local "l_lit" with
  | none => simp [dimmed, hlit]
  | some lit =>
      simp only [dimmed, hlit]
      apply hs.forall_find? hlit (by decide)
      decide +kernel

theorem fits_litNormal {s : Shader} (hs : Fits fragmentCatalogue s) {normal : Variable}
    (hnormal : s.slotInput? .normal = some normal) :
    ∀ e ∈ litNormal s normal, e.Fits fragmentCatalogue := by
  cases hn : s.find? .local "l_normal" with
  | none =>
      simp only [litNormal, hn]
      apply hs.forall_slot hnormal
      decide +kernel
  | some v => simp [litNormal, hn]

theorem fits_of_fragmentStep {s : Shader} (hs : Fits fragmentCatalogue s) {f : Feature}
    (hf : f.isFragmentStep = true) {es : List Edit} (h : f.Yields s es) :
    ∀ e ∈ es, e.Fits fragmentCatalogue := by
  cases h with
  | colorWhite =>
      simp only [colorWhiteEdits, hs.stage]
      decide +kernel
  | colorTextured ht =>
      simp only [colorTexturedEdits, hs.stage]
      apply hs.forall_slot ht
      decide +kernel
  | normalMapped ht hn hta hb hfacing =>
      -- The input for the normal may be the binormal, whose name contains its stem.
      apply hs.forall_builtin? hfacing
      apply hs.forall_slot hb
      apply hs.forall_slot hta
      apply hs.forall_slot hn
      apply hs.forall_slot ht
      decide +kernel
  | blinn hn hp ht hcolor =>
      have hdimmed := fits_dimmed hs
      simp only [blinnEdits, List.forall_mem_append]
      refine ⟨⟨⟨⟨⟨⟨fits_litNormal hs hn, ?_⟩, ?_⟩, hdimmed⟩, ?_⟩, hdimmed⟩, ?_⟩
      · decide +kernel
      · apply hs.forall_slot hp
        decide +kernel
      · apply hs.forall_slot ht
        decide +kernel
      · apply hs.forall_find? hcolor (by decide)
        decide +kernel
  | shadowMapped hp =>
      apply hs.forall_slot hp
      decide +kernel
  | shadowMappedVariance hp =>
      apply hs.forall_slot hp
      decide +kernel
  | _ => simp [isFragmentStep] at hf

end Feature

/-! ## Whole runs -/

namespace Shader

theorem Fits.extend {C s : Shader} (hs : Fits C s) {f : Feature}
    (hf : ∀ es, f.Yields s es → ∀ e ∈ es, e.Fits C) : Fits C (s.extend f) := by
  rcases s.extend_cases f with h | ⟨es, hes, h⟩
  · rwa [h]
  · rw [h]
    exact hs.editAll (hf es hes)

theorem Fits.extendAll {C s : Shader} (hs : Fits C s) {fs : List Feature}
    (hfs : ∀ f ∈ fs, ∀ t, Fits C t → ∀ es, f.Yields t es → ∀ e ∈ es, e.Fits C) :
    Fits C (s.extendAll fs) := by
  induction fs generalizing s with
  | nil => exact hs
  | cons f fs ih =>
      obtain ⟨hf, hfs⟩ := List.forall_mem_cons.1 hfs
      exact ih (hs.extend (hf s hs)) hfs

theorem builds_extendAll (s : Shader) (fs : List Feature) : Builds s (s.extendAll fs) := by
  suffices h : ∀ t, Builds s t → Builds s (t.extendAll fs) from h s (.start s)
  induction fs with
  | nil => exact fun t h => h
  | cons f fs ih => exact fun t h => ih (t.extend f) (h.feature f)

/-- A catalogue gives each of its names one type. -/
def Consistent (C : Shader) : Prop := ∀ v ∈ C.visible, C.typeEnv v.name = v.valueType?

theorem consistent_vertexCatalogue : vertexCatalogue.Consistent := by
  unfold Consistent
  decide +kernel

theorem consistent_fragmentCatalogue : fragmentCatalogue.Consistent := by
  unfold Consistent
  decide +kernel

theorem known_iff_visible {s : Shader} {x : String} :
    s.scope.known x ↔ ∃ v ∈ s.visible, v.name = x := by
  simp only [scope, Storage.exists_iff, visible, names, vars, List.mem_map, List.mem_append]
  grind

theorem Fits.visible {C s : Shader} (hs : Fits C s) : ∀ v ∈ s.visible, v ∈ C.visible := by
  intro v hv
  simp only [Shader.visible, List.mem_append] at hv ⊢
  rcases hv with (((hv | hv) | hv) | hv) | hv
  · exact .inl (.inl (.inl (.inl (hs.vars .local v hv))))
  · exact .inl (.inl (.inl (.inr (hs.vars .output v hv))))
  · exact .inl (.inl (.inr (hs.vars .input v hv)))
  · exact .inl (.inr (hs.vars .parameter v hv))
  · exact .inr (hs.stage ▸ hv)

/-- A known name has the type that the catalogue gives it. -/
theorem Fits.typeEnv_eq {C s : Shader} (hs : Fits C s) (hC : C.Consistent) {x : String}
    (hx : s.scope.known x) : s.typeEnv x = C.typeEnv x := by
  obtain ⟨v, hv, hvx⟩ := known_iff_visible.1 hx
  cases hfind : s.visible.find? fun v => v.name = x with
  | none => exact absurd hvx (by simpa using List.find?_eq_none.1 hfind v hv)
  | some w =>
      -- Which declaration is met first does not matter, as the catalogue gives all
      -- of that name one type.
      have hname : w.name = x := by simpa using List.find?_some hfind
      have hw := hC w (hs.visible w (List.mem_of_find?_eq_some hfind))
      rw [typeEnv, hfind, ← hname, hw]
      rfl

/-- A closed shader within a catalogue is typed by its own declarations. -/
theorem Fits.wellTyped {C s : Shader} (hs : Fits C s) (hC : C.Consistent) (hclosed : s.Closed) :
    s.WellTyped := by
  intro st hst
  have htyped := hs.lines st hst
  have hnames := hclosed st hst
  cases hline : st.line with
  | statement e =>
      rw [hline] at htyped hnames
      have heq := Expr.typeOf?_congr e fun x hx => hs.typeEnv_eq hC (hnames.1 x hx)
      rwa [Line.Typed, heq]
  | openIf condition =>
      rw [hline] at htyped hnames
      have heq := Expr.typeOf?_congr condition fun x hx => hs.typeEnv_eq hC (hnames x hx)
      rwa [Line.Typed, heq]
  | close => trivial

/-- The outputs of a vertex stage are taken in with the types they were put out
with. -/
theorem fits_chainFrom {v : Shader} (hv : Fits vertexCatalogue v) :
    ∀ e ∈ Feature.chainFromEdits v, e.Fits fragmentCatalogue := by
  have hall : ∀ o ∈ vertexCatalogue.outputs,
      (Feature.input o.name (Feature.shapeOf o)).Fits fragmentCatalogue := by decide +kernel
  intro e he
  obtain ⟨o, ho, rfl⟩ := List.mem_map.1 he
  exact hall o (hv.vars .output o ho)

/-- **Both stages of a pipeline are well typed**, whatever they are given in whatever
order. A step that is refused changes nothing. -/
theorem wellTyped_pipeline (vertexName fragmentName : String) {vs fs : List Feature}
    (hvs : ∀ f ∈ vs, f.isVertexStep = true) (hfs : ∀ f ∈ fs, f.isFragmentStep = true) :
    let v := (Shader.empty vertexName .vertex).extendAll vs
    v.WellTyped ∧
      ((Shader.empty fragmentName .fragment).extendAll (.chainFrom v :: fs)).WellTyped := by
  have hv : Fits vertexCatalogue ((Shader.empty vertexName .vertex).extendAll vs) :=
    (Fits.empty vertexCatalogue vertexName).extendAll fun f hf t ht es hes =>
      Feature.fits_of_vertexStep ht (hvs f hf) hes
  generalize hvertex : (Shader.empty vertexName .vertex).extendAll vs = v at hv
  have hf : Fits fragmentCatalogue
      ((Shader.empty fragmentName .fragment).extendAll (.chainFrom v :: fs)) := by
    refine (Fits.empty fragmentCatalogue fragmentName).extendAll fun f hmem t ht es hes => ?_
    rcases List.mem_cons.1 hmem with rfl | hmem
    · cases hes
      exact fits_chainFrom hv
    · exact Feature.fits_of_fragmentStep ht (hfs f hmem) hes
  have hclosed : ∀ name stage gs, ((Shader.empty name stage).extendAll gs).Closed :=
    fun name stage gs =>
      ((builds_extendAll _ gs).closed (closed_empty name stage) (flat_empty name stage)).1
  exact ⟨hv.wellTyped consistent_vertexCatalogue (hvertex ▸ hclosed _ _ _),
    hf.wellTyped consistent_fragmentCatalogue (hclosed _ _ _)⟩

/-- With every vertex step and the richest fragment steps. -/
theorem wellTyped_shadowedPipeline :
    let v := (Shader.empty "scene" .vertex).extendAll
      [.vertexInputs .all, .transform, .view, .project, .computeBinormal, .emitPosition,
        .emitClipPosition, .passThrough "texcoord_in"]
    let f := (Shader.empty "scene" .fragment).extendAll
      [.chainFrom v, .colorTextured, .normalMapped, .shadowMappedVariance, .blinn]
    v.statements.length = 9 ∧ f.statements.length = 35 ∧ v.WellTyped ∧ f.WellTyped :=
  ⟨by decide +kernel, by decide +kernel, wellTyped_pipeline _ _ (by decide) (by decide)⟩

end Shader

end Shaderwright
