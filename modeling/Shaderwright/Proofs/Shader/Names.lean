import Shaderwright.Proofs.Shader.Edits

/-!
# The names that features declare

A feature gives its parameters and locals names of its own. An output is called after a
slot, or after an input that is carried on, with the suffix of the stage behind it; the
colour alone has no suffix. Inputs are vertex attributes or have the names of the outputs
of the stage before (`Declares`).
-/

namespace Shaderwright.Feature

/-- Whether a feature puts the colour out. -/
def givesColor : Feature → Bool
  | .colorWhite | .colorTextured => true
  | _ => false

/-- The names of the parameters that features declare. -/
def parameterNames : List String :=
  [ "u_world_matrix", "u_view_matrix", "u_proj_matrix", "u_normal_matrix", "u_color_sampler",
    "u_normal_sampler", "u_specular_sampler", "u_shadow_cube", "u_light_position",
    "u_light_power", "u_view_position", "u_light_ambience", "u_light_proj_matrix" ]

/-- The names of the locals that features declare. -/
def localNames : List String :=
  [ "l_pos_trans", "l_pos_view", "l_pos_proj", "l_normal", "l_basis", "l_norm_sample", "l_lit",
    "l_light_dir", "l_view_dir", "l_light_color", "l_half", "l_intensity", "l_light_dist", "l_ndh",
    "l_calc_dist", "l_samp_dist", "l_query", "l_depth", "l_E_x2", "l_Ex_2", "l_var", "l_md",
    "l_md_2", "l_p" ]

/-- The part of a name before its first underscore. -/
def stemOf (name : String) : String :=
  match Text.splitAt? '_' name.toList with
  | some (before, _) => String.ofList before
  | none => name

theorem stemOf_prefix (name : String) : (stemOf name).toList <+: name.toList := by
  rw [stemOf]
  cases h : Text.splitAt? '_' name.toList with
  | none => exact List.prefix_refl _
  | some parts =>
      obtain ⟨before, after⟩ := parts
      obtain ⟨hname, -⟩ := Text.splitAt?_eq_some_iff.1 h
      simp [hname]

theorem underscore_not_mem_stemOf (name : String) : '_' ∉ (stemOf name).toList := by
  rw [stemOf]
  cases h : Text.splitAt? '_' name.toList with
  | none => exact Text.splitAt?_eq_none_iff.1 h
  | some parts =>
      obtain ⟨before, after⟩ := parts
      simpa using (Text.splitAt?_eq_some_iff.1 h).2

/-- What stands before an underscore, and has none itself, is the part before the first. -/
theorem stemOf_of_toList_eq {name : String} {before after : List Char} (hbefore : '_' ∉ before)
    (hname : name.toList = before ++ '_' :: after) : stemOf name = String.ofList before := by
  rw [stemOf, Text.splitAt?_eq_some_iff.2 ⟨hname, hbefore⟩]

/-- A name that an output gets. -/
inductive IsOutputName (s : Shader) (f : Feature) : String → Prop
  | color (h : f.givesColor = true) : IsOutputName s f Slot.color.stem
  | slot (slot : Slot) : IsOutputName s f (slot.stem ++ "_" ++ s.suffix)
  | forwarded {source : Variable} (h : source ∈ s.inputs) :
      IsOutputName s f (stemOf source.name ++ "_" ++ s.suffix)

/-- A name that an input gets. -/
inductive IsInputName (f : Feature) : String → Prop
  | ofSlot (slot : Slot) : IsInputName f (slot.stem ++ "_in")
  | chained {previous : Shader} {x : String} (h : f = .chainFrom previous)
      (hx : x ∈ previous.names .output) : IsInputName f x

/-- What the edits of a feature declare, list by list. -/
structure Declares (s : Shader) (f : Feature) (es : List Edit) : Prop where
  inputs : ∀ x ∈ Edit.names .input es, IsInputName f x
  outputs : ∀ x ∈ Edit.names .output es, IsOutputName s f x
  parameters : ∀ x ∈ Edit.names .parameter es, x ∈ parameterNames
  locals : ∀ x ∈ Edit.names .local es, x ∈ localNames

/-- Edits in a row declare what they declare one by one. -/
theorem Declares.append {s : Shader} {f : Feature} {es fs : List Edit} (hes : Declares s f es)
    (hfs : Declares s f fs) : Declares s f (es ++ fs) := by
  have hsplit : ∀ {storage x}, x ∈ Edit.names storage (es ++ fs) →
      x ∈ Edit.names storage es ∨ x ∈ Edit.names storage fs := by
    intro storage x hx
    rwa [Edit.names, List.filterMap_append, List.mem_append] at hx
  constructor
  · exact fun x hx => (hsplit hx).elim (hes.inputs x) (hfs.inputs x)
  · exact fun x hx => (hsplit hx).elim (hes.outputs x) (hfs.outputs x)
  · exact fun x hx => (hsplit hx).elim (hes.parameters x) (hfs.parameters x)
  · exact fun x hx => (hsplit hx).elim (hes.locals x) (hfs.locals x)

attribute [local simp] Edit.names input parameter localVar output parameterNames localNames

/-- An output for any slot but the colour is called after it. -/
theorem isOutputName_slot (s : Shader) (f : Feature) {slot : Slot} (h : slot ≠ .color) :
    IsOutputName s f (outputName s.stage slot) := by
  cases slot with
  | color => exact absurd rfl h
  | position => exact .slot .position
  | normal => exact .slot .normal
  | tangent => exact .slot .tangent
  | binormal => exact .slot .binormal
  | texCoord => exact .slot .texCoord

theorem declares_rotated (s : Shader) (f : Feature) {slot : Slot} (h : slot ≠ .color) :
    Declares s f (rotated s slot) := by
  have hout := isOutputName_slot s f h
  cases hsource : s.slotInput? slot <;> constructor <;> simp [rotated, hsource, hout]

theorem declares_litNormal (s : Shader) (f : Feature) (normal : Variable) :
    Declares s f (litNormal s normal) := by
  cases hn : s.find? .local "l_normal" <;> constructor <;> simp [litNormal, hn]

/-- Statements declare nothing. -/
theorem declares_of_statements {s : Shader} {f : Feature} {es : List Edit}
    (h : ∀ storage, Edit.names storage es = []) : Declares s f es := by
  constructor <;> simp only [h] <;> exact fun x hx => nomatch hx

theorem declares_dimmed (s : Shader) (f : Feature) (intensity : Expr) :
    Declares s f (dimmed s intensity) := by
  refine declares_of_statements fun storage => ?_
  cases hlit : s.find? .local "l_lit" <;> simp [dimmed, hlit]

theorem declares_transform (s : Shader) (position : Variable) :
    Declares s .transform (transformEdits s position) := by
  refine Declares.append (Declares.append ?_ ?_) ?_
  · constructor <;> simp [posTransformed]
  · exact declares_rotated s _ (by decide)
  · exact declares_rotated s _ (by decide)

theorem declares_blinn (s : Shader) (normal position texcoord color : Variable) :
    Declares s .blinn (blinnEdits s normal position texcoord color) := by
  have hdeclared : Declares s .blinn blinnDeclarations := by
    constructor <;> simp [blinnDeclarations]
  have hdiffuse : Declares s .blinn (diffuseTerm position) :=
    declares_of_statements fun storage => rfl
  have hspecular : Declares s .blinn (specularTerm texcoord) :=
    declares_of_statements fun storage => rfl
  have hcolor : Declares s .blinn (litColor color) :=
    declares_of_statements fun storage => rfl
  have hdimmed := declares_dimmed s .blinn (.ident "l_intensity")
  exact (((((declares_litNormal s _ normal).append hdeclared).append hdiffuse).append
    hdimmed).append hspecular).append hdimmed |>.append hcolor

/-- **The names a feature declares** are its own, or made from those it was given. -/
theorem declares_of_yields {s : Shader} {f : Feature} {es : List Edit} (h : f.Yields s es) :
    Declares s f es := by
  cases h with
  | vertexInputs inputs =>
      have hinput : ∀ x ∈ Edit.names .input (vertexInputsEdits inputs),
          IsInputName (.vertexInputs inputs) x := by
        intro x hx
        obtain ⟨slot, -, rfl⟩ : ∃ slot ∈ inputs.slots, slot.stem ++ "_in" = x := by
          simpa [vertexInputsEdits, List.filterMap_map] using hx
        exact .ofSlot slot
      constructor
      · exact hinput
      all_goals simp [vertexInputsEdits, List.filterMap_map]
  | chainFrom previous =>
      have hinput : ∀ x ∈ Edit.names .input (chainFromEdits previous),
          IsInputName (.chainFrom previous) x := by
        intro x hx
        obtain ⟨o, ho, rfl⟩ : ∃ o ∈ previous.outputs, o.name = x := by
          simpa [chainFromEdits, List.filterMap_map] using hx
        exact .chained rfl (List.mem_map_of_mem (f := Variable.name) ho)
      constructor
      · exact hinput
      all_goals simp [chainFromEdits, List.filterMap_map]
  | transform hposition => exact declares_transform s _
  | view ht => constructor <;> simp [projectedEdits, posViewed]
  | project hv => constructor <;> simp [projectedEdits, posProjected]
  | computeBinormal hnormal htangent =>
      have hbinormal : Slot.binormal ≠ Slot.color := by decide
      have hout := isOutputName_slot s .computeBinormal hbinormal
      constructor <;> simp [binormalEdits, hout]
  | @passThrough pattern source hsource =>
      have hout : IsOutputName s (.passThrough pattern) (forwardedName s source) :=
        .forwarded (mem_of_findLast? hsource).1
      constructor <;> simp [passThroughEdits, hout]
  | emitPosition ht =>
      have hposition : Slot.position ≠ Slot.color := by decide
      have hout := isOutputName_slot s .emitPosition hposition
      constructor <;> simp [emitPositionEdits, hout]
  | emitClipPosition hp hclip => constructor <;> simp [emitClipPositionEdits]
  | colorWhite =>
      have hout : IsOutputName s .colorWhite (outputName s.stage .color) := .color rfl
      constructor <;> simp [colorWhiteEdits, hout]
  | colorTextured ht =>
      have hout : IsOutputName s .colorTextured (outputName s.stage .color) := .color rfl
      constructor <;> simp [colorTexturedEdits, hout]
  | normalMapped ht hn hta hb hfacing => constructor <;> simp [normalMappedEdits]
  | blinn hn hp ht hcolor => exact declares_blinn s _ _ _ _
  | shadowMapped hp => constructor <;> simp [shadowMappedEdits, shadowPrologue]
  | shadowMappedVariance hp => constructor <;> simp [shadowMappedVarianceEdits, shadowPrologue]

end Shaderwright.Feature
