import Shaderwright.Proofs.History
import Shaderwright.Proofs.Shader.Names

/-!
# What stands in for a slot

An input is found for a slot because it is bound to it, or else because its name holds the
word of the slot and an underscore, in whatever place and whatever the input is bound to.
The word for the normal is the end of that for the binormal. In a stage that takes a
binormal in and no normal, the binormal is therefore found for the normal.

Where all declarations are made by features, an input is called after the slot it is bound
to, and this is the only mistake there is: no other slot has a word that ends like that of
a second one.
-/

namespace Shaderwright

/-- The last of a list of which `p` holds. -/
def IsLast (p : α → Prop) (as : List α) (a : α) : Prop :=
  p a ∧ ∃ before after, as = before ++ a :: after ∧ ∀ b ∈ after, ¬ p b

theorem findLast?_eq_some_iff_isLast {p : α → Prop} [DecidablePred p] {as : List α} {a : α} :
    findLast? (fun b => decide (p b)) as = some a ↔ IsLast p as a := by
  simp [findLast?_eq_some_iff, IsLast]

namespace Shader

/-! ## How an input is found -/

/-- What the pattern for a slot asks of a name. -/
theorem accepts_slot_iff (slot : Slot) (name : String) :
    (Pattern.ofString (slot.stem ++ "_*")).accepts name = true ↔
      (slot.stem ++ "_").toList <:+: name.toList := by
  have hpattern : Pattern.ofString (slot.stem ++ "_*") = .containing (slot.stem ++ "_") := by
    cases slot <;> decide
  rw [hpattern]
  exact Text.occursIn_iff

/-- An input for a slot is the last one bound to it, or, if there is none, the last one whose
name holds the word of the slot and an underscore. -/
theorem slotInput?_eq_some_iff {s : Shader} {slot : Slot} {v : Variable} :
    s.slotInput? slot = some v ↔
      IsLast (fun u => u.slot = some slot) s.inputs v ∨
        (∀ u ∈ s.inputs, u.slot ≠ some slot) ∧
          IsLast (fun u => (slot.stem ++ "_").toList <:+: u.name.toList) s.inputs v := by
  have hnone : findLast? (fun u => decide (u.slot = some slot)) s.inputs = none ↔
      ∀ u ∈ s.inputs, u.slot ≠ some slot := by
    simp [findLast?_eq_none_iff]
  have hnamed : s.find? .input (slot.stem ++ "_*") = some v ↔
      IsLast (fun u => (slot.stem ++ "_").toList <:+: u.name.toList) s.inputs v := by
    simp only [find?, Variable.lookup?, findLast?_eq_some_iff, Bool.eq_false_iff, ne_eq,
      accepts_slot_iff]
    rfl
  rw [slotInput?, Option.or_eq_some_iff, findLast?_eq_some_iff_isLast, hnone, hnamed]

end Shader

/-! ## Names after slots -/

/-- The name is the word of the slot, or that and, behind an underscore, a rest without
another. -/
def CalledAfter (slot : Slot) (name : String) : Prop :=
  name = slot.stem ∨ ∃ rest : List Char, '_' ∉ rest ∧ name.toList = slot.stem.toList ++ '_' :: rest

theorem underscore_not_mem_stem (slot : Slot) : '_' ∉ slot.stem.toList := by
  cases slot <;> decide

theorem calledAfter_suffixed (slot : Slot) (stage : Stage) :
    CalledAfter slot (slot.stem ++ "_" ++ stage.suffix) := by
  refine .inr ⟨stage.suffix.toList, ?_, by simp⟩
  cases stage <;> decide

theorem calledAfter_attribute (slot : Slot) : CalledAfter slot (slot.stem ++ "_in") :=
  .inr ⟨['i', 'n'], by decide, by simp⟩

theorem calledAfter_outputName (stage : Stage) (slot : Slot) :
    CalledAfter slot (Feature.outputName stage slot) := by
  cases slot with
  | color => exact .inl rfl
  | position => exact calledAfter_suffixed .position stage
  | normal => exact calledAfter_suffixed .normal stage
  | tangent => exact calledAfter_suffixed .tangent stage
  | binormal => exact calledAfter_suffixed .binormal stage
  | texCoord => exact calledAfter_suffixed .texCoord stage

section
variable {slot other : Slot} {name : String}

/-- What comes before the first underscore is the word of the slot. -/
theorem CalledAfter.stemOf_eq (h : CalledAfter slot name) :
    Feature.stemOf name = slot.stem := by
  rcases h with rfl | ⟨rest, -, hname⟩
  · cases slot <;> rfl
  · rw [Feature.stemOf_of_toList_eq (underscore_not_mem_stem slot) hname]
    exact String.ofList_toList

/-- A name after one slot holds the word of another and an underscore only if its own word
ends in that. -/
theorem CalledAfter.suffix_of_infix (h : CalledAfter slot name)
    (hin : (other.stem ++ "_").toList <:+: name.toList) :
    other.stem.toList <:+ slot.stem.toList := by
  obtain ⟨before, after, hname⟩ := hin
  have hsplit : name.toList = (before ++ other.stem.toList) ++ '_' :: after := by
    simpa using hname.symm
  rcases h with rfl | ⟨rest, hrest, hslot⟩
  · exact absurd (hsplit ▸ by simp) (underscore_not_mem_stem slot)
  · have halone : ∀ c ∈ slot.stem.toList ++ rest, ¬ '_' = c := by
      rintro c hc rfl
      rcases List.mem_append.1 hc with hc | hc
      · exact underscore_not_mem_stem slot hc
      · exact hrest hc
    -- The only underscore of the name is the one behind its word.
    obtain ⟨hword, -, -⟩ := split_alone rfl halone (hsplit.symm.trans hslot)
    exact ⟨before, hword⟩

/-- One word ends in another only in the case of the binormal and the normal. -/
theorem eq_or_of_stem_suffix (h : other.stem.toList <:+ slot.stem.toList) :
    other = slot ∨ other = .normal ∧ slot = .binormal := by
  revert h
  cases other <;> cases slot <;> decide

end

/-! ## Variables between stages -/

/-- The variable is bound to a slot and called after it. -/
def Variable.Slotted (v : Variable) : Prop := ∃ slot, v.slot = some slot ∧ CalledAfter slot v.name

/-- All that a stage takes in and puts out is bound to a slot and called after it. -/
structure Shader.Slotted (s : Shader) : Prop where
  inputs : ∀ v ∈ s.inputs, v.Slotted
  outputs : ∀ v ∈ s.outputs, v.Slotted

/-- The edit binds what it declares to the slot that it is called after, if it goes from
stage to stage. -/
def Edit.Slots : Edit → Prop
  | .declare .input x changes | .declare .output x changes =>
      ∃ slot, CalledAfter slot x ∧ ∀ v : Variable, (v.changeAll changes).slot = some slot
  | .declare .parameter _ _ | .declare .local _ _ | .statement _ | .conditional _ _ => True

theorem Shader.Slotted.editAll {s : Shader} (hs : s.Slotted) {es : List Edit}
    (hes : ∀ e ∈ es, e.Slots) : (s.editAll es).Slotted := by
  let P : Storage → Variable → Prop := fun storage v =>
    storage = .input ∨ storage = .output → v.Slotted
  have hall : ∀ storage, ∀ v ∈ (s.editAll es).vars storage, P storage v := by
    refine forall_vars_editAll ?_ ?_
    · intro storage v hv hpasses
      rcases hpasses with rfl | rfl
      · exact hs.inputs v hv
      · exact hs.outputs v hv
    · intro storage x changes hmem
      have hslots := hes _ hmem
      have hslotted : ∀ v : Variable, v.name = x → P storage (v.changeAll changes) := by
        intro v hname hpasses
        rcases hpasses with rfl | rfl <;>
          · obtain ⟨slot, hcalled, hslot⟩ := hslots
            refine ⟨slot, hslot v, ?_⟩
            rwa [Variable.name_changeAll, hname]
      exact ⟨fun v hname _ => hslotted v hname, hslotted _ rfl⟩
  exact ⟨fun v hv => hall .input v hv (.inl rfl), fun v hv => hall .output v hv (.inr rfl)⟩

namespace Feature

theorem slots_output (stage : Stage) (slot : Slot) (ty : ShaderType) :
    (output stage slot ty).Slots :=
  ⟨slot, calledAfter_outputName stage slot, fun _ => rfl⟩

theorem slots_parameter (name : String) (ty : ShaderType) : (parameter name ty).Slots := trivial

theorem slots_localVar (name : String) (ty : ShaderType) : (localVar name ty).Slots := trivial

theorem slots_statement (e : Expr) : (Edit.statement e).Slots := trivial

theorem slots_conditional (condition body : Expr) : (Edit.conditional condition body).Slots :=
  trivial

/-- Taking the shape of a variable takes its slot. -/
theorem slot_changeAll_shapeOf {source : Variable} {slot : Slot} (h : source.slot = some slot)
    (v : Variable) : (v.changeAll (shapeOf source)).slot = some slot := by
  rw [shapeOf, h]
  rfl

section
variable {s : Shader}

attribute [local simp] slots_output slots_parameter slots_localVar slots_statement
  slots_conditional

theorem slots_rotated (slot : Slot) : ∀ e ∈ rotated s slot, e.Slots := by
  cases hsource : s.slotInput? slot <;> simp [rotated, hsource]

theorem slots_dimmed (intensity : Expr) : ∀ e ∈ dimmed s intensity, e.Slots := by
  cases hlit : s.find? .local "l_lit" <;> simp [dimmed, hlit]

theorem slots_litNormal (normal : Variable) : ∀ e ∈ litNormal s normal, e.Slots := by
  cases hnormal : s.find? .local "l_normal" <;> simp [litNormal, hnormal]

theorem slots_blinn (normal position texcoord color : Variable) :
    ∀ e ∈ blinnEdits s normal position texcoord color, e.Slots := by
  simp only [blinnEdits, List.forall_mem_append]
  refine ⟨⟨⟨⟨⟨⟨slots_litNormal normal, ?_⟩, ?_⟩, slots_dimmed _⟩, ?_⟩, slots_dimmed _⟩, ?_⟩
  · simp [blinnDeclarations]
  · simp [diffuseTerm]
  · simp [specularTerm]
  · simp [litColor]

/-- **Features bind what they declare to the slot that it is called after**, given that the
stage and the one it takes in do so already. -/
theorem slots_of_yields {f : Feature} {es : List Edit} (h : f.Yields s es) (hs : s.Slotted)
    (hprevious : ∀ previous, f = .chainFrom previous → previous.Slotted) :
    ∀ e ∈ es, e.Slots := by
  cases h with
  | vertexInputs inputs =>
      intro e he
      obtain ⟨slot, -, rfl⟩ := List.mem_map.1 he
      exact ⟨slot, calledAfter_attribute slot, fun _ => rfl⟩
  | chainFrom previous =>
      intro e he
      obtain ⟨source, hsource, rfl⟩ := List.mem_map.1 he
      obtain ⟨slot, hslot, hcalled⟩ := (hprevious previous rfl).outputs source hsource
      exact ⟨slot, hcalled, slot_changeAll_shapeOf hslot⟩
  | transform hposition =>
      simp only [transformEdits, List.forall_mem_append]
      exact ⟨⟨by simp, slots_rotated .normal⟩, slots_rotated .tangent⟩
  | @passThrough pattern source hsource =>
      obtain ⟨slot, hslot, hcalled⟩ := hs.inputs source (mem_of_findLast? hsource).1
      have hname : CalledAfter slot (forwardedName s source) := by
        have hforwarded : forwardedName s source = stemOf source.name ++ "_" ++ s.stage.suffix :=
          rfl
        rw [hforwarded, hcalled.stemOf_eq]
        exact calledAfter_suffixed slot s.stage
      rw [passThroughEdits, List.forall_mem_cons, List.forall_mem_singleton]
      exact ⟨⟨slot, hname, slot_changeAll_shapeOf hslot⟩, trivial⟩
  | blinn hnormal hposition htexcoord hcolor => exact slots_blinn _ _ _ _
  | view h => simp [projectedEdits]
  | project h => simp [projectedEdits]
  | computeBinormal hnormal htangent => simp [binormalEdits]
  | emitPosition h => simp [emitPositionEdits]
  | emitClipPosition h hclip => simp [emitClipPositionEdits]
  | colorWhite => simp [colorWhiteEdits]
  | colorTextured htexcoord => simp [colorTexturedEdits]
  | normalMapped htexcoord hnormal htangent hbinormal hfacing => simp [normalMappedEdits]
  | shadowMapped hposition => simp [shadowMappedEdits, shadowPrologue]
  | shadowMappedVariance hposition => simp [shadowMappedVarianceEdits, shadowPrologue]

end

end Feature

namespace Shader

theorem Slotted.extend {s : Shader} (hs : s.Slotted) {f : Feature}
    (hprevious : ∀ previous, f = .chainFrom previous → previous.Slotted) :
    (s.extend f).Slotted := by
  rcases s.extend_cases f with h | ⟨es, hes, h⟩
  · rwa [h]
  · rw [h]
    exact hs.editAll (Feature.slots_of_yields hes hs hprevious)

/-- All declarations of the shader were made by features, and so were those of the stages
that it takes in. Statements and blocks may have been added by hand. -/
inductive FromFeatures : Shader → Prop
  | empty (name : String) (stage : Stage) : FromFeatures (Shader.empty name stage)
  | extend {s : Shader} (h : FromFeatures s) {f : Feature}
      (hprevious : ∀ previous, f = .chainFrom previous → FromFeatures previous) :
      FromFeatures (s.extend f)
  | next {s : Shader} (h : FromFeatures s) (e : Expr) : FromFeatures (s.next e)
  | openIf {s : Shader} (h : FromFeatures s) (condition : Expr) : FromFeatures (s.openIf condition)
  | closeIf {s : Shader} (h : FromFeatures s) : FromFeatures s.closeIf

theorem FromFeatures.slotted {s : Shader} (h : FromFeatures s) : s.Slotted := by
  induction h with
  | empty name stage => exact ⟨by simp [Shader.empty], by simp [Shader.empty]⟩
  | extend h hprevious ih ihprevious => exact ih.extend ihprevious
  | next h e ih => exact ⟨ih.inputs, ih.outputs⟩
  | openIf h condition ih => exact ⟨ih.inputs, ih.outputs⟩
  | closeIf h ih => exact ⟨ih.inputs, ih.outputs⟩

/-- **What is found for a slot.** It is the last input bound to the slot or, if there is
none, the last one whose name holds the word of the slot and an underscore. Where features
made all declarations it is bound to the slot, but for the binormal, which is found for the
normal if there is no normal. -/
theorem slotInput?_iff (s : Shader) (slot : Slot) (v : Variable) :
    (s.slotInput? slot = some v ↔
      IsLast (fun u => u.slot = some slot) s.inputs v ∨
        (∀ u ∈ s.inputs, u.slot ≠ some slot) ∧
          IsLast (fun u => (slot.stem ++ "_").toList <:+: u.name.toList) s.inputs v) ∧
    (s.FromFeatures → s.slotInput? slot = some v →
      v.slot = some slot ∨
        slot = .normal ∧ v.slot = some .binormal ∧ ∀ u ∈ s.inputs, u.slot ≠ some .normal) := by
  refine ⟨slotInput?_eq_some_iff, fun hs hfound => ?_⟩
  rcases slotInput?_eq_some_iff.1 hfound with ⟨hslot, -⟩ | ⟨hnone, hin, before, after, hsplit, -⟩
  · exact .inl hslot
  · obtain ⟨own, hown, hcalled⟩ := hs.slotted.inputs v (by simp [hsplit])
    rcases eq_or_of_stem_suffix (hcalled.suffix_of_infix hin) with rfl | ⟨rfl, rfl⟩
    · exact .inl hown
    · exact .inr ⟨rfl, hown, hnone⟩

/-- A vertex stage that puts out a binormal and no normal. -/
def bitangent : Shader :=
  ((Shader.empty "lit" .vertex).extend (.vertexInputs ⟨false, true, true, false⟩)).extend
    .computeBinormal

/-- A stage that takes in what that one puts out. -/
def unlit : Shader := (Shader.empty "lit" .fragment).extend (.chainFrom bitangent)

theorem fromFeatures_unlit : unlit.FromFeatures := by
  have hbitangent : bitangent.FromFeatures :=
    .extend (.extend (.empty ..) (by simp)) (by simp)
  refine .extend (.empty ..) ?_
  rintro previous ⟨rfl⟩
  exact hbitangent

/-- The only input of the stage. -/
def binormalInput : Variable :=
  { role := .input, ty := .vec 3, name := "binormal_vsh", slot := some .binormal }

/-- The binormal is found for its own slot. -/
theorem slotInput?_iff_unlit :
    unlit.FromFeatures ∧ unlit.slotInput? .binormal = some binormalInput ∧
      IsLast (fun u => u.slot = some .binormal) unlit.inputs binormalInput := by
  have hfound : unlit.slotInput? .binormal = some binormalInput := by decide
  obtain ⟨hiff, hslotted⟩ := slotInput?_iff unlit .binormal binormalInput
  refine ⟨fromFeatures_unlit, hfound, (hiff.1 hfound).resolve_right fun hunbound => ?_⟩
  rcases hslotted fromFeatures_unlit hfound with hslot | ⟨hnormal, -⟩
  · exact hunbound.1 binormalInput (by decide) hslot
  · exact absurd hnormal (by decide)

/-- It is found for the normal as well, though it is bound to another slot and its name begins
with another word. -/
theorem binormal_stands_for_normal :
    unlit.FromFeatures ∧ unlit.slotInput? .normal = some binormalInput ∧
      binormalInput.slot ≠ some .normal ∧ binormalInput.slot ≠ none ∧
      ¬ (Slot.normal.stem ++ "_").toList <+: binormalInput.name.toList :=
  ⟨fromFeatures_unlit, by decide, by decide, by decide, by decide⟩

end Shader

end Shaderwright
