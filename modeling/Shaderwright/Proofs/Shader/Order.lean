import Mathlib.Data.List.Induction
import Shaderwright.Proofs.Shader.Definedness
import Shaderwright.Proofs.Shader.Growth
import Shaderwright.Proofs.Shader.Redeclaration

/-!
# The order of features

Some features build on others: a view on a transform, a projection on a view, a light on a
colour, and a light is dimmed by a shadow. A shader keeps no list of the features it was
given. It looks for a local or an output under the name that the earlier feature uses.

On a fresh stage that comes to the same. Each of these names is declared by the features
that it stands for and by no others (`Feature.mark_mem_iff`), so it is there exactly if one
of them was accepted before (`Shader.bears_iff`). The light it makes a difference to is read
off the lines that are appended (`intensities`).
-/

namespace Shaderwright

/-! ## What features leave behind -/

/-- What a later feature looks for. -/
inductive FeatureMark where
  | transformed
  | viewed
  | projected
  | colored
  | shadowed

/-- Whether a feature computes a shadow. -/
def Feature.castsShadow : Feature → Bool
  | .shadowMapped | .shadowMappedVariance => true
  | _ => false

namespace FeatureMark

def storage : FeatureMark → Storage
  | .transformed | .viewed | .projected | .shadowed => .local
  | .colored => .output

def name : FeatureMark → String
  | .transformed => Feature.posTransformed
  | .viewed => Feature.posViewed
  | .projected => Feature.posProjected
  | .colored => Slot.color.stem
  | .shadowed => "l_lit"

/-- The features that leave the mark. -/
def LeftBy : FeatureMark → Feature → Prop
  | .transformed, f => f = .transform
  | .viewed, f => f = .view
  | .projected, f => f = .project
  | .colored, f => f.givesColor = true
  | .shadowed, f => f.castsShadow = true

theorem isPlainName (m : FeatureMark) : IsPlainName m.name := by
  cases m <;> decide

end FeatureMark

namespace Feature

/-- The locals that a feature declares whatever it finds. -/
def locals : Feature → List String
  | .transform => [posTransformed]
  | .view => [posViewed]
  | .project => [posProjected]
  | .normalMapped => ["l_normal", "l_basis", "l_norm_sample"]
  | .blinn => Edit.names .local blinnDeclarations
  | .shadowMapped => ["l_lit", "l_light_dir", "l_calc_dist", "l_samp_dist"]
  | .shadowMappedVariance =>
      ["l_lit", "l_light_dir", "l_query", "l_depth", "l_E_x2", "l_Ex_2", "l_var", "l_md",
        "l_md_2", "l_p"]
  | .vertexInputs _ | .chainFrom _ | .computeBinormal | .passThrough _ | .emitPosition
  | .emitClipPosition | .colorWhite | .colorTextured => []

theorem names_rotated (s : Shader) (slot : Slot) : Edit.names .local (rotated s slot) = [] := by
  cases hsource : s.slotInput? slot <;> simp [rotated, hsource, output, parameter]

/-- Only the normal of a light is declared or not. -/
theorem mem_locals_iff {s : Shader} {f : Feature} {es : List Edit} (h : f.Yields s es) {x : String}
    (hx : x ≠ "l_normal") : x ∈ Edit.names .local es ↔ x ∈ f.locals := by
  cases h with
  | vertexInputs inputs => simp [vertexInputsEdits, locals, Edit.names, input]
  | chainFrom previous => simp [chainFromEdits, locals, Edit.names, input]
  | transform hposition =>
      simp only [transformEdits, Edit.names_append, names_rotated]
      rfl
  | blinn hnormal hposition htexcoord hcolor =>
      have hdimmed : Edit.names .local (dimmed s (.ident "l_intensity")) = [] := by
        cases hlit : s.find? .local "l_lit" <;> simp [dimmed, hlit]
      have hlitNormal : ∀ normal, x ∉ Edit.names .local (litNormal s normal) := by
        intro normal
        cases hn : s.find? .local "l_normal" <;> simp [litNormal, hn, localVar, hx]
      simp [blinnEdits, hdimmed, hlitNormal, diffuseTerm, specularTerm, litColor, locals]
  | view | project | computeBinormal | passThrough | emitPosition | emitClipPosition | colorWhite
  | colorTextured | normalMapped | shadowMapped | shadowMappedVariance => rfl

theorem mark_mem_locals_iff {m : FeatureMark} (hm : m.storage = .local) (f : Feature) :
    m.name ∈ f.locals ↔ m.LeftBy f := by
  cases m with
  | colored => exact nomatch hm
  | transformed | viewed | projected | shadowed =>
      cases f <;> simp [FeatureMark.name, FeatureMark.LeftBy, locals, castsShadow,
        posTransformed, posViewed, posProjected, blinnDeclarations, parameter, localVar]

/-- **A mark is left by the features it stands for** and by no others. -/
theorem mark_mem_iff {s : Shader} {f : Feature} {es : List Edit} (h : f.Yields s es)
    (m : FeatureMark) : m.name ∈ Edit.names m.storage es ↔ m.LeftBy f := by
  cases m with
  | colored => exact color_mem_outputs_iff h
  | transformed | viewed | projected | shadowed =>
      exact (mem_locals_iff h (by decide)).trans (mark_mem_locals_iff rfl f)

end Feature

/-! ## What was accepted before -/

namespace Shader

/-- The feature finds what it builds on. -/
def Accepts (s : Shader) (f : Feature) : Prop := ∃ t, s.apply f = .ok t

/-- One of the features satisfies `P` and was accepted when its turn came. -/
def Accepted (start : Shader) (features : List Feature) (P : Feature → Prop) : Prop :=
  Happened (fun before f => P f ∧ (start.extendAll before).Accepts f) features

def Bears (s : Shader) (m : FeatureMark) : Prop := m.name ∈ s.names m.storage

theorem accepts_iff {s : Shader} {f : Feature} : s.Accepts f ↔ ∃ es, f.edits s = .ok es := by
  rw [Accepts, apply]
  cases f.edits s <;> simp

/-- What is looked for under the name of a mark is found if the mark is there. -/
theorem exists_find?_iff {s : Shader} (m : FeatureMark) :
    (∃ v, s.find? m.storage m.name = some v) ↔ s.Bears m := by
  constructor
  · rintro ⟨v, hv⟩
    rw [Bears, ← name_of_find? hv (Pattern.ofString_of_plain m.isPlainName)]
    exact List.mem_map_of_mem (mem_of_find? hv)
  · intro hbears
    obtain ⟨v, hv, hname⟩ := List.mem_map.1 hbears
    rw [← Option.ne_none_iff_exists', ne_eq, find?, Variable.lookup?, findLast?_eq_none_iff]
    intro hnone
    have haccepts := hnone v hv
    rw [Pattern.accepts_of_plain m.isPlainName, hname] at haccepts
    simp at haccepts

theorem bears_extend (s : Shader) (f : Feature) (m : FeatureMark) :
    (s.extend f).Bears m ↔ s.Bears m ∨ m.LeftBy f ∧ s.Accepts f := by
  rw [extend, Accepts]
  cases happly : s.apply f with
  | error fault => simp
  | ok t =>
      obtain ⟨es, hes, rfl⟩ := yields_of_apply happly
      have hleft := Feature.mark_mem_iff hes m
      simp only [Bears, mem_names_editAll, hleft]
      simp

/-- **A mark is there exactly if a feature that leaves it was accepted.** -/
theorem bears_iff (name : String) (stage : Stage) (features : List Feature) (m : FeatureMark) :
    ((empty name stage).extendAll features).Bears m ↔
      (empty name stage).Accepted features m.LeftBy := by
  induction features using List.reverseRecOn with
  | nil => exact iff_of_false (not_mem_names_empty name stage m.storage m.name) not_happened_nil
  | append_singleton features f ih =>
      rw [extendAll, List.foldl_append, List.foldl_cons, List.foldl_nil, bears_extend, Accepted,
        happened_snoc]
      exact or_congr ih Iff.rfl

/-! ## Which feature finds what it builds on -/

section
variable {s : Shader}

/-- A feature that looks for one local is accepted if the local is there. -/
theorem accepts_of_requireLocal {f : Feature} {m : FeatureMark} (hm : m.storage = .local)
    {g : Variable → List Edit}
    (h : f.edits s = (Feature.requireLocal s f m.name >>= fun v => pure (g v))) :
    s.Accepts f ↔ s.Bears m := by
  rw [accepts_iff, ← exists_find?_iff, hm, h]
  simp [bind_eq_ok, Feature.requireLocal_eq_ok, pure, Except.pure]

theorem accepts_view : s.Accepts .view ↔ s.Bears .transformed := accepts_of_requireLocal rfl rfl

theorem accepts_emitPosition : s.Accepts .emitPosition ↔ s.Bears .transformed :=
  accepts_of_requireLocal rfl rfl

theorem accepts_project : s.Accepts .project ↔ s.Bears .viewed := accepts_of_requireLocal rfl rfl

/-- The stages that give a vertex its place have a built-in variable for it. -/
theorem exists_builtin_position (s : Shader) : (∃ v, s.builtin? "gl_Position" = some v) ↔
    s.stage ∈ [Stage.vertex, .tessEvaluation, .geometry] := by
  rw [← Option.isSome_iff_exists, builtin?]
  cases s.stage <;> decide

theorem accepts_emitClipPosition : s.Accepts .emitClipPosition ↔
    s.Bears .projected ∧ s.stage ∈ [Stage.vertex, .tessEvaluation, .geometry] := by
  rw [accepts_iff, ← exists_find?_iff, ← exists_builtin_position]
  simp [Feature.edits, bind_eq_ok, Feature.requireLocal_eq_ok,
    Feature.requireBuiltin_eq_ok, FeatureMark.storage, FeatureMark.name, pure, Except.pure]

/-- The inputs that a light needs. -/
def TakesLight (s : Shader) : Prop :=
  ∀ slot ∈ [Slot.normal, .position, .texCoord], (s.slotInput? slot).isSome = true

/-- The colour is looked for last. -/
theorem edits_blinn (s : Shader) : (¬ s.TakesLight ∧ ∃ slot,
      Feature.blinn.edits s = .error (.noSlot Feature.blinn.name s.name slot)) ∨
    s.TakesLight ∧ ∃ normal position texcoord, Feature.blinn.edits s
      = match s.find? .output Slot.color.stem with
        | some color => .ok (Feature.blinnEdits s normal position texcoord color)
        | none => .error (.noColor Feature.blinn.name s.name) := by
  simp only [TakesLight, Feature.edits, Feature.requireSlot, List.forall_mem_cons]
  cases s.slotInput? .normal with
  | none => exact .inl ⟨by simp, .normal, rfl⟩
  | some normal =>
      cases s.slotInput? .position with
      | none => exact .inl ⟨by simp, .position, rfl⟩
      | some position =>
          cases s.slotInput? .texCoord with
          | none => exact .inl ⟨by simp, .texCoord, rfl⟩
          | some texcoord => exact .inr ⟨by simp, normal, position, texcoord, rfl⟩

theorem accepts_blinn : s.Accepts .blinn ↔ s.TakesLight ∧ s.Bears .colored := by
  rw [accepts_iff, ← exists_find?_iff]
  rcases s.edits_blinn with ⟨hlight, slot, hedits⟩ | ⟨hlight, normal, position, texcoord, hedits⟩
  · simp [hedits, hlight]
  · rw [hedits]
    cases hcolor : s.find? .output Slot.color.stem <;>
      simp [hlight, FeatureMark.storage, FeatureMark.name, hcolor]

theorem refuses_blinn : s.apply .blinn = .error (.noColor "blinn" s.name) ↔
    s.TakesLight ∧ ¬ s.Bears .colored := by
  rw [apply, ← exists_find?_iff]
  rcases s.edits_blinn with ⟨hlight, slot, hedits⟩ | ⟨hlight, normal, position, texcoord, hedits⟩
  · simp [hedits, hlight]
  · rw [hedits]
    cases hcolor : s.find? .output Slot.color.stem <;>
      simp [hlight, FeatureMark.storage, FeatureMark.name, hcolor, Feature.name]

end

end Shader

/-! ## The light -/

/-- An intensity as far as the lines tell: what it was set to, and what it was multiplied
by since. -/
structure Intensity where
  base : Expr
  factors : List Expr
deriving DecidableEq, Repr

/-- What is known of the intensity after a line. A block may change it or not. -/
def Intensity.after (known : Option Intensity) : Line → Option Intensity
  | .statement (.assign op target value) =>
      if target = .ident "l_intensity" then
        match op with
        | .set => some ⟨value, []⟩
        | .mul => known.map fun i => { i with factors := i.factors ++ [value] }
        | .add | .sub | .div => none
      else known
  | .statement _ => known
  | .openIf _ | .close => none

/-- Whether a line adds light of the intensity. -/
def Line.gathersLight : Line → Bool
  | .statement (.assign .add target value) =>
      target = .ident "l_light_color" ∧ "l_intensity" ∈ value.reads
  | _ => false

/-- The intensity of all the light that lines gather, in order. -/
def intensities (known : Option Intensity) : List Statement → List (Option Intensity)
  | [] => []
  | st :: rest =>
      (if st.line.gathersLight then [known] else [])
        ++ intensities (Intensity.after known st.line) rest

theorem intensities_append (known : Option Intensity) (sts more : List Statement) :
    intensities known (sts ++ more) = intensities known sts
      ++ intensities (sts.foldl (fun i st => Intensity.after i st.line) known) more := by
  induction sts generalizing known with
  | nil => rfl
  | cons st sts ih => simp [intensities, ih]

/-- How far a surface faces the light. -/
def diffuseShare : Expr := ((Expr.ident "l_normal").dot (.ident "l_light_dir")).saturate

/-- How far a surface mirrors the light to the viewer. -/
def specularShare : Expr :=
  (Expr.ident "l_ndh").saturate.pow (.ofFloat32 specularPower)

namespace Feature

/-- Read from what is known of the intensity, the lines of some edits gather light, and leave
the intensity known as given. -/
def Lights (depth : Nat) (known : Option Intensity) (es : List Edit)
    (gathered : List (Option Intensity)) (left : Option Intensity) : Prop :=
  intensities known (es.flatMap (Edit.lines depth)) = gathered ∧
    (es.flatMap (Edit.lines depth)).foldl (fun i st => Intensity.after i st.line) known = left

theorem Lights.append {depth : Nat} {known between left : Option Intensity}
    {es fs : List Edit} {gathered gathered' : List (Option Intensity)}
    (hes : Lights depth known es gathered between) (hfs : Lights depth between fs gathered' left) :
    Lights depth known (es ++ fs) (gathered ++ gathered') left := by
  obtain ⟨hgathered, hbetween⟩ := hes
  obtain ⟨hgathered', hleft⟩ := hfs
  constructor
  · rw [List.flatMap_append, intensities_append, hgathered, hbetween, hgathered']
  · rw [List.flatMap_append, List.foldl_append, hbetween, hleft]

theorem lights_dimmed (s : Shader) (depth : Nat) (base : Expr) (factors : List Expr) :
    Lights depth (some ⟨base, factors⟩) (dimmed s (.ident "l_intensity")) []
      (some ⟨base, factors ++ (s.find? .local "l_lit").toList.map Variable.toExpr⟩) := by
  cases hlit : s.find? .local "l_lit" <;>
    simp [Lights, dimmed, hlit, Edit.lines, intensities, Intensity.after, Line.gathersLight,
      Expr.scale]

/-- What a surface mirrors at a texture coordinate. -/
def specularTexel (texcoord : Variable) : Expr :=
  (Expr.texture (.ident "u_specular_sampler") (texcoord.member "xy")).member "r"

/-- **Light is gathered twice**, and is dimmed both times or not at all. -/
theorem intensities_blinn (s : Shader) (normal position texcoord color : Variable) (depth : Nat) :
    intensities none ((blinnEdits s normal position texcoord color).flatMap (Edit.lines depth))
      = [ some ⟨diffuseShare, (s.find? .local "l_lit").toList.map Variable.toExpr⟩,
          some ⟨specularShare, specularTexel texcoord ::
            (s.find? .local "l_lit").toList.map Variable.toExpr⟩ ] := by
  have hshare : "l_intensity" ∈ lightShare.reads := by decide
  have hnormal : Lights depth none (litNormal s normal) [] none := by
    cases hn : s.find? .local "l_normal" <;>
      simp [Lights, litNormal, hn, Edit.lines, intensities, Intensity.after, Line.gathersLight,
        Expr.set, localVar]
  have hdeclared : Lights depth none blinnDeclarations [] none := ⟨rfl, rfl⟩
  have hdiffuse : Lights depth none (diffuseTerm position) [] (some ⟨diffuseShare, []⟩) := by
    simp [Lights, diffuseTerm, Edit.lines, intensities, Intensity.after, Line.gathersLight,
      Expr.set, diffuseShare]
  have hspecular : ∀ known, Lights depth known (specularTerm texcoord) [known]
      (some ⟨specularShare, [specularTexel texcoord]⟩) := by
    intro known
    simp [Lights, specularTerm, Edit.lines, intensities, Intensity.after, Line.gathersLight,
      Expr.set, Expr.scale, Expr.increase, specularShare, specularTexel, hshare]
  have hcolor : ∀ known,
      intensities known ((litColor color).flatMap (Edit.lines depth)) = [known] := by
    intro known
    simp [litColor, Edit.lines, intensities, Line.gathersLight, Expr.scale, Expr.increase, hshare]
  have hall := ((((hnormal.append hdeclared).append hdiffuse).append
    (lights_dimmed s depth _ _)).append (hspecular _)).append (lights_dimmed s depth _ _)
  rw [blinnEdits, List.flatMap_append, intensities_append, hall.1, hall.2, hcolor]
  rfl

end Feature

/-! ## Runs of features -/

namespace Shader

/-- What a shader accepts after a run of features, and how it is lit. -/
structure InOrder (start : Shader) (features : List Feature) (s : Shader) : Prop where
  view : s.Accepts .view ↔ start.Accepted features (· = .transform)
  emitPosition : s.Accepts .emitPosition ↔ start.Accepted features (· = .transform)
  project : s.Accepts .project ↔ start.Accepted features (· = .view)
  emitClipPosition : s.Accepts .emitClipPosition ↔ start.Accepted features (· = .project) ∧
    start.stage ∈ [Stage.vertex, .tessEvaluation, .geometry]
  blinn : s.Accepts .blinn ↔ s.TakesLight ∧ start.Accepted features (·.givesColor = true)
  /-- With the inputs that it needs, a light is refused only for want of a colour. -/
  blinn_refused : s.apply .blinn = .error (.noColor "blinn" s.name) ↔
    s.TakesLight ∧ ¬ start.Accepted features (·.givesColor = true)
  /-- The diffuse and the specular light are scaled by the shadow, both or none. -/
  light : ∀ t, s.apply .blinn = .ok t → ∃ lines texcoord dimming,
    t.statements = s.statements ++ lines ∧ s.slotInput? .texCoord = some texcoord ∧
    intensities none lines = [ some ⟨diffuseShare, dimming⟩,
      some ⟨specularShare, Feature.specularTexel texcoord :: dimming⟩ ] ∧
    (start.Accepted features (·.castsShadow = true) ∧ dimming = [.ident "l_lit"] ∨
      ¬ start.Accepted features (·.castsShadow = true) ∧ dimming = [])

/-- The shadow that a light is dimmed by, if there is one. -/
theorem dimming_cases (s : Shader) :
    s.Bears .shadowed ∧ (s.find? .local "l_lit").toList.map Variable.toExpr = [.ident "l_lit"] ∨
      ¬ s.Bears .shadowed ∧ (s.find? .local "l_lit").toList.map Variable.toExpr = [] := by
  rw [← exists_find?_iff]
  cases hlit : s.find? .local "l_lit" with
  | none => exact .inr ⟨by simp [FeatureMark.storage, FeatureMark.name, hlit], rfl⟩
  | some lit =>
      have hname : lit.name = "l_lit" := name_of_find? hlit rfl
      exact .inl ⟨⟨lit, hlit⟩, by simp [Variable.toExpr, hname]⟩

/-- **Features keep their order.** On a fresh stage, whatever features are added and refused,
a feature that builds on another is accepted exactly if the other was accepted before, and a
light is dimmed exactly if a shadow was. -/
theorem inOrder_extendAll (name : String) (stage : Stage) (features : List Feature) :
    InOrder (empty name stage) features ((empty name stage).extendAll features) := by
  have hbears := bears_iff name stage features
  have hstage : ((empty name stage).extendAll features).stage = stage :=
    (extends_extendAll ..).stage
  generalize (empty name stage).extendAll features = s at hbears hstage
  exact {
    view := accepts_view.trans (hbears .transformed)
    emitPosition := accepts_emitPosition.trans (hbears .transformed)
    project := accepts_project.trans (hbears .viewed)
    emitClipPosition := by
      rw [accepts_emitClipPosition, hbears .projected, hstage]
      rfl
    blinn := accepts_blinn.trans (and_congr_right' (hbears .colored))
    blinn_refused := refuses_blinn.trans (and_congr_right' (not_congr (hbears .colored)))
    light := by
      intro t ht
      obtain ⟨es, hes, rfl⟩ := yields_of_apply ht
      cases hes with
      | @blinn normal position texcoord color hnormal hposition htexcoord hcolor =>
          refine ⟨_, texcoord, _, statements_editAll .., htexcoord,
            Feature.intensities_blinn s normal position texcoord color s.depth, ?_⟩
          have hshadow := hbears .shadowed
          rcases s.dimming_cases with ⟨hdimmed, heq⟩ | ⟨hdimmed, heq⟩
          · exact .inl ⟨hshadow.1 hdimmed, heq⟩
          · exact .inr ⟨fun h => hdimmed (hshadow.2 h), heq⟩ }

end Shader

end Shaderwright
