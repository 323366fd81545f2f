import Shaderwright.Proofs.Shader.Locations
import Shaderwright.Proofs.Shader.Names

/-!
# Names that are declared twice

A list of declarations has a name once, but it does not ask what the other lists of the
stage have. Along a pipeline the lists are kept apart by how names end: an output ends in
the suffix of its stage, an input in that of a stage before, or in `_in` if it is an
attribute, and parameters and locals end in none of these. Only the colour has no suffix.
It is declared twice, as an input and as an output, in a stage that gives the colour and
is chained from one that does, and no other name ever is (`redeclared_iff`).
-/

namespace Shaderwright

/-! ## Endings -/

/-- Where a variable that goes from stage to stage comes from, as its name tells. -/
inductive Origin where
  | attribute
  | stage (stage : Stage)
deriving DecidableEq, Repr

/-- What the names of variables of an origin end in. -/
def Origin.ending : Origin → List Char
  | .attribute => "_in".toList
  | .stage s => '_' :: s.suffix.toList

/-- A name has one origin at most. -/
theorem Origin.eq_of_ending {o o' : Origin} {cs : List Char} (h : o.ending <:+ cs)
    (h' : o'.ending <:+ cs) : o = o' := by
  have hdistinct : ∀ {a b : Origin}, a.ending <:+ b.ending → a = b := by
    rintro (_ | _ | _) (_ | _ | _) <;> decide
  rcases List.suffix_or_suffix_of_suffix h h' with hsuffix | hsuffix
  · exact hdistinct hsuffix
  · exact (hdistinct hsuffix).symm

/-- The colour has no origin. -/
theorem Origin.not_color (o : Origin) : ¬ o.ending <:+ Slot.color.stem.toList := by
  rcases o with _ | _ | _ <;> decide

namespace Feature

/-- The parameters and locals of features are told from what goes from stage to stage. -/
theorem not_ending_of_own {x : String} (hx : x ∈ parameterNames ++ localNames) :
    x ≠ Slot.color.stem ∧ ∀ o : Origin, ¬ o.ending <:+ x.toList := by
  have hcolor : ∀ x ∈ parameterNames ++ localNames, x ≠ Slot.color.stem := by decide
  have hending : ∀ o : Origin, ∀ x ∈ parameterNames ++ localNames, ¬ o.ending <:+ x.toList := by
    rintro (_ | _ | _) <;> decide
  exact ⟨hcolor x hx, fun o => hending o x hx⟩

theorem disjoint_parameters_locals : ∀ x ∈ parameterNames, x ∉ localNames := by decide

theorem ending_of_suffixed (x : String) (stage : Stage) :
    (Origin.stage stage).ending <:+ (x ++ "_" ++ stage.suffix).toList :=
  ⟨x.toList, by simp [Origin.ending]⟩

section
variable {s : Shader} {f : Feature} {es : List Edit}

/-- An output is the colour or tells its stage. -/
theorem ending_of_output (h : f.Yields s es) {x : String} (hx : x ∈ Edit.names .output es) :
    f.givesColor = true ∧ x = Slot.color.stem ∨ (Origin.stage s.stage).ending <:+ x.toList := by
  cases (declares_of_yields h).outputs x hx with
  | color hcolor => exact .inl ⟨hcolor, rfl⟩
  | slot slot => exact .inr (ending_of_suffixed slot.stem s.stage)
  | @forwarded source hsource => exact .inr (ending_of_suffixed (stemOf source.name) s.stage)

/-- An input is an attribute or has the name of an output that was taken in. -/
theorem ending_of_input (h : f.Yields s es) {x : String} (hx : x ∈ Edit.names .input es) :
    Origin.attribute.ending <:+ x.toList ∨
      ∃ previous, f = .chainFrom previous ∧ x ∈ previous.names .output := by
  cases (declares_of_yields h).inputs x hx with
  | ofSlot slot => exact .inl ⟨slot.stem.toList, by simp [Origin.ending]⟩
  | chained hprevious hx => exact .inr ⟨_, hprevious, hx⟩

/-- The colour is put out by the features that give it. -/
theorem color_mem_outputs_iff (h : f.Yields s es) :
    Slot.color.stem ∈ Edit.names .output es ↔ f.givesColor = true := by
  constructor
  · intro hx
    rcases ending_of_output h hx with ⟨hcolor, -⟩ | hending
    · exact hcolor
    · exact absurd hending (Origin.not_color _)
  · intro hcolor
    cases h with
    | colorWhite => exact List.mem_singleton_self _
    | colorTextured ht => exact List.mem_singleton_self _
    | _ => exact nomatch hcolor

/-- The colour is taken in from the stages that put it out. -/
theorem color_mem_inputs_iff (h : f.Yields s es) :
    Slot.color.stem ∈ Edit.names .input es ↔
      ∃ previous, f = .chainFrom previous ∧ Slot.color.stem ∈ previous.names .output := by
  constructor
  · intro hx
    exact (ending_of_input h hx).resolve_left (Origin.not_color _)
  · rintro ⟨previous, rfl, hprevious⟩
    cases h
    have hnames : Edit.names .input (chainFromEdits previous) = previous.names .output := by
      simp [Edit.names, chainFromEdits, input, List.filterMap_map, Shader.names, Shader.vars]
    rwa [hnames]

end

end Feature

namespace Shader

/-! ## One stage -/

/-- The shader after all of the features, unless one of them is refused. -/
def applyAll (s : Shader) (features : List Feature) : Except Fault Shader :=
  features.foldlM apply s

/-- All the names that a stage declares. -/
def declared (s : Shader) : List String :=
  s.names .input ++ s.names .output ++ s.names .parameter ++ s.names .local

/-- The second shader is the first after the features, each of which found what it builds on
and made its edits. -/
structure Runs (s : Shader) (features : List Feature) (t : Shader) : Prop where
  stage : t.stage = s.stage
  regular : s.Regular → t.Regular
  grows : ∀ storage, ∀ x ∈ s.names storage, x ∈ t.names storage
  made : ∀ f ∈ features, ∃ u es, u.stage = s.stage ∧ f.Yields u es ∧
    ∀ storage, ∀ x ∈ Edit.names storage es, x ∈ t.names storage
  names : ∀ storage, ∀ x ∈ t.names storage, x ∈ s.names storage ∨
    ∃ f ∈ features, ∃ u es, u.stage = s.stage ∧ f.Yields u es ∧ x ∈ Edit.names storage es

/-- A feature that is not refused makes its edits. -/
theorem yields_of_apply {s t : Shader} {f : Feature} (h : s.apply f = .ok t) :
    ∃ es, f.Yields s es ∧ t = s.editAll es := by
  rw [apply] at h
  cases hedits : f.edits s with
  | error fault =>
      rw [hedits] at h
      cases h
  | ok es =>
      rw [hedits] at h
      exact ⟨es, Feature.yields_of_edits hedits, (Except.ok.inj h).symm⟩

/-- **What a run of features comes to**, one feature after the other. -/
theorem runs_of_applyAll {s t : Shader} {features : List Feature}
    (h : s.applyAll features = .ok t) : Runs s features t := by
  induction features generalizing s with
  | nil =>
      obtain rfl := Except.ok.inj h
      exact ⟨rfl, id, fun _ _ => id, by simp, fun _ _ => .inl⟩
  | cons f features ih =>
      obtain ⟨u, hu, hrest⟩ := bind_eq_ok.1 h
      obtain ⟨es, hes, rfl⟩ := yields_of_apply hu
      have hruns := ih hrest
      have hstage : (s.editAll es).stage = s.stage := stage_editAll s es
      refine ⟨hruns.stage.trans hstage, ?_, ?_, ?_, ?_⟩
      · exact fun hs => hruns.regular (hs.editAll (Feature.isShaping_of_yields hes))
      · exact fun storage x hx => hruns.grows storage x ((mem_names_editAll ..).2 (.inl hx))
      · rw [List.forall_mem_cons]
        refine ⟨⟨s, es, rfl, hes, fun storage x hx => ?_⟩, ?_⟩
        · exact hruns.grows storage x ((mem_names_editAll ..).2 (.inr hx))
        · exact hstage ▸ hruns.made
      · intro storage x hx
        rcases hruns.names storage x hx with hx | ⟨g, hg, u, fs, hu, hfs, hx⟩
        · rcases (mem_names_editAll ..).1 hx with hx | hx
          · exact .inl hx
          · exact .inr ⟨f, List.mem_cons_self, s, es, rfl, hes, hx⟩
        · exact .inr ⟨g, List.mem_cons_of_mem f hg, u, fs, hu.trans hstage, hfs, hx⟩

section
variable {name : String} {stage : Stage} {features : List Feature} {s : Shader}

theorem not_mem_names_empty (name : String) (stage : Stage) (storage : Storage) (x : String) :
    x ∉ (Shader.empty name stage).names storage := by
  cases storage <;> exact List.not_mem_nil

/-- What a fresh stage declares comes from one of its features. -/
theorem Runs.exists_of_mem (h : Runs (Shader.empty name stage) features s) {storage : Storage}
    {x : String} (hx : x ∈ s.names storage) :
    ∃ f ∈ features, ∃ u es, u.stage = stage ∧ f.Yields u es ∧ x ∈ Edit.names storage es :=
  (h.names storage x hx).resolve_left (not_mem_names_empty name stage storage x)

/-- A name that features declare, or do not, whatever the stage they find. -/
theorem Runs.mem_names_iff (h : Runs (Shader.empty name stage) features s) {storage : Storage}
    {x : String} {P : Feature → Prop}
    (hP : ∀ f u es, f.Yields u es → (x ∈ Edit.names storage es ↔ P f)) :
    x ∈ s.names storage ↔ ∃ f ∈ features, P f := by
  constructor
  · intro hx
    obtain ⟨f, hf, u, es, -, hes, hx⟩ := h.exists_of_mem hx
    exact ⟨f, hf, (hP f u es hes).1 hx⟩
  · rintro ⟨f, hf, hPf⟩
    obtain ⟨u, es, -, hes, hnames⟩ := h.made f hf
    exact hnames storage x ((hP f u es hes).2 hPf)

theorem Runs.color_mem_outputs_iff (h : Runs (Shader.empty name stage) features s) :
    Slot.color.stem ∈ s.names .output ↔ ∃ f ∈ features, f.givesColor = true :=
  h.mem_names_iff fun _ _ _ => Feature.color_mem_outputs_iff

theorem Runs.color_mem_inputs_iff (h : Runs (Shader.empty name stage) features s) :
    Slot.color.stem ∈ s.names .input ↔
      ∃ previous, .chainFrom previous ∈ features ∧ Slot.color.stem ∈ previous.names .output := by
  rw [h.mem_names_iff fun _ _ _ => Feature.color_mem_inputs_iff]
  constructor
  · rintro ⟨_, hf, previous, rfl, hprevious⟩
    exact ⟨previous, hf, hprevious⟩
  · rintro ⟨previous, hf, hprevious⟩
    exact ⟨_, hf, previous, rfl, hprevious⟩

theorem Runs.ending_of_output (h : Runs (Shader.empty name stage) features s) {x : String}
    (hx : x ∈ s.names .output) :
    x = Slot.color.stem ∨ (Origin.stage stage).ending <:+ x.toList := by
  obtain ⟨f, -, u, es, rfl, hes, hx⟩ := h.exists_of_mem hx
  exact (Feature.ending_of_output hes hx).imp_left And.right

theorem Runs.ending_of_input (h : Runs (Shader.empty name stage) features s) {x : String}
    (hx : x ∈ s.names .input) :
    Origin.attribute.ending <:+ x.toList ∨
      ∃ previous, .chainFrom previous ∈ features ∧ x ∈ previous.names .output := by
  obtain ⟨f, hf, u, es, -, hes, hx⟩ := h.exists_of_mem hx
  rcases Feature.ending_of_input hes hx with hending | ⟨previous, rfl, hx⟩
  · exact .inl hending
  · exact .inr ⟨previous, hf, hx⟩

theorem Runs.own (h : Runs (Shader.empty name stage) features s) :
    (∀ x ∈ s.names .parameter, x ∈ Feature.parameterNames) ∧
      ∀ x ∈ s.names .local, x ∈ Feature.localNames := by
  constructor <;> intro x hx
  · obtain ⟨f, -, u, es, -, hes, hx⟩ := h.exists_of_mem hx
    exact (Feature.declares_of_yields hes).parameters x hx
  · obtain ⟨f, -, u, es, -, hes, hx⟩ := h.exists_of_mem hx
    exact (Feature.declares_of_yields hes).locals x hx

end

/-- What keeps the lists of a stage apart: names from stage to stage are the colour, or
tell where they come from. -/
structure Told (s : Shader) : Prop where
  nodup : ∀ storage, (s.names storage).Nodup
  inputs : ∀ x ∈ s.names .input, x = Slot.color.stem ∨
    ∃ o : Origin, o ≠ .stage s.stage ∧ o.ending <:+ x.toList
  outputs : ∀ x ∈ s.names .output, x = Slot.color.stem ∨
    (Origin.stage s.stage).ending <:+ x.toList
  parameters : ∀ x ∈ s.names .parameter, x ∈ Feature.parameterNames
  locals : ∀ x ∈ s.names .local, x ∈ Feature.localNames

namespace Told
variable {s : Shader}

/-- Only the colour is both taken in and put out. -/
theorem eq_color (h : s.Told) {x : String} (hin : x ∈ s.names .input)
    (hout : x ∈ s.names .output) : x = Slot.color.stem := by
  rcases h.inputs x hin with hcolor | ⟨o, ho, hending⟩
  · exact hcolor
  · rcases h.outputs x hout with hcolor | hending'
    · exact hcolor
    · exact absurd (Origin.eq_of_ending hending hending') ho

/-- A parameter or a local is neither taken in nor put out. -/
theorem not_mem_of_own (h : s.Told) {x : String}
    (hx : x ∈ Feature.parameterNames ++ Feature.localNames) :
    x ∉ s.names .input ∧ x ∉ s.names .output := by
  obtain ⟨hcolor, hending⟩ := Feature.not_ending_of_own hx
  constructor
  · intro hin
    rcases h.inputs x hin with heq | ⟨o, -, ho⟩
    · exact hcolor heq
    · exact hending o ho
  · intro hout
    rcases h.outputs x hout with heq | ho
    · exact hcolor heq
    · exact hending _ ho

/-- A name that is declared twice is taken in and put out. -/
theorem one_lt_count_iff (h : s.Told) (x : String) :
    1 < s.declared.count x ↔ x ∈ s.names .input ∧ x ∈ s.names .output := by
  have hle : ∀ storage, (s.names storage).count x ≤ 1 :=
    fun storage => List.nodup_iff_count_le_one.1 (h.nodup storage) x
  have hin := hle .input
  have hout := hle .output
  have hparameter := hle .parameter
  have hlocal := hle .local
  have hparameters : x ∈ s.names .parameter →
      x ∉ s.names .input ∧ x ∉ s.names .output ∧ x ∉ s.names .local := by
    intro hx
    have hname := h.parameters x hx
    obtain ⟨hxin, hxout⟩ := h.not_mem_of_own (List.mem_append_left _ hname)
    exact ⟨hxin, hxout, fun hx => Feature.disjoint_parameters_locals x hname (h.locals x hx)⟩
  have hlocals : x ∈ s.names .local → x ∉ s.names .input ∧ x ∉ s.names .output :=
    fun hx => h.not_mem_of_own (List.mem_append_right _ (h.locals x hx))
  rw [declared, List.count_append, List.count_append, List.count_append]
  simp only [← List.count_pos_iff] at hparameters hlocals ⊢
  omega

end Told

end Shader

/-! ## Pipelines -/

/-- A stage with the features that it was put together from. -/
structure Composed where
  features : List Feature
  shader : Shader

/-- Whether one of the features puts the colour out. -/
def Composed.givesColor (c : Composed) : Bool := c.features.any Feature.givesColor

/-- Stages of different kinds, one after the other. Each is put together from a fresh one
and may take in what the stages before it put out, the one right before it or others; no
feature was refused. -/
inductive Pipeline : List Composed → Prop
  | empty : Pipeline []
  | stage {earlier : List Composed} (h : Pipeline earlier) {name : String} {stage : Stage}
      (hstage : ∀ c ∈ earlier, c.shader.stage ≠ stage) {features : List Feature}
      (hchain : ∀ previous, .chainFrom previous ∈ features → ∃ c ∈ earlier, c.shader = previous)
      {s : Shader} (hs : (Shader.empty name stage).applyAll features = .ok s) :
      Pipeline (earlier ++ [⟨features, s⟩])

namespace Pipeline
variable {stages : List Composed}

/-- How a stage of a pipeline was made. -/
theorem runs (h : Pipeline stages) {c : Composed} (hc : c ∈ stages) :
    ∃ name, Shader.Runs (Shader.empty name c.shader.stage) c.features c.shader ∧
      ∀ previous, .chainFrom previous ∈ c.features →
        ∃ p ∈ stages, p.shader = previous ∧ previous.stage ≠ c.shader.stage := by
  induction h with
  | empty => exact nomatch hc
  | @stage earlier h name stage hstage features hchain s hs ih =>
      rcases List.mem_append.1 hc with hc | hc
      · obtain ⟨name, hruns, hprevious⟩ := ih hc
        refine ⟨name, hruns, fun previous hmem => ?_⟩
        obtain ⟨p, hp, heq, hne⟩ := hprevious previous hmem
        exact ⟨p, List.mem_append_left _ hp, heq, hne⟩
      · obtain rfl := List.mem_singleton.1 hc
        have hruns := Shader.runs_of_applyAll hs
        have hkind : s.stage = stage := hruns.stage
        refine ⟨name, hkind.symm ▸ hruns, fun previous hmem => ?_⟩
        obtain ⟨p, hp, rfl⟩ := hchain previous hmem
        exact ⟨p, List.mem_append_left _ hp, rfl, hkind.symm ▸ hstage p hp⟩

theorem told (h : Pipeline stages) {c : Composed} (hc : c ∈ stages) : c.shader.Told := by
  obtain ⟨name, hruns, hprevious⟩ := h.runs hc
  refine ⟨(hruns.regular (Shader.regular_empty ..)).names, fun x hx => ?_,
    fun x hx => hruns.ending_of_output hx, hruns.own.1, hruns.own.2⟩
  rcases hruns.ending_of_input hx with hending | ⟨previous, hmem, hx⟩
  · exact .inr ⟨.attribute, nofun, hending⟩
  · obtain ⟨p, hp, rfl, hne⟩ := hprevious previous hmem
    obtain ⟨_, hpruns, -⟩ := h.runs hp
    refine (hpruns.ending_of_output hx).imp_right fun hending => ?_
    exact ⟨.stage p.shader.stage, fun heq => hne (Origin.stage.inj heq), hending⟩

theorem color_mem_outputs_iff (h : Pipeline stages) {c : Composed} (hc : c ∈ stages) :
    Slot.color.stem ∈ c.shader.names .output ↔ c.givesColor = true := by
  obtain ⟨_, hruns, -⟩ := h.runs hc
  rw [hruns.color_mem_outputs_iff, Composed.givesColor, List.any_eq_true]

theorem color_mem_inputs_iff (h : Pipeline stages) {c : Composed} (hc : c ∈ stages) :
    Slot.color.stem ∈ c.shader.names .input ↔
      ∃ p ∈ stages, .chainFrom p.shader ∈ c.features ∧ p.givesColor = true := by
  obtain ⟨_, hruns, hprevious⟩ := h.runs hc
  rw [hruns.color_mem_inputs_iff]
  constructor
  · rintro ⟨previous, hmem, hcolor⟩
    obtain ⟨p, hp, rfl, -⟩ := hprevious previous hmem
    exact ⟨p, hp, hmem, (h.color_mem_outputs_iff hp).1 hcolor⟩
  · rintro ⟨p, hp, hmem, hcolor⟩
    exact ⟨p.shader, hmem, (h.color_mem_outputs_iff hp).2 hcolor⟩

/-- **Only the colour is ever declared twice**, as an input and as an output, and it is
exactly in a stage that gives it and takes in a stage that gives it. -/
theorem redeclared_iff (h : Pipeline stages) {c : Composed} (hc : c ∈ stages) (x : String) :
    (1 < c.shader.declared.count x ↔
      x = "color" ∧ c.givesColor = true ∧
        ∃ p ∈ stages, .chainFrom p.shader ∈ c.features ∧ p.givesColor = true) ∧
      (1 < c.shader.declared.count x → x ∈ c.shader.names .input ∧ x ∈ c.shader.names .output) := by
  have htold := h.told hc
  refine ⟨?_, (htold.one_lt_count_iff x).1⟩
  rw [htold.one_lt_count_iff, ← h.color_mem_outputs_iff hc, ← h.color_mem_inputs_iff hc]
  constructor
  · rintro ⟨hin, hout⟩
    obtain rfl := htold.eq_color hin hout
    exact ⟨rfl, hout, hin⟩
  · rintro ⟨rfl, hout, hin⟩
    exact ⟨hin, hout⟩

end Pipeline

/-- A stage put together from features. -/
def Composed.of (name : String) (stage : Stage) (features : List Feature) : Composed :=
  ⟨features, (Shader.empty name stage).extendAll features⟩

/-- A vertex stage that passes a coordinate on. -/
def passing : Composed := .of "passing" .vertex [.vertexInputs .all, .passThrough "texcoord_in"]

/-- A stage behind it that does the same and gives the colour. -/
def coloring : Composed :=
  .of "coloring" .geometry [.chainFrom passing.shader, .passThrough "texcoord_*", .colorWhite]

/-- A stage that takes both in and gives the colour as well. -/
def texturing : Composed := .of "texturing" .fragment [.chainFrom coloring.shader, .colorTextured]

theorem pipeline_texturing : Pipeline [passing, coloring, texturing] := by
  have hpassing : Pipeline ([] ++ [passing]) := .stage .empty (by simp) (by simp) rfl
  have hcoloring : Pipeline ([passing] ++ [coloring]) := by
    refine .stage hpassing ?_ ?_ rfl
    · decide
    · simp [passing]
  refine .stage hcoloring ?_ ?_ rfl
  · decide
  · simp [coloring]

namespace Pipeline

theorem redeclared_texturing :
    (∀ x, ¬ 1 < coloring.shader.declared.count x) ∧
      1 < texturing.shader.declared.count "color" ∧
      ¬ 1 < texturing.shader.declared.count "texcoord_geo" := by
  have hcoloring : coloring ∈ [passing, coloring, texturing] := by simp
  have htexturing : texturing ∈ [passing, coloring, texturing] := by simp
  refine ⟨fun x hx => ?_, ?_, fun hx => ?_⟩
  · obtain ⟨-, -, p, hp, hchain, hcolor⟩ :=
      (redeclared_iff pipeline_texturing hcoloring x).1.1 hx
    have hnone : ∀ p ∈ [passing, coloring, texturing],
        ¬ (.chainFrom p.shader ∈ coloring.features ∧ p.givesColor = true) := by decide
    exact hnone p hp ⟨hchain, hcolor⟩
  · refine (redeclared_iff pipeline_texturing htexturing "color").1.2 ⟨rfl, by decide, ?_⟩
    exact ⟨coloring, hcoloring, List.mem_cons_self, by decide⟩
  · obtain ⟨heq, -⟩ := (redeclared_iff pipeline_texturing htexturing "texcoord_geo").1.1 hx
    exact absurd heq (by decide)

end Pipeline

/-- A stage that only gives the colour. -/
def whiteVertex : Composed := .of "white" .vertex [.colorWhite]

/-- A stage behind it that only gives the colour. -/
def whiteFragment : Composed := .of "white" .fragment [.chainFrom whiteVertex.shader, .colorWhite]

namespace Pipeline

/-- Two such stages have the colour twice in the second of them. -/
theorem color_redeclared :
    Pipeline [whiteVertex, whiteFragment] ∧ whiteFragment.shader.declared = ["color", "color"] ∧
      "in vec4 color;" ∈ whiteFragment.shader.lines none ∧
      "out vec4 color;" ∈ whiteFragment.shader.lines none := by
  have hvertex : Pipeline ([] ++ [whiteVertex]) := .stage .empty (by simp) (by simp) rfl
  have hfragment : Pipeline ([whiteVertex] ++ [whiteFragment]) := by
    refine .stage hvertex ?_ ?_ rfl
    · decide
    · simp [whiteVertex]
  exact ⟨hfragment, by decide, by decide, by decide⟩

end Pipeline

end Shaderwright
