import Shaderwright.Preset
import Shaderwright.Proofs.Render.Units
import Shaderwright.Proofs.Shader.Edits

/-!
# Parameters are fed

Features declare their parameters by name and type, and aggregates write theirs by name and
value. Nothing ties the two together but one table (`Aggregate.Kind.uniforms`): what a
feature declares stands in it, and what an aggregate writes is read off from it. No name
stands there twice, so a parameter is fed by one kind of aggregate and by no other.

A device that hides nothing gives every uniform a location of its own. So a program that
is put to use and given each aggregate once is told each of its parameters once.
-/

namespace Shaderwright

/-! ## What aggregates write -/

/-- The type of a uniform that takes the value. -/
def UniformValue.ty : UniformValue → ShaderType
  | .float _ => .float
  | .vec2 _ => .vec 2
  | .vec3 _ => .vec 3
  | .vec4 _ => .vec 4
  | .mat3 _ => .mat 3
  | .mat4 _ => .mat 4
  | .int _ => .int

/-- The type of a sampler for textures of the target. -/
def TextureTarget.samplerType : TextureTarget → ShaderType
  | .texture2d => .sampler2d
  | .cubeMap => .samplerCube

/-- The type of a uniform that the write is meant for. -/
def Write.ty {τ : Type} : Write τ → ShaderType
  | .value _ x => x.ty
  | .sampler _ target _ => target.samplerType

namespace Aggregate

/-- An aggregate without its values. -/
inductive Kind where
  | material
  | positionable
  | viewer
  | light
  | shadow
deriving DecidableEq, Repr

def kind {τ : Type} : Aggregate τ → Kind
  | .material _ => .material
  | .positionable _ => .positionable
  | .viewer _ => .viewer
  | .light _ => .light
  | .shadow _ => .shadow

namespace Kind

def all : List Kind := [.material, .positionable, .viewer, .light, .shadow]

/-- The uniforms that aggregates of a kind write, with their types. -/
def uniforms : Kind → List (String × ShaderType)
  | .material =>
      [("u_color_sampler", .sampler2d), ("u_normal_sampler", .sampler2d),
        ("u_specular_sampler", .sampler2d)]
  | .positionable => [("u_world_matrix", .mat 4), ("u_normal_matrix", .mat 3)]
  | .viewer =>
      [("u_view_matrix", .mat 4), ("u_proj_matrix", .mat 4), ("u_view_position", .vec 3)]
  | .light =>
      [("u_light_position", .vec 3), ("u_light_power", .vec 3), ("u_light_ambience", .float)]
  | .shadow => [("u_shadow_cube", .samplerCube), ("u_light_proj_matrix", .mat 4)]

theorem mem_all (k : Kind) : k ∈ all := by
  cases k <;> decide

/-- No two kinds share a uniform. -/
theorem eq_of_mem_uniforms {k k' : Kind} {x : String} (hx : x ∈ k.uniforms.map Prod.fst)
    (hx' : x ∈ k'.uniforms.map Prod.fst) : k = k' := by
  have hall : ∀ k ∈ all, ∀ k' ∈ all, ∀ x ∈ k.uniforms.map Prod.fst,
      x ∈ k'.uniforms.map Prod.fst → k = k' := by decide +kernel
  exact hall k k.mem_all k' k'.mem_all x hx hx'

theorem nodup_uniforms (k : Kind) : (k.uniforms.map Prod.fst).Nodup := by
  cases k <;> decide +kernel

end Kind

variable {τ : Type}

theorem map_writes (a : Aggregate τ) :
    a.writes.map (fun w => (w.name, w.ty)) = a.kind.uniforms := by
  cases a <;> rfl

theorem names_writes (a : Aggregate τ) :
    a.writes.map Write.name = a.kind.uniforms.map Prod.fst := by
  rw [← a.map_writes, List.map_map]
  rfl

end Aggregate

/-- A uniform that the aggregates of one kind write, once and with a value of its type, and
no other aggregates. -/
structure Variable.FedBy (v : Variable) (k : Aggregate.Kind) : Prop where
  uniform : v.role = .uniform
  written : ∀ {τ : Type} (a : Aggregate τ),
    (a.writes.map Write.name).count v.name = if a.kind = k then 1 else 0
  typed : ∀ {τ : Type} (a : Aggregate τ), ∀ w ∈ a.writes, w.name = v.name → w.ty = v.ty

theorem Variable.fedBy_of_mem {v : Variable} {k : Aggregate.Kind} (hrole : v.role = .uniform)
    (hmem : (v.name, v.ty) ∈ k.uniforms) : v.FedBy k where
  uniform := hrole
  written := by
    intro τ a
    have hname : v.name ∈ k.uniforms.map Prod.fst := List.mem_map_of_mem hmem
    rw [a.names_writes]
    split
    · next hk =>
        rw [hk]
        exact List.count_eq_one_of_mem k.nodup_uniforms hname
    · next hk =>
        exact List.count_eq_zero.2 fun hx => hk (Aggregate.Kind.eq_of_mem_uniforms hx hname)
  typed := by
    intro τ a w hw hname
    have hw' : (w.name, w.ty) ∈ a.kind.uniforms := a.map_writes ▸ List.mem_map_of_mem hw
    have hx : w.name ∈ a.kind.uniforms.map Prod.fst := List.mem_map_of_mem hw'
    rw [hname] at hx
    have hk := Aggregate.Kind.eq_of_mem_uniforms hx (List.mem_map_of_mem hmem)
    rw [hk] at hw'
    exact congrArg Prod.snd (List.inj_on_of_nodup_map k.nodup_uniforms hw' hmem hname)

/-! ## What features declare -/

/-- A parameter is declared with the type that some kind of aggregate feeds it. -/
def Edit.Feedable : Edit → Prop
  | .declare .parameter x [.ty t] => ∃ k ∈ Aggregate.Kind.all, (x, t) ∈ k.uniforms
  | .declare .parameter _ _ => False
  | .declare _ _ _ | .statement _ | .conditional _ _ => True

namespace Feature

attribute [local simp] Edit.Feedable input output parameter localVar Aggregate.Kind.all
  Aggregate.Kind.uniforms ShaderType.sampler

theorem feedable_rotated (s : Shader) (slot : Slot) : ∀ e ∈ rotated s slot, e.Feedable := by
  cases hsource : s.slotInput? slot <;> simp [rotated, hsource]

theorem feedable_dimmed (s : Shader) (intensity : Expr) :
    ∀ e ∈ dimmed s intensity, e.Feedable := by
  cases hlit : s.find? .local "l_lit" <;> simp [dimmed, hlit]

theorem feedable_litNormal (s : Shader) (normal : Variable) :
    ∀ e ∈ litNormal s normal, e.Feedable := by
  cases hn : s.find? .local "l_normal" <;> simp [litNormal, hn]

theorem feedable_blinn {s : Shader} {normal position texcoord color : Variable} :
    ∀ e ∈ blinnEdits s normal position texcoord color, e.Feedable := by
  have hdeclared : ∀ e ∈ blinnDeclarations, e.Feedable := by simp [blinnDeclarations]
  have hdiffuse : ∀ e ∈ diffuseTerm position, e.Feedable := by simp [diffuseTerm]
  have hspecular : ∀ e ∈ specularTerm texcoord, e.Feedable := by simp [specularTerm]
  have hcolor : ∀ e ∈ litColor color, e.Feedable := by simp [litColor]
  simp only [blinnEdits, List.forall_mem_append]
  exact ⟨⟨⟨⟨⟨⟨feedable_litNormal s normal, hdeclared⟩, hdiffuse⟩, feedable_dimmed s _⟩,
    hspecular⟩, feedable_dimmed s _⟩, hcolor⟩

/-- **Whatever a feature declares is fed.** -/
theorem feedable_of_yields {s : Shader} {f : Feature} {es : List Edit} (h : f.Yields s es) :
    ∀ e ∈ es, e.Feedable := by
  cases h with
  | vertexInputs inputs => simp [vertexInputsEdits]
  | chainFrom previous => simp [chainFromEdits]
  | transform hposition =>
      simp only [transformEdits, List.forall_mem_append]
      exact ⟨⟨by simp, feedable_rotated s _⟩, feedable_rotated s _⟩
  | view h => simp [projectedEdits]
  | project h => simp [projectedEdits]
  | computeBinormal hnormal htangent => simp [binormalEdits]
  | passThrough h => simp [passThroughEdits]
  | emitPosition h => simp [emitPositionEdits]
  | emitClipPosition h hclip => simp [emitClipPositionEdits]
  | colorWhite => simp [colorWhiteEdits]
  | colorTextured htexcoord => simp [colorTexturedEdits]
  | normalMapped htexcoord hnormal htangent hbinormal hfacing => simp [normalMappedEdits]
  | blinn hnormal hposition htexcoord hcolor => exact feedable_blinn
  | shadowMapped hposition => simp [shadowMappedEdits, shadowPrologue]
  | shadowMappedVariance hposition => simp [shadowMappedVarianceEdits, shadowPrologue]

end Feature

/-- A stage that is made of features alone. -/
def Shader.Featured (s : Shader) : Prop :=
  ∃ name stage features, s = (Shader.empty name stage).extendAll features

namespace Shader

/-- Every parameter is among the uniforms of some kind of aggregate. -/
def Feedable (s : Shader) : Prop := ∀ storage, ∀ v ∈ s.vars storage, storage = .parameter →
  v.role = .uniform ∧ ∃ k ∈ Aggregate.Kind.all, (v.name, v.ty) ∈ k.uniforms

theorem Feedable.editAll {s : Shader} (hs : s.Feedable) {es : List Edit}
    (hes : ∀ e ∈ es, e.Feedable) : (s.editAll es).Feedable := by
  refine forall_vars_editAll hs fun st x cs hmem => ?_
  have hedit := hes _ hmem
  cases st with
  | parameter =>
      -- A parameter is declared by its type alone, so it is one of the role it is made with.
      match cs, hedit with
      | [.ty t], hedit =>
          exact ⟨fun v hname hv hst => ⟨(hv hst).1, hname ▸ hedit⟩, fun _ => ⟨rfl, hedit⟩⟩
  | input | output | «local» =>
      exact ⟨fun v _ _ hst => (nomatch hst), fun hst => (nomatch hst)⟩

theorem Feedable.extendAll {s : Shader} (hs : s.Feedable) (features : List Feature) :
    (s.extendAll features).Feedable := by
  induction features generalizing s with
  | nil => exact hs
  | cons f features ih =>
      refine ih ?_
      rcases s.extend_cases f with heq | ⟨es, hes, heq⟩
      · rwa [heq]
      · rw [heq]
        exact hs.editAll (Feature.feedable_of_yields hes)

theorem Featured.feedable {s : Shader} (hs : s.Featured) : s.Feedable := by
  obtain ⟨name, stage, features, rfl⟩ := hs
  have hempty : (empty name stage).Feedable := by
    intro storage v hv
    cases storage <;> exact nomatch hv
  exact hempty.extendAll features

theorem Featured.fedBy {s : Shader} (hs : s.Featured) {v : Variable} (hv : v ∈ s.parameters) :
    ∃ k, v.FedBy k := by
  obtain ⟨hrole, k, -, hk⟩ := hs.feedable .parameter v hv rfl
  exact ⟨k, Variable.fedBy_of_mem hrole hk⟩

end Shader

/-! ## What all aggregates write together -/

namespace Aggregate

/-- The uniforms of all kinds. -/
def uniformNames : List String := Kind.all.flatMap fun k => k.uniforms.map Prod.fst

theorem nodup_uniformNames : uniformNames.Nodup := by decide +kernel

theorem mem_uniformNames {k : Kind} {x : String} {t : ShaderType} (h : (x, t) ∈ k.uniforms) :
    x ∈ uniformNames := List.mem_flatMap.2 ⟨k, k.mem_all, List.mem_map_of_mem h⟩

/-- One aggregate of each kind, in any order, writes every uniform once. -/
theorem perm_uniformNames {τ : Type} {aggregates : List (Aggregate τ)}
    (h : (aggregates.map kind).Perm Kind.all) :
    ((aggregates.flatMap writes).map Write.name).Perm uniformNames := by
  have hnames : (aggregates.flatMap writes).map Write.name
      = (aggregates.map kind).flatMap fun k => k.uniforms.map Prod.fst := by
    simp only [List.map_flatMap, List.flatMap_map, names_writes]
  rw [hnames]
  exact h.flatMap_right _

end Aggregate

namespace Headless

open Context

/-! ## The locations that are written -/

/-- The location that a call writes. -/
def Call.target? : Call → Option UInt32
  | .write location _ => some location
  | _ => none

/-- The locations that are written, in order. -/
def targets (calls : List Call) : List UInt32 := calls.filterMap Call.target?

theorem targets_append (calls more : List Call) :
    targets (calls ++ more) = targets calls ++ targets more := List.filterMap_append ..

def Written.target? : Written → Option UInt32
  | .value location _ => some location
  | .sampler _ _ _ location _ => some location
  | .torn _ => none

theorem targets_written (calls : List Call) :
    (written calls).filterMap Written.target? = targets calls := by
  rw [targets]
  fun_induction written calls with
  | case1 => rfl
  | case2 | case3 | case4 => simp_all [List.filterMap_cons, Written.target?, Call.target?]
  | case5 call rest hbound htexture hwrite ih =>
      have htarget : call.target? = none := by
        cases call with
        | write location value => exact (hwrite location value rfl).elim
        | compile | link | deleteStage | useProgram | locate | bindTexture => rfl
      rw [ih, List.filterMap_cons_none htarget]

theorem targets_expected (location : String → Option UInt32) (unit : Nat)
    (ws : List (Write UInt32)) :
    (expected location unit ws).filterMap Written.target?
      = (ws.map Write.name).filterMap location := by
  induction ws generalizing unit with
  | nil => rfl
  | cons w ws ih =>
      cases w with
      | value name value | sampler name target texture =>
          rw [expected, List.map_cons, Write.name]
          cases hname : location name <;> simp [hname, ih, Written.target?]

/-- A location that stands for one name is written as often as the name. -/
theorem count_filterMap {location : String → Option UInt32} {x : String} {l : UInt32}
    (hx : location x = some l) (hunique : ∀ y, location y = some l → y = x)
    (names : List String) : (names.filterMap location).count l = names.count x := by
  induction names with
  | nil => rfl
  | cons y names ih =>
      by_cases hy : y = x
      · subst hy
        rw [List.filterMap_cons_some hx, List.count_cons_self, List.count_cons_self, ih]
      · have hl : location y ≠ some l := fun h => hy (hunique y h)
        rw [List.count_cons_of_ne hy, ← ih]
        cases hlocation : location y with
        | none => rw [List.filterMap_cons_none hlocation]
        | some l' =>
            have hne : l' ≠ l := fun h => hl (hlocation.trans (congrArg some h))
            rw [List.filterMap_cons_some hlocation, List.count_cons_of_ne hne]

/-! ## A table of locations -/

/-- Locations are numbered in the order in which they are given out, and none is given out or
written before a program is put to use. -/
structure Tabled (c : Context Headless) : Prop where
  numbered : c.device.locations.map Prod.snd
    = (List.range c.device.locations.length).map UInt32.ofNat
  idle : c.active = none → c.device.locations = [] ∧ targets c.device.calls = []

theorem tabled_fresh (hidden : List String) (rejected : Option String)
    (version : Option Version) : Tabled (Context.fresh { hidden, rejected } version) :=
  ⟨rfl, fun _ => ⟨rfl, rfl⟩⟩

/-- Nobody asked for a location, and nothing was written. -/
theorem Tabled.of_calls {c c' : Context Headless} (h : Tabled c)
    (hlocations : c'.device.locations = c.device.locations) (hactive : c'.active = c.active)
    (hcalls : targets c'.device.calls = targets c.device.calls) : Tabled c' where
  numbered := by rw [hlocations, h.numbered]
  idle := by
    rw [hlocations, hcalls, hactive]
    exact h.idle

/-- The table may grow if a program is in use. -/
theorem tabled_of_active {c : Context Headless} {id : ProgramId} (hactive : c.active = some id)
    (hnumbered : c.device.locations.map Prod.snd
      = (List.range c.device.locations.length).map UInt32.ofNat) : Tabled c :=
  ⟨hnumbered, fun hnone => absurd (hactive.symm.trans hnone) (Option.some_ne_none id)⟩

theorem keeps_tabled : Keeps Tabled where
  journal c events h := h.of_calls rfl rfl rfl
  compiled c key stage source handle device h hkey hcompile := by
    obtain ⟨rfl, rfl⟩ := compile_eq_ok hcompile
    exact h.of_calls rfl rfl (by simp [targets, holdStage, record, Call.target?])
  uncompiled c stage source log device h hcompile := by
    obtain rfl := compile_eq_error hcompile
    exact h
  linked c r handles handle device h hfind hparts hlink := by
    obtain ⟨rfl, rfl⟩ := link_eq_ok hlink
    exact h.of_calls rfl rfl (by simp [targets, keep, Context.record, record, Call.target?])
  unlinked c handles attributes log device h hlink := by
    obtain rfl := link_eq_error hlink
    exact h
  released c key handle rest h hstages := by
    refine h.of_calls rfl rfl ?_
    rw [show Device.deleteStage c.device handle = c.device.deleteStage handle from rfl]
    simp [targets, deleteStage, record, Call.target?]
  activated c id program h hget := tabled_of_active rfl h.numbered
  located c id program name location device h hactive hget hlookup hlocate := by
    obtain ⟨new, rfl, -, hnew⟩ := locate_spec hlocate
    refine tabled_of_active hactive ?_
    rcases hnew with rfl | ⟨key, rfl⟩
    · simpa [record] using h.numbered
    · simp [h.numbered, List.range_succ]
  written c id program name location value h hactive hget hlookup :=
    tabled_of_active hactive h.numbered
  bound c id program name location target texture h hactive hget hlookup :=
    tabled_of_active hactive h.numbered

/-- As long as the numbers last, no two uniforms share a location. -/
theorem Tabled.eq_of_lookup {c : Context Headless} (h : Tabled c)
    (hlast : c.device.locations.length ≤ UInt32.size) {key other : UInt32 × String}
    {location : UInt32} (hkey : c.device.locations.lookup key = some location)
    (hother : c.device.locations.lookup other = some location) : key = other := by
  refine Headless.eq_of_lookup ?_ hkey hother
  rw [h.numbered]
  exact nodup_map_range fun i j hi hj => ofNat_injective (by omega) (by omega)

/-! ## A program that is given aggregates -/

/-- A write asks for one location at most. -/
theorem length_locations_perform (b : Bound Headless) (w : Write UInt32) :
    (b.perform w).device.locations.length ≤ b.device.locations.length + 1 := by
  have hresolve : (b.resolve w.name).2.device.locations.length
      ≤ b.device.locations.length + 1 := by
    rw [Bound.resolve]
    cases b.program.uniforms.lookup w.name with
    | some known => exact Nat.le_succ _
    | none =>
        dsimp only
        generalize hlocate : Device.locate b.device b.program.handle w.name = out
        obtain ⟨location, device⟩ := out
        obtain ⟨new, rfl, -, hnew⟩ := locate_spec hlocate
        rcases hnew with rfl | ⟨key, rfl⟩ <;> simp
  rw [← Bound.performBy_resolve, Bound.performBy]
  generalize b.resolve w.name = out at hresolve
  obtain ⟨answer, b'⟩ := out
  cases answer with
  | none => exact hresolve
  | some location => cases w <;> exact hresolve

theorem length_locations_performAll (b : Bound Headless) (ws : List (Write UInt32)) :
    (b.performAll ws).device.locations.length ≤ b.device.locations.length + ws.length := by
  induction ws generalizing b with
  | nil => exact Nat.le_refl _
  | cons w ws ih =>
      have hfirst := length_locations_perform b w
      have hrest : ((b.perform w).performAll ws).device.locations.length ≤ _ := ih (b.perform w)
      have hcons : b.performAll (w :: ws) = (b.perform w).performAll ws := rfl
      rw [hcons, List.length_cons]
      omega

/-- The program was put to use at the end of `start`, and has been told `ws` since. No more
locations were asked for than it takes. -/
structure Feeding (start : List Call) (known : Nat) (id : ProgramId) (program : UInt32)
    (ws : List (Write UInt32)) (c : Context Headless) : Prop where
  active : c.active = some id
  allKnown : AllKnown c
  tells : ∃ p, c.get? id = some p ∧ Tells start program ws c.device p
  locations : c.device.locations.length ≤ known + ws.length

section
variable {start : List Call} {known : Nat} {id : ProgramId} {program : UInt32}
  {ws : List (Write UInt32)} {c : Context Headless}

theorem Feeding.stream (h : Feeding start known id program ws c) (a : Aggregate UInt32)
    (hfew : (samplers (ws ++ a.writes)).length < 2 ^ 31) :
    (c.stream a).1 = .ok () ∧
      Feeding start known id program (ws ++ a.writes) (c.stream a).2 := by
  obtain ⟨p, hget, htells⟩ := h.tells
  have hstart : AllKnown (c.resume id { program := p, device := c.device }) := by
    rw [resume_start hget]
    exact h.allKnown
  have hstream : (c.stream a).2
      = c.resume id (Bound.performAll { program := p, device := c.device } a.writes) :=
    withActive_eq_resume h.active hget _
  constructor
  · rw [Context.stream, Context.perform, withActive, activeProgram_eq_ok h.active hget]
  · exact {
      active := by rw [hstream]; exact h.active
      allKnown := keeps_allKnown.serve h.allKnown (.stream a)
      tells := by
        rw [hstream]
        exact ⟨_, get?_resume hget _, htells.performAll (b := { program := p, device := c.device })
          h.active hget hstart hfew⟩
      locations := by
        have hgrowth := length_locations_performAll
          { program := p, device := c.device } a.writes
        have hlocations := h.locations
        rw [hstream, List.length_append]
        exact Nat.le_trans hgrowth (by dsimp only; omega) }

theorem Feeding.streamAll (h : Feeding start known id program ws c)
    (aggregates : List (Aggregate UInt32))
    (hfew : (ws ++ aggregates.flatMap Aggregate.writes).length < 2 ^ 31) :
    Feeding start known id program (ws ++ aggregates.flatMap Aggregate.writes)
      (c.serveAll (aggregates.map .stream)) := by
  induction aggregates generalizing ws c with
  | nil =>
      rw [List.flatMap_nil, List.append_nil]
      exact h
  | cons a rest ih =>
      have hall : ws ++ (a :: rest).flatMap Aggregate.writes
          = (ws ++ a.writes) ++ rest.flatMap Aggregate.writes := by simp
      have hfirst : (samplers (ws ++ a.writes)).length < 2 ^ 31 := by
        have hle : (samplers (ws ++ a.writes)).length ≤ (ws ++ a.writes).length :=
          List.length_filterMap_le ..
        rw [hall, List.length_append] at hfew
        omega
      rw [hall] at hfew ⊢
      exact ih (h.stream a hfirst).2 hfew

end

/-! ## Every parameter once -/

/-- Every parameter of the stages has a location, and it is written once. -/
def FedOnce (shaders : List Shader) (program : UInt32) (d : Headless) (calls : List Call) :
    Prop :=
  ∀ s ∈ shaders, ∀ v ∈ s.parameters, ∃ location,
    d.locations.lookup (program, v.name) = some location ∧ (targets calls).count location = 1

/-- A composed program is put to use and given aggregates. Nothing of it fails, and each
parameter is told once; once in all if no program was in use before. -/
structure FeedsOnce (shaders : List Shader) (c composed : Context Headless) (id : ProgramId)
    (aggregates : List (Aggregate UInt32)) : Prop where
  activated : (composed.activate id).1 = .ok ()
  streamed : ∀ before a after, aggregates = before ++ a :: after →
    ((composed.serveAll (.activate id :: before.map .stream)).stream a).1 = .ok ()
  told : ∃ p told, composed.get? id = some p ∧
    let fed := composed.serveAll (.activate id :: aggregates.map .stream)
    fed.device.calls = composed.device.calls ++ .useProgram p.handle :: told ∧
    (c.device.locations.length + Aggregate.uniformNames.length ≤ UInt32.size →
      FedOnce shaders p.handle fed.device told) ∧
    (c.active = none → FedOnce shaders p.handle fed.device fed.device.calls)

theorem exists_get?_compose {c : Context Headless} (h : c.Indexed) {shaders : List Shader}
    {id : ProgramId} (hid : (c.compose shaders).1 = .ok id) :
    ∃ p, (c.compose shaders).2.get? id = some p := by
  cases shaders with
  | nil => exact nomatch hid
  | cons first rest =>
      have hindexed := keeps_indexed.build h (.ofShaders c.cache.version first rest)
      have hfind := (find?_build c (.ofShaders c.cache.version first rest) _ id).2 (.inr ⟨rfl, hid⟩)
      exact ⟨_, List.getElem?_eq_getElem (hindexed.lt_of_find? hfind)⟩

theorem beside_compose (c : Context Headless) (shaders : List Shader) :
    Beside c (c.compose shaders).2 := by
  cases shaders with
  | nil => exact Beside.refl c
  | cons first rest => exact beside_build c _

/-- An activation that succeeds. -/
theorem feeding_activate {c : Context Headless} {id : ProgramId} {p : Program Headless}
    (hget : c.get? id = some p) (hknown : AllKnown c) :
    (c.activate id).1 = .ok () ∧
      Feeding (c.device.calls ++ [.useProgram p.handle]) c.device.locations.length id p.handle []
        (c.activate id).2 := by
  have hlt : id.index < c.cache.programs.length := (List.getElem?_eq_some_iff.1 hget).1
  have hknown' : AllKnown (c.activate id).2 := keeps_allKnown.serve hknown (.activate id)
  rw [Context.activate, hget] at hknown' ⊢
  refine ⟨rfl, rfl, hknown', ⟨{ p with textureUnit := 0 }, by simp [Context.get?, setProgram, hlt],
    rfl, ⟨[], (List.append_nil _).symm, complete_nil, by simp, rfl⟩, by simp, rfl⟩, Nat.le_refl _⟩

section
variable {start : List Call} {program : UInt32} {ws : List (Write UInt32)} {d : Headless}
  {p : Program Headless}

/-- Where nothing is hidden, the locations that are written are those of the names. -/
theorem Tells.targets (h : Tells start program ws d p) (hhidden : d.hidden = []) :
    ∃ told, d.calls = start ++ told ∧ Headless.targets told
      = (ws.map Write.name).filterMap fun x => d.locations.lookup (program, x) := by
  obtain ⟨told, hcalls, -, -, hwritten⟩ := h.record
  have hlocated : located? d program = fun x => d.locations.lookup (program, x) := by
    funext x
    cases hlookup : d.locations.lookup (program, x) <;>
      simp [located?, recalled?, hhidden, hlookup]
  exact ⟨told, hcalls, by rw [← targets_written, hwritten, targets_expected, hlocated]⟩

theorem Tells.exists_location (h : Tells start program ws d p) (hhidden : d.hidden = [])
    {x : String} (hx : x ∈ ws.map Write.name) :
    ∃ location, d.locations.lookup (program, x) = some location := by
  obtain ⟨w, hw, rfl⟩ := List.mem_map.1 hx
  have hasked := h.asked w hw
  rw [recalled?, hhidden] at hasked
  exact Option.isSome_iff_exists.1 (by simpa using hasked)

end

/-- Calls that leave the program in use alone write nothing. -/
theorem targets_of_aside {calls : List Call} (h : ∀ call ∈ calls, call.Aside) :
    targets calls = [] := by
  refine List.filterMap_eq_nil_iff.2 fun call hcall => ?_
  have haside := h call hcall
  cases call with
  | write => exact haside.elim
  | compile | link | deleteStage | useProgram | locate | bindTexture => rfl

/-- A program that was told one aggregate of each kind. -/
theorem Feeding.fedOnce {start : List Call} {known : Nat} {id : ProgramId} {program : UInt32}
    {aggregates : List (Aggregate UInt32)} {c : Context Headless}
    (h : Feeding start known id program (aggregates.flatMap Aggregate.writes) c)
    (hkinds : (aggregates.map Aggregate.kind).Perm Aggregate.Kind.all) (htabled : Tabled c)
    (hhidden : c.device.hidden = []) {shaders : List Shader}
    (hshaders : ∀ s ∈ shaders, s.Featured) :
    ∃ told, c.device.calls = start ++ told ∧
      (c.device.locations.length ≤ UInt32.size → FedOnce shaders program c.device told) := by
  have hnames := Aggregate.perm_uniformNames hkinds
  obtain ⟨p, -, htells⟩ := h.tells
  obtain ⟨told, hcalls, htargets⟩ := htells.targets hhidden
  refine ⟨told, hcalls, fun hlast s hs v hv => ?_⟩
  obtain ⟨-, k, -, hk⟩ := (hshaders s hs).feedable .parameter v hv rfl
  have hmem := hnames.mem_iff.2 (Aggregate.mem_uniformNames hk)
  obtain ⟨location, hlocation⟩ := htells.exists_location hhidden hmem
  refine ⟨location, hlocation, ?_⟩
  rw [htargets, count_filterMap hlocation fun y hy =>
    congrArg Prod.snd (htabled.eq_of_lookup hlast hy hlocation)]
  exact List.count_eq_one_of_mem (hnames.nodup_iff.2 Aggregate.nodup_uniformNames) hmem

/-- **Parameters are fed.** Whatever a stage is made of, each of its parameters is written by
the aggregates of one kind, with a value of its type, and by no others. On a device that
hides nothing, whatever was asked for before, a program that is composed of such stages, put
to use and given an aggregate of each kind in any order is told each parameter once. -/
theorem feedsOnce_compose :
    (∀ s : Shader, s.Featured → ∀ v ∈ s.parameters, ∃ k, v.FedBy k) ∧
    ∀ (rejected : Option String) (version : Option Version) (before : List (Request Headless))
      (shaders : List Shader) (id : ProgramId) (aggregates : List (Aggregate UInt32)),
      let c := (Context.fresh ({ rejected } : Headless) version).serveAll before
      (∀ s ∈ shaders, s.Featured) → (c.compose shaders).1 = .ok id →
      (aggregates.map Aggregate.kind).Perm Aggregate.Kind.all →
      FeedsOnce shaders c (c.compose shaders).2 id aggregates := by
  refine ⟨fun s hs v hv => hs.fedBy hv, ?_⟩
  intro rejected version before shaders id aggregates c hshaders hid hkinds
  have hfresh : AllKnown (Context.fresh ({ rejected } : Headless) version) :=
    fun p hp => nomatch hp
  have hknown : AllKnown c := keeps_allKnown.serveAll hfresh before
  have htabled : Tabled c := keeps_tabled.serveAll (tabled_fresh [] rejected version) before
  have hhidden : c.device.hidden = [] := (keeps_hidden []).serveAll rfl before
  obtain ⟨p, hget⟩ :=
    exists_get?_compose (keeps_indexed.serveAll (indexed_fresh _ version) before) hid
  obtain ⟨more, hmore, haside⟩ := (beside_compose c shaders).calls
  have hlocations := (beside_compose c shaders).locations
  obtain ⟨hactivated, hfeeding⟩ :=
    feeding_activate hget (keeps_allKnown.serve hknown (.compose shaders))
  have hlength : (aggregates.flatMap Aggregate.writes).length = Aggregate.uniformNames.length := by
    simpa using (Aggregate.perm_uniformNames hkinds).length_eq
  have hfew : Aggregate.uniformNames.length < 2 ^ 31 := by decide
  have hfed := hfeeding.streamAll aggregates (by rwa [List.nil_append, hlength])
  rw [List.nil_append] at hfed
  obtain ⟨told, hcalls, honce⟩ := hfed.fedOnce hkinds
    (keeps_tabled.serveAll htabled (.compose shaders :: .activate id :: aggregates.map .stream))
    ((keeps_hidden []).serveAll hhidden
      (.compose shaders :: .activate id :: aggregates.map .stream)) hshaders
  have hgrowth := hfed.locations
  rw [hlength, hlocations] at hgrowth
  exact {
    activated := hactivated
    streamed := by
      rintro given a after rfl
      rw [List.flatMap_append, List.flatMap_cons, List.length_append, List.length_append] at hlength
      have hgiven := hfeeding.streamAll given (by rw [List.nil_append]; omega)
      refine (hgiven.stream a (Nat.lt_of_le_of_lt (List.length_filterMap_le ..) ?_)).1
      rw [List.nil_append, List.length_append]
      omega
    told := by
      refine ⟨p, told, hget, ?_, fun hlast => honce (Nat.le_trans hgrowth hlast), fun hidle => ?_⟩
      · rw [List.append_cons]
        exact hcalls
      · -- No location was given out and none was written before.
        obtain ⟨hnone, hquiet⟩ := htabled.idle hidle
        have hlast : c.device.locations.length + Aggregate.uniformNames.length ≤ UInt32.size := by
          rw [hnone]
          decide
        have hbefore : targets (c.compose shaders).2.device.calls = [] := by
          rw [hmore, targets_append, hquiet, targets_of_aside haside, List.append_nil]
        have htargets := congrArg targets hcalls
        rw [targets_append, targets_append, hbefore] at htargets
        intro s hs v hv
        obtain ⟨location, hlocation, hcount⟩ := honce (Nat.le_trans hgrowth hlast) s hs v hv
        exact ⟨location, hlocation, htargets ▸ hcount⟩ }

/-- One aggregate of each kind, the shadow first. -/
def sceneAggregates : List (Aggregate UInt32) :=
  [ .shadow (.ofNear 4 0.1),
    .light { position := .unitY, power := .unitX, ambience := 0.5 },
    .viewer (.lookAt .unitZ .unitX 0.8 1.5 0.1 100),
    .material { color := 1, normal := 2, specular := 3 },
    .positionable (.ofWorld (.lookAt .unitX .unitZ .unitY)) ]

/-- The lit surface, composed after the pass that fills its shadow. -/
theorem feedsOnce_basicLit :
    let before : List (Request Headless) := [.compose Preset.shadowDepth.shaders, .releaseStages]
    let c := (Context.fresh ({ rejected := none } : Headless) (some ⟨4, 1⟩)).serveAll before
    (c.compose Preset.basicLit.shaders).1 = .ok ⟨1⟩ ∧ c.active = none ∧
      FeedsOnce Preset.basicLit.shaders c (c.compose Preset.basicLit.shaders).2 ⟨1⟩
        sceneAggregates := by
  intro before c
  have hshaders : ∀ s ∈ Preset.basicLit.shaders, s.Featured := by
    intro s hs
    rcases List.mem_cons.1 hs with rfl | hs
    · exact ⟨_, _, _, rfl⟩
    · obtain rfl := List.mem_singleton.1 hs
      exact ⟨_, _, _, rfl⟩
  have hid : (c.compose Preset.basicLit.shaders).1 = .ok ⟨1⟩ := by decide +kernel
  have hkinds : (sceneAggregates.map Aggregate.kind).Perm Aggregate.Kind.all := by
    decide
  exact ⟨hid, by decide +kernel,
    feedsOnce_compose.2 none (some ⟨4, 1⟩) before _ _ _ hshaders hid hkinds⟩

end Headless

end Shaderwright
