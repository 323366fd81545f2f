import Shaderwright.Render.Context

/-!
# Runs of a context

A run serves one request after the other; a request that fails is simply over. Each
comes down to a few small steps: a stage is compiled or is not, a program is linked
or is not, a stage object is deleted, a program is made active, a location is asked
for, a uniform is written. What all these steps keep holds after every run
(`Keeps.serveAll`), on any device.
-/

namespace Shaderwright

/-- What can be asked of a context. Files are read anew for every program of files. -/
inductive Request (δ : Type) [Device δ] where
  | compose (shaders : List Shader)
  | fixed (read : Reader) (program : FileProgram)
  | releaseStages
  | activate (id : ProgramId)
  | locate (name : String)
  | set (name : String) (value : UniformValue)
  | bindTexture (name : String) (target : TextureTarget) (texture : Device.Texture δ)
  | stream (aggregate : Aggregate (Device.Texture δ))

/-- A stage that does not compile where sources with the text `broken` are rejected. Builds
that are to fail have one. -/
def Shader.broken (name : String) (stage : Stage) : Shader :=
  (Shader.empty name stage).put .output "broken" [.ty (.vec 4)]

namespace Bound

variable {δ : Type} [Device δ]

/-- What is resolved is remembered. -/
theorem lookup_resolve (b : Bound δ) (name : String) :
    (b.resolve name).2.program.uniforms.lookup name = some (b.resolve name).1 := by
  rw [resolve]
  cases hknown : b.program.uniforms.lookup name with
  | some known => exact hknown
  | none =>
      generalize Device.locate b.device b.program.handle name = out
      obtain ⟨location, device⟩ := out
      simp [List.lookup_append, hknown]

end Bound

namespace Context

variable {δ : Type} [Device δ]

def serve (c : Context δ) : Request δ → Context δ
  | .compose shaders => (c.compose shaders).2
  | .fixed read program => (c.fixed read program).2
  | .releaseStages => c.releaseStages
  | .activate id => (c.activate id).2
  | .locate name => (c.locate name).2
  | .set name value => (c.set name value).2
  | .bindTexture name target texture => (c.bindTexture name target texture).2
  | .stream aggregate => (c.stream aggregate).2

def serveAll (c : Context δ) (requests : List (Request δ)) : Context δ :=
  requests.foldl serve c

/-! ## Small steps -/

/-- What every small step keeps. -/
structure Keeps (P : Context δ → Prop) : Prop where
  journal : ∀ c events, P c → P { c with journal := c.journal ++ events }
  compiled : ∀ c key stage source handle device, P c → c.cache.stages.lookup key = none →
    Device.compile c.device stage source = (.ok handle, device) →
    P ({ c with device }.holdStage key handle)
  uncompiled : ∀ c stage source log device, P c →
    Device.compile c.device stage source = (.error log, device) → P { c with device }
  /-- The handles are those held for the parts of the recipe, in order. -/
  linked : ∀ c r handles handle device, P c → c.find? r.key = none →
    r.parts.map (fun p => c.cache.stages.lookup p.key) = handles.map some →
    Device.link c.device handles r.attributes = (.ok handle, device) →
    P ({ c with device }.keep r handle).2
  unlinked : ∀ c handles attributes log device, P c →
    Device.link c.device handles attributes = (.error log, device) → P { c with device }
  released : ∀ c key handle rest, P c → c.cache.stages = (key, handle) :: rest →
    P { c with
      device := Device.deleteStage c.device handle
      cache := { c.cache with stages := rest } }
  activated : ∀ c id program, P c → c.get? id = some program →
    P { c.setProgram id { program with textureUnit := 0 } with
      device := Device.useProgram c.device program.handle
      active := some id }
  located : ∀ c id program name location device, P c → c.active = some id →
    c.get? id = some program → program.uniforms.lookup name = none →
    Device.locate c.device program.handle name = (location, device) →
    P { c.setProgram id { program with uniforms := program.uniforms ++ [(name, location)] } with
      device }
  written : ∀ c id program name location value, P c → c.active = some id →
    c.get? id = some program → program.uniforms.lookup name = some (some location) →
    P { c with device := Device.write c.device location value }
  bound : ∀ c id program name location target texture, P c → c.active = some id →
    c.get? id = some program → program.uniforms.lookup name = some (some location) →
    P { c.setProgram id { program with textureUnit := program.textureUnit + 1 } with
      device := Device.write (Device.bindTexture c.device program.textureUnit target texture)
        location (.int program.textureUnit.toInt32) }

namespace Keeps

variable {P : Context δ → Prop} (k : Keeps P)

include k

theorem record {c : Context δ} (h : P c) (e : Event) : P (c.record e) := k.journal c [e] h

/-! ## Building -/

theorem compile {c : Context δ} (h : P c) {key : String} (hkey : c.cache.stages.lookup key = none)
    (stage : Stage) (source : String) : P (c.compile key stage source).2 := by
  have hrecord := k.record h (.compiling key stage)
  rw [Context.compile]
  generalize hcompile : Device.compile (c.record (.compiling key stage)).device stage source = out
  obtain ⟨result, device⟩ := out
  cases result with
  | ok handle => exact k.compiled _ key stage source handle device hrecord hkey hcompile
  | error log => exact k.record (k.uncompiled _ stage source log device hrecord hcompile) _

end Keeps

/-! ## Stage objects -/

/-- What is found stands in the list. -/
theorem mem_of_lookup {α β : Type} [BEq α] [LawfulBEq α] {entries : List (α × β)} {a : α} {b : β}
    (h : entries.lookup a = some b) : (a, b) ∈ entries := by
  obtain ⟨before, after, rfl, -⟩ := List.lookup_eq_some_iff.1 h
  exact List.mem_append_right _ (List.mem_cons_self ..)

/-- Under a key where nothing is found, nothing stands. -/
theorem not_mem_of_lookup {α : Type} {entries : List (String × α)} {key : String}
    (h : entries.lookup key = none) : key ∉ entries.map Prod.fst := by
  intro hmem
  obtain ⟨entry, hentry, rfl⟩ := List.mem_map.1 hmem
  simpa using List.lookup_eq_none_iff.1 h entry hentry

/-- What compiling relates a context to, obtaining parts relates it to. -/
theorem obtain_rel {R : Context δ → Context δ → Prop} (hrefl : ∀ c, R c c) {p : Part}
    (hcompile : ∀ (c : Context δ) source, p.source = .ok source →
      c.cache.stages.lookup p.key = none → R c (c.compile p.key p.stage source).2)
    (c : Context δ) : R c (c.obtain p).2 := by
  rw [obtain]
  cases hkey : c.cache.stages.lookup p.key with
  | some handle => exact hrefl c
  | none =>
      cases hsource : p.source with
      | ok source => exact hcompile c source hsource hkey
      | error e => exact hrefl c

theorem obtainAll_rel {R : Context δ → Context δ → Prop} (hrefl : ∀ c, R c c)
    (htrans : ∀ {a b c}, R a b → R b c → R a c) {parts : List Part}
    (hcompile : ∀ p ∈ parts, ∀ (c : Context δ) source, p.source = .ok source →
      c.cache.stages.lookup p.key = none → R c (c.compile p.key p.stage source).2)
    (c : Context δ) : R c (c.obtainAll parts).2 := by
  induction parts generalizing c with
  | nil => exact hrefl c
  | cons p rest ih =>
      obtain ⟨hfirst, hcompile⟩ := List.forall_mem_cons.1 hcompile
      have hp := obtain_rel hrefl hfirst c
      rw [obtainAll]
      generalize c.obtain p = out at hp
      obtain ⟨result, c'⟩ := out
      cases result with
      | error e => exact hp
      | ok handle =>
          have hrest := htrans hp (ih hcompile c')
          dsimp only
          generalize c'.obtainAll rest = out at hrest
          obtain ⟨result, c''⟩ := out
          cases result with
          | error e => exact hrest
          | ok handles => exact hrest

/-- A context that holds everything the other holds, under the same keys, and is the
same in all else but the device and the journal. -/
structure Holds (c c' : Context δ) : Prop where
  lookup : ∀ key handle, c.cache.stages.lookup key = some handle →
    c'.cache.stages.lookup key = some handle
  version : c'.cache.version = c.cache.version
  programs : c'.cache.programs = c.cache.programs
  index : c'.cache.index = c.cache.index
  active : c'.active = c.active

theorem Holds.refl (c : Context δ) : c.Holds c := ⟨fun _ _ h => h, rfl, rfl, rfl, rfl⟩

theorem Holds.trans {a b c : Context δ} (hab : a.Holds b) (hbc : b.Holds c) : a.Holds c where
  lookup key handle h := hbc.lookup key handle (hab.lookup key handle h)
  version := hbc.version.trans hab.version
  programs := hbc.programs.trans hab.programs
  index := hbc.index.trans hab.index
  active := hbc.active.trans hab.active

theorem holds_compile (c : Context δ) (key : String) (stage : Stage) (source : String) :
    c.Holds (c.compile key stage source).2 := by
  rw [compile]
  generalize Device.compile (c.record (.compiling key stage)).device stage source = out
  obtain ⟨result, device⟩ := out
  cases result with
  | ok handle =>
      refine ⟨fun other held hother => ?_, rfl, rfl, rfl, rfl⟩
      simp [holdStage, Context.record, List.lookup_append, hother]
  | error log => exact ⟨fun _ _ h => h, rfl, rfl, rfl, rfl⟩

/-- What was compiled is held under its key. -/
theorem lookup_compile {c : Context δ} {key : String} (hkey : c.cache.stages.lookup key = none)
    {stage : Stage} {source : String} {handle : Device.StageHandle δ}
    (h : (c.compile key stage source).1 = .ok handle) :
    (c.compile key stage source).2.cache.stages.lookup key = some handle := by
  rw [compile] at h ⊢
  generalize Device.compile (c.record (.compiling key stage)).device stage source = out at h ⊢
  obtain ⟨result, device⟩ := out
  cases result with
  | ok held =>
      obtain rfl := Except.ok.inj h
      simp [holdStage, Context.record, List.lookup_append, hkey]
  | error log => exact nomatch h

theorem lookup_obtain {c : Context δ} {p : Part} {handle : Device.StageHandle δ}
    (h : (c.obtain p).1 = .ok handle) :
    (c.obtain p).2.cache.stages.lookup p.key = some handle := by
  rw [obtain] at h ⊢
  cases hkey : c.cache.stages.lookup p.key with
  | some held =>
      rw [hkey] at h
      obtain rfl := Except.ok.inj h
      exact hkey
  | none =>
      rw [hkey] at h
      cases hsource : p.source with
      | ok source =>
          rw [hsource] at h
          exact lookup_compile hkey h
      | error e =>
          rw [hsource] at h
          exact nomatch h

theorem holds_obtainAll (c : Context δ) (parts : List Part) : c.Holds (c.obtainAll parts).2 :=
  obtainAll_rel Holds.refl Holds.trans
    (fun p _ c source _ _ => holds_compile c p.key p.stage source) c

/-- The handles of the parts are those held under their keys in the end. -/
theorem lookup_obtainAll {parts : List Part} {c : Context δ}
    {handles : List (Device.StageHandle δ)} (h : (c.obtainAll parts).1 = .ok handles) :
    parts.map (fun p => (c.obtainAll parts).2.cache.stages.lookup p.key)
      = handles.map some := by
  induction parts generalizing c handles with
  | nil =>
      obtain rfl := Except.ok.inj h
      rfl
  | cons p rest ih =>
      have hlookup : ∀ handle, (c.obtain p).1 = .ok handle →
          (c.obtain p).2.cache.stages.lookup p.key = some handle := fun _ => lookup_obtain
      rw [obtainAll] at h ⊢
      generalize c.obtain p = out at h hlookup ⊢
      obtain ⟨result, c'⟩ := out
      cases result with
      | error e => exact nomatch h
      | ok handle =>
          have hholds := holds_obtainAll c' rest
          have hrest : ∀ handles, (c'.obtainAll rest).1 = .ok handles →
              rest.map (fun p => (c'.obtainAll rest).2.cache.stages.lookup p.key)
                = handles.map some := fun _ => ih
          dsimp only at h ⊢
          generalize c'.obtainAll rest = out at h hholds hrest ⊢
          obtain ⟨result, c''⟩ := out
          cases result with
          | error e => exact nomatch h
          | ok handles' =>
              obtain rfl := Except.ok.inj h
              -- What the first part holds is still held once the rest is obtained.
              have hp : c''.cache.stages.lookup p.key = some handle :=
                hholds.lookup _ _ (hlookup handle rfl)
              simp only [List.map_cons, hp, hrest handles' rfl]

/-! ## Building a program -/

/-- How building comes out: with the program that was there, without a stage object for
some part, without a program, or with a new one. -/
inductive Outcome (c : Context δ) (r : Recipe) : Except RenderError ProgramId × Context δ → Prop
  | hit {id : ProgramId} (hfind : c.find? r.key = some id) :
      Outcome c r (.ok id, c.record (.cacheHit r.key))
  | unprepared {e : RenderError} {c' : Context δ} (hfind : c.find? r.key = none)
      (hparts : c.obtainAll r.parts = (.error e, c')) : Outcome c r (.error e, c')
  | unlinked {handles : List (Device.StageHandle δ)} {c' : Context δ} {log : String} {device : δ}
      (hfind : c.find? r.key = none) (hparts : c.obtainAll r.parts = (.ok handles, c'))
      (hlink : Device.link c'.device handles r.attributes = (.error log, device)) :
      Outcome c r (.error (.unlinked r.name log),
        { c' with device }.record (.linkFailed r.name log))
  | linked {handles : List (Device.StageHandle δ)} {c' : Context δ}
      {handle : Device.ProgramHandle δ} {device : δ}
      (hfind : c.find? r.key = none) (hparts : c.obtainAll r.parts = (.ok handles, c'))
      (hlink : Device.link c'.device handles r.attributes = (.ok handle, device)) :
      Outcome c r (.ok ⟨c'.cache.programs.length⟩, ({ c' with device }.keep r handle).2)

theorem outcome_build (c : Context δ) (r : Recipe) : c.Outcome r (c.build r) := by
  rw [build]
  cases hfind : c.find? r.key with
  | some id => exact .hit hfind
  | none =>
      dsimp only
      generalize hparts : c.obtainAll r.parts = out
      obtain ⟨result, c'⟩ := out
      cases result with
      | error e => exact .unprepared hfind hparts
      | ok handles =>
          dsimp only
          generalize hlink : Device.link c'.device handles r.attributes = out
          obtain ⟨result, device⟩ := out
          cases result with
          | error log => exact .unlinked hfind hparts hlink
          | ok handle =>
              have hlinked := Outcome.linked hfind hparts hlink
              exact hlinked

/-- Without a program, nothing is left of a build but the stages that are held. -/
theorem holds_build {c : Context δ} {r : Recipe} {e : RenderError} (h : (c.build r).1 = .error e) :
    c.Holds (c.build r).2 := by
  have hholds := c.holds_obtainAll r.parts
  have houtcome := c.outcome_build r
  generalize c.build r = out at houtcome h
  cases houtcome with
  | hit hfind | linked hfind hobtained hlink => exact nomatch h
  | unprepared hfind hobtained => rwa [hobtained] at hholds
  | unlinked hfind hobtained hlink =>
      rw [hobtained] at hholds
      exact { hholds with }

/-! ## The active program at work -/

/-- The context again, with the active program and the device as the work left
them. -/
def resume (c : Context δ) (id : ProgramId) (b : Bound δ) : Context δ :=
  { c.setProgram id b.program with device := b.device, journal := c.journal ++ b.events }

theorem get?_resume {c : Context δ} {id : ProgramId} {program : Program δ}
    (h : c.get? id = some program) (b : Bound δ) : (c.resume id b).get? id = some b.program := by
  have hlt : id.index < c.cache.programs.length := (List.getElem?_eq_some_iff.1 h).1
  simp [resume, get?, setProgram, hlt]

theorem resume_start {c : Context δ} {id : ProgramId} {program : Program δ}
    (h : c.get? id = some program) : c.resume id { program, device := c.device } = c := by
  obtain ⟨hlt, hget⟩ := List.getElem?_eq_some_iff.1 h
  simp [resume, setProgram, ← hget]

/-- Work on the active program that keeps `P` step by step keeps it as a whole. -/
theorem keeps_withActive {α : Type} {P : Context δ → Prop} {c : Context δ} (h : P c)
    {work : Bound δ → α × Bound δ}
    (hwork : ∀ {id program b}, c.active = some id → c.get? id = some program →
      P (c.resume id b) → P (c.resume id (work b).2)) : P (c.withActive work).2 := by
  rw [withActive, activeProgram]
  cases hactive : c.active with
  | none => exact h
  | some id =>
      cases hget : c.get? id with
      | none => simpa only [hget] using h
      | some program =>
          simp only [hget]
          have hstart : P (c.resume id { program, device := c.device }) := by
            rwa [resume_start hget]
          exact hwork hactive hget hstart

namespace Keeps

variable {P : Context δ → Prop} (k : Keeps P)

include k

theorem obtainAll {c : Context δ} (h : P c) (parts : List Part) : P (c.obtainAll parts).2 :=
  obtainAll_rel (R := fun c c' => P c → P c') (fun _ h => h) (fun hab hbc h => hbc (hab h))
    (fun p _ _ source _ hkey h => k.compile h hkey p.stage source) c h

theorem build {c : Context δ} (h : P c) (r : Recipe) : P (c.build r).2 := by
  have hprepared := k.obtainAll h r.parts
  have houtcome := c.outcome_build r
  generalize c.build r = out at houtcome
  cases houtcome with
  | hit hfind => exact k.record h _
  | unprepared hfind hparts => rwa [hparts] at hprepared
  | unlinked hfind hparts hlink =>
      rw [hparts] at hprepared
      exact k.record (k.unlinked _ _ _ _ _ hprepared hlink) _
  | linked hfind hparts hlink =>
      have hlookup := lookup_obtainAll (congrArg Prod.fst hparts)
      have hindex := (holds_obtainAll c r.parts).index
      rw [hparts] at hprepared hlookup hindex
      -- Obtaining parts adds no program, so the key stays free.
      have hnew : _ = none := (congrArg (List.lookup r.key) hindex).trans hfind
      exact k.linked _ r _ _ _ hprepared hnew hlookup hlink

/-- The stage objects are deleted one by one, each taken from the front of what is
held. -/
theorem releaseStages {c : Context δ} (h : P c) : P c.releaseStages := by
  rw [Context.releaseStages]
  -- The invariant speaks of what is still to be released, so those entries are put
  -- back into the cache before every step.
  suffices hall : ∀ (held : List (String × Device.StageHandle δ)) (c : Context δ),
      P { c with cache := { c.cache with stages := held } } →
      P (held.foldl release { c with cache := { c.cache with stages := [] } }) from
    hall c.cache.stages c h
  intro held
  induction held with
  | nil => exact fun c h => h
  | cons entry rest ih =>
      intro c h
      exact ih (c.release entry) (k.record (k.released _ entry.1 entry.2 rest h rfl) _)

theorem activate {c : Context δ} (h : P c) (id : ProgramId) : P (c.activate id).2 := by
  rw [Context.activate]
  cases hget : c.get? id with
  | none => exact h
  | some program => exact k.activated c id program h hget

section
variable {c : Context δ} {id : ProgramId} {program : Program δ}

theorem resolve (hactive : c.active = some id) (hget : c.get? id = some program) {b : Bound δ}
    (h : P (c.resume id b)) (name : String) : P (c.resume id (b.resolve name).2) := by
  have hget' := get?_resume hget b
  rw [Bound.resolve]
  cases hknown : b.program.uniforms.lookup name with
  | some known => exact h
  | none =>
      dsimp only
      generalize hlocate : Device.locate b.device b.program.handle name = out
      obtain ⟨location, device⟩ := out
      have hlocated := k.located _ id _ name location device h hactive hget' hknown hlocate
      simp only [Context.resume, setProgram, List.set_set] at hlocated ⊢
      cases location with
      | some location => exact hlocated
      | none =>
          -- A uniform that is not there is remembered as such and reported once.
          have hjournal := k.journal _ [.inactiveUniform b.program.name name] hlocated
          simpa only [List.append_assoc] using hjournal

theorem perform (hactive : c.active = some id) (hget : c.get? id = some program) {b : Bound δ}
    (h : P (c.resume id b)) (w : Write (Device.Texture δ)) : P (c.resume id (b.perform w)) := by
  cases w with
  | value name value =>
      have hresolve := k.resolve hactive hget h name
      have hlookup := b.lookup_resolve name
      rw [Bound.perform]
      generalize b.resolve name = out at hresolve hlookup
      obtain ⟨location, b'⟩ := out
      cases location with
      | none => exact hresolve
      | some location =>
          exact k.written _ id b'.program name location value hresolve hactive
            (get?_resume hget b') hlookup
  | sampler name target texture =>
      have hresolve := k.resolve hactive hget h name
      have hlookup := b.lookup_resolve name
      rw [Bound.perform]
      generalize b.resolve name = out at hresolve hlookup
      obtain ⟨location, b'⟩ := out
      cases location with
      | none => exact hresolve
      | some location =>
          have hbound := k.bound _ id b'.program name location target texture hresolve hactive
            (get?_resume hget b') hlookup
          simpa only [Context.resume, setProgram, List.set_set] using hbound

theorem performAll (hactive : c.active = some id) (hget : c.get? id = some program)
    {b : Bound δ} (h : P (c.resume id b)) (writes : List (Write (Device.Texture δ))) :
    P (c.resume id (b.performAll writes)) := by
  induction writes generalizing b with
  | nil => exact h
  | cons w writes ih => exact ih (k.perform hactive hget h w)

end

theorem serve {c : Context δ} (h : P c) (r : Request δ) : P (c.serve r) := by
  have hperform : ∀ writes, P (c.perform writes).2 := fun writes =>
    keeps_withActive h fun hactive hget hb => k.performAll hactive hget hb writes
  cases r with
  | compose shaders =>
      cases shaders with
      | nil => exact h
      | cons first rest => exact k.build h _
  | fixed read program => exact k.build h _
  | releaseStages => exact k.releaseStages h
  | activate id => exact k.activate h id
  | locate name =>
      exact keeps_withActive h fun hactive hget hb => k.resolve hactive hget hb name
  | set name value => exact hperform [.value name value]
  | bindTexture name target texture => exact hperform [.sampler name target texture]
  | stream aggregate => exact hperform aggregate.writes

/-- **What every small step keeps holds after every run.** -/
theorem serveAll {c : Context δ} (h : P c) (requests : List (Request δ)) :
    P (c.serveAll requests) := by
  induction requests generalizing c with
  | nil => exact h
  | cons r requests ih => exact ih (k.serve h r)

end Keeps

end Context

end Shaderwright
