import Shaderwright.Proofs.Render.Ledger

/-!
# Remembered answers

A program asks the device for the location of a uniform once and remembers the answer. On
a device without hardware nobody could tell: beside the context runs another that keeps no
table and asks every time, and but for the questions both leave the same record.

What a program remembers is what the device would answer again (`Known`), since the device
keeps the locations it gives out and hides the same names all the time. This holds even
when handles have wrapped around and two programs share one.
-/

namespace Shaderwright

/-! ## Finding locations -/

/-- The uniform that is written. -/
def Write.name : Write τ → String
  | .value name _ => name
  | .sampler name _ _ => name

namespace Bound

variable {δ : Type} [Device δ]

/-- Asks the device and remembers nothing. -/
def ask (b : Bound δ) (name : String) : Option (Device.Location δ) × Bound δ :=
  match Device.locate b.device b.program.handle name with
  | (location, device) => (location, { b with device })

/-- Writes a uniform whose location is known. -/
def writeTo (b : Bound δ) (location : Device.Location δ) : Write (Device.Texture δ) → Bound δ
  | .value _ value => { b with device := Device.write b.device location value }
  | .sampler _ target texture =>
      let unit := b.program.textureUnit
      { b with
        program := { b.program with textureUnit := unit + 1 }
        device := Device.write (Device.bindTexture b.device unit target texture) location
          (.int unit.toInt32) }

/-- Writes a uniform whose location is found in the given way. -/
def performBy (find : Bound δ → String → Option (Device.Location δ) × Bound δ) (b : Bound δ)
    (w : Write (Device.Texture δ)) : Bound δ :=
  match find b w.name with
  | (none, b) => b
  | (some location, b) => b.writeTo location w

theorem performBy_resolve (b : Bound δ) (w : Write (Device.Texture δ)) :
    b.performBy resolve w = b.perform w := by
  cases w <;> rfl

end Bound

namespace Context

variable {δ : Type} [Device δ]

/-- Writes uniforms of the active program. -/
def performBy (find : Bound δ → String → Option (Device.Location δ) × Bound δ) (c : Context δ)
    (writes : List (Write (Device.Texture δ))) : Context δ :=
  (c.withActive fun b => ((), writes.foldl (Bound.performBy find) b)).2

/-- Serves a request with locations found in the given way. -/
def serveBy (find : Bound δ → String → Option (Device.Location δ) × Bound δ) (c : Context δ) :
    Request δ → Context δ
  | .compose shaders => (c.compose shaders).2
  | .fixed read program => (c.fixed read program).2
  | .releaseStages => c.releaseStages
  | .activate id => (c.activate id).2
  | .locate name => (c.withActive fun b => find b name).2
  | .set name value => c.performBy find [.value name value]
  | .bindTexture name target texture => c.performBy find [.sampler name target texture]
  | .stream aggregate => c.performBy find aggregate.writes

/-- Serves requests without a table. -/
def serveAsking (c : Context δ) (requests : List (Request δ)) : Context δ :=
  requests.foldl (serveBy Bound.ask) c

/-- Serves requests with a table, in the same way. -/
def serveResolving (c : Context δ) (requests : List (Request δ)) : Context δ :=
  requests.foldl (serveBy Bound.resolve) c

theorem serveBy_resolve (c : Context δ) (r : Request δ) :
    c.serveBy Bound.resolve r = c.serve r := by
  have hfind : Bound.performBy (δ := δ) Bound.resolve = Bound.perform :=
    funext fun b => funext fun w => b.performBy_resolve w
  cases r with
  | compose | fixed | releaseStages | activate | locate => rfl
  | set | bindTexture | stream =>
      rw [serveBy, performBy, hfind]
      rfl

/-- With the table, requests are served as ever. -/
theorem serveResolving_eq (c : Context δ) (requests : List (Request δ)) :
    c.serveResolving requests = c.serveAll requests := by
  have hserve : serveBy (δ := δ) Bound.resolve = serve :=
    funext fun c => funext fun r => c.serveBy_resolve r
  rw [serveResolving, hserve, serveAll]

end Context

namespace Headless

open Context

/-! ## What the device would say again -/

/-- The answer to a question that was asked before, or that has the same answer for every
program. -/
def recalled? (d : Headless) (program : UInt32) (name : String) : Option (Option UInt32) :=
  if d.hidden.contains name then some none else (d.locations.lookup (program, name)).map some

/-- A program remembers what the device would say again. -/
def Known (d : Headless) (p : Program Headless) : Prop :=
  ∀ name answer, p.uniforms.lookup name = some answer → d.recalled? p.handle name = some answer

section
variable {d : Headless} {program : UInt32} {name : String} {answer : Option UInt32}

/-- What the device would say again, it says again. -/
theorem locate_of_recalled? (h : d.recalled? program name = some answer) :
    d.locate program name = (answer, d.record (.locate program name)) := by
  rw [recalled?] at h
  split at h
  · next hhidden =>
      obtain rfl := Option.some.inj h
      simp only [locate, record, hhidden, if_true]
  · next hhidden =>
      obtain ⟨location, hlocation, rfl⟩ := Option.map_eq_some_iff.1 h
      simp only [locate, record, if_neg hhidden, hlocation]

/-- A uniform that the device knows nothing of gets the next location. -/
theorem locate_of_recalled?_eq_none (h : d.recalled? program name = none) :
    d.locate program name = (some (UInt32.ofNat d.locations.length),
      { d.record (.locate program name) with
        locations := d.locations ++ [((program, name), UInt32.ofNat d.locations.length)] }) := by
  rw [recalled?] at h
  split at h
  · exact nomatch h
  · next hhidden =>
      have hnew : d.locations.lookup (program, name) = none := by simpa using h
      simp only [locate, record, if_neg hhidden, hnew]

/-- What the device would say stays so when its table of locations grows. -/
theorem recalled?_mono {d' : Headless} (hhidden : d'.hidden = d.hidden)
    (hlocations : d.locations <+: d'.locations) (h : d.recalled? program name = some answer) :
    d'.recalled? program name = some answer := by
  rw [recalled?] at h ⊢
  rw [hhidden]
  split at h
  · next hname => rwa [if_pos hname]
  · next hname =>
      obtain ⟨location, hlocation, rfl⟩ := Option.map_eq_some_iff.1 h
      rw [if_neg hname, hlocations.lookup_eq_some hlocation]
      rfl

/-- Asking changes only the record and the table of locations. -/
theorem locate_grows (d : Headless) (program : UInt32) (name : String) :
    (d.locate program name).2.hidden = d.hidden ∧
      d.locations <+: (d.locate program name).2.locations := by
  cases h : d.recalled? program name with
  | some answer =>
      rw [locate_of_recalled? h]
      exact ⟨rfl, List.prefix_rfl⟩
  | none =>
      rw [locate_of_recalled?_eq_none h]
      exact ⟨rfl, List.prefix_append ..⟩

/-- What was asked would be answered the same again. -/
theorem recalled?_locate (d : Headless) (program : UInt32) (name : String) :
    (d.locate program name).2.recalled? program name = some (d.locate program name).1 := by
  cases h : d.recalled? program name with
  | some answer =>
      rw [locate_of_recalled? h]
      exact h
  | none =>
      have hnew := h
      rw [recalled?] at hnew
      split at hnew
      · exact nomatch hnew
      · next hhidden =>
          rw [locate_of_recalled?_eq_none h, recalled?, record]
          dsimp only
          rw [if_neg hhidden, List.lookup_append, Option.map_eq_none_iff.1 hnew]
          simp

end

/-- All programs of the context remember what the device would say again. -/
def AllKnown (c : Context Headless) : Prop := ∀ p ∈ c.cache.programs, Known c.device p

section
variable {c : Context Headless}

/-- Whatever leaves hidden names and locations as they are. -/
theorem AllKnown.of_device (h : AllKnown c) {c' : Context Headless}
    (hprograms : c'.cache.programs = c.cache.programs)
    (hhidden : c'.device.hidden = c.device.hidden)
    (hlocations : c.device.locations <+: c'.device.locations) : AllKnown c' := by
  intro p hp name answer hanswer
  rw [hprograms] at hp
  exact recalled?_mono hhidden hlocations (h p hp name answer hanswer)

/-- A program may change if what it then remembers is known. -/
theorem AllKnown.setProgram (h : AllKnown c) {p : Program Headless} (hp : Known c.device p)
    (id : ProgramId) : AllKnown (c.setProgram id p) := by
  intro q hq
  rcases List.mem_or_eq_of_mem_set hq with hq | rfl
  · exact h q hq
  · exact hp

theorem keeps_allKnown : Keeps AllKnown where
  journal c events h := h
  compiled c key stage source handle device h hkey hcompile := by
    obtain ⟨rfl, rfl⟩ := compile_eq_ok hcompile
    exact h.of_device rfl rfl List.prefix_rfl
  uncompiled c stage source log device h hcompile := by
    obtain rfl := compile_eq_error hcompile
    exact h
  linked c r handles handle device h hfind hparts hlink := by
    obtain ⟨rfl, rfl⟩ := link_eq_ok hlink
    intro p hp
    rcases List.mem_append.1 hp with hp | hp
    · exact h p hp
    · obtain rfl := List.mem_singleton.1 hp
      exact fun name answer hanswer => nomatch hanswer
  unlinked c handles attributes log device h hlink := by
    obtain rfl := link_eq_error hlink
    exact h
  released c key handle rest h hstages := h.of_device rfl rfl List.prefix_rfl
  activated c id program h hget :=
    h.setProgram (p := { program with textureUnit := 0 }) (h program (List.mem_of_getElem? hget)) id
  located c id program name location device h hactive hget hlookup hlocate := by
    have hgrows := locate_grows c.device program.handle name
    have hanswer := recalled?_locate c.device program.handle name
    rw [show c.device.locate program.handle name = (location, device) from hlocate]
      at hgrows hanswer
    have hmem := List.mem_of_getElem? hget
    have hgrown : AllKnown { c with device } := h.of_device rfl hgrows.1 hgrows.2
    refine hgrown.setProgram (p := { program with
      uniforms := program.uniforms ++ [(name, location)] }) ?_ id
    -- What the program remembers is what it remembered, and the new answer.
    intro x answer hx
    rw [List.lookup_append, lookup_singleton] at hx
    rcases Option.or_eq_some_iff.1 hx with hx | ⟨-, hx⟩
    · exact hgrown program hmem x answer hx
    · split at hx
      · next heq =>
          obtain rfl := Option.some.inj hx
          rw [heq]
          exact hanswer
      · exact nomatch hx
  written c id program name location value h hactive hget hlookup :=
    h.of_device rfl rfl List.prefix_rfl
  bound c id program name location target texture h hactive hget hlookup := by
    have hmem := List.mem_of_getElem? hget
    exact h.setProgram (p := { program with textureUnit := program.textureUnit + 1 })
      (h program hmem) id

end

/-! ## Two devices, one record but for the questions -/

/-- The calls that are not questions for a location. -/
def effects (calls : List Call) : List Call := calls.filter fun call => call.queried?.isNone

theorem effects_append (calls more : List Call) :
    effects (calls ++ more) = effects calls ++ effects more := List.filter_append ..

/-- Both come to the same, and what they leave is related. -/
inductive Both {α σ τ : Type} (R : σ → τ → Prop) : α × σ → α × τ → Prop
  | intro (a : α) {s : σ} {t : τ} (h : R s t) : Both R (a, s) (a, t)

/-- Devices that differ in the questions they were asked. -/
def Alike (d d' : Headless) : Prop :=
  ∃ calls, d' = { d with calls } ∧ effects calls = effects d.calls

section
variable {d d' : Headless}

theorem Alike.record (h : Alike d d') (call : Call) : Alike (d.record call) (d'.record call) := by
  obtain ⟨calls, rfl, heffects⟩ := h
  refine ⟨calls ++ [call], rfl, ?_⟩
  rw [Headless.record, effects_append, effects_append, heffects]

/-- A question that only one of them is asked. -/
theorem Alike.query (h : Alike d d') (program : UInt32) (name : String) :
    Alike d (d'.record (.locate program name)) := by
  obtain ⟨calls, rfl, heffects⟩ := h
  refine ⟨calls ++ [.locate program name], rfl, ?_⟩
  rw [effects_append, heffects]
  exact List.append_nil _

/-- A change that has nothing to do with the record. -/
theorem Alike.update (h : Alike d d') {f : Headless → Headless}
    (hf : ∀ d calls, f { d with calls } = { f d with calls }) (hcalls : (f d).calls = d.calls) :
    Alike (f d) (f d') := by
  obtain ⟨calls, rfl, heffects⟩ := h
  exact ⟨calls, hf d calls, by rw [hcalls, heffects]⟩

theorem Alike.compile (h : Alike d d') (stage : Stage) (source : String) :
    Both Alike (d.compile stage source) (d'.compile stage source) := by
  have hcompiled := (h.update (f := fun d => { d with
    lastHandle := d.lastHandle + 1, sources := d.sources ++ [(d.lastHandle + 1, source)] })
    (fun _ _ => rfl) rfl).record (.compile stage (d.lastHandle + 1))
  obtain ⟨calls, rfl, heffects⟩ := h
  have hrejects : ({ d with calls } : Headless).rejects source = d.rejects source := rfl
  rw [Headless.compile, Headless.compile, hrejects]
  cases d.rejects source with
  | some needle => exact .intro _ ⟨calls, rfl, heffects⟩
  | none => exact .intro _ hcompiled

theorem Alike.link (h : Alike d d') (stages : List UInt32) (attributes : List String) :
    Both Alike (d.link stages attributes) (d'.link stages attributes) := by
  have hlinked := (h.update (f := fun d => { d with lastHandle := d.lastHandle + 1 })
    (fun _ _ => rfl) rfl).record (.link (d.lastHandle + 1) stages attributes)
  obtain ⟨calls, rfl, heffects⟩ := h
  rw [Headless.link, Headless.link]
  split
  · exact .intro _ ⟨calls, rfl, heffects⟩
  · exact .intro _ hlinked

theorem Alike.deleteStage (h : Alike d d') (handle : UInt32) :
    Alike (d.deleteStage handle) (d'.deleteStage handle) :=
  (h.update (f := fun d => { d with sources := d.sources.filter fun entry => entry.1 ≠ handle })
    (fun _ _ => rfl) rfl).record (.deleteStage handle)

theorem Alike.recalled? (h : Alike d d') (program : UInt32) (name : String) :
    d'.recalled? program name = d.recalled? program name := by
  obtain ⟨calls, rfl, -⟩ := h
  rfl

theorem Alike.locate (h : Alike d d') (program : UInt32) (name : String) :
    Both Alike (d.locate program name) (d'.locate program name) := by
  have hasked := h.record (.locate program name)
  cases hrecalled : d.recalled? program name with
  | some answer =>
      rw [locate_of_recalled? hrecalled, locate_of_recalled? ((h.recalled? _ _).trans hrecalled)]
      exact .intro _ hasked
  | none =>
      have hlocated := hasked.update (f := fun e => { e with
        locations := e.locations ++ [((program, name), UInt32.ofNat e.locations.length)] })
        (fun _ _ => rfl) rfl
      rw [locate_of_recalled?_eq_none hrecalled,
        locate_of_recalled?_eq_none ((h.recalled? _ _).trans hrecalled)]
      obtain ⟨calls, rfl, -⟩ := h
      exact .intro _ hlocated

end

/-! ## Two contexts, one with tables and one without -/

/-- A program without its table. -/
def bare (p : Program Headless) : Program Headless := { p with uniforms := [] }

/-- The other context is this one without tables, and with more questions asked. -/
structure Mirrors (c r : Context Headless) : Prop where
  device : Alike c.device r.device
  version : r.cache.version = c.cache.version
  stages : r.cache.stages = c.cache.stages
  programs : r.cache.programs = c.cache.programs.map bare
  index : r.cache.index = c.cache.index
  active : r.active = c.active

section
variable {c r : Context Headless}

/-- Journals do not count, and devices may go on alike. -/
theorem Mirrors.go (h : Mirrors c r) {d d' : Headless} (hd : Alike d d')
    (journal journal' : List Event) :
    Mirrors { c with device := d, journal } { r with device := d', journal := journal' } :=
  ⟨hd, h.version, h.stages, h.programs, h.index, h.active⟩

theorem Mirrors.compile (h : Mirrors c r) (key : String) (stage : Stage) (source : String) :
    Both Mirrors (c.compile key stage source) (r.compile key stage source) := by
  have hcompiled : Both Alike
      (Device.compile (c.record (.compiling key stage)).device stage source)
      (Device.compile (r.record (.compiling key stage)).device stage source) :=
    h.device.compile stage source
  rw [Context.compile, Context.compile]
  generalize Device.compile (c.record (.compiling key stage)).device stage source = out
    at hcompiled ⊢
  generalize Device.compile (r.record (.compiling key stage)).device stage source = out'
    at hcompiled ⊢
  obtain ⟨result, hdevices⟩ := hcompiled
  cases result with
  | ok handle =>
      have hmirrors := h.go hdevices (c.record (.compiling key stage)).journal
        (r.record (.compiling key stage)).journal
      refine .intro _ { hmirrors with stages := ?_ }
      simp [holdStage, Context.record, h.stages]
  | error log => exact .intro _ (h.go hdevices _ _)

theorem Mirrors.obtain (h : Mirrors c r) (p : Part) : Both Mirrors (c.obtain p) (r.obtain p) := by
  rw [Context.obtain, Context.obtain, h.stages]
  cases c.cache.stages.lookup p.key with
  | some handle => exact .intro _ h
  | none =>
      cases p.source with
      | ok source => exact h.compile p.key p.stage source
      | error e => exact .intro _ h

theorem Mirrors.obtainAll (h : Mirrors c r) (parts : List Part) :
    Both Mirrors (c.obtainAll parts) (r.obtainAll parts) := by
  induction parts generalizing c r with
  | nil => exact .intro _ h
  | cons p rest ih =>
      have hp := h.obtain p
      rw [Context.obtainAll, Context.obtainAll]
      generalize c.obtain p = out at hp ⊢
      generalize r.obtain p = out' at hp ⊢
      obtain @⟨result, c', r', hmirrors⟩ := hp
      cases result with
      | error e => exact .intro _ hmirrors
      | ok handle =>
          have hrest := ih hmirrors
          dsimp only
          generalize c'.obtainAll rest = out at hrest ⊢
          generalize r'.obtainAll rest = out' at hrest ⊢
          obtain ⟨result, hmirrors⟩ := hrest
          cases result <;> exact .intro _ hmirrors

theorem Mirrors.find? (h : Mirrors c r) (key : String) : r.find? key = c.find? key := by
  rw [Context.find?, Context.find?, h.index]

theorem Mirrors.get? (h : Mirrors c r) (id : ProgramId) : r.get? id = (c.get? id).map bare := by
  rw [Context.get?, Context.get?, h.programs, List.getElem?_map]

/-- A program that is kept has an empty table in both. -/
theorem Mirrors.keep (h : Mirrors c r) (recipe : Recipe) (handle : UInt32) :
    Both Mirrors (c.keep recipe handle) (r.keep recipe handle) := by
  have hid : r.cache.programs.length = c.cache.programs.length := by
    rw [h.programs, List.length_map]
  rw [Context.keep, Context.keep, hid]
  refine .intro _ { h.go h.device _ _ with programs := ?_, index := ?_ }
  · simp [Context.record, h.programs, bare]
  · simp [Context.record, h.index]

theorem Mirrors.build (h : Mirrors c r) (recipe : Recipe) :
    Both Mirrors (c.build recipe) (r.build recipe) := by
  rw [Context.build, Context.build, h.find?]
  cases c.find? recipe.key with
  | some id => exact .intro _ (h.go h.device _ _)
  | none =>
      have hparts := h.obtainAll recipe.parts
      dsimp only
      generalize c.obtainAll recipe.parts = out at hparts ⊢
      generalize r.obtainAll recipe.parts = out' at hparts ⊢
      obtain @⟨result, c', r', hmirrors⟩ := hparts
      cases result with
      | error e => exact .intro _ hmirrors
      | ok handles =>
          have hlinked : Both Alike (Device.link c'.device handles recipe.attributes)
              (Device.link r'.device handles recipe.attributes) :=
            hmirrors.device.link handles recipe.attributes
          dsimp only
          generalize Device.link c'.device handles recipe.attributes = out at hlinked ⊢
          generalize Device.link r'.device handles recipe.attributes = out' at hlinked ⊢
          obtain @⟨result, d, d', hdevices⟩ := hlinked
          cases result with
          | error log => exact .intro _ (hmirrors.go hdevices _ _)
          | ok handle =>
              have hkept := (hmirrors.go hdevices c'.journal r'.journal).keep recipe handle
              dsimp only
              generalize Context.keep { c' with device := d } recipe handle = out at hkept ⊢
              generalize Context.keep { r' with device := d' } recipe handle = out' at hkept ⊢
              obtain ⟨id, hmirrors⟩ := hkept
              exact .intro _ hmirrors

theorem Mirrors.compose (h : Mirrors c r) (shaders : List Shader) :
    Both Mirrors (c.compose shaders) (r.compose shaders) := by
  cases shaders with
  | nil => exact .intro _ h
  | cons first rest =>
      rw [Context.compose, Context.compose, h.version]
      exact h.build _

theorem Mirrors.releaseStages (h : Mirrors c r) : Mirrors c.releaseStages r.releaseStages := by
  suffices hall : ∀ (held : List (String × UInt32)) {c r : Context Headless}, Mirrors c r →
      Mirrors (held.foldl Context.release c) (held.foldl Context.release r) by
    rw [Context.releaseStages, Context.releaseStages, h.stages]
    exact hall c.cache.stages { h with stages := rfl }
  intro held
  induction held with
  | nil => exact fun h => h
  | cons entry rest ih => exact fun h => ih (h.go (h.device.deleteStage entry.2) _ _)

theorem Mirrors.setProgram (h : Mirrors c r) (id : ProgramId) (p : Program Headless) :
    Mirrors (c.setProgram id p) (r.setProgram id (bare p)) :=
  { h with programs := by simp [Context.setProgram, h.programs, List.map_set] }

theorem Mirrors.activate (h : Mirrors c r) (id : ProgramId) :
    Both Mirrors (c.activate id) (r.activate id) := by
  rw [Context.activate, Context.activate, h.get?]
  cases c.get? id with
  | none => exact .intro _ h
  | some program =>
      have hset := h.setProgram id { program with textureUnit := 0 }
      have hused := hset.go (h.device.record (.useProgram program.handle)) c.journal r.journal
      exact .intro _ { hused with active := rfl }

/-! ## The active program at work -/

/-- The same program at work, with a table and without one. -/
structure BoundMirrors (b b' : Bound Headless) : Prop where
  program : b'.program = bare b.program
  device : Alike b.device b'.device

variable {b b' : Bound Headless}

/-- What the table answers, the device answers as well. -/
theorem BoundMirrors.resolve (h : BoundMirrors b b') (hknown : Known b.device b.program)
    (name : String) : Both BoundMirrors (b.resolve name) (b'.ask name) := by
  have hhandle : b'.program.handle = b.program.handle := by rw [h.program, bare]
  rw [Bound.resolve, Bound.ask, hhandle]
  cases htable : b.program.uniforms.lookup name with
  | some answer =>
      have hagain : Device.locate b'.device b.program.handle name
          = (answer, b'.device.record (.locate b.program.handle name)) :=
        locate_of_recalled? ((h.device.recalled? _ _).trans (hknown name answer htable))
      rw [hagain]
      exact .intro _ ⟨h.program, h.device.query b.program.handle name⟩
  | none =>
      have hasked : Both Alike (Device.locate b.device b.program.handle name)
          (Device.locate b'.device b.program.handle name) := h.device.locate b.program.handle name
      dsimp only
      generalize Device.locate b.device b.program.handle name = out at hasked ⊢
      generalize Device.locate b'.device b.program.handle name = out' at hasked ⊢
      obtain ⟨answer, hdevices⟩ := hasked
      exact .intro _ ⟨h.program, hdevices⟩

theorem BoundMirrors.writeTo (h : BoundMirrors b b') (location : UInt32) (w : Write UInt32) :
    BoundMirrors (b.writeTo location w) (b'.writeTo location w) := by
  cases w with
  | value name value => exact ⟨h.program, h.device.record (.write location value)⟩
  | sampler name target texture =>
      have hunit : b'.program.textureUnit = b.program.textureUnit := by rw [h.program, bare]
      rw [Bound.writeTo, Bound.writeTo, hunit, h.program]
      exact ⟨rfl, (h.device.record _).record _⟩

theorem BoundMirrors.perform (h : BoundMirrors b b') (hknown : Known b.device b.program)
    (w : Write UInt32) : BoundMirrors (b.perform w) (b'.performBy Bound.ask w) := by
  have hfound := h.resolve hknown w.name
  rw [← Bound.performBy_resolve, Bound.performBy, Bound.performBy]
  generalize b.resolve w.name = out at hfound ⊢
  generalize b'.ask w.name = out' at hfound ⊢
  obtain ⟨answer, hmirrors⟩ := hfound
  cases answer with
  | none => exact hmirrors
  | some location => exact hmirrors.writeTo location w

theorem known_of_resume {id : ProgramId} {p : Program Headless} (hget : c.get? id = some p)
    (h : AllKnown (c.resume id b)) : Known b.device b.program :=
  h b.program (List.mem_of_getElem? (get?_resume hget b))

theorem BoundMirrors.performAll (h : BoundMirrors b b') {id : ProgramId} {p : Program Headless}
    (hactive : c.active = some id) (hget : c.get? id = some p) (hknown : AllKnown (c.resume id b))
    (writes : List (Write UInt32)) :
    BoundMirrors (b.performAll writes) (writes.foldl (Bound.performBy Bound.ask) b') := by
  induction writes generalizing b b' with
  | nil => exact h
  | cons w writes ih =>
      exact ih (h.perform (known_of_resume hget hknown) w)
        (keeps_allKnown.perform hactive hget hknown w)

/-- Work that does the same with a table and without one. -/
theorem Mirrors.withActive {α : Type} (h : Mirrors c r) (hknown : AllKnown c)
    {work work' : Bound Headless → α × Bound Headless}
    (hwork : ∀ {id p b b'}, c.active = some id → c.get? id = some p → BoundMirrors b b' →
      AllKnown (c.resume id b) → BoundMirrors (work b).2 (work' b').2) :
    Mirrors (c.withActive work).2 (r.withActive work').2 := by
  rw [Context.withActive, Context.withActive, activeProgram, activeProgram, h.active]
  cases hactive : c.active with
  | none => exact h
  | some id =>
      dsimp only
      rw [h.get?]
      cases hget : c.get? id with
      | none => exact h
      | some p =>
          have hstart : AllKnown (c.resume id { program := p, device := c.device }) := by
            rwa [resume_start hget]
          have hbound : BoundMirrors { program := p, device := c.device }
              { program := bare p, device := r.device } := ⟨rfl, h.device⟩
          have hdone := hwork hactive hget hbound hstart
          have hset := h.setProgram id (work { program := p, device := c.device }).2.program
          simp only [Option.map_some]
          rw [hdone.program]
          exact hset.go hdone.device _ _

theorem Mirrors.performBy (h : Mirrors c r) (hknown : AllKnown c) (writes : List (Write UInt32)) :
    Mirrors (c.perform writes).2 (r.performBy Bound.ask writes) :=
  h.withActive hknown fun hactive hget hb hknown => hb.performAll hactive hget hknown writes

/-! ## Whole runs -/

theorem Both.rel {α σ τ : Type} {R : σ → τ → Prop} {out : α × σ} {out' : α × τ}
    (h : Both R out out') : R out.2 out'.2 := by
  obtain ⟨a, h⟩ := h
  exact h

theorem Mirrors.serve (h : Mirrors c r) (hknown : AllKnown c) (request : Request Headless) :
    Mirrors (c.serve request) (r.serveBy Bound.ask request) := by
  cases request with
  | compose shaders => exact (h.compose shaders).rel
  | fixed read program => exact (h.build _).rel
  | releaseStages => exact h.releaseStages
  | activate id => exact (h.activate id).rel
  | locate name =>
      exact h.withActive hknown fun hactive hget hb hknown =>
        (hb.resolve (known_of_resume hget hknown) name).rel
  | set | bindTexture | stream => exact h.performBy hknown _

theorem Mirrors.serveAll (h : Mirrors c r) (hknown : AllKnown c)
    (requests : List (Request Headless)) :
    Mirrors (c.serveAll requests) (r.serveAsking requests) := by
  induction requests generalizing c r with
  | nil => exact h
  | cons request rest ih => exact ih (h.serve hknown request) (keeps_allKnown.serve hknown request)

end

/-- **Tables are transparent.** Whatever is asked of a context on a device that records,
with any uniforms hidden and any text rejected: but for the questions for locations, the
record is that of a context without tables, which asks every time. How locations are found
is all that the two differ in. -/
theorem effects_serveAsking (hidden : List String) (rejected : Option String)
    (version : Option Version) (requests : List (Request Headless)) :
    let fresh := Context.fresh ({ hidden, rejected } : Headless) version
    fresh.serveAll requests = fresh.serveResolving requests ∧
      effects (fresh.serveAll requests).device.calls
        = effects (fresh.serveAsking requests).device.calls ∧
      ∀ p ∈ (fresh.serveAsking requests).cache.programs, p.uniforms = [] := by
  intro fresh
  have hknown : AllKnown fresh := fun p hp => nomatch hp
  have hmirrors : Mirrors fresh fresh := ⟨⟨[], rfl, rfl⟩, rfl, rfl, rfl, rfl, rfl⟩
  have hrun := hmirrors.serveAll hknown requests
  refine ⟨(fresh.serveResolving_eq requests).symm, ?_, ?_⟩
  · obtain ⟨calls, hdevice, heffects⟩ := hrun.device
    rw [hdevice, heffects]
  · intro p hp
    rw [hrun.programs] at hp
    obtain ⟨q, -, rfl⟩ := List.mem_map.1 hp
    rfl

end Headless

end Shaderwright
