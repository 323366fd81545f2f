import Shaderwright.Proofs.History
import Shaderwright.Proofs.Render.Run
import Shaderwright.Proofs.Render.Watched

/-!
# Attempts to compile

Until the stages are released, the device, the journal and the cache tell of the same
attempts to compile, in the same order (`Attempts`): the device was called for each, the
journal reports it under its key, and what compiled is held under that key. No attempt is
made under a key under which a stage is held by then, so none that succeeded is repeated.

Two kinds of steps make up such a run. One compiles a part; all others neither compile
nor change what is held (`Persists`).
-/

namespace Shaderwright

/-! ## Steps that compile nothing -/

/-- Whether something is said of compiling. -/
def Event.isCompiling : Event → Bool
  | .compiling _ _ | .compileFailed _ _ _ _ => true
  | _ => false

/-- A device and the same device after calls that neither compile nor delete. -/
inductive Device.Aside {δ : Type} [Device δ] : δ → δ → Prop
  | refl (d : δ) : Aside d d
  | trans {a b c : δ} : Aside a b → Aside b c → Aside a c
  | link (d : δ) (handles : List (Device.StageHandle δ)) (attributes : List String) :
      Aside d (Device.link d handles attributes).2
  | useProgram (d : δ) (program : Device.ProgramHandle δ) : Aside d (Device.useProgram d program)
  | locate (d : δ) (program : Device.ProgramHandle δ) (name : String) :
      Aside d (Device.locate d program name).2
  | write (d : δ) (location : Device.Location δ) (value : UniformValue) :
      Aside d (Device.write d location value)
  | bindTexture (d : δ) (unit : UInt32) (target : TextureTarget) (texture : Device.Texture δ) :
      Aside d (Device.bindTexture d unit target texture)

namespace Bound

variable {δ : Type} [Device δ]

/-- Work that began on the device `d` and has compiled nothing so far. -/
structure Aside (d : δ) (b : Bound δ) : Prop where
  events : ∀ e ∈ b.events, e.isCompiling = false
  device : Device.Aside d b.device

variable {d : δ} {b : Bound δ}

theorem Aside.resolve (h : Aside d b) (name : String) : Aside d (b.resolve name).2 := by
  rw [Bound.resolve]
  cases b.program.uniforms.lookup name with
  | some known => exact h
  | none =>
      have hlocate := h.device.trans (.locate b.device b.program.handle name)
      dsimp only
      generalize Device.locate b.device b.program.handle name = out at hlocate
      obtain ⟨location, device⟩ := out
      cases location with
      | some location => exact ⟨h.events, hlocate⟩
      | none => exact ⟨List.forall_mem_append.2 ⟨h.events, by simp [Event.isCompiling]⟩, hlocate⟩

theorem Aside.perform (h : Aside d b) (w : Write (Device.Texture δ)) :
    Aside d (b.perform w) := by
  cases w with
  | value name value =>
      have hresolve := h.resolve name
      rw [Bound.perform]
      generalize b.resolve name = out at hresolve
      obtain ⟨location, b'⟩ := out
      cases location with
      | none => exact hresolve
      | some location => exact ⟨hresolve.events, hresolve.device.trans (.write ..)⟩
  | sampler name target texture =>
      have hresolve := h.resolve name
      rw [Bound.perform]
      generalize b.resolve name = out at hresolve
      obtain ⟨location, b'⟩ := out
      cases location with
      | none => exact hresolve
      | some location =>
          exact ⟨hresolve.events, (hresolve.device.trans (.bindTexture ..)).trans (.write ..)⟩

theorem Aside.performAll (h : Aside d b) (writes : List (Write (Device.Texture δ))) :
    Aside d (b.performAll writes) := by
  induction writes generalizing b with
  | nil => exact h
  | cons w writes ih => exact ih (h.perform w)

end Bound

/-! ## Requests that let nothing go -/

/-- The stages that a request is about. -/
def Request.parts {δ : Type} [Device δ] (version : Option Version) : Request δ → List Part
  | .compose shaders => shaders.map (Recipe.partOfShader version)
  | .fixed read program => (Recipe.ofFiles read program).parts
  | .releaseStages | .activate _ | .locate _ | .set _ _ | .bindTexture _ _ _ | .stream _ => []

namespace Context

section
variable {δ : Type} [Device δ]

/-- What holds from a context to itself, over several steps in a row, over compiling one of
the parts, and over whatever neither compiles nor changes what is held. -/
structure Persists (parts : Part → Prop) (R : Context δ → Context δ → Prop) : Prop where
  refl : ∀ c, R c c
  trans : ∀ {a b c}, R a b → R b c → R a c
  compile : ∀ c p source, parts p → p.source = .ok source → c.cache.stages.lookup p.key = none →
    R c (c.compile p.key p.stage source).2
  aside : ∀ {c c' : Context δ} {events}, c'.journal = c.journal ++ events →
    (∀ e ∈ events, e.isCompiling = false) → c'.cache.stages = c.cache.stages →
    Device.Aside c.device c'.device → R c c'

namespace Persists

variable {parts : Part → Prop} {R : Context δ → Context δ → Prop} (k : Persists parts R)

include k

/-- A step with one event. -/
theorem event {c c' : Context δ} {e : Event} (hjournal : c'.journal = c.journal ++ [e])
    (he : e.isCompiling = false) (hstages : c'.cache.stages = c.cache.stages)
    (hdevice : Device.Aside c.device c'.device) : R c c' :=
  k.aside hjournal (by simpa using he) hstages hdevice

theorem build (c : Context δ) {r : Recipe} (hparts : ∀ p ∈ r.parts, parts p) :
    R c (c.build r).2 := by
  have hprepared : R c (c.obtainAll r.parts).2 :=
    obtainAll_rel k.refl k.trans
      (fun p hp c source hsource hkey => k.compile c p source (hparts p hp) hsource hkey) c
  have houtcome := c.outcome_build r
  generalize c.build r = out at houtcome
  cases houtcome with
  | hit hfind => exact k.event rfl rfl rfl (.refl _)
  | unprepared hfind hobtained => rwa [hobtained] at hprepared
  | @unlinked handles c' log device hfind hobtained hlink
  | @linked handles c' handle device hfind hobtained hlink =>
      have hdevice := Device.Aside.link c'.device handles r.attributes
      rw [hobtained] at hprepared
      rw [hlink] at hdevice
      exact k.trans hprepared (k.event rfl rfl rfl hdevice)

theorem withActive {α : Type} (c : Context δ) {work : Bound δ → α × Bound δ}
    (hwork : ∀ {d b}, Bound.Aside d b → Bound.Aside d (work b).2) :
    R c (c.withActive work).2 := by
  rw [Context.withActive]
  cases c.activeProgram with
  | error e => exact k.refl c
  | ok active =>
      have hdone := hwork (d := c.device) (b := { program := active.2, device := c.device })
        ⟨by simp, .refl _⟩
      exact k.aside rfl hdone.events rfl hdone.device

theorem serve (c : Context δ) {r : Request δ} (hr : r ≠ .releaseStages)
    (hparts : ∀ p ∈ r.parts c.cache.version, parts p) : R c (c.serve r) := by
  have hperform : ∀ writes, R c (c.perform writes).2 := fun writes =>
    k.withActive c fun h => h.performAll writes
  cases r with
  | compose shaders =>
      cases shaders with
      | nil => exact k.refl c
      | cons first rest => exact k.build c hparts
  | fixed read program => exact k.build c hparts
  | releaseStages => exact absurd rfl hr
  | activate id =>
      rw [Context.serve, activate]
      cases c.get? id with
      | none => exact k.refl c
      | some program =>
          exact k.aside (List.append_nil _).symm (by simp) rfl (.useProgram c.device _)
  | locate name => exact k.withActive c fun h => h.resolve name
  | set name value => exact hperform [.value name value]
  | bindTexture name target texture => exact hperform [.sampler name target texture]
  | stream aggregate => exact hperform aggregate.writes

/-- Until the stages are released, it holds over a whole run. -/
theorem serveAll (hall : ∀ p, parts p) (c : Context δ) {requests : List (Request δ)}
    (h : ∀ r ∈ requests, r ≠ .releaseStages) : R c (c.serveAll requests) := by
  induction requests generalizing c with
  | nil => exact k.refl c
  | cons r requests ih =>
      obtain ⟨hr, hrest⟩ := List.forall_mem_cons.1 h
      exact k.trans (k.serve c hr fun p _ => hall p) (ih (c.serve r) hrest)

end Persists

/-- What is held stays held, under its key, until the stages are released. -/
theorem lookup_serveAll (c : Context δ) {requests : List (Request δ)}
    (h : ∀ r ∈ requests, r ≠ .releaseStages) {key : String} {handle : Device.StageHandle δ}
    (hheld : c.cache.stages.lookup key = some handle) :
    (c.serveAll requests).cache.stages.lookup key = some handle := by
  have hpersists : Persists (δ := δ) (fun _ => True) fun c c' =>
      c.cache.stages.lookup key = some handle → c'.cache.stages.lookup key = some handle := {
    refl := fun c h => h
    trans := fun hab hbc h => hbc (hab h)
    compile := fun c p source _ _ _ => (holds_compile c p.key p.stage source).lookup key handle
    aside := fun _ _ hstages _ h => hstages ▸ h }
  exact hpersists.serveAll (fun _ => trivial) c h hheld

end

end Context

/-! ## Attempts -/

/-- A stage that is to be compiled, to be held under a key, and what comes of it. -/
structure Attempt (σ : Type) where
  key : String
  stage : Stage
  text : String
  result : Except String σ

namespace Attempt

variable {σ : Type}

/-- The call of the device. -/
def call (a : Attempt σ) : StageCall σ :=
  match a.result with
  | .ok handle => .compiled a.stage a.text handle
  | .error log => .refused a.stage a.text log

/-- What the journal has of it. -/
def events (a : Attempt σ) : List Event :=
  match a.result with
  | .ok _ => [.compiling a.key a.stage]
  | .error log => [.compiling a.key a.stage, .compileFailed a.key a.stage log a.text]

/-- What is held once it succeeded. -/
def entry? (a : Attempt σ) : Option (String × σ) :=
  match a.result with
  | .ok handle => some (a.key, handle)
  | .error _ => none

theorem key_of_entry? (a : Attempt σ) {entry : String × σ} (h : a.entry? = some entry) :
    entry.1 = a.key := by
  obtain ⟨key, stage, text, result⟩ := a
  cases result with
  | ok handle =>
      obtain rfl := Option.some.inj h
      rfl
  | error log => exact nomatch h

/-- It is the part that is to be compiled. -/
structure IsOf (a : Attempt σ) (p : Part) : Prop where
  key : a.key = p.key
  stage : a.stage = p.stage
  text : p.source = .ok a.text

end Attempt

namespace Context

variable {δ : Type} [Device δ]

/-- The attempts to compile from one context to a later one. -/
structure Attempts (c c' : Context (Watched δ))
    (attempts : List (Attempt (Device.StageHandle δ))) : Prop where
  /-- The device was called for these and for no others, -/
  device : c'.device.log.filter StageCall.compiles
    = c.device.log.filter StageCall.compiles ++ attempts.map Attempt.call
  /-- the journal reports them under their keys, -/
  journal : c'.journal.filter Event.isCompiling
    = c.journal.filter Event.isCompiling ++ attempts.flatMap Attempt.events
  /-- and what compiled is what is held anew. -/
  held : c'.cache.stages = c.cache.stages ++ attempts.filterMap Attempt.entry?
  /-- No stage is to be compiled under a key under which one is held by then. -/
  unheld : Always (fun before a =>
    a.key ∉ (c.cache.stages ++ before.filterMap Attempt.entry?).map Prod.fst) attempts

section
variable {c c' : Context (Watched δ)} {attempts : List (Attempt (Device.StageHandle δ))}

theorem Attempts.refl (c : Context (Watched δ)) : Attempts c c [] :=
  ⟨by simp, by simp, by simp, always_nil⟩

theorem Attempts.trans {c'' : Context (Watched δ)} {more : List (Attempt (Device.StageHandle δ))}
    (h : Attempts c c' attempts) (hmore : Attempts c' c'' more) :
    Attempts c c'' (attempts ++ more) where
  device := by rw [hmore.device, h.device, List.map_append, List.append_assoc]
  journal := by rw [hmore.journal, h.journal, List.flatMap_append, List.append_assoc]
  held := by rw [hmore.held, h.held, List.filterMap_append, List.append_assoc]
  unheld := by
    refine h.unheld.append (hmore.unheld.imp fun before a ha => ?_)
    rwa [h.held, List.append_assoc, ← List.filterMap_append] at ha

/-- No attempt is made under a key under which a stage was held to begin with. -/
theorem Attempts.key_not_mem (h : Attempts c c' attempts) {a : Attempt (Device.StageHandle δ)}
    (ha : a ∈ attempts) : a.key ∉ c.cache.stages.map Prod.fst := by
  obtain ⟨before, after, hsplit⟩ := List.append_of_mem ha
  have hunheld : a.key ∉ (c.cache.stages ++ before.filterMap Attempt.entry?).map Prod.fst :=
    h.unheld before a after hsplit
  rw [List.map_append, List.mem_append, not_or] at hunheld
  exact hunheld.1

/-- Under each key at most one attempt succeeds. -/
theorem Attempts.nodup (h : Attempts c c' attempts) :
    ((attempts.filterMap Attempt.entry?).map Prod.fst).Nodup := by
  rw [List.map_filterMap]
  refine (h.unheld.imp fun before a ha key hkey => ?_).nodup_filterMap
  obtain ⟨entry, hentry, rfl⟩ := Option.map_eq_some_iff.1 hkey
  rw [a.key_of_entry? hentry, ← List.map_filterMap]
  rw [List.map_append, List.mem_append, not_or] at ha
  exact ha.2

end

/-! ## Every run is one of attempts -/

/-- Other calls are not for compiling. -/
theorem filter_log_of_aside {w w' : Watched δ} (h : Device.Aside w w') :
    w'.log.filter StageCall.compiles = w.log.filter StageCall.compiles := by
  induction h with
  | refl | useProgram | locate | write | bindTexture => rfl
  | trans hab hbc ihab ihbc => exact ihbc.trans ihab
  | link w handles attributes =>
      have hlog : (Device.link w handles attributes).2.log = w.log ++ [.link handles] := rfl
      rw [hlog, List.filter_append]
      exact List.append_nil _

/-- Compiling where nothing is held is one attempt. -/
theorem attempts_compile (c : Context (Watched δ)) {p : Part} {text : String}
    (hsource : p.source = .ok text) (hkey : c.cache.stages.lookup p.key = none) :
    ∃ a : Attempt (Device.StageHandle δ), a.IsOf p ∧
      Attempts c (c.compile p.key p.stage text).2 [a] := by
  have hunheld : ∀ result : Except String (Device.StageHandle δ),
      Always (fun before a => a.key ∉
        (c.cache.stages ++ before.filterMap Attempt.entry?).map Prod.fst)
        [⟨p.key, p.stage, text, result⟩] := fun result =>
    always_nil.snoc (by simpa using not_mem_of_lookup hkey)
  rw [compile]
  generalize hcompile : Device.compile (c.record (.compiling p.key p.stage)).device p.stage text
    = out
  replace hcompile : Watched.compile c.device p.stage text = out := hcompile
  rw [Watched.compile] at hcompile
  generalize Device.compile c.device.inner p.stage text = answer at hcompile
  obtain ⟨result, inner⟩ := answer
  refine ⟨⟨p.key, p.stage, text, result⟩, ⟨rfl, rfl, hsource⟩, ?_⟩
  cases result with
  | ok handle =>
      subst hcompile
      exact ⟨List.filter_append .., List.filter_append .., rfl, hunheld _⟩
  | error log =>
      subst hcompile
      refine ⟨List.filter_append .., ?_, (List.append_nil _).symm, hunheld _⟩
      simp [Context.record, Attempt.events, Event.isCompiling]

theorem persists_attempts (parts : Part → Prop) :
    Persists parts fun c c' : Context (Watched δ) =>
      ∃ attempts, Attempts c c' attempts ∧ ∀ a ∈ attempts, ∃ p, parts p ∧ a.IsOf p where
  refl c := ⟨[], .refl c, by simp⟩
  trans := by
    rintro c c' c'' ⟨attempts, h, hparts⟩ ⟨more, hmore, hparts'⟩
    exact ⟨attempts ++ more, h.trans hmore, List.forall_mem_append.2 ⟨hparts, hparts'⟩⟩
  compile c p text hp hsource hkey := by
    obtain ⟨a, ha, hattempts⟩ := attempts_compile c hsource hkey
    exact ⟨[a], hattempts, by simpa using ⟨p, hp, ha⟩⟩
  aside {c c' events} hjournal hevents hstages hdevice := by
    have hnone : events.filter Event.isCompiling = [] := by
      simpa [List.filter_eq_nil_iff] using hevents
    refine ⟨[], ⟨?_, ?_, by simp [hstages], always_nil⟩, by simp⟩
    · simp [filter_log_of_aside hdevice]
    · simp [hjournal, hnone]

/-- Until the stages are released, of the attempts to compile under a key one succeeds at
most. -/
def CompilesOnce (c : Context (Watched δ)) : Prop :=
  ∀ later, (∀ r ∈ later, r ≠ .releaseStages) → ∃ attempts,
    Attempts c (c.serveAll later) attempts ∧
      ((attempts.filterMap Attempt.entry?).map Prod.fst).Nodup

theorem compilesOnce (c : Context (Watched δ)) : c.CompilesOnce := by
  intro later hlater
  obtain ⟨attempts, hattempts, -⟩ :=
    (persists_attempts fun _ => True).serveAll (fun _ => trivial) c hlater
  exact ⟨attempts, hattempts, hattempts.nodup⟩

end Context

end Shaderwright
