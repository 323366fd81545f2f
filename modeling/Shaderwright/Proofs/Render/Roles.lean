import Shaderwright.Proofs.Render.Index

/-!
# Roles of stage files

A program of files is linked from two stage objects, one for the path of each file. A
stage object is held under the path alone, whatever it was compiled as, and whoever asks
for the path next gets it, in that role or in the other. So a file that programs use in
both roles, or one that a single program uses twice, is compiled in the role that comes
first and linked in both.

What is certain is where the objects come from: on any device, each was compiled from the
text of its path, after the last stage object was deleted, and in a role in which the path
was asked for since the stages were last released. If that is one role, it is the right
one.
-/

namespace Shaderwright

/-! ## Where a stage object comes from -/

/-- The handle was compiled from the text as a stage, and no stage object deleted since. -/
def MadeFrom {σ : Type} (log : List (StageCall σ)) (stage : Stage) (text : String) (handle : σ) :
    Prop :=
  ∃ before after, log = before ++ .compiled stage text handle :: after ∧ ∀ h, .deleted h ∉ after

theorem MadeFrom.append {σ : Type} {log more : List (StageCall σ)} {stage : Stage}
    {text : String} {handle : σ} (h : MadeFrom log stage text handle)
    (hmore : ∀ h, .deleted h ∉ more) : MadeFrom (log ++ more) stage text handle := by
  obtain ⟨before, after, rfl, hafter⟩ := h
  refine ⟨before, after ++ more, by simp, fun deleted hmem => ?_⟩
  rcases List.mem_append.1 hmem with hmem | hmem
  · exact hafter deleted hmem
  · exact hmore deleted hmem

/-- The paths of a program, each with the role that it is meant for. -/
def FileProgram.roles (p : FileProgram) : List (String × Stage) :=
  [(p.vertexPath, .vertex), (p.fragmentPath, .fragment)]

section
variable {δ : Type} [Device δ]

/-- Since the stages were last released, a program was asked for that has the path in this
role. -/
def AskedAs (requests : List (Request δ)) (path : String) (stage : Stage) : Prop :=
  ∃ before read p after, requests = before ++ .fixed read p :: after ∧
    .releaseStages ∉ after ∧ (path, stage) ∈ p.roles

theorem AskedAs.snoc {requests : List (Request δ)} {path : String} {stage : Stage}
    (h : AskedAs requests path stage) {r : Request δ} (hr : r ≠ .releaseStages) :
    AskedAs (requests ++ [r]) path stage := by
  obtain ⟨before, read, p, after, rfl, hkept, hrole⟩ := h
  refine ⟨before, read, p, after ++ [r], by simp, fun hmem => ?_, hrole⟩
  rcases List.mem_append.1 hmem with hmem | hmem
  · exact hkept hmem
  · exact hr (List.mem_singleton.1 hmem).symm

/-- Programs of files are built and stages released, and nothing else. All files are read
from one tree. -/
def Request.ReadsFrom (read : Reader) : Request δ → Prop
  | .fixed other _ => other = read
  | .releaseStages => True
  | .compose _ | .activate _ | .locate _ | .set _ _ | .bindTexture _ _ _ | .stream _ => False

end

namespace Watched

open Context

variable {δ : Type} [Device δ]

/-- The handle was compiled from the text of the path, in a role that was asked for. -/
def FromFile (read : Reader) (requests : List (Request (Watched δ)))
    (log : List (StageCall (Device.StageHandle δ))) (path : String)
    (handle : Device.StageHandle δ) : Prop :=
  ∃ stage text, read path = .ok text ∧ AskedAs requests path stage ∧
    MadeFrom log stage text handle

/-- Every stage object that is held comes from the file whose path it is held under. -/
def Sourced (read : Reader) (requests : List (Request (Watched δ)))
    (c : Context (Watched δ)) : Prop :=
  ∀ path handle, (path, handle) ∈ c.cache.stages →
    FromFile read requests c.device.log path handle

/-- Nothing but stages that are to be compiled. -/
def Prepares (c c' : Context (Watched δ)) : Prop :=
  GrowsBy (fun call => call.compiles) c.device.log c'.device.log

section
variable {read : Reader} {requests : List (Request (Watched δ))} {c : Context (Watched δ)}

/-! ## Compiling -/

/-- Compiling adds one stage object, or the source is refused. -/
theorem compile_cases (c : Context (Watched δ)) (key : String) (stage : Stage) (text : String) :
    (∃ handle : Device.StageHandle δ, (c.compile key stage text).2.device.log
        = c.device.log ++ [.compiled stage text handle] ∧
      (c.compile key stage text).2.cache.stages = c.cache.stages ++ [(key, handle)]) ∨
    ((∃ log, (c.compile key stage text).2.device.log
        = c.device.log ++ [.refused stage text log]) ∧
      (c.compile key stage text).2.cache.stages = c.cache.stages) := by
  rw [Context.compile]
  generalize hcompile : Device.compile (c.record (.compiling key stage)).device stage text = out
  replace hcompile : Watched.compile c.device stage text = out := hcompile
  rw [Watched.compile] at hcompile
  generalize Device.compile c.device.inner stage text = answer at hcompile
  obtain ⟨result, inner⟩ := answer
  cases result with
  | ok handle =>
      subst hcompile
      exact .inl ⟨handle, rfl, rfl⟩
  | error log =>
      subst hcompile
      exact .inr ⟨⟨log, rfl⟩, rfl⟩

theorem prepares_compile (c : Context (Watched δ)) (key : String) (stage : Stage)
    (text : String) : Prepares c (c.compile key stage text).2 := by
  rw [Prepares]
  rcases compile_cases c key stage text with ⟨handle, hlog, -⟩ | ⟨⟨log, hlog⟩, -⟩
  · rw [hlog]
    exact .snoc _ rfl
  · rw [hlog]
    exact .snoc _ rfl

theorem Sourced.compile (h : Sourced read requests c) {path text : String} {stage : Stage}
    (hasked : AskedAs requests path stage) (hread : read path = .ok text) :
    Sourced read requests (c.compile path stage text).2 := by
  intro other handle hmem
  rcases compile_cases c path stage text with ⟨new, hlog, hstages⟩ | ⟨⟨log, hlog⟩, hstages⟩
  · rw [hlog]
    rw [hstages] at hmem
    rcases List.mem_append.1 hmem with hmem | hmem
    · obtain ⟨role, source, hsource, hrole, hmade⟩ := h other handle hmem
      exact ⟨role, source, hsource, hrole, hmade.append (by simp)⟩
    · obtain ⟨rfl, rfl⟩ := Prod.mk.inj (List.mem_singleton.1 hmem)
      exact ⟨stage, text, hread, hasked, c.device.log, [], rfl, by simp⟩
  · rw [hlog]
    rw [hstages] at hmem
    obtain ⟨role, source, hsource, hrole, hmade⟩ := h other handle hmem
    exact ⟨role, source, hsource, hrole, hmade.append (by simp)⟩

/-! ## Building -/

/-- The parts of a program of files are its paths in their roles. -/
theorem parts_ofFiles (read : Reader) (p : FileProgram) :
    (Recipe.ofFiles read p).parts
      = p.roles.map fun role => Recipe.partOfFile read role.2 role.1 := rfl

theorem read_of_source {path text : String} {stage : Stage}
    (h : (Recipe.partOfFile read stage path).source = .ok text) : read path = .ok text := by
  rw [Recipe.partOfFile] at h
  cases hread : read path with
  | error cause =>
      rw [hread] at h
      exact nomatch h
  | ok source =>
      rw [hread] at h
      exact congrArg Except.ok (Except.ok.inj h)

theorem prepares_obtainAll (c : Context (Watched δ)) (parts : List Part) :
    Prepares c (c.obtainAll parts).2 :=
  obtainAll_rel (fun c => .refl _ c.device.log) GrowsBy.trans
    (fun p _ c text _ _ => prepares_compile c p.key p.stage text) c

theorem Sourced.obtainAll (h : Sourced read requests c) {p : FileProgram}
    (hasked : ∀ role ∈ p.roles, AskedAs requests role.1 role.2) :
    Sourced read requests (c.obtainAll (Recipe.ofFiles read p).parts).2 := by
  refine obtainAll_rel (R := fun c c' => Sourced read requests c → Sourced read requests c')
    (fun _ h => h) (fun hab hbc h => hbc (hab h)) ?_ c h
  intro part hpart c text hsource hkey h
  rw [parts_ofFiles] at hpart
  obtain ⟨role, hrole, rfl⟩ := List.mem_map.1 hpart
  exact h.compile (hasked role hrole) (read_of_source hsource)

/-- A request that is no release forgets no role. -/
theorem Sourced.snoc (h : Sourced read requests c) {r : Request (Watched δ)}
    (hr : r ≠ .releaseStages) : Sourced read (requests ++ [r]) c := by
  intro path handle hmem
  obtain ⟨stage, text, hread, hasked, hmade⟩ := h path handle hmem
  exact ⟨stage, text, hread, hasked.snoc hr, hmade⟩

/-- What the link of a program of files is given. -/
structure LinksFiles (read : Reader) (requests : List (Request (Watched δ))) (p : FileProgram)
    (log : List (StageCall (Device.StageHandle δ))) (v f : Device.StageHandle δ) : Prop where
  vertex : FromFile read requests log p.vertexPath v
  fragment : FromFile read requests log p.fragmentPath f
  /-- A path that was asked for in its role only was compiled in its role. -/
  vertex_role : (∀ stage, AskedAs requests p.vertexPath stage → stage = .vertex) →
    ∃ text, read p.vertexPath = .ok text ∧ MadeFrom log .vertex text v
  fragment_role : (∀ stage, AskedAs requests p.fragmentPath stage → stage = .fragment) →
    ∃ text, read p.fragmentPath = .ok text ∧ MadeFrom log .fragment text f
  /-- One path is one stage object, in both roles. -/
  same : p.vertexPath = p.fragmentPath → v = f

theorem FromFile.of_role {log : List (StageCall (Device.StageHandle δ))} {path : String}
    {handle : Device.StageHandle δ} (h : FromFile read requests log path handle) {role : Stage}
    (hrole : ∀ stage, AskedAs requests path stage → stage = role) :
    ∃ text, read path = .ok text ∧ MadeFrom log role text handle := by
  obtain ⟨stage, text, hread, hasked, hmade⟩ := h
  exact ⟨text, hread, hrole stage hasked ▸ hmade⟩

/-- The handles of both parts are held under the paths. -/
theorem Sourced.linksFiles (h : Sourced read requests c) {p : FileProgram}
    {handles : List (Device.StageHandle δ)}
    (hlookup : (Recipe.ofFiles read p).parts.map (fun part => c.cache.stages.lookup part.key)
      = handles.map some) :
    ∃ v f, handles = [v, f] ∧ LinksFiles read requests p c.device.log v f := by
  have hboth : [c.cache.stages.lookup p.vertexPath, c.cache.stages.lookup p.fragmentPath]
      = handles.map some := hlookup
  obtain ⟨v, rest, rfl, hv, hrest⟩ := List.map_eq_cons_iff.1 hboth.symm
  obtain ⟨f, rest, rfl, hf, hnil⟩ := List.map_eq_cons_iff.1 hrest
  obtain rfl := List.map_eq_nil_iff.1 hnil
  have hvertex := h _ _ (mem_of_lookup hv.symm)
  have hfragment := h _ _ (mem_of_lookup hf.symm)
  exact ⟨v, f, rfl, {
    vertex := hvertex
    fragment := hfragment
    vertex_role := hvertex.of_role
    fragment_role := hfragment.of_role
    same := by
      intro hpath
      rw [hpath, ← hf] at hv
      exact Option.some.inj hv }⟩

/-- What is linked for a program, after what is compiled for it. No program comes without a
link. -/
def Links (read : Reader) (requests : List (Request (Watched δ))) (p : FileProgram)
    (c c' : Context (Watched δ)) : Prop :=
  ∃ prepared, GrowsBy (fun call => call.compiles) c.device.log prepared ∧
    ((c'.device.log = prepared ∧ c'.cache.programs = c.cache.programs) ∨
      ∃ v f, c'.device.log = prepared ++ [.link [v, f]] ∧ LinksFiles read requests p prepared v f)

/-- The link is written down, and leaves what is held alone. -/
theorem Sourced.link {c' after : Context (Watched δ)} (h : Sourced read requests c')
    (hprepares : Prepares c c') {p : FileProgram} {handles : List (Device.StageHandle δ)}
    (hlookup : (Recipe.ofFiles read p).parts.map (fun part => c'.cache.stages.lookup part.key)
      = handles.map some)
    (hlog : after.device.log = c'.device.log ++ [.link handles])
    (hstages : after.cache.stages = c'.cache.stages) :
    Sourced read requests after ∧ Links read requests p c after := by
  obtain ⟨v, f, rfl, hlinks⟩ := h.linksFiles hlookup
  refine ⟨?_, c'.device.log, hprepares, .inr ⟨v, f, hlog, hlinks⟩⟩
  intro path handle hmem
  rw [hstages] at hmem
  obtain ⟨stage, text, hread, hasked, hmade⟩ := h path handle hmem
  exact ⟨stage, text, hread, hasked, hlog ▸ hmade.append (by simp)⟩

theorem log_link {w w' : Watched δ} {handles : List (Device.StageHandle δ)}
    {attributes : List String} {result : Except String (Device.ProgramHandle δ)}
    (h : Device.link w handles attributes = (result, w')) :
    w'.log = w.log ++ [.link handles] := congrArg (fun out => out.2.log) h.symm

theorem Sourced.fixed (h : Sourced read requests c) {p : FileProgram}
    (hasked : ∀ role ∈ p.roles, AskedAs requests role.1 role.2) :
    Sourced read requests (c.fixed read p).2 ∧ Links read requests p c (c.fixed read p).2 := by
  have hparts := h.obtainAll hasked
  have hprepares := prepares_obtainAll c (Recipe.ofFiles read p).parts
  have houtcome := c.outcome_build (.ofFiles read p)
  rw [Context.fixed]
  generalize c.build (.ofFiles read p) = out at houtcome
  cases houtcome with
  | hit hfind => exact ⟨h, c.device.log, .refl .., .inl ⟨rfl, rfl⟩⟩
  | unprepared hfind hobtained =>
      have hholds := holds_obtainAll c (Recipe.ofFiles read p).parts
      rw [hobtained] at hparts hprepares hholds
      exact ⟨hparts, _, hprepares, .inl ⟨rfl, hholds.programs⟩⟩
  | unlinked hfind hobtained hlink | linked hfind hobtained hlink =>
      have hlookup := lookup_obtainAll (congrArg Prod.fst hobtained)
      rw [hobtained] at hparts hprepares hlookup
      exact hparts.link hprepares hlookup (log_link hlink) rfl

/-! ## Runs -/

theorem askedAs_fixed (requests : List (Request (Watched δ))) (read : Reader) {p : FileProgram} :
    ∀ role ∈ p.roles, AskedAs (requests ++ [.fixed read p]) role.1 role.2 :=
  fun role hrole => ⟨requests, read, p, [], rfl, by simp, hrole⟩

theorem Sourced.serve (h : Sourced read requests c) {r : Request (Watched δ)}
    (hr : r.ReadsFrom read) : Sourced read (requests ++ [r]) (c.serve r) := by
  cases r with
  | fixed other p =>
      obtain rfl : other = read := hr
      exact ((h.snoc (by simp)).fixed (askedAs_fixed requests other)).1
  | releaseStages =>
      -- Nothing is held any more, and no role counts from before.
      intro path handle hmem
      rw [Context.serve, cache_releaseStages] at hmem
      cases hmem
  | compose | activate | locate | set | bindTexture | stream => exact hr.elim

end

theorem sourced_serveAll (device : Watched δ) (version : Option Version) {read : Reader}
    {requests : List (Request (Watched δ))} (h : ∀ r ∈ requests, r.ReadsFrom read) :
    Sourced read requests ((fresh device version).serveAll requests) := by
  induction requests using List.reverseRecOn with
  | nil => exact fun path handle hmem => nomatch hmem
  | append_singleton requests r ih =>
      obtain ⟨hbefore, hr⟩ := List.forall_mem_append.1 h
      rw [serveAll, List.foldl_append]
      exact (ih hbefore).serve (hr r (List.mem_singleton.2 rfl))

/-- **Stage objects keep the role they were compiled in.** On any device, after any run of
programs of files and releases over one tree: a program is linked from one stage object for
each of its paths, compiled from the text of the path in a role in which the path was
asked for since the last release. It is the right role if there is no other. -/
theorem links_fixed (device : δ) (version : Option Version) (read : Reader)
    (requests : List (Request (Watched δ))) (p : FileProgram)
    (h : ∀ r ∈ requests, r.ReadsFrom read) :
    let c := (fresh ({ inner := device } : Watched δ) version).serveAll requests
    Links read (requests ++ [.fixed read p]) p c (c.fixed read p).2 :=
  (((sourced_serveAll _ version h).snoc (by simp)).fixed (askedAs_fixed requests read)).2

instance : DecidableEq (Device.StageHandle Headless) := inferInstanceAs (DecidableEq UInt32)

/-- A vertex file that an earlier program used as well, and a release in between. -/
theorem links_fixed_sharedVertex :
    let read : Reader := fun path => if path = "sky.vsh" then .ok "vertex" else .ok "fragment"
    let p : FileProgram := { shaderDir := "", vertex := "sky.vsh", fragment := "sky.fsh" }
    let q : FileProgram := { shaderDir := "", vertex := "sky.vsh", fragment := "flat.fsh" }
    let requests : List (Request (Watched Headless)) := [.fixed read p, .releaseStages]
    let c := (fresh ({ inner := {} } : Watched Headless) none).serveAll requests
    (c.fixed read q).2.device.log
        = [.compiled .vertex "vertex" (1 : UInt32), .compiled .fragment "fragment" (2 : UInt32),
          .link [(1 : UInt32), (2 : UInt32)], .deleted (1 : UInt32), .deleted (2 : UInt32),
          .compiled .vertex "vertex" (4 : UInt32), .compiled .fragment "fragment" (5 : UInt32),
          .link [(4 : UInt32), (5 : UInt32)]] ∧
      Links read (requests ++ [.fixed read q]) q c (c.fixed read q).2 :=
  ⟨by decide +kernel, links_fixed _ none _ _ _ (by simp [Request.ReadsFrom])⟩

/-- A file that a program uses in both roles is compiled as a vertex stage alone, and the
program is linked from two vertex stages. -/
theorem sameFile_links_vertex_twice :
    let read : Reader := fun _ => .ok "void main() {}"
    let p : FileProgram := { shaderDir := "", vertex := "both.glsl", fragment := "both.glsl" }
    let c := fresh ({ inner := {} } : Watched Headless) none
    (c.fixed read p).1 = .ok ⟨0⟩ ∧
      (c.fixed read p).2.device.log
        = [.compiled .vertex "void main() {}" (1 : UInt32), .link [(1 : UInt32), (1 : UInt32)]] ∧
      ∀ text handle, .compiled .fragment text handle ∉ (c.fixed read p).2.device.log := by
  intro read p c
  have hlog : (c.fixed read p).2.device.log
      = [.compiled .vertex "void main() {}" (1 : UInt32), .link [(1 : UInt32), (1 : UInt32)]] := by
    decide +kernel
  refine ⟨by decide +kernel, hlog, fun text handle hmem => ?_⟩
  rw [hlog] at hmem
  simp at hmem

end Watched

end Shaderwright
