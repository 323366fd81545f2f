import Mathlib.Data.List.Induction
import Mathlib.Data.List.Nodup
import Shaderwright.Proofs.History
import Shaderwright.Proofs.Render.Answers
import Shaderwright.Proofs.Render.Index
import Shaderwright.Render.Recorder

/-!
# Objects in the library

The OpenGL device makes shaders and programs in a library and has to delete them there.
Whatever the library answers, whichever compilations and links fail, and whatever is asked
of a context: the shaders that were created and not deleted are those that the cache holds,
the programs are those of its programs, and no shader is left attached (`Clean`).

The library is any other with its calls written down (`Traced`). What the calls leave in it
is computed from the record alone (`objects`).
-/

namespace Shaderwright

/-! ## A library that is traced -/

/-- A library that passes every call on to another and writes it down. -/
structure Traced (γ : Type) where
  inner : γ
  calls : List Recorder.Call := []

namespace Traced

variable {γ : Type} [OpenGl.Library γ]

def createShader (t : Traced γ) (kind : UInt32) : UInt32 × Traced γ :=
  match OpenGl.Library.createShader t.inner kind with
  | (name, inner) => (name, ⟨inner, t.calls ++ [.createShader kind name]⟩)

def createProgram (t : Traced γ) : UInt32 × Traced γ :=
  match OpenGl.Library.createProgram t.inner with
  | (name, inner) => (name, ⟨inner, t.calls ++ [.createProgram name]⟩)

def uniformLocation (t : Traced γ) (program : UInt32) (name : String) : Int32 × Traced γ :=
  match OpenGl.Library.uniformLocation t.inner program name with
  | (location, inner) => (location, ⟨inner, t.calls ++ [.uniformLocation program name]⟩)

instance library : OpenGl.Library (Traced γ) where
  createShader := createShader
  createProgram := createProgram
  uniformLocation := uniformLocation
  submit t c := ⟨OpenGl.Library.submit t.inner c, t.calls ++ [.command c]⟩
  compiled t := OpenGl.Library.compiled t.inner
  linked t := OpenGl.Library.linked t.inner
  shaderLog t := OpenGl.Library.shaderLog t.inner
  programLog t := OpenGl.Library.programLog t.inner

end Traced

/-! ## What calls leave behind -/

/-- The objects that were created and not deleted, and which shaders are attached to which
programs. -/
structure Objects where
  shaders : List UInt32 := []
  programs : List UInt32 := []
  /-- Each program with a shader. -/
  attached : List (UInt32 × UInt32) := []
deriving DecidableEq

namespace Objects

/-- A created name of zero is no object. A shader is attached once at most. -/
def after (o : Objects) : Recorder.Call → Objects
  | .createShader _ name => if name = 0 then o else { o with shaders := o.shaders ++ [name] }
  | .createProgram name => if name = 0 then o else { o with programs := o.programs ++ [name] }
  | .command (.deleteShader name) => { o with shaders := o.shaders.erase name }
  | .command (.deleteProgram name) => { o with programs := o.programs.erase name }
  | .command (.attachShader program shader) =>
      { o with attached := o.attached.insert (program, shader) }
  | .command (.detachShader program shader) =>
      { o with attached := o.attached.filter fun pair => pair ≠ (program, shader) }
  | _ => o

def afterAll (o : Objects) (calls : List Recorder.Call) : Objects := calls.foldl after o

theorem afterAll_append (o : Objects) (calls more : List Recorder.Call) :
    o.afterAll (calls ++ more) = (o.afterAll calls).afterAll more := List.foldl_append

/-- The names that are given out are not in use. -/
def Fresh (o : Objects) : Recorder.Call → Prop
  | .createShader _ name => name ∉ o.shaders
  | .createProgram name => name ∉ o.programs
  | _ => True

/-- Only what is there is deleted or linked. -/
def Proper (o : Objects) : Recorder.Call → Prop
  | .command (.deleteShader name) => name ∈ o.shaders
  | .command (.deleteProgram name) | .command (.linkProgram name) => name ∈ o.programs
  | _ => True

end Objects

/-- What the calls of a record leave. -/
def objects (calls : List Recorder.Call) : Objects := ({} : Objects).afterAll calls

theorem objects_append (calls more : List Recorder.Call) :
    objects (calls ++ more) = (objects calls).afterAll more := Objects.afterAll_append ..

/-- Without a repetition there is none after one more call. -/
theorem Objects.nodup_after {o : Objects} (hshaders : o.shaders.Nodup)
    (hprograms : o.programs.Nodup) {call : Recorder.Call} (hfresh : o.Fresh call) :
    (o.after call).shaders.Nodup ∧ (o.after call).programs.Nodup := by
  cases call with
  | createShader kind name =>
      rw [Objects.after]
      split
      · exact ⟨hshaders, hprograms⟩
      · exact ⟨List.nodup_append_comm.2 (List.nodup_cons.2 ⟨hfresh, hshaders⟩), hprograms⟩
  | createProgram name =>
      rw [Objects.after]
      split
      · exact ⟨hshaders, hprograms⟩
      · exact ⟨hshaders, List.nodup_append_comm.2 (List.nodup_cons.2 ⟨hfresh, hprograms⟩)⟩
  | uniformLocation program name => exact ⟨hshaders, hprograms⟩
  | command c =>
      cases c with
      | deleteShader name => exact ⟨hshaders.erase name, hprograms⟩
      | deleteProgram name => exact ⟨hshaders, hprograms.erase name⟩
      | _ => exact ⟨hshaders, hprograms⟩

/-- If no name is given out while it is in use, no two objects share one. -/
theorem nodup_objects {calls : List Recorder.Call}
    (h : Always (fun before call => (objects before).Fresh call) calls) :
    (objects calls).shaders.Nodup ∧ (objects calls).programs.Nodup := by
  induction calls using List.reverseRecOn with
  | nil => exact ⟨List.nodup_nil, List.nodup_nil⟩
  | append_singleton calls call ih =>
      obtain ⟨hshaders, hprograms⟩ := ih fun before b rest hsplit =>
        h before b (rest ++ [call]) (by simp [hsplit])
      rw [objects_append]
      exact Objects.nodup_after hshaders hprograms (h calls call [] rfl)

/-! ## What the device calls -/

namespace OpenGl

variable {γ : Type} [Library γ] {d d' : OpenGl (Traced γ)}

/-- The record of the library. -/
def calls (d : OpenGl (Traced γ)) : List Recorder.Call := d.library.calls

theorem calls_submit (d : OpenGl (Traced γ)) (c : Command) :
    (d.submit c).calls = d.calls ++ [.command c] := rfl

theorem calls_submitAll (d : OpenGl (Traced γ)) (cs : List Command) :
    (d.submitAll cs).calls = d.calls ++ cs.map .command := by
  induction cs generalizing d with
  | nil => exact (List.append_nil _).symm
  | cons c cs ih =>
      have hrest : ((d.submit c).submitAll cs).calls = (d.submit c).calls ++ cs.map .command :=
        ih (d.submit c)
      have hfirst : (d.submit c).calls = d.calls ++ [.command c] := rfl
      rw [hfirst, List.append_assoc] at hrest
      exact hrest

/-- The calls of a compilation, up to the question whether it succeeded. -/
def compileCalls (stage : Stage) (source : String) (shader : UInt32) : List Recorder.Call :=
  [ .createShader (shaderKind stage) shader, .command (.shaderSource shader source),
    .command (.compileShader shader) ]

/-- How a compilation comes out: without a shader, with one that is deleted again, or with
one that compiled. -/
inductive CompileOutcome (d : OpenGl (Traced γ)) (stage : Stage) (source : String) :
    Except String UInt32 × OpenGl (Traced γ) → Prop
  | uncreated {log : String} {d' : OpenGl (Traced γ)}
      (hcalls : d'.calls = d.calls ++ [.createShader (shaderKind stage) 0]) :
      CompileOutcome d stage source (.error log, d')
  | failed {log : String} {d' : OpenGl (Traced γ)} {shader : UInt32} (hcreated : shader ≠ 0)
      (hcalls : d'.calls
        = d.calls ++ compileCalls stage source shader ++ [.command (.deleteShader shader)]) :
      CompileOutcome d stage source (.error log, d')
  | compiled {d' : OpenGl (Traced γ)} {shader : UInt32} (hcreated : shader ≠ 0)
      (hcalls : d'.calls = d.calls ++ compileCalls stage source shader) :
      CompileOutcome d stage source (.ok shader, d')

theorem outcome_compile (d : OpenGl (Traced γ)) (stage : Stage) (source : String) :
    CompileOutcome d stage source (d.compile stage source) := by
  rw [compile]
  have hcreated : (Library.createShader d.library (shaderKind stage)).2.calls = d.calls ++
      [.createShader (shaderKind stage) (Library.createShader d.library (shaderKind stage)).1] :=
    rfl
  generalize Library.createShader d.library (shaderKind stage) = out at hcreated
  obtain ⟨shader, library⟩ := out
  dsimp only at hcreated ⊢
  split
  · next hzero =>
      subst hzero
      exact .uncreated hcreated
  · next hzero =>
      have hcalls := calls_submitAll ⟨library⟩ [.shaderSource shader source, .compileShader shader]
      rw [show calls ⟨library⟩ = _ from hcreated, List.append_assoc] at hcalls
      split
      · exact .compiled hzero hcalls
      · exact .failed hzero (by rw [calls_submit, hcalls]; rfl)

/-- What comes before a link: the program, its stages and its attributes. -/
def prepareCalls (program : UInt32) (stages : List UInt32) (attributes : List String) :
    List Recorder.Call :=
  .createProgram program :: (stages.map fun s => .command (.attachShader program s)) ++
    attributes.zipIdx.map fun a => .command (.bindAttribLocation program (UInt32.ofNat a.2) a.1)

/-- The calls of a link, up to the question whether it succeeded. -/
def linkCalls (program : UInt32) (stages : List UInt32) (attributes : List String) :
    List Recorder.Call :=
  prepareCalls program stages attributes ++ .command (.linkProgram program) ::
    stages.map fun s => .command (.detachShader program s)

theorem linkCalls_eq (program : UInt32) (stages : List UInt32) (attributes : List String) :
    linkCalls program stages attributes
      = .createProgram program :: (linkCommands program stages attributes).map .command := by
  simp [linkCalls, prepareCalls, linkCommands, Function.comp_def]

/-- How a link comes out, in the same ways. -/
inductive LinkOutcome (d : OpenGl (Traced γ)) (stages : List UInt32) (attributes : List String) :
    Except String UInt32 × OpenGl (Traced γ) → Prop
  | uncreated {log : String} {d' : OpenGl (Traced γ)}
      (hcalls : d'.calls = d.calls ++ [.createProgram 0]) :
      LinkOutcome d stages attributes (.error log, d')
  | failed {log : String} {d' : OpenGl (Traced γ)} {program : UInt32} (hcreated : program ≠ 0)
      (hcalls : d'.calls
        = d.calls ++ linkCalls program stages attributes ++ [.command (.deleteProgram program)]) :
      LinkOutcome d stages attributes (.error log, d')
  | linked {d' : OpenGl (Traced γ)} {program : UInt32} (hcreated : program ≠ 0)
      (hcalls : d'.calls = d.calls ++ linkCalls program stages attributes) :
      LinkOutcome d stages attributes (.ok program, d')

theorem outcome_link (d : OpenGl (Traced γ)) (stages : List UInt32) (attributes : List String) :
    LinkOutcome d stages attributes (d.link stages attributes) := by
  rw [link]
  have hcreated : (Library.createProgram d.library).2.calls
      = d.calls ++ [.createProgram (Library.createProgram d.library).1] := rfl
  generalize Library.createProgram d.library = out at hcreated
  obtain ⟨program, library⟩ := out
  dsimp only at hcreated ⊢
  split
  · next hzero =>
      subst hzero
      exact .uncreated hcreated
  · next hzero =>
      have hcalls := calls_submitAll ⟨library⟩ (linkCommands program stages attributes)
      rw [show calls ⟨library⟩ = _ from hcreated, List.append_assoc, List.singleton_append,
        ← linkCalls_eq] at hcalls
      split
      · exact .linked hzero hcalls
      · exact .failed hzero (by rw [calls_submit, hcalls])

end OpenGl

/-! ## What the calls do to the objects -/

namespace Objects

open OpenGl

theorem afterAll_compileCalls (o : Objects) (stage : Stage) (source : String) {shader : UInt32}
    (h : shader ≠ 0) :
    o.afterAll (compileCalls stage source shader)
      = { o with shaders := o.shaders ++ [shader] } := by
  simp [compileCalls, afterAll, after, h]

section
variable (o : Objects) (program : UInt32) (stages : List UInt32)

theorem afterAll_attach :
    o.afterAll (stages.map fun s => .command (.attachShader program s))
      = { o with attached := stages.foldl (fun l s => l.insert (program, s)) o.attached } := by
  induction stages generalizing o with
  | nil => rfl
  | cons s stages ih => exact ih _

theorem afterAll_detach :
    o.afterAll (stages.map fun s => .command (.detachShader program s))
      = { o with
          attached := stages.foldl (fun l s => l.filter fun pair => pair ≠ (program, s)) o.attached
        } := by
  induction stages generalizing o with
  | nil => rfl
  | cons s stages ih => exact ih _

end

theorem mem_attach {program : UInt32} {stages : List UInt32} {pair : UInt32 × UInt32}
    {attached : List (UInt32 × UInt32)} :
    pair ∈ stages.foldl (fun l s => l.insert (program, s)) attached ↔
      pair ∈ attached ∨ ∃ s ∈ stages, pair = (program, s) := by
  induction stages generalizing attached with
  | nil => simp
  | cons s stages ih =>
      rw [List.foldl_cons, ih, List.mem_insert_iff]
      simp only [List.mem_cons, exists_eq_or_imp]
      tauto

theorem mem_detach {program : UInt32} {stages : List UInt32} {pair : UInt32 × UInt32}
    {attached : List (UInt32 × UInt32)} :
    pair ∈ stages.foldl (fun l s => l.filter fun pair => pair ≠ (program, s)) attached ↔
      pair ∈ attached ∧ ∀ s ∈ stages, pair ≠ (program, s) := by
  induction stages generalizing attached with
  | nil => simp
  | cons s stages ih =>
      rw [List.foldl_cons, ih, List.mem_filter]
      simp only [List.forall_mem_cons, decide_eq_true_eq, and_assoc]

theorem afterAll_bind (o : Objects) (program : UInt32) (attributes : List (String × Nat)) :
    o.afterAll (attributes.map fun a =>
      .command (.bindAttribLocation program (UInt32.ofNat a.2) a.1)) = o := by
  induction attributes with
  | nil => rfl
  | cons a attributes ih => exact ih

/-- Before a link, its program is there and its stages are attached. -/
theorem afterAll_prepareCalls (o : Objects) {program : UInt32} (h : program ≠ 0)
    (stages : List UInt32) (attributes : List String) :
    o.afterAll (prepareCalls program stages attributes)
      = { o with
          programs := o.programs ++ [program]
          attached := stages.foldl (fun l s => l.insert (program, s)) o.attached } := by
  have hcreate : o.after (.createProgram program)
      = { o with programs := o.programs ++ [program] } := if_neg h
  rw [prepareCalls, List.cons_append, afterAll, List.foldl_cons, ← afterAll, afterAll_append,
    afterAll_bind, hcreate, afterAll_attach]

/-- After a link, nothing is attached that was not attached before it. -/
theorem afterAll_linkCalls (o : Objects) (hattached : o.attached = []) {program : UInt32}
    (h : program ≠ 0) (stages : List UInt32) (attributes : List String) :
    o.afterAll (linkCalls program stages attributes)
      = { o with programs := o.programs ++ [program] } := by
  rw [linkCalls, afterAll_append, afterAll_prepareCalls o h, afterAll, List.foldl_cons, ← afterAll]
  rw [show ∀ o : Objects, o.after (.command (.linkProgram program)) = o from fun _ => rfl,
    afterAll_detach]
  congr 1
  rw [hattached, List.eq_nil_iff_forall_not_mem]
  intro pair hpair
  obtain ⟨hpair, hdetached⟩ := mem_detach.1 hpair
  rcases mem_attach.1 hpair with hnil | ⟨s, hs, rfl⟩
  · exact List.not_mem_nil hnil
  · exact hdetached s hs rfl

end Objects

/-! ## What a record leaves in the library -/

/-- The record leaves these shaders and programs and nothing attached, and nothing was deleted
or linked in it that was not there. -/
structure Leaves (calls : List Recorder.Call) (shaders programs : List UInt32) : Prop where
  shaders : (objects calls).shaders.Perm shaders
  programs : (objects calls).programs.Perm programs
  attached : (objects calls).attached = []
  proper : Always (fun before call => (objects before).Proper call) calls

namespace Leaves

open OpenGl

variable {calls : List Recorder.Call} {shaders programs : List UInt32}

/-- Calls of which none deletes or links are proper. -/
theorem always_append {more : List Recorder.Call}
    (h : Always (fun before call => (objects before).Proper call) calls)
    (hmore : ∀ call ∈ more, ∀ o : Objects, o.Proper call) :
    Always (fun before call => (objects before).Proper call) (calls ++ more) := by
  induction more generalizing calls with
  | nil => rwa [List.append_nil]
  | cons call more ih =>
      obtain ⟨hcall, hmore⟩ := List.forall_mem_cons.1 hmore
      rw [List.append_cons]
      exact ih (h.snoc (hcall _)) hmore

/-- One more call that concerns no objects. -/
theorem snoc (h : Leaves calls shaders programs) (call : Recorder.Call)
    (hobjects : ∀ o : Objects, o.after call = o) (hproper : ∀ o : Objects, o.Proper call) :
    Leaves (calls ++ [call]) shaders programs := by
  have hsame : objects (calls ++ [call]) = objects calls := by
    rw [objects_append]
    exact hobjects _
  exact {
    shaders := by rw [hsame]; exact h.shaders
    programs := by rw [hsame]; exact h.programs
    attached := by rw [hsame]; exact h.attached
    proper := h.proper.snoc (hproper _) }

theorem compile (h : Leaves calls shaders programs) (stage : Stage) (source : String)
    {shader : UInt32} (hcreated : shader ≠ 0) :
    Leaves (calls ++ compileCalls stage source shader) (shaders ++ [shader]) programs := by
  have hobjects := objects_append calls (compileCalls stage source shader)
  rw [Objects.afterAll_compileCalls _ stage source hcreated] at hobjects
  exact {
    shaders := by rw [hobjects]; exact h.shaders.append_right _
    programs := by rw [hobjects]; exact h.programs
    attached := by rw [hobjects]; exact h.attached
    proper := always_append h.proper (by simp [compileCalls, Objects.Proper]) }

/-- Deleting a shader that is there. -/
theorem deleteShader {shader : UInt32} (h : Leaves calls (shader :: shaders) programs) :
    Leaves (calls ++ [.command (.deleteShader shader)]) shaders programs := by
  have hobjects := objects_append calls [.command (.deleteShader shader)]
  exact {
    shaders := by
      have herased := h.shaders.erase shader
      rw [List.erase_cons_head] at herased
      rw [hobjects]
      exact herased
    programs := by rw [hobjects]; exact h.programs
    attached := by rw [hobjects]; exact h.attached
    proper := h.proper.snoc (h.shaders.mem_iff.2 (List.mem_cons_self ..)) }

theorem link (h : Leaves calls shaders programs) (stages : List UInt32)
    (attributes : List String) {program : UInt32} (hcreated : program ≠ 0) :
    Leaves (calls ++ linkCalls program stages attributes) shaders (programs ++ [program]) := by
  have hobjects := objects_append calls (linkCalls program stages attributes)
  rw [Objects.afterAll_linkCalls _ h.attached hcreated] at hobjects
  have hprepare : ∀ call ∈ prepareCalls program stages attributes, ∀ o : Objects,
      o.Proper call := by
    simp only [prepareCalls, List.forall_mem_append, List.forall_mem_cons, List.forall_mem_map]
    exact ⟨⟨fun _ => trivial, fun _ _ _ => trivial⟩, fun _ _ _ => trivial⟩
  exact {
    shaders := by rw [hobjects]; exact h.shaders
    programs := by rw [hobjects]; exact h.programs.append_right _
    attached := by rw [hobjects]; exact h.attached
    proper := by
      rw [linkCalls, ← List.append_assoc, List.append_cons]
      refine always_append ((always_append h.proper hprepare).snoc ?_)
        (List.forall_mem_map.2 fun _ _ _ => trivial)
      rw [objects_append, Objects.afterAll_prepareCalls _ hcreated]
      exact List.mem_append_right _ (List.mem_singleton_self _) }

/-- Deleting a program that is there. -/
theorem deleteProgram {program : UInt32} (h : Leaves calls shaders (program :: programs)) :
    Leaves (calls ++ [.command (.deleteProgram program)]) shaders programs := by
  have hobjects := objects_append calls [.command (.deleteProgram program)]
  exact {
    shaders := by rw [hobjects]; exact h.shaders
    programs := by
      have herased := h.programs.erase program
      rw [List.erase_cons_head] at herased
      rw [hobjects]
      exact herased
    attached := by rw [hobjects]; exact h.attached
    proper := h.proper.snoc (h.programs.mem_iff.2 (List.mem_cons_self ..)) }

/-- The same objects in another order. -/
theorem perm (h : Leaves calls shaders programs) {shaders' programs' : List UInt32}
    (hshaders : shaders.Perm shaders') (hprograms : programs.Perm programs') :
    Leaves calls shaders' programs' :=
  ⟨h.shaders.trans hshaders, h.programs.trans hprograms, h.attached, h.proper⟩

end Leaves

/-! ## What a context leaves in the library -/

section
variable {γ : Type} [OpenGl.Library γ]

open OpenGl

/-- The objects in the library are those that the context has. -/
def Clean (c : Context (OpenGl (Traced γ))) : Prop :=
  Leaves c.device.calls (c.cache.stages.map Prod.snd) (c.cache.programs.map Program.handle)

theorem clean_fresh (library : γ) (version : Option Version) :
    Clean (Context.fresh (⟨{ inner := library }⟩ : OpenGl (Traced γ)) version) :=
  ⟨.nil, .nil, rfl, always_nil⟩

/-- Writing a uniform concerns no objects. -/
theorem Leaves.write {calls : List Recorder.Call} {shaders programs : List UInt32}
    (h : Leaves calls shaders programs) (location : UInt32) (value : UniformValue) :
    Leaves (calls ++ [.command (writeCommand location value)]) shaders programs := by
  cases value <;> exact h.snoc _ (fun _ => rfl) fun _ => trivial

/-- A program may change as long as its handle stays. -/
theorem map_handle_set {c : Context (OpenGl (Traced γ))} {id : ProgramId}
    {p q : Program (OpenGl (Traced γ))} (hget : c.get? id = some p) (hq : q.handle = p.handle) :
    (c.cache.programs.set id.index q).map Program.handle
      = c.cache.programs.map Program.handle := by
  obtain ⟨hlt, rfl⟩ := List.getElem?_eq_some_iff.1 hget
  have hlt' : id.index < (c.cache.programs.map Program.handle).length := by simpa using hlt
  rw [List.map_set, hq, ← List.getElem_map Program.handle (h := hlt'), List.set_getElem_self]

theorem keeps_clean : Context.Keeps (δ := OpenGl (Traced γ)) Clean where
  journal c events h := h
  compiled c key stage source handle device h hkey hcompile := by
    have houtcome := outcome_compile c.device stage source
    rw [show c.device.compile stage source = _ from hcompile] at houtcome
    cases houtcome with
    | compiled hcreated hcalls =>
        have hall := Leaves.compile h stage source hcreated
        rw [← hcalls] at hall
        simpa [Clean, Context.holdStage] using hall
  uncompiled c stage source log device h hcompile := by
    have houtcome := outcome_compile c.device stage source
    rw [show c.device.compile stage source = _ from hcompile] at houtcome
    rw [Clean]
    cases houtcome with
    | uncreated hcalls =>
        rw [hcalls]
        exact h.snoc _ (fun _ => rfl) fun _ => trivial
    | failed hcreated hcalls =>
        rw [hcalls]
        exact ((h.compile stage source hcreated).perm List.perm_append_comm (.refl _)).deleteShader
  linked c r handles handle device h hfind hparts hlink := by
    have houtcome := outcome_link c.device handles r.attributes
    rw [show c.device.link handles r.attributes = _ from hlink] at houtcome
    cases houtcome with
    | linked hcreated hcalls =>
        have hall := Leaves.link h handles r.attributes hcreated
        rw [← hcalls] at hall
        simpa [Clean, Context.keep, Context.record] using hall
  unlinked c handles attributes log device h hlink := by
    have houtcome := outcome_link c.device handles attributes
    rw [show c.device.link handles attributes = _ from hlink] at houtcome
    rw [Clean]
    cases houtcome with
    | uncreated hcalls =>
        rw [hcalls]
        exact h.snoc _ (fun _ => rfl) fun _ => trivial
    | failed hcreated hcalls =>
        rw [hcalls]
        exact ((h.link handles attributes hcreated).perm (.refl _)
          List.perm_append_comm).deleteProgram
  released c key handle rest h hstages := by
    rw [Clean, hstages] at h
    exact h.deleteShader
  activated c id program h hget := by
    rw [Clean, ← map_handle_set hget (q := { program with textureUnit := 0 }) rfl] at h
    exact h.snoc _ (fun _ => rfl) fun _ => trivial
  located c id program name location device h hactive hget hlookup hlocate := by
    rw [Clean, ← map_handle_set hget
      (q := { program with uniforms := program.uniforms ++ [(name, location)] }) rfl] at h
    obtain rfl : _ = device := congrArg Prod.snd hlocate
    exact h.snoc _ (fun _ => rfl) fun _ => trivial
  written c id program name location value h hactive hget hlookup := Leaves.write h location value
  bound c id program name location target texture h hactive hget hlookup := by
    rw [Clean, ← map_handle_set hget
      (q := { program with textureUnit := program.textureUnit + 1 }) rfl] at h
    have hunit := h.snoc (.command (.activeTexture (texture0 + program.textureUnit)))
      (fun _ => rfl) fun _ => trivial
    have htexture := hunit.snoc (.command (.bindTexture (textureTarget target) texture))
      (fun _ => rfl) fun _ => trivial
    exact htexture.write location (.int program.textureUnit.toInt32)

end

/-! ## The calls of a link -/

namespace Recorder

def Call.Links : Call → Prop
  | .command (.linkProgram _) => True
  | _ => False

/-- A program comes of the call. -/
def Call.Creates : Call → Prop
  | .createProgram name => name ≠ 0
  | _ => False

/-- The call makes nothing, changes nothing and deletes nothing of a program. -/
def Call.Aside : Call → Prop
  | .createProgram _ => False
  | .command c =>
      match c with
      | .attachShader _ _ | .bindAttribLocation _ _ _ | .linkProgram _ | .detachShader _ _
      | .deleteProgram _ => False
      | _ => True
  | .createShader _ _ | .uniformLocation _ _ => True

/-- The shader that a call detaches from the program. -/
def Call.detached? (program : UInt32) : Call → Option UInt32
  | .command (.detachShader p shader) => if p = program then some shader else none
  | _ => none

/-- The attribute that a call binds in the program, with its place. -/
def Call.bound? (program : UInt32) : Call → Option (UInt32 × String)
  | .command (.bindAttribLocation p index name) => if p = program then some (index, name) else none
  | _ => none

variable {call : Call}

theorem Call.Aside.not_links (h : call.Aside) : ¬ call.Links := by
  cases call with
  | command c =>
      cases c with
      | linkProgram p => exact h.elim
      | _ => exact id
  | createShader | createProgram | uniformLocation => exact id

theorem Call.Aside.not_creates (h : call.Aside) : ¬ call.Creates := by
  cases call with
  | createProgram name => exact h.elim
  | createShader | command | uniformLocation => exact id

theorem Call.Aside.bound? (h : call.Aside) (program : UInt32) : call.bound? program = none := by
  cases call with
  | command c =>
      cases c with
      | bindAttribLocation p index name => exact h.elim
      | _ => rfl
  | createShader | createProgram | uniformLocation => rfl

end Recorder

open OpenGl

/-- The stages and attributes of a link. The record is what came before the request that it
is done for; the other calls are those of the request, on both sides of the link. -/
structure LinksOnce (stages : List UInt32) (attributes : List String) (program : UInt32)
    (record before after : List Recorder.Call) : Prop where
  /-- No call but the one in between links. -/
  alone : ∀ call ∈ before ++ after, ¬ call.Links
  attached : ∀ s ∈ stages, (program, s) ∈ (objects (record ++ before)).attached
  /-- Attribute `i` is bound at `i`, in order. -/
  bound : before.filterMap (Recorder.Call.bound? program)
    = attributes.zipIdx.map fun a => (UInt32.ofNat a.2, a.1)
  detached : after.filterMap (Recorder.Call.detached? program) = stages

/-- The calls of a link, after some that are aside, and maybe with the program deleted. -/
theorem linksOnce_linkCalls {stages : List UInt32} {attributes : List String} {program : UInt32}
    (hcreated : program ≠ 0) {record prepared more : List Recorder.Call}
    (hprepared : ∀ call ∈ prepared, call.Aside)
    (hmore : more = [] ∨ more = [.command (.deleteProgram program)]) :
    LinksOnce stages attributes program record
      (prepared ++ prepareCalls program stages attributes)
      ((stages.map fun s => .command (.detachShader program s)) ++ more) where
  alone := by
    have hmore' : ∀ call ∈ more, ¬ call.Links := by
      rcases hmore with rfl | rfl <;> simp [Recorder.Call.Links]
    simp only [prepareCalls, List.forall_mem_append, List.forall_mem_cons, List.forall_mem_map]
    exact ⟨⟨fun call hcall => (hprepared call hcall).not_links, ⟨id, fun _ _ => id⟩,
      fun _ _ => id⟩, fun _ _ => id, hmore'⟩
  attached := by
    intro s hs
    rw [← List.append_assoc, objects_append, Objects.afterAll_prepareCalls _ hcreated]
    exact Objects.mem_attach.2 (.inr ⟨s, hs, rfl⟩)
  bound := by
    have hnone : prepared.filterMap (Recorder.Call.bound? program) = [] :=
      List.filterMap_eq_nil_iff.2 fun call hcall => (hprepared call hcall).bound? program
    have hattach : (stages.map fun s => Recorder.Call.command (.attachShader program s)).filterMap
        (Recorder.Call.bound? program) = [] := by
      simp [List.filterMap_map, Function.comp_def, Recorder.Call.bound?]
    rw [List.filterMap_append, hnone, prepareCalls, List.cons_append,
      List.filterMap_cons_none rfl, List.filterMap_append, hattach]
    simp [List.filterMap_map, Function.comp_def, Recorder.Call.bound?]
  detached := by
    have hnone : more.filterMap (Recorder.Call.detached? program) = [] := by
      rcases hmore with rfl | rfl <;> rfl
    rw [List.filterMap_append, hnone, List.append_nil]
    simp [List.filterMap_map, Function.comp_def, Recorder.Call.detached?]

section
variable {γ : Type} [OpenGl.Library γ]

/-- A request makes some calls. Either one of them links, and it links the stage objects of the
parts that the request is about; or none of them links and none creates a program, and the
request is not answered with a new one. -/
def LinksRight (c : Context (OpenGl (Traced γ))) (r : Request (OpenGl (Traced γ))) : Prop :=
  ∃ calls, (c.serve r).device.calls = c.device.calls ++ calls ∧
    (((∀ call ∈ calls, ¬ call.Links ∧ ¬ call.Creates) ∧
        ∀ key, r.key? = some key → c.find? key = none → c.answer? r = none) ∨
      ∃ recipe stages program before after, c.recipe? r = some recipe ∧
        recipe.parts.map (fun p => (c.serve r).cache.stages.lookup p.key) = stages.map some ∧
        calls = before ++ .command (.linkProgram program) :: after ∧
        LinksOnce stages recipe.attributes program c.device.calls before after)

/-- More calls, all of them aside. -/
def Passes (d d' : OpenGl (Traced γ)) : Prop := GrowsBy Recorder.Call.Aside d.calls d'.calls

/-- What builds nothing links nothing. -/
theorem Passes.linksRight {c : Context (OpenGl (Traced γ))} {r : Request (OpenGl (Traced γ))}
    (hkey : r.key? = none) (h : Passes c.device (c.serve r).device) : LinksRight c r := by
  obtain ⟨calls, hcalls, hall⟩ := h
  refine ⟨calls, hcalls, .inl ⟨fun call hcall => ?_, fun key hasked => ?_⟩⟩
  · exact ⟨(hall call hcall).not_links, (hall call hcall).not_creates⟩
  · exact nomatch hkey.symm.trans hasked

theorem passes_compile (d : OpenGl (Traced γ)) (stage : Stage) (source : String) :
    Passes d (d.compile stage source).2 := by
  have houtcome := outcome_compile d stage source
  generalize d.compile stage source = out at houtcome
  cases houtcome with
  | uncreated hcalls => exact ⟨_, hcalls, by simp [Recorder.Call.Aside]⟩
  | failed hcreated hcalls =>
      rw [List.append_assoc] at hcalls
      exact ⟨_, hcalls, by simp [compileCalls, Recorder.Call.Aside]⟩
  | compiled hcreated hcalls => exact ⟨_, hcalls, by simp [compileCalls, Recorder.Call.Aside]⟩

theorem passes_obtainAll (c : Context (OpenGl (Traced γ))) (parts : List Part) :
    Passes c.device (c.obtainAll parts).2.device :=
  Context.obtainAll_rel (R := fun c c' => Passes c.device c'.device)
    (fun c => .refl _ c.device.calls) GrowsBy.trans
    (fun p _ c source _ _ => by
      have hcompile := passes_compile c.device p.stage source
      rw [Context.compile]
      generalize hout : Device.compile (c.record (.compiling p.key p.stage)).device p.stage source
        = out
      rw [show c.device.compile p.stage source = out from hout] at hcompile
      obtain ⟨result, device⟩ := out
      cases result <;> exact hcompile) c

/-- The calls of one link, one after the other. -/
theorem exists_linksOnce {stages : List UInt32} {attributes : List String} {program : UInt32}
    (hcreated : program ≠ 0) {record prepared more calls : List Recorder.Call}
    (hprepared : ∀ call ∈ prepared, call.Aside)
    (hmore : more = [] ∨ more = [.command (.deleteProgram program)])
    (hcalls : calls = record ++ prepared ++ linkCalls program stages attributes ++ more) :
    ∃ before after, calls = record ++ (before ++ .command (.linkProgram program) :: after) ∧
      LinksOnce stages attributes program record before after :=
  ⟨_, _, by simp [hcalls, linkCalls], linksOnce_linkCalls hcreated hprepared hmore⟩

/-- **A build links once at most**, and as it should. -/
theorem linksRight_build {c : Context (OpenGl (Traced γ))} {r : Request (OpenGl (Traced γ))}
    {recipe : Recipe} (hrecipe : c.recipe? r = some recipe) : LinksRight c r := by
  obtain ⟨hkey, hserve, hanswer⟩ := c.serve_of_recipe? hrecipe
  rw [LinksRight, hserve, hanswer, hkey]
  have hpasses := passes_obtainAll c recipe.parts
  have hnone : ∀ calls : List Recorder.Call, (∀ call ∈ calls, call.Aside) →
      ∀ call ∈ calls, ¬ call.Links ∧ ¬ call.Creates := fun calls hall call hcall =>
    ⟨(hall call hcall).not_links, (hall call hcall).not_creates⟩
  have houtcome := c.outcome_build recipe
  generalize c.build recipe = out at houtcome
  cases houtcome with
  | hit hfind =>
      refine ⟨[], (List.append_nil _).symm, .inl ⟨by simp, ?_⟩⟩
      rintro _ ⟨rfl⟩ hnew
      exact nomatch hnew.symm.trans hfind
  | unprepared hfind hparts =>
      rw [hparts] at hpasses
      obtain ⟨calls, hcalls, hall⟩ := hpasses
      exact ⟨calls, hcalls, .inl ⟨hnone calls hall, fun _ _ _ => rfl⟩⟩
  | @unlinked handles c' log device hfind hparts hlink =>
      have hlookup := Context.lookup_obtainAll (congrArg Prod.fst hparts)
      rw [hparts] at hpasses hlookup
      obtain ⟨prepared, hprepared, hall⟩ := hpasses
      have hlinked := outcome_link c'.device handles recipe.attributes
      rw [show c'.device.link handles recipe.attributes = _ from hlink] at hlinked
      cases hlinked with
      | uncreated hcalls =>
          rw [hprepared, List.append_assoc] at hcalls
          refine ⟨_, hcalls, .inl ⟨List.forall_mem_append.2 ⟨hnone prepared hall, ?_⟩,
            fun _ _ _ => rfl⟩⟩
          simp [Recorder.Call.Links, Recorder.Call.Creates]
      | @failed _ _ program hcreated hcalls =>
          rw [hprepared] at hcalls
          obtain ⟨before, after, hsplit, honce⟩ :=
            exists_linksOnce hcreated hall (.inr rfl) hcalls
          exact ⟨_, hsplit, .inr ⟨recipe, handles, program, before, after, hrecipe, hlookup, rfl,
            honce⟩⟩
  | @linked handles c' handle device hfind hparts hlink =>
      have hlookup := Context.lookup_obtainAll (congrArg Prod.fst hparts)
      rw [hparts] at hpasses hlookup
      obtain ⟨prepared, hprepared, hall⟩ := hpasses
      have hlinked := outcome_link c'.device handles recipe.attributes
      rw [show c'.device.link handles recipe.attributes = _ from hlink] at hlinked
      cases hlinked with
      | linked hcreated hcalls =>
          rw [hprepared, ← List.append_nil (_ ++ linkCalls ..)] at hcalls
          obtain ⟨before, after, hsplit, honce⟩ := exists_linksOnce hcreated hall (.inl rfl) hcalls
          exact ⟨_, hsplit, .inr ⟨recipe, handles, handle, before, after, hrecipe, hlookup, rfl,
            honce⟩⟩

/-! ## Requests that build nothing -/

theorem passes_resolve (b : Bound (OpenGl (Traced γ))) (name : String) :
    Passes b.device (b.resolve name).2.device := by
  rw [Bound.resolve]
  cases b.program.uniforms.lookup name with
  | some known => exact .refl _ b.device.calls
  | none => exact ⟨[.uniformLocation b.program.handle name], rfl, by simp [Recorder.Call.Aside]⟩

theorem passes_write (d : OpenGl (Traced γ)) (location : UInt32) (value : UniformValue) :
    Passes d (Device.write d location value) := by
  refine ⟨[.command (writeCommand location value)], rfl, ?_⟩
  cases value <;> simp [writeCommand, Recorder.Call.Aside]

theorem passes_performAll (b : Bound (OpenGl (Traced γ))) (ws : List (Write UInt32)) :
    Passes b.device (b.performAll ws).device := by
  induction ws generalizing b with
  | nil => exact .refl _ b.device.calls
  | cons w ws ih =>
      refine GrowsBy.trans ?_ (ih (b.perform w))
      have hresolve := passes_resolve b w.name
      rw [← Bound.performBy_resolve, Bound.performBy]
      generalize b.resolve w.name = out at hresolve
      obtain ⟨answer, b'⟩ := out
      cases answer with
      | none => exact hresolve
      | some location =>
          refine hresolve.trans ?_
          cases w with
          | value name value => exact passes_write b'.device location value
          | sampler name target texture =>
              have hbind : Passes b'.device
                  (Device.bindTexture b'.device b'.program.textureUnit target texture) :=
                ⟨[.command (.activeTexture (texture0 + b'.program.textureUnit)),
                  .command (.bindTexture (textureTarget target) texture)],
                  List.append_assoc .., by simp [Recorder.Call.Aside]⟩
              exact hbind.trans (passes_write _ location _)

theorem passes_withActive {α : Type} (c : Context (OpenGl (Traced γ)))
    {work : Bound (OpenGl (Traced γ)) → α × Bound (OpenGl (Traced γ))}
    (hwork : ∀ b, Passes b.device (work b).2.device) :
    Passes c.device (c.withActive work).2.device := by
  rw [Context.withActive]
  cases c.activeProgram with
  | error e => exact .refl _ c.device.calls
  | ok active => exact hwork { program := active.2, device := c.device }

theorem passes_releaseStages (c : Context (OpenGl (Traced γ))) :
    Passes c.device c.releaseStages.device := by
  suffices hall : ∀ (entries : List (String × UInt32)) (c : Context (OpenGl (Traced γ))),
      Passes c.device (entries.foldl Context.release c).device from hall c.cache.stages _
  intro entries
  induction entries with
  | nil => exact fun c => .refl _ c.device.calls
  | cons entry rest ih =>
      intro c
      have hdelete : Passes c.device (c.release entry).device :=
        .snoc _ (by simp [Recorder.Call.Aside])
      exact hdelete.trans (ih (c.release entry))

theorem linksRight_serve (c : Context (OpenGl (Traced γ))) (r : Request (OpenGl (Traced γ))) :
    LinksRight c r := by
  have hperform : ∀ ws, Passes c.device (c.perform ws).2.device := fun ws =>
    passes_withActive c fun b => passes_performAll b ws
  cases r with
  | compose shaders =>
      cases shaders with
      | nil => exact Passes.linksRight rfl (.refl _ c.device.calls)
      | cons first rest => exact linksRight_build rfl
  | fixed read program => exact linksRight_build rfl
  | releaseStages => exact Passes.linksRight rfl (passes_releaseStages c)
  | activate id =>
      refine Passes.linksRight rfl ?_
      rw [Context.serve, Context.activate]
      cases c.get? id with
      | none => exact .refl _ c.device.calls
      | some program => exact .snoc _ (by simp [Recorder.Call.Aside])
  | locate name =>
      exact Passes.linksRight rfl (passes_withActive c fun b => passes_resolve b name)
  | set name value => exact Passes.linksRight rfl (hperform [.value name value])
  | bindTexture name target texture =>
      exact Passes.linksRight rfl (hperform [.sampler name target texture])
  | stream aggregate => exact Passes.linksRight rfl (hperform aggregate.writes)

/-- **Nothing leaks.** Over any library, whatever it answers and whatever fails, after every
run the shaders that were created and not deleted are those held, the programs those of the
cache, each of them once if no name is given out while it is in use. Nothing is attached,
nothing was deleted that was not there, and every program of the run was linked with its stages
attached and its attributes bound. -/
theorem clean_serveAll (library : γ) (version : Option Version)
    (requests : List (Request (OpenGl (Traced γ)))) :
    let fresh := Context.fresh (⟨{ inner := library }⟩ : OpenGl (Traced γ)) version
    let c := fresh.serveAll requests
    Clean c ∧
      (Always (fun before call => (objects before).Fresh call) c.device.calls →
        (objects c.device.calls).shaders.Nodup ∧ (objects c.device.calls).programs.Nodup) ∧
      ∀ before r after, requests = before ++ r :: after → LinksRight (fresh.serveAll before) r :=
  ⟨keeps_clean.serveAll (clean_fresh library version) requests, nodup_objects,
    fun _ r _ _ => linksRight_serve _ r⟩

end

/-- Two programs that share a stage, a build that fails between them, a release, and a program
that has the same stage twice. -/
def brokenRun : List (Request (OpenGl (Traced Recorder))) :=
  [ .compose [.empty "lit" .vertex, .empty "white" .fragment],
    .compose [.empty "lit" .vertex, .broken "broken_fsh" .fragment],
    .compose [.empty "lit" .vertex, .empty "dark" .fragment],
    .releaseStages,
    .compose [.empty "lit" .vertex, .empty "lit" .vertex] ]

/-- The programs are numbered 3, 6 and 8; of the shaders only the last is left. -/
theorem clean_brokenRun :
    let library : Recorder := { behaviour := { failCompile := some "broken" } }
    let fresh := Context.fresh (⟨{ inner := library }⟩ : OpenGl (Traced Recorder)) none
    let c := fresh.serveAll brokenRun
    objects c.device.calls = { shaders := [7], programs := [3, 6, 8] } ∧ Clean c ∧
      (fresh.serveAll (brokenRun.take 4)).answer? brokenRun[4] = some ⟨2⟩ ∧
      LinksRight (fresh.serveAll (brokenRun.take 4)) brokenRun[4] := by
  have hrun := clean_serveAll ({ behaviour := { failCompile := some "broken" } } : Recorder) none
    brokenRun
  exact ⟨by decide +kernel, hrun.1, by decide +kernel, hrun.2.2 (brokenRun.take 4) _ [] rfl⟩

end Shaderwright
