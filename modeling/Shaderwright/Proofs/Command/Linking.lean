import Shaderwright.Command.Run
import Shaderwright.Proofs.Command.Numbering
import Shaderwright.Proofs.Config.Order
import Shaderwright.Proofs.Render.Index
import Shaderwright.Proofs.Render.Ledger
import Shaderwright.Proofs.Shader.Growth

/-!
# Linking numbers programs

Programs are linked in order, and each line reports one with its id. Ids count up from zero
by the first appearance of a cache key: a key that is new gets the number of different keys
before it, and a key that is not gets the id it got first. Nothing but a file that cannot be
read stops a run, and then only if the key of its program is new.

What holds after the jobs done so far is `Tally`. It says which keys the index has and
which names the programs have, and that what is held can be had again, so that a part is
answered for by its source alone. A run from there on is described by `Report`.
-/

namespace Shaderwright

/-! ## The stages of a preset -/

namespace Preset

/-- The text that the names of the stages begin with. -/
def stem : Preset → String
  | .basicLit => "basic"
  | .hardShadowLit => "hard_shadow"
  | .shadowDepth => "shadow_depth"

theorem map_shaders (p : Preset) : p.shaders.map (fun s => (s.name, s.stage))
    = [(p.stem ++ "_vsh", .vertex), (p.stem ++ "_fsh", .fragment)] := by
  cases p <;>
    simp [shaders, litSurface, depthPass, stem, (Shader.extends_extendAll ..).name,
      (Shader.extends_extendAll ..).stage, Shader.empty]

theorem shaders_eq_cons (p : Preset) : ∃ first rest, p.shaders = first :: rest := by
  cases p <;> exact ⟨_, _, rfl⟩

/-- The key of a preset's program. -/
def key (p : Preset) : String := composedKey p.shaders

theorem key_eq (p : Preset) : p.key = Text.concat [p.stem ++ "_vsh", p.stem ++ "_fsh"] := by
  have hnames := congrArg (List.map Prod.fst) p.map_shaders
  rw [List.map_map] at hnames
  exact congrArg Text.concat hnames

theorem not_tessellated (p : Preset) : (p.shaders.any fun s => s.stage.isTessellation) = false := by
  have hstages := congrArg (List.any · fun entry => entry.2.isTessellation) p.map_shaders
  rwa [List.any_map] at hstages

theorem key_injective : Function.Injective key := by
  intro p q h
  rw [key_eq, key_eq] at h
  revert h
  cases p <;> cases q <;> decide

end Preset

/-! ## Jobs -/

/-- Why there is no value. -/
def fault? {ε α : Type} : Except ε α → Option ε
  | .ok _ => none
  | .error e => some e

theorem fault?_eq_some_iff {ε α : Type} {result : Except ε α} {e : ε} :
    fault? result = some e ↔ result = .error e := by
  cases result <;> simp [fault?]

namespace Job

/-- The key that the program is kept under. -/
def key : Job → String
  | .preset p => p.key
  | .program _ files => files.cacheKey

/-- The name of the program. -/
def programName : Job → String
  | .preset p => p.key
  | .program _ files => files.name

/-- The stage files of the program. -/
def paths : Job → List String
  | .preset _ => []
  | .program _ files => [files.vertexPath, files.fragmentPath]

/-- The first stage file that cannot be read, and why. -/
def unreadable? (read : Reader) (j : Job) : Option (String × ReadError) :=
  j.paths.findSome? fun path => (fault? (read path)).map fun cause => (path, cause)

/-- A program is to be built that was not built by the jobs before, and a stage file cannot
be read. -/
def Fails (read : Reader) (before : List Job) (j : Job) : Prop :=
  j.key ∉ before.map key ∧ ∃ path ∈ j.paths, ∃ cause, read path = .error cause

theorem fails_iff {read : Reader} {before : List Job} {j : Job} :
    j.Fails read before ↔
      j.key ∉ before.map key ∧ ∃ path cause, j.unreadable? read = some (path, cause) := by
  refine and_congr_right fun _ => ?_
  constructor
  · rintro ⟨path, hpath, cause, hread⟩
    have hsome : (j.unreadable? read).isSome := by
      rw [unreadable?, List.findSome?_isSome_iff]
      exact ⟨path, hpath, by simp [hread, fault?]⟩
    obtain ⟨⟨path, cause⟩, hfirst⟩ := Option.isSome_iff_exists.1 hsome
    exact ⟨path, cause, hfirst⟩
  · rintro ⟨path, cause, hfirst⟩
    obtain ⟨other, hother, hread⟩ := List.exists_of_findSome?_eq_some hfirst
    cases hresult : read other with
    | ok text => simp [hresult, fault?] at hread
    | error cause => exact ⟨other, hother, cause, hresult⟩

/-- The name of the program that is kept under a key: that of the first job with the
key. -/
def nameUnder (jobs : List Job) (key : String) : String :=
  ((jobs.find? fun j => j.key = key).map programName).getD ""

/-- The names of the programs in the order of their ids. -/
def names (jobs : List Job) : List String :=
  (jobs.map key).eraseDups.map (nameUnder jobs)

/-- Some job is the first with a key that there is. -/
theorem exists_find?_key {jobs : List Job} {key : String} (h : key ∈ jobs.map Job.key) :
    ∃ j ∈ jobs, j.key = key ∧ jobs.find? (fun i => i.key = key) = some j := by
  obtain ⟨j, hj, rfl⟩ := List.mem_map.1 h
  have hfound : (jobs.find? fun i => i.key = j.key).isSome := by
    rw [List.find?_isSome]
    exact ⟨j, hj, by simp⟩
  obtain ⟨i, hi⟩ := Option.isSome_iff_exists.1 hfound
  exact ⟨i, List.mem_of_find?_eq_some hi, by simpa using List.find?_some hi, hi⟩

theorem nameUnder_append {jobs : List Job} {key : String} (h : key ∈ jobs.map Job.key)
    (more : List Job) : nameUnder (jobs ++ more) key = nameUnder jobs key := by
  obtain ⟨j, -, -, hj⟩ := exists_find?_key h
  rw [nameUnder, nameUnder, List.find?_append, hj, Option.some_or]

theorem nameUnder_snoc {jobs : List Job} {j : Job} (h : j.key ∉ jobs.map key) :
    nameUnder (jobs ++ [j]) j.key = j.programName := by
  have hnone : jobs.find? (fun i => i.key = j.key) = none := by
    rw [List.find?_eq_none]
    intro i hi
    have hne : i.key ≠ j.key := fun heq => h (heq ▸ List.mem_map_of_mem hi)
    simpa using hne
  rw [nameUnder, List.find?_append, hnone]
  simp

theorem names_snoc (jobs : List Job) (j : Job) :
    names (jobs ++ [j])
      = if j.key ∈ jobs.map key then names jobs else names jobs ++ [j.programName] := by
  have hold : ∀ k ∈ (jobs.map key).eraseDups, nameUnder (jobs ++ [j]) k = nameUnder jobs k :=
    fun k hk => nameUnder_append (List.mem_eraseDups.1 hk) [j]
  rw [names, names, List.map_append, List.map_singleton, eraseDups_snoc]
  split_ifs with h
  · exact List.map_congr_left hold
  · rw [List.map_append, List.map_congr_left hold, List.map_singleton, nameUnder_snoc h]

theorem names_getElem? {jobs : List Job} {j : Job} (h : j ∈ jobs) :
    (names jobs)[(numberOf (jobs.map key) j.key).index]? = some (nameUnder jobs j.key) := by
  rw [names, List.getElem?_map, getElem?_numberOf (List.mem_map_of_mem h), Option.map_some]

/-- The line that reports a job among others. -/
def reported (jobs : List Job) (j : Job) : String :=
  Text.padRight 16 j.label ++ " program " ++ (numberOf (jobs.map key) j.key).text ++ " key=" ++
    nameUnder jobs j.key ++ " topology=" ++ Topology.triangles.label ++ "\n"

theorem reported_append {jobs : List Job} {j : Job} (h : j ∈ jobs) (more : List Job) :
    reported (jobs ++ more) j = reported jobs j := by
  have hkey := List.mem_map_of_mem (f := key) h
  rw [reported, reported, List.map_append, numberOf_append hkey, nameUnder_append hkey]

end Job

/-! ## Parts that can be had -/

namespace Headless

theorem compile_of_accepts {d : Headless} (h : d.rejected = none) (stage : Stage)
    (source : String) : ∃ handle d', d.compile stage source = (.ok handle, d') ∧
      d'.rejected = none := by
  have hrejects : d.rejects source = none := by rw [rejects, h]
  rw [compile, hrejects]
  exact ⟨_, _, rfl, h⟩

theorem linked_compile (c : Context Headless) (key : String) (stage : Stage) (source : String) :
    linked (c.compile key stage source).2.device.calls = linked c.device.calls := by
  rw [Context.compile]
  generalize hcompile : Device.compile (c.record (.compiling key stage)).device stage source = out
  obtain ⟨result, device⟩ := out
  cases result with
  | ok handle =>
      obtain ⟨-, rfl⟩ := compile_eq_ok hcompile
      exact (linked_snoc ..).trans (List.append_nil _)
  | error log =>
      obtain rfl := compile_eq_error hcompile
      rfl

/-- The programs of the cache are linked one by one. -/
theorem linked_build {c : Context Headless}
    (h : linked c.device.calls = c.cache.programs.map Program.handle) (r : Recipe) :
    linked (c.build r).2.device.calls = (c.build r).2.cache.programs.map Program.handle := by
  have hprepared : linked (c.obtainAll r.parts).2.device.calls = linked c.device.calls :=
    Context.obtainAll_rel
      (R := fun c c' : Context Headless => linked c'.device.calls = linked c.device.calls)
      (fun _ => rfl) (fun hab hbc => hbc.trans hab)
      (fun p _ c source _ _ => linked_compile c p.key p.stage source) c
  -- Getting the parts changes neither side.
  have hparts : linked (c.obtainAll r.parts).2.device.calls
      = (c.obtainAll r.parts).2.cache.programs.map Program.handle := by
    rw [hprepared, h, (c.holds_obtainAll r.parts).programs]
  have houtcome := c.outcome_build r
  generalize c.build r = out at houtcome
  cases houtcome with
  | hit hfind => exact h
  | unprepared hfind hobtained => rwa [hobtained] at hparts
  | @unlinked handles c' log device hfind hobtained hlink =>
      obtain rfl : device = c'.device := link_eq_error hlink
      rwa [hobtained] at hparts
  | @linked handles c' program device hfind hobtained hlink =>
      obtain ⟨-, rfl⟩ := link_eq_ok hlink
      have hold : linked c'.device.calls = c'.cache.programs.map Program.handle := by
        rwa [hobtained] at hparts
      simp [Context.keep, Context.record, Headless.record, hold, Call.linked?]

theorem link_of_ne_nil (d : Headless) {stages : List UInt32} (h : stages ≠ [])
    (attributes : List String) : ∃ program d', d.link stages attributes = (.ok program, d') := by
  rw [link, if_neg h]
  exact ⟨_, _, rfl⟩

end Headless

/-- The source of a part can be had exactly if its key is good. -/
def Part.Backed (good : String → Prop) (p : Part) : Prop :=
  (∃ source, p.source = .ok source) ↔ good p.key

/-- Whether an event reports a new program. -/
def Event.isLinked : Event → Bool
  | .linked _ _ _ => true
  | _ => false

/-- No source is rejected, and stages are held under good keys only. -/
structure Steady (good : String → Prop) (c : Context Headless) : Prop where
  accepts : c.device.rejected = none
  held : ∀ key handle, c.cache.stages.lookup key = some handle → good key

/-- A step that links nothing, and comes to what the fault says. -/
structure Comes {α : Type} (good : String → Prop) (c : Context Headless)
    (fault : Option RenderError) (out : Except RenderError α × Context Headless) : Prop where
  fault : fault? out.1 = fault
  steady : Steady good out.2
  quiet : out.2.journal.filter Event.isLinked = c.journal.filter Event.isLinked

section
variable {good : String → Prop} {c : Context Headless}

theorem Steady.compile (h : Steady good c) {key : String} (hkey : good key) (stage : Stage)
    (source : String) : Comes good c none (c.compile key stage source) := by
  obtain ⟨handle, device, hcompile, haccepts⟩ :=
    Headless.compile_of_accepts (d := (c.record (.compiling key stage)).device) h.accepts stage
      source
  have hout : c.compile key stage source = (.ok handle,
      { c.record (.compiling key stage) with device }.holdStage key handle) := by
    have hdevice : Device.compile (c.record (.compiling key stage)).device stage source
        = (.ok handle, device) := hcompile
    rw [Context.compile, hdevice]
  rw [hout]
  refine ⟨rfl, ⟨haccepts, ?_⟩, by simp [Context.holdStage, Context.record, Event.isLinked]⟩
  intro other held hlookup
  rw [Context.holdStage, List.lookup_append] at hlookup
  rcases Option.or_eq_some_iff.1 hlookup with hold | ⟨-, hnew⟩
  · exact h.held other held hold
  · obtain ⟨rfl, -⟩ := Prod.mk.inj (List.mem_singleton.1 (Context.mem_of_lookup hnew))
    exact hkey

theorem Steady.obtain (h : Steady good c) {p : Part} (hp : p.Backed good) :
    Comes good c (fault? p.source) (c.obtain p) := by
  rw [Context.obtain]
  cases hheld : c.cache.stages.lookup p.key with
  | some handle =>
      -- What is held is good, so that its source could be had as well.
      obtain ⟨source, hsource⟩ := hp.2 (h.held p.key handle hheld)
      rw [hsource]
      exact ⟨rfl, h, rfl⟩
  | none =>
      cases hsource : p.source with
      | ok source => exact h.compile (hp.1 ⟨source, hsource⟩) p.stage source
      | error e => exact ⟨rfl, h, rfl⟩

/-- Parts come to the first fault of their sources. -/
theorem Steady.obtainAll (h : Steady good c) {parts : List Part}
    (hparts : ∀ p ∈ parts, p.Backed good) :
    Comes good c (parts.findSome? fun p => fault? p.source) (c.obtainAll parts) := by
  induction parts generalizing c with
  | nil => exact ⟨rfl, h, rfl⟩
  | cons p rest ih =>
      obtain ⟨hp, hrest⟩ := List.forall_mem_cons.1 hparts
      have hfirst := h.obtain hp
      rw [Context.obtainAll, List.findSome?_cons, ← hfirst.fault]
      generalize c.obtain p = out at hfirst
      obtain ⟨result, c'⟩ := out
      cases result with
      | error e => exact ⟨rfl, hfirst.steady, hfirst.quiet⟩
      | ok handle =>
          have hall := ih hfirst.steady hrest
          dsimp only [fault?]
          generalize c'.obtainAll rest = out at hall
          obtain ⟨result, c''⟩ := out
          cases result with
          | error e => exact ⟨hall.fault, hall.steady, hall.quiet.trans hfirst.quiet⟩
          | ok handles => exact ⟨hall.fault, hall.steady, hall.quiet.trans hfirst.quiet⟩

/-- Building a new program comes to the first fault of its parts; without one, it is kept
and reported. -/
theorem Steady.build (h : Steady good c) {r : Recipe} (hparts : ∀ p ∈ r.parts, p.Backed good)
    (hne : r.parts ≠ []) (hnew : c.find? r.key = none) :
    (∃ e, r.parts.findSome? (fun p => fault? p.source) = some e ∧
      Comes good c (some e) (c.build r)) ∨
    (r.parts.findSome? (fun p => fault? p.source) = none ∧ (∃ id, (c.build r).1 = .ok id) ∧
      Steady good (c.build r).2 ∧
      (c.build r).2.journal.filter Event.isLinked = c.journal.filter Event.isLinked ++
        [.linked r.name ⟨c.cache.programs.length⟩ r.topology]) := by
  have hcomes := h.obtainAll hparts
  have hholds := c.holds_obtainAll r.parts
  have hlookup := @Context.lookup_obtainAll _ _ r.parts c
  have houtcome := c.outcome_build r
  generalize c.build r = out at houtcome
  cases houtcome with
  | hit hfind =>
      rw [hnew] at hfind
      exact nomatch hfind
  | unprepared _ hobtain =>
      rw [hobtain] at hcomes
      exact .inl ⟨_, hcomes.fault.symm, ⟨rfl, hcomes.steady, hcomes.quiet⟩⟩
  | @unlinked handles c' log device _ hobtain hlink =>
      have hhandles : handles ≠ [] := by
        rintro rfl
        exact hne (List.map_eq_nil_iff.1 (hlookup (congrArg Prod.fst hobtain)))
      obtain ⟨program, d', hlinked⟩ :=
        Headless.link_of_ne_nil c'.device hhandles r.attributes
      exact nomatch congrArg Prod.fst (hlinked.symm.trans hlink)
  | @linked handles c' program device _ hobtain hlink =>
      rw [hobtain] at hcomes hholds
      have hdevice := (Headless.link_eq_ok hlink).2
      have hlength : c'.cache.programs.length = c.cache.programs.length :=
        congrArg List.length hholds.programs
      refine .inr ⟨hcomes.fault.symm, ⟨_, rfl⟩, ⟨?_, hcomes.steady.held⟩, ?_⟩
      · rw [hdevice]
        exact hcomes.steady.accepts
      · have hquiet : c'.journal.filter Event.isLinked = c.journal.filter Event.isLinked :=
          hcomes.quiet
        simp [Context.keep, Context.record, hquiet, hlength, Event.isLinked]

end

/-! ## The recipe of a job -/

namespace Job

/-- What a job needs can be had exactly under good keys: files that can be read, and stages
that are composed. -/
def Relies (read : Reader) (good : String → Prop) : Job → Prop
  | .preset p => ∀ s ∈ p.shaders, good s.name
  | .program _ files =>
      ∀ path ∈ [files.vertexPath, files.fragmentPath],
        (∃ text, read path = .ok text) ↔ good path

/-- The recipe that a job has built. -/
structure MadeBy (read : Reader) (good : String → Prop) (j : Job) (r : Recipe) : Prop where
  key : r.key = j.key
  name : r.name = j.programName
  topology : r.topology = .triangles
  parts : r.parts ≠ []
  backed : ∀ p ∈ r.parts, p.Backed good
  fault : r.parts.findSome? (fun p => fault? p.source)
    = (j.unreadable? read).map fun entry => .unreadable entry.1 entry.2

theorem backed_partOfFile {read : Reader} {good : String → Prop} {path : String}
    (h : (∃ text, read path = .ok text) ↔ good path) (stage : Stage) :
    (Recipe.partOfFile read stage path).Backed good := by
  rw [Part.Backed, Recipe.partOfFile, ← h]
  cases read path <;> simp

theorem fault?_partOfFile (read : Reader) (stage : Stage) (path : String) :
    fault? (Recipe.partOfFile read stage path).source
      = (fault? (read path)).map (.unreadable path) := by
  rw [Recipe.partOfFile]
  cases read path <;> rfl

theorem madeBy_ofShaders {read : Reader} {good : String → Prop} {p : Preset}
    (h : ∀ s ∈ p.shaders, good s.name) {first : Shader} {rest : List Shader}
    (hshaders : p.shaders = first :: rest) (version : Option Version) :
    MadeBy read good (.preset p) (.ofShaders version first rest) := by
  have hkey : composedKey (first :: rest) = p.key := by rw [Preset.key, hshaders]
  have hflat : ((first :: rest).any fun s => s.stage.isTessellation) = false := by
    rw [← hshaders]
    exact p.not_tessellated
  exact {
    key := hkey
    name := hkey
    topology := by rw [Recipe.ofShaders, hflat]; rfl
    parts := by simp [Recipe.ofShaders]
    backed := by
      intro part hpart
      obtain ⟨s, hs, rfl⟩ := List.mem_map.1 hpart
      have hgood : good s.name := h s (hshaders ▸ hs)
      exact ⟨fun _ => hgood, fun _ => ⟨_, rfl⟩⟩
    fault := by
      refine List.findSome?_eq_none_iff.2 fun part hpart => ?_
      obtain ⟨s, -, rfl⟩ := List.mem_map.1 hpart
      rfl }

theorem madeBy_ofFiles {read : Reader} {good : String → Prop} {name : String}
    {files : FileProgram} (h : Relies read good (.program name files)) :
    MadeBy read good (.program name files) (.ofFiles read files) where
  key := rfl
  name := rfl
  topology := rfl
  parts := by simp [Recipe.ofFiles]
  backed := by
    intro part hpart
    rcases List.mem_pair.1 hpart with rfl | rfl
    · exact backed_partOfFile (h _ (by simp)) .vertex
    · exact backed_partOfFile (h _ (by simp)) .fragment
  fault := by
    simp only [Recipe.ofFiles, unreadable?, paths, List.findSome?_cons, List.findSome?_nil,
      fault?_partOfFile]
    cases read files.vertexPath <;> cases read files.fragmentPath <;> rfl

theorem exists_madeBy {read : Reader} {good : String → Prop} {j : Job} (h : j.Relies read good)
    (c : Context Headless) :
    ∃ r : Recipe, j.build read c = c.build r ∧ j.MadeBy read good r := by
  cases j with
  | preset p =>
      obtain ⟨first, rest, hshaders⟩ := p.shaders_eq_cons
      refine ⟨.ofShaders c.cache.version first rest, ?_, madeBy_ofShaders h hshaders _⟩
      rw [build, hshaders]
      rfl
  | program name files => exact ⟨.ofFiles read files, rfl, madeBy_ofFiles h⟩

end Job

/-! ## Jobs that are done -/

/-- What the jobs done so far have built: a program for each different key, with one link of
the device. -/
structure Built (done : List Job) (c : Context Headless) : Prop where
  programs : (c.cache.programs.map fun p => (p.name, p.topology))
    = (Job.names done).map fun name => (name, .triangles)
  linked : c.journal.filter Event.isLinked
    = (Job.names done).zipIdx.map fun (name, i) => .linked name ⟨i⟩ .triangles
  links : Headless.linked c.device.calls = c.cache.programs.map Program.handle

/-- What has come of the jobs done so far. -/
structure Tally (good : String → Prop) (done : List Job) (c : Context Headless) : Prop
    extends Built done c where
  steady : Steady good c
  indexed : c.Indexed
  keys : c.cache.index.map Prod.fst = (done.map Job.key).eraseDups

theorem tally_fresh (good : String → Prop) (version : Option Version) :
    Tally good [] (Context.fresh {} version) where
  steady := ⟨rfl, fun _ _ h => nomatch h⟩
  indexed := Context.indexed_fresh ..
  keys := rfl
  programs := rfl
  linked := rfl
  links := rfl

namespace Tally

variable {read : Reader} {good : String → Prop} {done : List Job} {c : Context Headless}
  {j : Job}

theorem find?_eq_some (h : Tally good done c) {key : String} (hkey : key ∈ done.map Job.key) :
    c.find? key = some (numberOf (done.map Job.key) key) := by
  rw [h.indexed.find?_eq_some_iff]
  -- The index has the keys in order, and numbers them in order.
  have hfst := getElem?_numberOf hkey
  rw [← h.keys, List.getElem?_map] at hfst
  obtain ⟨⟨found, id⟩, hentry, rfl⟩ := Option.map_eq_some_iff.1 hfst
  have hsnd :
      (c.cache.index.map Prod.snd)[(numberOf (done.map Job.key) found).index]? = some id := by
    rw [List.getElem?_map, hentry, Option.map_some]
  rw [h.indexed.ids, List.getElem?_map] at hsnd
  obtain ⟨i, hi, rfl⟩ := Option.map_eq_some_iff.1 hsnd
  obtain rfl : (numberOf (done.map Job.key) found).index = i := by
    simpa using (List.getElem?_eq_some_iff.1 hi).2
  exact hentry

theorem find?_eq_none (h : Tally good done c) {key : String} (hkey : key ∉ done.map Job.key) :
    c.find? key = none := by
  rw [Context.find?, List.lookup_eq_none_iff]
  intro entry hentry
  have hmem : entry.1 ∈ done.map Job.key := by
    rw [← List.mem_eraseDups, ← h.keys]
    exact List.mem_map_of_mem hentry
  simpa using fun heq : key = entry.1 => hkey (heq ▸ hmem)

theorem get? (h : Tally good done c) (hj : j ∈ done) :
    ∃ p, c.get? (numberOf (done.map Job.key) j.key) = some p ∧
      p.name = Job.nameUnder done j.key ∧ p.topology = .triangles := by
  have hplace := congrArg (·[(numberOf (done.map Job.key) j.key).index]?) h.programs
  simp only [List.getElem?_map, Job.names_getElem? hj, Option.map_some] at hplace
  obtain ⟨p, hget, heq⟩ := Option.map_eq_some_iff.1 hplace
  exact ⟨p, hget, congrArg Prod.fst heq, congrArg Prod.snd heq⟩

theorem line (h : Tally good done c) (hj : j ∈ done) :
    ∃ p, c.get? (numberOf (done.map Job.key) j.key) = some p ∧
      j.line (numberOf (done.map Job.key) j.key) p = j.reported done := by
  obtain ⟨p, hget, hname, htopology⟩ := h.get? hj
  refine ⟨p, hget, ?_⟩
  rw [Job.line, Job.reported, hname, htopology]

/-- A job with a key that was there before. -/
theorem again (h : Tally good done c) (hj : j.key ∈ done.map Job.key) (e : Event)
    (he : e.isLinked = false) : Tally good (done ++ [j]) (c.record e) where
  steady := ⟨h.steady.accepts, h.steady.held⟩
  indexed := Context.keeps_indexed.record h.indexed e
  keys := by
    rw [List.map_append, List.map_singleton, eraseDups_snoc, if_pos hj]
    exact h.keys
  programs := by
    rw [Job.names_snoc, if_pos hj]
    exact h.programs
  linked := by
    rw [Job.names_snoc, if_pos hj, ← h.linked]
    simp [Context.record, he]
  links := h.links

theorem length_programs (h : Tally good done c) :
    c.cache.programs.length = (done.map Job.key).eraseDups.length := by
  simpa [Job.names] using congrArg List.length h.programs

/-- A job with a new key, once it is built. -/
theorem newly (h : Tally good done c) (hkey : j.key ∉ done.map Job.key) {r : Recipe}
    (hr : j.MadeBy read good r) (hsteady : Steady good (c.build r).2)
    (hlinked : (c.build r).2.journal.filter Event.isLinked = c.journal.filter Event.isLinked ++
      [.linked r.name ⟨c.cache.programs.length⟩ r.topology])
    {handle : Device.ProgramHandle Headless}
    (hindex : (c.build r).2.cache.index
      = c.cache.index ++ [(r.key, ⟨c.cache.programs.length⟩)])
    (hprograms : (c.build r).2.cache.programs
      = c.cache.programs ++ [{ handle, topology := r.topology, name := r.name }]) :
    Tally good (done ++ [j]) (c.build r).2 where
  steady := hsteady
  indexed := Context.keeps_indexed.build h.indexed r
  keys := by
    rw [hindex, List.map_append, h.keys, List.map_append, List.map_singleton, List.map_singleton,
      eraseDups_snoc, if_neg hkey, hr.key]
  programs := by
    rw [hprograms, List.map_append, h.programs, Job.names_snoc, if_neg hkey, List.map_append,
      List.map_singleton, List.map_singleton, hr.name, hr.topology]
  linked := by
    have hlength : (Job.names done).length = c.cache.programs.length := by
      simpa using (congrArg List.length h.programs).symm
    rw [hlinked, h.linked, Job.names_snoc, if_neg hkey, List.zipIdx_append, List.map_append,
      hr.name, hr.topology, Nat.zero_add, hlength]
    rfl
  links := Headless.linked_build h.links r

/-- A job that comes to nothing. -/
theorem unbuilt (h : Tally good done c) {r : Recipe} {e : RenderError}
    (hcomes : Comes good c (some e) (c.build r)) : Built done (c.build r).2 where
  programs := by
    rw [(Context.holds_build (fault?_eq_some_iff.1 hcomes.fault)).programs]
    exact h.programs
  linked := hcomes.quiet.trans h.linked
  links := Headless.linked_build h.links r

/-- **One job.** A job whose key is not new is answered from the index; any other comes to
the first of its files that cannot be read, or to a program with the next number. -/
theorem build (h : Tally good done c) (hj : j.Relies read good) :
    (∃ c', j.build read c = (.ok (numberOf ((done ++ [j]).map Job.key) j.key), c') ∧
      ¬ j.Fails read done ∧ Tally good (done ++ [j]) c') ∨
    (∃ path cause c', j.build read c = (.error (.unreadable path cause), c') ∧
      j.Fails read done ∧ j.unreadable? read = some (path, cause) ∧ Built done c') := by
  obtain ⟨r, hbuild, hr⟩ := Job.exists_madeBy hj c
  rw [hbuild, List.map_append, List.map_singleton]
  by_cases hkey : j.key ∈ done.map Job.key
  · have hfind := h.find?_eq_some hkey
    refine .inl ⟨c.record (.cacheHit j.key), ?_, fun hfails => hfails.1 hkey, h.again hkey _ rfl⟩
    rw [Context.build, hr.key, hfind, numberOf_append hkey]
  · have hnew : c.find? r.key = none := hr.key ▸ h.find?_eq_none hkey
    rcases h.steady.build hr.backed hr.parts hnew with
      ⟨e, hfault, hcomes⟩ | ⟨hfault, ⟨id, hid⟩, hsteady, hlinked⟩
    · rw [hr.fault] at hfault
      obtain ⟨⟨path, cause⟩, hunreadable, rfl⟩ := Option.map_eq_some_iff.1 hfault
      exact .inr ⟨path, cause, (c.build r).2,
        Prod.ext (fault?_eq_some_iff.1 hcomes.fault) rfl,
        Job.fails_iff.2 ⟨hkey, path, cause, hunreadable⟩, hunreadable, h.unbuilt hcomes⟩
    · rcases c.build_cases r with ⟨found, hfound, -⟩ | ⟨-, ⟨e, herror⟩, -⟩ |
        ⟨-, handle, hok, hindex, hprograms⟩
      · rw [hnew] at hfound
        cases hfound
      · rw [hid] at herror
        cases herror
      · refine .inl ⟨(c.build r).2, Prod.ext ?_ rfl, ?_, h.newly hkey hr hsteady hlinked hindex
          hprograms⟩
        · rw [hok, numberOf_of_new hkey [], h.length_programs]
        · intro hfails
          obtain ⟨-, path, cause, hunreadable⟩ := Job.fails_iff.1 hfails
          rw [hr.fault, hunreadable] at hfault
          cases hfault

end Tally

/-! ## Runs -/

/-- What linking jobs comes to, after others that are done: lines for the jobs up to the
first that fails, and then its failure. The context is the one that is left. -/
structure Report (read : Reader) (done jobs printed rest : List Job) (o : Outcome)
    (c : Context Headless) : Prop where
  split : jobs = printed ++ rest
  output : o.output = Text.concat (printed.map (Job.reported (done ++ printed)))
  works : Always (fun before j => ¬ j.Fails read (done ++ before)) printed
  finished : rest = [] → o.failure = none
  failed : ∀ j after, rest = j :: after → j.Fails read (done ++ printed) ∧
    ∃ path cause, j.unreadable? read = some (path, cause) ∧
      o.failure = some ⟨j.failureMessage, (RenderError.unreadable path cause).causes⟩
  linked : o.events.filter Event.isLinked
    = (Job.names (done ++ printed)).zipIdx.map fun (name, i) => .linked name ⟨i⟩ .triangles
  built : Built (done ++ printed) c

/-- A run that is over before any of the jobs is done. -/
theorem Built.report {read : Reader} {done jobs : List Job} {o : Outcome} {c : Context Headless}
    (h : Built done c) (houtput : o.output = "") (hevents : o.events = c.journal)
    (hfinished : jobs = [] → o.failure = none)
    (hfailed : ∀ j after, jobs = j :: after → j.Fails read done ∧
      ∃ path cause, j.unreadable? read = some (path, cause) ∧
        o.failure = some ⟨j.failureMessage, (RenderError.unreadable path cause).causes⟩) :
    Report read done jobs [] jobs o c := by
  have hdone : done ++ [] = done := List.append_nil done
  exact {
    split := rfl
    output := houtput
    works := always_nil
    finished := hfinished
    failed := by
      rw [hdone]
      exact hfailed
    linked := by
      rw [hdone, hevents]
      exact h.linked
    built := by
      rw [hdone]
      exact h }

/-- One more job that works, before all others. -/
theorem Report.cons {read : Reader} {done jobs printed rest : List Job} {j : Job} {o : Outcome}
    {c : Context Headless} (h : Report read (done ++ [j]) jobs printed rest o c)
    (hj : ¬ j.Fails read done) :
    Report read done (j :: jobs) (j :: printed) rest
      { o with output := j.reported (done ++ [j]) ++ o.output } c := by
  have hassoc : done ++ [j] ++ printed = done ++ j :: printed := by simp
  exact {
    split := by rw [h.split, List.cons_append]
    output := by
      -- What is printed of the job does not change with the jobs behind it.
      have hmem : j ∈ done ++ [j] := by simp
      have hfirst := Job.reported_append hmem printed
      rw [hassoc] at hfirst
      rw [List.map_cons, Text.concat, hfirst, h.output, hassoc]
    works := by
      intro before i after hsplit
      cases before with
      | nil =>
          obtain ⟨rfl, -⟩ := List.cons.inj hsplit
          rwa [List.append_nil]
      | cons first before =>
          obtain ⟨rfl, htail⟩ := List.cons.inj hsplit
          have hlater := h.works before i after htail
          simpa using hlater
    finished := h.finished
    failed := by
      rw [← hassoc]
      exact h.failed
    linked := by
      rw [← hassoc]
      exact h.linked
    built := by
      rw [← hassoc]
      exact h.built }

/-- A job that works prints its line before all others. -/
theorem Job.linkAll_cons {read : Reader} {c c' : Context Headless} {j : Job} {id : ProgramId}
    {p : Program Headless} (hbuild : j.build read c = (.ok id, c')) (hget : c'.get? id = some p)
    (jobs : List Job) : Job.linkAll read c (j :: jobs) =
      ({ (Job.linkAll read c' jobs).1 with
        output := j.line id p ++ (Job.linkAll read c' jobs).1.output },
        (Job.linkAll read c' jobs).2) := by
  rw [Job.linkAll, hbuild]
  dsimp only
  rw [hget]

/-- **A run reports every job up to the first that fails.** -/
theorem Tally.report {read : Reader} {good : String → Prop} {done : List Job}
    {c : Context Headless} (h : Tally good done c) {jobs : List Job}
    (hjobs : ∀ j ∈ jobs, j.Relies read good) :
    ∃ printed rest, Report read done jobs printed rest (Job.runAll read c jobs)
      (Job.linkAll read c jobs).2 := by
  induction jobs generalizing done c with
  | nil =>
      exact ⟨[], [], h.toBuilt.report rfl rfl (fun _ => rfl) fun _ _ hrest => nomatch hrest⟩
  | cons j jobs ih =>
      obtain ⟨hj, hjobs⟩ := List.forall_mem_cons.1 hjobs
      rcases h.build hj with ⟨c', hbuild, hworks, hnext⟩ |
        ⟨path, cause, c', hbuild, hfails, hunreadable, hbuilt⟩
      · obtain ⟨printed, rest, hreport⟩ := ih hnext hjobs
        have hmem : j ∈ done ++ [j] := by simp
        obtain ⟨p, hget, hline⟩ := hnext.line hmem
        rw [Job.runAll, Job.linkAll_cons hbuild hget, hline]
        exact ⟨j :: printed, rest, hreport.cons hworks⟩
      · refine ⟨[], j :: jobs, ?_⟩
        rw [Job.runAll, Job.linkAll, hbuild]
        refine hbuilt.report rfl rfl (fun hrest => nomatch hrest) ?_
        rintro i after hrest
        obtain ⟨rfl, -⟩ := List.cons.inj hrest
        exact ⟨hfails, path, cause, hunreadable, rfl⟩

/-! ## The programs of a configuration -/

namespace Config

theorem exists_program? {c : Config} {name : String} (h : name ∈ c.programNames) :
    ∃ files, c.program? name = some files := by
  rw [← Option.isSome_iff_exists, program?, Option.isSome_map]
  obtain ⟨entry, hentry, rfl⟩ := List.mem_map.1 h
  by_contra hnone
  rw [Option.not_isSome_iff_eq_none, List.lookup_eq_none_iff] at hnone
  simpa using hnone entry hentry

/-- Programs are listed under all names, in their order. -/
theorem map_fst_fileProgramList (c : Config) : c.fileProgramList.map Prod.fst = c.programNames := by
  suffices h : ∀ names : List String, (∀ name ∈ names, name ∈ c.programNames) →
      (names.filterMap fun name => (c.program? name).map fun p => (name, p)).map Prod.fst = names
    from h c.programNames fun _ hname => hname
  intro names
  induction names with
  | nil => exact fun _ => rfl
  | cons name names ih =>
      intro hnames
      obtain ⟨hname, hnames⟩ := List.forall_mem_cons.1 hnames
      obtain ⟨files, hfiles⟩ := exists_program? hname
      rw [List.filterMap_cons, hfiles, Option.map_some, List.map_cons, ih hnames]

theorem program?_of_mem {c : Config} {name : String} {files : FileProgram}
    (h : (name, files) ∈ c.fileProgramList) : c.program? name = some files := by
  obtain ⟨other, -, hother⟩ := List.mem_filterMap.1 h
  obtain ⟨p, hp, heq⟩ := Option.map_eq_some_iff.1 hother
  obtain ⟨rfl, rfl⟩ := Prod.mk.inj heq
  exact hp

theorem bytes_programNames {read : Reader} {path : String} {c : Config}
    (h : load read path = .ok c) :
    c.programNames.Pairwise fun a b => Text.bytes a < Text.bytes b :=
  (sorted_load h).imp Text.bytes_lt_iff.2

end Config

/-! ## Presets -/

namespace Preset

theorem map_key_preset (ps : List Preset) : (ps.map Job.preset).map Job.key = ps.map key := by
  rw [List.map_map]
  rfl

/-- A preset's program is named as its key. -/
theorem nameUnder_preset {ps : List Preset} {p : Preset} (h : p ∈ ps) :
    Job.nameUnder (ps.map .preset) p.key = p.key := by
  have hmem : p.key ∈ (ps.map Job.preset).map Job.key := by
    rw [map_key_preset]
    exact List.mem_map_of_mem h
  obtain ⟨j, hj, hkey, hfirst⟩ := Job.exists_find?_key hmem
  obtain ⟨q, -, rfl⟩ := List.mem_map.1 hj
  rw [Job.nameUnder, hfirst]
  exact hkey

theorem names_preset (ps : List Preset) : Job.names (ps.map .preset) = ps.eraseDups.map key := by
  rw [Job.names, map_key_preset, eraseDups_map key_injective, List.map_map]
  exact List.map_congr_left fun p hp => nameUnder_preset (List.mem_eraseDups.1 hp)

/-- The line that reports a preset among others. -/
def line (ps : List Preset) (p : Preset) : String :=
  Text.padRight 16 p.name ++ " program " ++ (numberOf ps p).text ++ " key=" ++ p.key ++
    " topology=" ++ Topology.triangles.label ++ "\n"

theorem reported_preset {ps : List Preset} {p : Preset} (h : p ∈ ps) :
    Job.reported (ps.map .preset) (.preset p) = line ps p := by
  have hkey : (Job.preset p).key = p.key := rfl
  rw [Job.reported, hkey, map_key_preset, numberOf_map key_injective, nameUnder_preset h, line,
    Job.label]

end Preset

/-! ## The command -/

namespace Command

/-- The programs of a configuration as jobs. -/
def jobsOf (c : Config) : List Job := c.fileProgramList.map fun (name, files) => .program name files

/-- The context in which the programs of a configuration were linked. -/
def linkedConfig (read : Reader) (version : Option Version) (c : Config) : Context Headless :=
  (Job.linkAll read (.fresh {} (version.or c.glslVersion)) (jobsOf c)).2

/-- The context in which presets were linked. -/
def linkedPresets (read : Reader) (version : Option Version) (ps : List Preset) :
    Context Headless :=
  (Job.linkAll read (.fresh {} version) (ps.map .preset)).2

/-- The run of a configuration reports that it was loaded, and then what that context wrote
down. -/
theorem run_linkConfig {read : Reader} {file : Option String} {c : Config}
    (hload : Config.load read (file.getD defaultConfigFile) = .ok c) (hc : c.programs ≠ [])
    (version : Option Version) :
    run read (.link [] file version)
      = { Job.runAll read (.fresh {} (version.or c.glslVersion)) (jobsOf c) with
        events := .configLoaded (file.getD defaultConfigFile) c.shaderDir c.programs.length ::
          (linkedConfig read version c).journal } := by
  have hempty : c.programs.isEmpty = false := by simpa using hc
  rw [run, withConfig, hload]
  dsimp only
  rw [linkConfig, hempty, if_neg Bool.false_ne_true]
  rfl

theorem run_linkPresets (read : Reader) {ps : List Preset} (hps : ps ≠ [])
    (file : Option String) (version : Option Version) :
    run read (.link ps file version)
      = Job.runAll read (.fresh {} version) (ps.map .preset) := by
  obtain ⟨first, others, rfl⟩ := List.exists_cons_of_ne_nil hps
  rfl

theorem report_linkConfig {read : Reader} {file : Option String} {c : Config}
    (hload : Config.load read (file.getD defaultConfigFile) = .ok c) (hc : c.programs ≠ [])
    (version : Option Version) :
    ∃ printed rest,
      Report read [] (jobsOf c) printed rest (run read (.link [] file version))
        (linkedConfig read version c) := by
  have hjobs : ∀ j ∈ jobsOf c, j.Relies read fun path => ∃ text, read path = .ok text := by
    intro j hj
    obtain ⟨⟨name, files⟩, -, rfl⟩ := List.mem_map.1 hj
    exact fun _ _ => Iff.rfl
  obtain ⟨printed, rest, hreport⟩ := (tally_fresh _ (version.or c.glslVersion)).report hjobs
  refine ⟨printed, rest, ?_⟩
  rw [run_linkConfig hload hc version]
  exact { hreport with }

theorem report_linkPresets (read : Reader) {ps : List Preset} (hps : ps ≠ [])
    (file : Option String) (version : Option Version) :
    Report read [] (ps.map .preset) (ps.map .preset) [] (run read (.link ps file version))
      (linkedPresets read version ps) := by
  have hjobs : ∀ j ∈ ps.map Job.preset, j.Relies read fun _ => True := by
    intro j hj
    obtain ⟨p, -, rfl⟩ := List.mem_map.1 hj
    exact fun _ _ => trivial
  obtain ⟨printed, rest, hreport⟩ := (tally_fresh _ version).report hjobs
  -- A preset has no files that could be missing.
  have hrest : rest = [] := by
    cases rest with
    | nil => rfl
    | cons j after =>
        have hj : j ∈ ps.map Job.preset := by simp [hreport.split]
        obtain ⟨p, -, rfl⟩ := List.mem_map.1 hj
        obtain ⟨⟨-, path, hpath, -⟩, -⟩ := hreport.failed _ after rfl
        exact nomatch hpath
  subst hrest
  have hprinted : printed = ps.map .preset := by
    rw [hreport.split, List.append_nil]
  rw [hprinted] at hreport
  rw [run_linkPresets read hps file version]
  exact hreport

/-- **Programs are numbered by first appearance.** The programs of a configuration are
linked in the order of the bytes of their names, up to the first that fails, and presets in
the order in which they are given. For each different key the device links one program. -/
theorem numberedByAppearance_link :
    (∀ (read : Reader) (file : Option String) (version : Option Version) (c : Config),
      Config.load read (file.getD defaultConfigFile) = .ok c → c.programs ≠ [] →
      (jobsOf c).map Job.label = c.programNames ∧
      c.programNames.Pairwise (fun a b => Text.bytes a < Text.bytes b) ∧
      (∀ name files, .program name files ∈ jobsOf c → c.program? name = some files) ∧
      (run read (.link [] file version)).events
        = .configLoaded (file.getD defaultConfigFile) c.shaderDir c.programs.length ::
          (linkedConfig read version c).journal ∧
      ∃ printed rest,
        Report read [] (jobsOf c) printed rest (run read (.link [] file version))
          (linkedConfig read version c) ∧
        NumberedByAppearance (printed.map Job.key)
          (printed.map fun j => numberOf (printed.map Job.key) j.key)) ∧
    (∀ (read : Reader) (ps : List Preset) (file : Option String) (version : Option Version),
      ps ≠ [] →
      (run read (.link ps file version)).failure = none ∧
      (run read (.link ps file version)).output = Text.concat (ps.map (Preset.line ps)) ∧
      NumberedByAppearance ps (ps.map (numberOf ps)) ∧
      (∀ p ∈ ps, ∀ q ∈ ps, numberOf ps p = numberOf ps q ↔ p = q) ∧
      (run read (.link ps file version)).events.filter Event.isLinked
        = (ps.eraseDups.zipIdx.map fun (p, i) => .linked p.key ⟨i⟩ .triangles) ∧
      (run read (.link ps file version)).events = (linkedPresets read version ps).journal ∧
      (linkedPresets read version ps).cache.programs.map Program.name
        = ps.eraseDups.map Preset.key ∧
      Headless.linked (linkedPresets read version ps).device.calls
        = (linkedPresets read version ps).cache.programs.map Program.handle) := by
  constructor
  · intro read file version c hload hc
    obtain ⟨printed, rest, hreport⟩ := report_linkConfig hload hc version
    refine ⟨?_, Config.bytes_programNames hload, ?_, ?_, printed, rest, hreport, ?_⟩
    · rw [jobsOf, List.map_map, ← c.map_fst_fileProgramList]
      rfl
    · intro name files hmem
      obtain ⟨⟨other, p⟩, hentry, heq⟩ := List.mem_map.1 hmem
      obtain ⟨rfl, rfl⟩ := Job.program.inj heq
      exact Config.program?_of_mem hentry
    · rw [run_linkConfig hload hc version]
    · have hnumbered := numberedByAppearance_map (printed.map Job.key)
      rwa [List.map_map] at hnumbered
  · intro read ps file version hps
    have hreport := report_linkPresets read hps file version
    refine ⟨hreport.finished rfl, ?_, numberedByAppearance_map ps,
      fun p hp q _ => numberOf_inj hp, ?_, ?_, ?_, hreport.built.links⟩
    · rw [hreport.output, List.nil_append, List.map_map]
      exact congrArg Text.concat (List.map_congr_left fun p hp => Preset.reported_preset hp)
    · rw [hreport.linked, List.nil_append, Preset.names_preset, List.zipIdx_map, List.map_map]
      rfl
    · rw [run_linkPresets read hps file version]
      rfl
    · have hnames := congrArg (List.map Prod.fst) hreport.built.programs
      rw [List.map_map, List.map_map, List.nil_append, Preset.names_preset] at hnames
      exact hnames.trans (List.map_id _)

/-- Three programs, not in order. Two are built from the same files, and the third from a
file that is not there. -/
def sharedText : String :=
  "version=1\nprograms.b=\x7bvertex=\"m\",fragment=\"m\"\x7d\n" ++
    "programs.a=\x7bvertex=\"m\",fragment=\"m\"\x7d\n" ++
    "programs.c=\x7bvertex=\"m\",fragment=\"gone\"\x7d\n"

def sharedFiles : Reader := fun path =>
  if path = "seen.toml" then .ok sharedText
  else if path = "./data/m" then .ok "void main() \x7b\x7d\n"
  else .error .missing

def sharedConfig : Config where
  version := 1
  programs := [("a", ⟨"m", "m", none⟩), ("b", ⟨"m", "m", none⟩), ("c", ⟨"m", "gone", none⟩)]

set_option maxRecDepth 20000 in
theorem load_sharedFiles : Config.load sharedFiles "seen.toml" = .ok sharedConfig :=
  toOption_eq_some_iff.1 (by decide +kernel)

theorem numberedByAppearance_link_sharedFiles :
    (Config.load sharedFiles "seen.toml" = .ok sharedConfig ∧ sharedConfig.programs ≠ [] ∧
      (jobsOf sharedConfig).map Job.label = ["a", "b", "c"] ∧
      ∃ printed rest,
        Report sharedFiles [] (jobsOf sharedConfig) printed rest
          (run sharedFiles (.link [] none none)) (linkedConfig sharedFiles none sharedConfig)) ∧
    (let ps : List Preset := [.shadowDepth, .basicLit, .shadowDepth]
     ps ≠ [] ∧ NumberedByAppearance ps [⟨0⟩, ⟨1⟩, ⟨0⟩] ∧
      (run sharedFiles (.link ps none none)).output = Text.concat (ps.map (Preset.line ps)) ∧
      (Headless.linked (linkedPresets sharedFiles none ps).device.calls).length = 2) := by
  have hprograms : sharedConfig.programs ≠ [] := by simp [sharedConfig]
  obtain ⟨hlabels, -, -, -, printed, rest, hreport, -⟩ :=
    numberedByAppearance_link.1 sharedFiles none none sharedConfig load_sharedFiles hprograms
  obtain ⟨-, houtput, hnumbered, -, -, -, hnames, hlinks⟩ :=
    numberedByAppearance_link.2 sharedFiles [.shadowDepth, .basicLit, .shadowDepth] none none
      (List.cons_ne_nil _ _)
  have hcount := congrArg List.length hnames
  rw [List.length_map, ← List.length_map Program.handle, ← hlinks] at hcount
  exact ⟨⟨load_sharedFiles, hprograms, hlabels, printed, rest, hreport⟩,
    List.cons_ne_nil _ _, hnumbered, houtput, hcount⟩

example : (linkConfig sharedFiles "seen.toml" none sharedConfig).failure
    = some ⟨"failed to link program 'c'",
        ["failed to read shader at ./data/gone: No such file or directory (os error 2)",
          "No such file or directory (os error 2)"]⟩ := by
  decide +kernel

end Command

end Shaderwright
