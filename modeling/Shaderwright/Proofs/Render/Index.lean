import Mathlib.Data.List.Induction
import Mathlib.Data.List.Nodup
import Shaderwright.Proofs.History
import Shaderwright.Proofs.Render.Compiling
import Shaderwright.Proofs.Results
import Shaderwright.Render.Headless

/-!
# Keys and program ids

On any device, and whatever is asked of a context and fails in it, the index of its
cache pairs the keys that were built with the ids `0, 1, 2, ...` of the programs, in the
order in which they were built. Nothing is taken out of it: an id stands for its program
for good, and a key that is there is answered from the index alone.

Two lists of composed stages therefore share a program exactly if their names, put in a
row, spell the same key.
-/

namespace Shaderwright

variable {δ : Type} [Device δ]

/-! ## What is asked for and answered -/

/-- The key of composed stages: their names in a row. -/
def composedKey (shaders : List Shader) : String := Text.concat (shaders.map Shader.name)

/-- The key under which a program is asked for. -/
def Request.key? : Request δ → Option String
  | .compose [] => none
  | .compose (first :: rest) => some (composedKey (first :: rest))
  | .fixed _ program => some program.cacheKey
  | _ => none

/-- The program that a request for one is answered with, unless it fails. -/
def Context.answer? (c : Context δ) : Request δ → Option ProgramId
  | .compose shaders => (c.compose shaders).1.toOption
  | .fixed read program => (c.fixed read program).1.toOption
  | _ => none

/-- Somewhere in a run, a program was asked for under the key and answered with the
id. -/
def Context.Answered (c : Context δ) (requests : List (Request δ)) (key : String)
    (id : ProgramId) : Prop :=
  Happened (fun before r => r.key? = some key ∧ (c.serveAll before).answer? r = some id) requests

namespace Context

/-! ## Building one program -/

/-- What building can come to: a hit, a failure, or a new program at the end of the
list. -/
theorem build_cases (c : Context δ) (r : Recipe) :
    (∃ id, c.find? r.key = some id ∧ c.build r = (.ok id, c.record (.cacheHit r.key))) ∨
    (c.find? r.key = none ∧ (∃ e, (c.build r).1 = .error e) ∧
      (c.build r).2.cache.index = c.cache.index ∧
      (c.build r).2.cache.programs = c.cache.programs) ∨
    (c.find? r.key = none ∧ ∃ handle, (c.build r).1 = .ok ⟨c.cache.programs.length⟩ ∧
      (c.build r).2.cache.index = c.cache.index ++ [(r.key, ⟨c.cache.programs.length⟩)] ∧
      (c.build r).2.cache.programs
        = c.cache.programs ++ [{ handle, topology := r.topology, name := r.name }]) := by
  have hholds := c.holds_obtainAll r.parts
  have houtcome := c.outcome_build r
  generalize c.build r = out at houtcome
  cases houtcome with
  | hit hfind => exact .inl ⟨_, hfind, rfl⟩
  | unprepared hfind hparts | unlinked hfind hparts hlink =>
      rw [hparts] at hholds
      exact .inr (.inl ⟨hfind, ⟨_, rfl⟩, hholds.index, hholds.programs⟩)
  | @linked handles c' handle device hfind hparts hlink =>
      rw [hparts] at hholds
      have hindex : c'.cache.index = c.cache.index := hholds.index
      have hprograms : c'.cache.programs = c.cache.programs := hholds.programs
      exact .inr (.inr ⟨hfind, handle, by simp [keep, Context.record, hindex, hprograms]⟩)

/-! ## The numbering -/

/-- The index numbers the programs in the order in which they were built, no stage is
held twice, and the active program is there. -/
structure Indexed (c : Context δ) : Prop where
  keys : (c.cache.index.map Prod.fst).Nodup
  ids : c.cache.index.map Prod.snd = (List.range c.cache.programs.length).map ProgramId.mk
  stages : (c.cache.stages.map Prod.fst).Nodup
  active : ∀ id, c.active = some id → id.index < c.cache.programs.length

theorem indexed_fresh (device : δ) (version : Option Version) :
    (fresh device version).Indexed where
  keys := List.nodup_nil
  ids := rfl
  stages := List.nodup_nil
  active := fun _ h => nomatch h

/-- A list of pairs in which a key is missing may take it. -/
theorem nodup_keys_snoc {α : Type} {entries : List (String × α)}
    (h : (entries.map Prod.fst).Nodup) {key : String} (hkey : entries.lookup key = none) (a : α) :
    ((entries ++ [(key, a)]).map Prod.fst).Nodup := by
  rw [List.map_append]
  exact List.nodup_append_comm.2 (List.nodup_cons.2 ⟨not_mem_of_lookup hkey, h⟩)

/-- Without repeated keys, every entry is found. -/
theorem lookup_of_mem {α β : Type} [BEq α] [LawfulBEq α] {entries : List (α × β)} {a : α} {b : β}
    (h : (entries.map Prod.fst).Nodup) (hmem : (a, b) ∈ entries) :
    entries.lookup a = some b := by
  obtain ⟨before, after, rfl⟩ := List.append_of_mem hmem
  rw [List.map_append, List.map_cons, List.nodup_append] at h
  refine List.lookup_eq_some_iff.2 ⟨before, after, rfl, fun entry hentry => ?_⟩
  have hne := h.2.2 entry.1 (List.mem_map_of_mem hentry) a (List.mem_cons_self ..)
  simpa using Ne.symm hne

theorem keeps_indexed : Keeps (δ := δ) Indexed where
  journal c events h := ⟨h.keys, h.ids, h.stages, h.active⟩
  compiled c key stage source handle device h hkey hcompile :=
    ⟨h.keys, h.ids, nodup_keys_snoc h.stages hkey handle, h.active⟩
  uncompiled c stage source log device h hcompile := ⟨h.keys, h.ids, h.stages, h.active⟩
  linked c r handles handle device h hfind hparts hlink := {
    keys := nodup_keys_snoc h.keys hfind _
    ids := by simp [keep, Context.record, h.ids, List.range_succ]
    stages := h.stages
    active := by
      intro id hid
      have hlt := h.active id hid
      simp only [keep, Context.record, List.length_append, List.length_singleton]
      omega }
  unlinked c handles attributes log device h hlink := ⟨h.keys, h.ids, h.stages, h.active⟩
  released c key handle rest h hstages := {
    keys := h.keys
    ids := h.ids
    stages := by
      have hall := h.stages
      rw [hstages, List.map_cons] at hall
      exact (List.nodup_cons.1 hall).2
    active := h.active }
  activated c id program h hget := {
    keys := h.keys
    ids := by simpa [setProgram] using h.ids
    stages := h.stages
    active := by
      intro other hother
      obtain rfl := Option.some.inj hother
      simpa [setProgram] using (List.getElem?_eq_some_iff.1 hget).1 }
  located c id program name location device h hactive hget hlookup hlocate := {
    keys := h.keys
    ids := by simpa [setProgram] using h.ids
    stages := h.stages
    active := by simpa [setProgram] using h.active }
  written c id program name location value h hactive hget hlookup :=
    ⟨h.keys, h.ids, h.stages, h.active⟩
  bound c id program name location target texture h hactive hget hlookup := {
    keys := h.keys
    ids := by simpa [setProgram] using h.ids
    stages := h.stages
    active := by simpa [setProgram] using h.active }

section
variable {c : Context δ} {key : String} {id : ProgramId}

/-- The key of an id stands at the place of the id. -/
theorem Indexed.find?_eq_some_iff (h : c.Indexed) :
    c.find? key = some id ↔ c.cache.index[id.index]? = some (key, id) := by
  -- Entries are found by their key, and what is found is numbered by its place.
  have hplace : ∀ key id, c.find? key = some id → c.cache.index[id.index]? = some (key, id) := by
    intro key id hfind
    obtain ⟨before, after, hsplit, -⟩ := List.lookup_eq_some_iff.1 hfind
    have hentry : c.cache.index[before.length]? = some (key, id) := by simp [hsplit]
    have hnumber : (c.cache.index.map Prod.snd)[before.length]? = some id := by simp [hentry]
    rw [h.ids, List.getElem?_map] at hnumber
    obtain ⟨i, hi, rfl⟩ := Option.map_eq_some_iff.1 hnumber
    obtain rfl : before.length = i := by simpa using (List.getElem?_eq_some_iff.1 hi).2
    exact hentry
  exact ⟨hplace key id, fun hentry => lookup_of_mem h.keys (List.mem_of_getElem? hentry)⟩

theorem Indexed.length_index (h : c.Indexed) :
    c.cache.index.length = c.cache.programs.length := by
  simpa using congrArg List.length h.ids

theorem Indexed.lt_of_find? (h : c.Indexed) (hfind : c.find? key = some id) :
    id.index < c.cache.programs.length := by
  rw [← h.length_index]
  exact (List.getElem?_eq_some_iff.1 (h.find?_eq_some_iff.1 hfind)).1

/-- Two keys with one id are one key. -/
theorem Indexed.key_unique (h : c.Indexed) {other : String} (hkey : c.find? key = some id)
    (hother : c.find? other = some id) : key = other := by
  have hentry := h.find?_eq_some_iff.1 hkey
  rw [h.find?_eq_some_iff.1 hother] at hentry
  exact (congrArg Prod.fst (Option.some.inj hentry)).symm

/-- Every number below that of the programs is the id of a key. -/
theorem Indexed.exists_key (h : c.Indexed) {n : Nat} (hn : n < c.cache.programs.length) :
    ∃ key, c.find? key = some ⟨n⟩ := by
  have hlt : n < c.cache.index.length := by
    rw [h.length_index]
    exact hn
  have hnumber : (c.cache.index.map Prod.snd)[n]? = some ⟨n⟩ := by simp [h.ids, hn]
  rw [List.getElem?_map] at hnumber
  obtain ⟨⟨key, id⟩, hentry, rfl⟩ := Option.map_eq_some_iff.1 hnumber
  exact ⟨key, h.find?_eq_some_iff.2 hentry⟩

end

end Context

/-! ## Nothing is taken out -/

/-- What a program is, whatever is set on it. -/
def Program.identity (p : Program δ) : Device.ProgramHandle δ × Topology × String :=
  (p.handle, p.topology, p.name)

namespace Context

/-- The index and the programs of a context, and maybe more of them. -/
structure Extends (c₀ c : Context δ) : Prop where
  index : c₀.cache.index <+: c.cache.index
  programs : c₀.cache.programs.map Program.identity <+: c.cache.programs.map Program.identity

theorem Extends.refl (c : Context δ) : c.Extends c := ⟨List.prefix_rfl, List.prefix_rfl⟩

/-- A program may change as long as it stays what it is. -/
theorem Extends.setProgram {c₀ c : Context δ} (h : c₀.Extends c) {id : ProgramId}
    {p q : Program δ} (hget : c.get? id = some p) (hq : q.identity = p.identity) :
    c₀.Extends (c.setProgram id q) where
  index := h.index
  programs := by
    obtain ⟨hlt, rfl⟩ := List.getElem?_eq_some_iff.1 hget
    have hlt' : id.index < (c.cache.programs.map Program.identity).length := by simpa using hlt
    rw [Context.setProgram, List.map_set, hq, ← List.getElem_map Program.identity (h := hlt'),
      List.set_getElem_self]
    exact h.programs

theorem keeps_extends (c₀ : Context δ) : Keeps c₀.Extends where
  journal c events h := ⟨h.index, h.programs⟩
  compiled c key stage source handle device h hkey hcompile := ⟨h.index, h.programs⟩
  uncompiled c stage source log device h hcompile := ⟨h.index, h.programs⟩
  linked c r handles handle device h hfind hparts hlink := {
    index := h.index.trans (List.prefix_append ..)
    programs := by
      simp only [keep, Context.record, List.map_append]
      exact h.programs.trans (List.prefix_append ..) }
  unlinked c handles attributes log device h hlink := ⟨h.index, h.programs⟩
  released c key handle rest h hstages := ⟨h.index, h.programs⟩
  activated c id program h hget :=
    ⟨h.index, (h.setProgram hget (q := { program with textureUnit := 0 }) rfl).programs⟩
  located c id program name location device h hactive hget hlookup hlocate :=
    ⟨h.index, (h.setProgram hget
      (q := { program with uniforms := program.uniforms ++ [(name, location)] }) rfl).programs⟩
  written c id program name location value h hactive hget hlookup := ⟨h.index, h.programs⟩
  bound c id program name location target texture h hactive hget hlookup :=
    ⟨h.index, (h.setProgram hget
      (q := { program with textureUnit := program.textureUnit + 1 }) rfl).programs⟩

section
variable {c₀ c : Context δ}

theorem Extends.find? (h : c₀.Extends c) {key : String} {id : ProgramId}
    (hfind : c₀.find? key = some id) : c.find? key = some id :=
  h.index.lookup_eq_some hfind

theorem Extends.get? (h : c₀.Extends c) {id : ProgramId} {program : Program δ}
    (hget : c₀.get? id = some program) :
    (c.get? id).map Program.identity = some program.identity := by
  obtain ⟨more, hmore⟩ := h.programs
  obtain ⟨hlt, -⟩ := List.getElem?_eq_some_iff.1 hget
  rw [Context.get?, ← List.getElem?_map, ← hmore,
    List.getElem?_append_left (by simpa using hlt), List.getElem?_map]
  exact congrArg (Option.map Program.identity) hget

end

/-! ## What a request adds to the index -/

/-- What a request builds. -/
def recipe? (c : Context δ) : Request δ → Option Recipe
  | .compose (first :: rest) => some (.ofShaders c.cache.version first rest)
  | .fixed read program => some (.ofFiles read program)
  | _ => none

theorem serve_of_recipe? (c : Context δ) {r : Request δ} {recipe : Recipe}
    (h : c.recipe? r = some recipe) :
    r.key? = some recipe.key ∧ c.serve r = (c.build recipe).2 ∧
      c.answer? r = (c.build recipe).1.toOption := by
  cases r with
  | compose shaders =>
      cases shaders with
      | nil => exact nomatch h
      | cons first rest =>
          obtain rfl := Option.some.inj h
          exact ⟨rfl, rfl, rfl⟩
  | fixed read program =>
      obtain rfl := Option.some.inj h
      exact ⟨rfl, rfl, rfl⟩
  | releaseStages | activate | locate | set | bindTexture | stream => exact nomatch h

theorem exists_recipe? (c : Context δ) {r : Request δ} {key : String} (h : r.key? = some key) :
    ∃ recipe, c.recipe? r = some recipe := by
  cases r with
  | compose shaders =>
      cases shaders with
      | nil => exact nomatch h
      | cons first rest => exact ⟨_, rfl⟩
  | fixed read program => exact ⟨_, rfl⟩
  | releaseStages | activate | locate | set | bindTexture | stream => exact nomatch h

/-- Whoever asks for a program asks for one recipe to be built. -/
theorem serve_of_key? (c : Context δ) {r : Request δ} {key : String} (h : r.key? = some key) :
    ∃ recipe : Recipe, recipe.key = key ∧ c.serve r = (c.build recipe).2 ∧
      c.answer? r = (c.build recipe).1.toOption := by
  obtain ⟨recipe, hrecipe⟩ := c.exists_recipe? h
  obtain ⟨hkey, hserve⟩ := c.serve_of_recipe? hrecipe
  exact ⟨recipe, Option.some.inj (hkey.symm.trans h), hserve⟩

theorem cache_releaseStages (c : Context δ) :
    c.releaseStages.cache = { c.cache with stages := [] } := by
  suffices hall : ∀ (held : List (String × Device.StageHandle δ)) (c : Context δ),
      (held.foldl release c).cache = c.cache from hall c.cache.stages _
  intro held
  induction held with
  | nil => exact fun c => rfl
  | cons entry rest ih => exact fun c => ih (c.release entry)

theorem index_withActive {α : Type} (c : Context δ) (work : Bound δ → α × Bound δ) :
    (c.withActive work).2.cache.index = c.cache.index := by
  rw [withActive]
  cases c.activeProgram with
  | error e => rfl
  | ok active => rfl

theorem index_serve_of_key?_eq_none (c : Context δ) {r : Request δ} (h : r.key? = none) :
    (c.serve r).cache.index = c.cache.index := by
  cases r with
  | compose shaders =>
      cases shaders with
      | nil => rfl
      | cons first rest => exact nomatch h
  | fixed read program => exact nomatch h
  | releaseStages => rw [serve, cache_releaseStages]
  | activate id =>
      rw [serve, activate]
      cases c.get? id <;> rfl
  | locate | set | bindTexture | stream => exact index_withActive ..

theorem find?_build (c : Context δ) (r : Recipe) (key : String) (id : ProgramId) :
    (c.build r).2.find? key = some id ↔
      c.find? key = some id ∨ (r.key = key ∧ (c.build r).1 = .ok id) := by
  rcases c.build_cases r with ⟨found, hfound, hbuild⟩ | ⟨hnew, ⟨e, herror⟩, hindex, -⟩ |
    ⟨hnew, handle, hok, hindex, -⟩
  · rw [hbuild]
    constructor
    · exact .inl
    · rintro (h | ⟨rfl, h⟩)
      · exact h
      · obtain rfl := Except.ok.inj h
        exact hfound
  · simp [find?, hindex, herror]
  · have hlast : (c.build r).2.find? key
        = (c.find? key).or (if r.key = key then some ⟨c.cache.programs.length⟩ else none) := by
      rw [find?, hindex, List.lookup_append, find?]
      by_cases hkey : r.key = key
      · simp [hkey]
      · have hne : (key == r.key) = false := by simpa using fun h => hkey h.symm
        simp [List.lookup_cons, hne, hkey]
    rw [hlast, hok]
    by_cases hkey : r.key = key
    · subst hkey
      simp [hnew]
    · simp [hkey]

theorem find?_serve (c : Context δ) (r : Request δ) (key : String) (id : ProgramId) :
    (c.serve r).find? key = some id ↔
      c.find? key = some id ∨ (r.key? = some key ∧ c.answer? r = some id) := by
  cases hkey : r.key? with
  | none => simp [find?, index_serve_of_key?_eq_none c hkey]
  | some asked =>
      obtain ⟨recipe, rfl, hserve, hanswer⟩ := c.serve_of_key? hkey
      rw [hserve, hanswer, find?_build, toOption_eq_some_iff, Option.some.injEq]

/-- The index is the record of what was asked for and answered. -/
theorem find?_serveAll (device : δ) (version : Option Version) (requests : List (Request δ))
    (key : String) (id : ProgramId) :
    ((fresh device version).serveAll requests).find? key = some id ↔
      (fresh device version).Answered requests key id := by
  induction requests using List.reverseRecOn with
  | nil =>
      constructor
      · exact fun h => nomatch h
      · exact fun h => absurd h not_happened_nil
  | append_singleton requests r ih =>
      rw [serveAll, List.foldl_append, List.foldl_cons, List.foldl_nil, find?_serve, Answered,
        happened_snoc]
      exact or_congr ih Iff.rfl

/-- What is in the index is answered from it: the device is not called, and no file is
read. -/
theorem serve_of_find? {c : Context δ} {r : Request δ} {key : String} {id : ProgramId}
    (hkey : r.key? = some key) (hfind : c.find? key = some id) :
    c.answer? r = some id ∧ c.serve r = c.record (.cacheHit key) := by
  obtain ⟨recipe, rfl, hserve, hanswer⟩ := c.serve_of_key? hkey
  have hbuild : c.build recipe = (.ok id, c.record (.cacheHit recipe.key)) := by
    rw [build, hfind]
  rw [hserve, hanswer, hbuild]
  exact ⟨rfl, rfl⟩

/-! ## The active program -/

theorem activate_eq_ok_iff (c : Context δ) (id : ProgramId) :
    (c.activate id).1 = .ok () ↔ id.index < c.cache.programs.length := by
  rw [activate]
  cases hget : c.get? id with
  | none => simpa using List.getElem?_eq_none_iff.1 hget
  | some program => simpa using (List.getElem?_eq_some_iff.1 hget).1

theorem activeProgram_ne_lost {c : Context δ} (h : c.Indexed) (id : ProgramId) :
    c.activeProgram ≠ .error (.activeProgramLost id) := by
  rw [activeProgram]
  cases hactive : c.active with
  | none => simp
  | some active =>
      have hget := List.getElem?_eq_getElem (h.active active hactive)
      simp [get?, hget]

theorem withActive_ne_lost {α : Type} {c : Context δ} (h : c.Indexed)
    (work : Bound δ → α × Bound δ) (id : ProgramId) :
    (c.withActive work).1 ≠ .error (.activeProgramLost id) := by
  have hactive := activeProgram_ne_lost h id
  rw [withActive]
  generalize c.activeProgram = active at hactive
  cases active with
  | error e => exact fun heq => hactive (congrArg Except.error (Except.error.inj heq))
  | ok active => simp

/-! ## What the index promises -/

/-- What holds of a context that was asked for all this from its start. -/
structure Registered (start : Context δ) (requests : List (Request δ)) (c : Context δ) :
    Prop where
  /-- The keys are those that a program was asked for under, each with the answer. -/
  built_iff : ∀ key id, c.find? key = some id ↔ start.Answered requests key id
  in_range : ∀ key id, c.find? key = some id → id.index < c.cache.programs.length
  one_key : ∀ n < c.cache.programs.length, ∃ key, ∀ other, c.find? other = some ⟨n⟩ ↔ other = key
  /-- Whatever is asked for later, a key keeps its id. -/
  find_stays : ∀ later key id, c.find? key = some id → (c.serveAll later).find? key = some id
  program_stays : ∀ later id program, c.get? id = some program →
    ((c.serveAll later).get? id).map Program.identity = some program.identity
  /-- A key that is there is answered then and later, releases or not, and all that
  changes is the journal. -/
  hit : ∀ later key id r, c.find? key = some id → r.key? = some key →
    (c.serveAll later).answer? r = some id ∧
      (c.serveAll later).serve r = (c.serveAll later).record (.cacheHit key)
  /-- Until the stages are released, what is held is held. -/
  stage_stays : ∀ later, (∀ r ∈ later, r ≠ .releaseStages) → ∀ key handle,
    c.cache.stages.lookup key = some handle →
      (c.serveAll later).cache.stages.lookup key = some handle
  activates_iff : ∀ id, (c.activate id).1 = .ok () ↔ ∃ key, start.Answered requests key id
  active_held : ∀ id, c.activeProgram ≠ .error (.activeProgramLost id) ∧
    ∀ (α : Type) (work : Bound δ → α × Bound δ),
      (c.withActive work).1 ≠ .error (.activeProgramLost id)

theorem registered_of_answered {start c : Context δ} {requests : List (Request δ)}
    (hindexed : c.Indexed)
    (hanswered : ∀ key id, c.find? key = some id ↔ start.Answered requests key id) :
    Registered start requests c := by
  have hlater : ∀ later, c.Extends (c.serveAll later) := fun later =>
    (keeps_extends c).serveAll (Extends.refl c) later
  exact {
    built_iff := hanswered
    in_range := fun key id hfind => hindexed.lt_of_find? hfind
    one_key := by
      intro n hn
      obtain ⟨key, hkey⟩ := hindexed.exists_key hn
      refine ⟨key, fun other => ⟨fun hother => hindexed.key_unique hother hkey, ?_⟩⟩
      rintro rfl
      exact hkey
    find_stays := fun later key id hfind => (hlater later).find? hfind
    program_stays := fun later id program hget => (hlater later).get? hget
    hit := fun later key id r hfind hkey => serve_of_find? hkey ((hlater later).find? hfind)
    stage_stays := fun later hkept key handle hheld => c.lookup_serveAll hkept hheld
    activates_iff := by
      intro id
      rw [activate_eq_ok_iff]
      constructor
      · intro hlt
        obtain ⟨key, hkey⟩ := hindexed.exists_key hlt
        exact ⟨key, (hanswered key id).1 hkey⟩
      · rintro ⟨key, hkey⟩
        exact hindexed.lt_of_find? ((hanswered key id).2 hkey)
    active_held := fun id =>
      ⟨activeProgram_ne_lost hindexed id, fun _ work => withActive_ne_lost hindexed work id⟩ }

theorem asked_of_compose {c : Context δ} {shaders : List Shader} {id : ProgramId}
    (h : (c.compose shaders).1 = .ok id) :
    (Request.compose shaders : Request δ).key? = some (composedKey shaders) ∧
      c.answer? (.compose shaders) = some id := by
  refine ⟨?_, toOption_eq_some_iff.2 h⟩
  cases shaders with
  | nil => exact nomatch h
  | cons first rest => rfl

/-- **Shared programs.** Composed stages get the program of others, composed any time
before, exactly if the names of both, in a row, spell the same. -/
theorem compose_shares_iff (device : δ) (version : Option Version)
    (before between : List (Request δ)) {a b : List Shader} {i j : ProgramId}
    (ha : (((fresh device version).serveAll before).compose a).1 = .ok i)
    (hb : (((fresh device version).serveAll (before ++ .compose a :: between)).compose b).1
      = .ok j) :
    i = j ↔ composedKey a = composedKey b := by
  -- Both answers stand in the index once the second is given.
  let requests := before ++ .compose a :: between ++ [.compose b]
  have hindexed := keeps_indexed.serveAll (indexed_fresh device version) requests
  have hi := (find?_serveAll device version requests (composedKey a) i).2
    ⟨before, .compose a, between ++ [.compose b], by simp [requests], asked_of_compose ha⟩
  have hj := (find?_serveAll device version requests (composedKey b) j).2
    ⟨before ++ .compose a :: between, .compose b, [], rfl, asked_of_compose hb⟩
  constructor
  · rintro rfl
    exact hindexed.key_unique hi hj
  · intro hkey
    rw [hkey, hj] at hi
    exact (Option.some.inj hi).symm

/-- A stage that both share, and a release between. -/
theorem compose_shares_iff_sharedStage :
    let fresh := fresh ({} : Headless) none
    let a := [Shader.empty "lit" .vertex, Shader.empty "white" .fragment]
    let b := [Shader.empty "lit" .vertex, Shader.empty "dark" .fragment]
    ((fresh.serveAll []).compose a).1 = .ok ⟨0⟩ ∧
      ((fresh.serveAll ([] ++ .compose a :: [.releaseStages])).compose b).1 = .ok ⟨1⟩ ∧
      ((⟨0⟩ : ProgramId) = ⟨1⟩ ↔ composedKey a = composedKey b) :=
  have ha := by decide +kernel
  have hb := by decide +kernel
  ⟨ha, hb, compose_shares_iff _ none [] [.releaseStages] ha hb⟩

/-- The key does not tell where one name ends and the next begins: stages with the names
`a` and `bc` get the program that was linked from stages with the names `ab` and `c`. -/
theorem otherStages_share_program :
    let fresh := fresh ({} : Headless) none
    let a := [Shader.empty "ab" .vertex, Shader.empty "c" .fragment]
    let b := [Shader.empty "a" .vertex, Shader.empty "bc" .fragment]
    (fresh.compose a).1 = .ok ⟨0⟩ ∧ ((fresh.serve (.compose a)).compose b).1 = .ok ⟨0⟩ ∧
      a.map Shader.name ≠ b.map Shader.name := by
  decide +kernel

end Context

end Shaderwright
