import Shaderwright.Proofs.Render.Index
import Shaderwright.Proofs.Render.Ledger
import Shaderwright.Proofs.Shader.Locations

/-!
# What composed programs are linked from

Stages come from a pool in which equal names mean equal stages. Whatever was composed,
released and activated before, a program that is composed now is linked from one stage
object for each stage, in order: whether it was held from an earlier build, successful or
not, or is compiled only now, it has the kind and the source of its stage. The attributes
of the link are those that the source of the first stage gives locations to.
-/

namespace Shaderwright

namespace Headless

open Context

/-- Programs are composed of stages from the pool, and no others are built or written
to. -/
def Composes (pool : Shader → Prop) : Request Headless → Prop
  | .compose shaders => ∀ s ∈ shaders, pool s
  | .releaseStages | .activate _ => True
  | .fixed _ _ | .locate _ | .set _ _ | .bindTexture _ _ _ | .stream _ => False

/-- Every stage object that is held comes from a stage of the pool with the name it is held
under. -/
structure Compiled (pool : Shader → Prop) (version : Option Version) (c : Context Headless) :
    Prop where
  versioned : c.cache.version = version
  origin : ∀ key handle, (key, handle) ∈ c.cache.stages → ∃ s, pool s ∧ s.name = key ∧
    .compile s.stage handle ∈ c.device.calls ∧ (handle, s.source version) ∈ c.device.sources

/-- Nothing but new calls, and no link among them. -/
def Prepares (c c' : Context Headless) : Prop :=
  ∃ new, c'.device.calls = c.device.calls ++ new ∧ ∀ call ∈ new, call.linked? = none

theorem Prepares.refl (c : Context Headless) : Prepares c c := GrowsBy.refl _ c.device.calls

theorem Prepares.trans {a b c : Context Headless} (hab : Prepares a b) (hbc : Prepares b c) :
    Prepares a c := GrowsBy.trans hab hbc

section
variable {pool : Shader → Prop} {version : Option Version} {c : Context Headless}

/-! ## Stage objects -/

/-- Compiling either fails and leaves the device alone, or adds one stage object. -/
theorem compile_cases (c : Context Headless) (key : String) (stage : Stage) (source : String) :
    (c.compile key stage source).2.cache.version = c.cache.version ∧
    ((∃ handle, (c.compile key stage source).2.device.calls
        = c.device.calls ++ [.compile stage handle] ∧
      (c.compile key stage source).2.device.sources = c.device.sources ++ [(handle, source)] ∧
      (c.compile key stage source).2.cache.stages = c.cache.stages ++ [(key, handle)]) ∨
    ((c.compile key stage source).2.device = c.device ∧
      (c.compile key stage source).2.cache.stages = c.cache.stages)) := by
  rw [Context.compile]
  generalize hcompile : Device.compile (c.record (.compiling key stage)).device stage source = out
  obtain ⟨result, device⟩ := out
  cases result with
  | ok handle =>
      obtain ⟨-, rfl⟩ := compile_eq_ok hcompile
      exact ⟨rfl, .inl ⟨handle, rfl, rfl, rfl⟩⟩
  | error log =>
      obtain rfl := compile_eq_error hcompile
      exact ⟨rfl, .inr ⟨rfl, rfl⟩⟩

theorem prepares_compile (c : Context Headless) (key : String) (stage : Stage)
    (source : String) : Prepares c (c.compile key stage source).2 := by
  rcases compile_cases c key stage source with ⟨-, ⟨handle, hcalls, -, -⟩ | ⟨hdevice, -⟩⟩
  · exact ⟨[.compile stage handle], hcalls, by simp [Call.linked?]⟩
  · exact ⟨[], by simp [hdevice], by simp⟩

theorem Compiled.compile (h : Compiled pool version c) {s : Shader} (hs : pool s) :
    Compiled pool version (c.compile s.name s.stage (s.source version)).2 := by
  obtain ⟨hversion, hcases⟩ := compile_cases c s.name s.stage (s.source version)
  refine ⟨hversion.trans h.versioned, ?_⟩
  intro key handle hmem
  rcases hcases with ⟨new, hcalls, hsources, hstages⟩ | ⟨hdevice, hstages⟩
  · rw [hcalls, hsources]
    rw [hstages] at hmem
    rcases List.mem_append.1 hmem with hmem | hmem
    · obtain ⟨t, ht, hname, hcall, hsource⟩ := h.origin key handle hmem
      exact ⟨t, ht, hname, List.mem_append_left _ hcall, List.mem_append_left _ hsource⟩
    · obtain ⟨rfl, rfl⟩ := Prod.mk.inj (List.mem_singleton.1 hmem)
      exact ⟨s, hs, rfl, by simp, by simp⟩
  · rw [hdevice]
    rw [hstages] at hmem
    exact h.origin key handle hmem

/-- The parts of a composed program come from its stages. -/
theorem Compiled.obtainAll (h : Compiled pool version c) {shaders : List Shader}
    (hs : ∀ s ∈ shaders, pool s) :
    Compiled pool version (c.obtainAll (shaders.map (Recipe.partOfShader version))).2 := by
  refine obtainAll_rel (R := fun c c' => Compiled pool version c → Compiled pool version c')
    (fun _ h => h) (fun hab hbc h => hbc (hab h)) ?_ c h
  intro p hp c source hsource hkey h
  obtain ⟨s, hmem, rfl⟩ := List.mem_map.1 hp
  obtain rfl := Except.ok.inj hsource
  exact h.compile (hs s hmem)

theorem prepares_obtainAll (c : Context Headless) (parts : List Part) :
    Prepares c (c.obtainAll parts).2 :=
  obtainAll_rel Prepares.refl Prepares.trans
    (fun p _ c source _ _ => prepares_compile c p.key p.stage source) c

theorem Compiled.outcome (h : Compiled pool version c) (first : Shader) (rest : List Shader) :
    c.Outcome (.ofShaders version first rest) (c.compose (first :: rest)) :=
  h.versioned ▸ c.outcome_build _

/-! ## Runs -/

/-- The invariant speaks of the stage objects and of what is known of them. -/
theorem Compiled.of_prefix {c' : Context Headless} (h : Compiled pool version c)
    (hversion : c'.cache.version = c.cache.version)
    (hstages : c'.cache.stages = c.cache.stages)
    (hcalls : c.device.calls <+: c'.device.calls)
    (hsources : c'.device.sources = c.device.sources) : Compiled pool version c' := by
  refine ⟨hversion.trans h.versioned, ?_⟩
  intro key handle hmem
  obtain ⟨s, hs, hname, hcall, hsource⟩ := h.origin key handle (hstages ▸ hmem)
  exact ⟨s, hs, hname, hcalls.subset hcall, hsources ▸ hsource⟩

theorem Compiled.compose (h : Compiled pool version c) {shaders : List Shader}
    (hs : ∀ s ∈ shaders, pool s) : Compiled pool version (c.compose shaders).2 := by
  cases shaders with
  | nil => exact h
  | cons first rest =>
      have hprepared : Compiled pool version
          (c.obtainAll (Recipe.ofShaders version first rest).parts).2 := h.obtainAll hs
      have houtcome := h.outcome first rest
      generalize c.compose (first :: rest) = out at houtcome
      cases houtcome with
      | hit hfind => exact h.of_prefix rfl rfl List.prefix_rfl rfl
      | unprepared hfind hparts => rwa [hparts] at hprepared
      | unlinked hfind hparts hlink =>
          obtain rfl := link_eq_error hlink
          rw [hparts] at hprepared
          exact hprepared.of_prefix rfl rfl List.prefix_rfl rfl
      | linked hfind hparts hlink =>
          obtain ⟨-, rfl⟩ := link_eq_ok hlink
          rw [hparts] at hprepared
          exact hprepared.of_prefix rfl rfl (List.prefix_append ..) rfl

theorem Compiled.serve (h : Compiled pool version c) {r : Request Headless}
    (hr : Composes pool r) : Compiled pool version (c.serve r) := by
  cases r with
  | compose shaders => exact h.compose hr
  | releaseStages =>
      constructor
      · rw [Context.serve, cache_releaseStages]
        exact h.versioned
      · intro key handle hmem
        rw [Context.serve, cache_releaseStages] at hmem
        cases hmem
  | activate id =>
      rw [Context.serve, Context.activate]
      cases c.get? id with
      | none => exact h
      | some program => exact h.of_prefix rfl rfl (List.prefix_append ..) rfl
  | fixed | locate | set | bindTexture | stream => exact hr.elim

theorem Compiled.serveAll (h : Compiled pool version c) {requests : List (Request Headless)}
    (hr : ∀ r ∈ requests, Composes pool r) : Compiled pool version (c.serveAll requests) := by
  induction requests generalizing c with
  | nil => exact h
  | cons r requests ih =>
      obtain ⟨hfirst, hrest⟩ := List.forall_mem_cons.1 hr
      exact ih (h.serve hfirst) hrest

theorem compiled_fresh (pool : Shader → Prop) (device : Headless) (version : Option Version) :
    Compiled pool version (Context.fresh device version) :=
  ⟨rfl, fun _ _ hmem => by simp [Context.fresh] at hmem⟩

/-! ## The link of composed stages -/

/-- The stage objects of a program are those of its stages, in order: each was compiled with
the kind of its stage, and the device has its source. -/
def StandFor (version : Option Version) (shaders : List Shader) (calls : List Call)
    (sources : List (UInt32 × String)) (handles : List UInt32) : Prop :=
  handles.length = shaders.length ∧
    ∀ (i : Nat) (s : Shader) (h : UInt32), shaders[i]? = some s → handles[i]? = some h →
      .compile s.stage h ∈ calls ∧ (h, s.source version) ∈ sources

/-- What is held under the names of stages from the pool stands for these stages. -/
theorem Compiled.standFor (h : Compiled pool version c)
    (hnames : ∀ s t, pool s → pool t → s.name = t.name → s = t) {shaders : List Shader}
    (hs : ∀ s ∈ shaders, pool s) {handles : List UInt32}
    (hlookup : shaders.map (fun s => c.cache.stages.lookup s.name) = handles.map some) :
    StandFor version shaders c.device.calls c.device.sources handles := by
  constructor
  · simpa using (congrArg List.length hlookup).symm
  · intro i s handle hi hhandle
    have hheld : c.cache.stages.lookup s.name = some handle := by
      have hplace := congrArg (fun held => held[i]?) hlookup
      simpa [hi, hhandle] using hplace
    obtain ⟨t, ht, hname, hcall, hsource⟩ := h.origin s.name handle (mem_of_lookup hheld)
    obtain rfl := hnames t s ht (hs s (List.mem_of_getElem? hi)) hname
    exact ⟨hcall, hsource⟩

/-- Composing links nothing, because the program was there or failed, or it links at last
what stands for the stages. -/
theorem Compiled.compose_cases (h : Compiled pool version c)
    (hnames : ∀ s t, pool s → pool t → s.name = t.name → s = t) (first : Shader)
    (rest : List Shader) (hs : ∀ s ∈ first :: rest, pool s) :
    (Prepares c (c.compose (first :: rest)).2 ∧
      ((∃ id, c.find? (composedKey (first :: rest)) = some id) ∨
        ∃ e, (c.compose (first :: rest)).1 = .error e)) ∨
    ∃ new program handles, (c.compose (first :: rest)).2.device.calls
        = c.device.calls ++ (new ++ [.link program handles (first.inputs.map Variable.name)]) ∧
      (∀ call ∈ new, call.linked? = none) ∧
      StandFor version (first :: rest) (c.device.calls ++ new)
        (c.compose (first :: rest)).2.device.sources handles := by
  have hprepared : Compiled pool version
      (c.obtainAll (Recipe.ofShaders version first rest).parts).2 := h.obtainAll hs
  have hprepares := prepares_obtainAll c (Recipe.ofShaders version first rest).parts
  have houtcome := h.outcome first rest
  generalize c.compose (first :: rest) = out at houtcome
  cases houtcome with
  | hit hfind => exact .inl ⟨.refl c, .inl ⟨_, hfind⟩⟩
  | unprepared hfind hparts =>
      rw [hparts] at hprepares
      exact .inl ⟨hprepares, .inr ⟨_, rfl⟩⟩
  | unlinked hfind hparts hlink =>
      obtain rfl := link_eq_error hlink
      rw [hparts] at hprepares
      exact .inl ⟨hprepares, .inr ⟨_, rfl⟩⟩
  | @linked handles c' handle device hfind hparts hlink =>
      obtain ⟨-, rfl⟩ := link_eq_ok hlink
      have hlookup := lookup_obtainAll (congrArg Prod.fst hparts)
      rw [hparts] at hprepared hprepares hlookup
      obtain ⟨new, hcalls, hnew⟩ := hprepares
      -- The key of a part is the name of its stage.
      have hheld : (first :: rest).map (fun s => c'.cache.stages.lookup s.name)
          = handles.map some := by
        rw [← hlookup, Recipe.ofShaders, List.map_map]
        rfl
      have hstand := hprepared.standFor hnames hs hheld
      rw [hcalls] at hstand
      refine .inr ⟨new, handle, handles, ?_, hnew, hstand⟩
      rw [← List.append_assoc, ← hcalls]
      rfl

theorem stage_unique {calls : List Call} (h : (compiled calls).Nodup) {stage other : Stage}
    {handle : UInt32} (hstage : .compile stage handle ∈ calls)
    (hother : .compile other handle ∈ calls) : stage = other := by
  obtain ⟨before, after, rfl⟩ := List.append_of_mem hstage
  have hcompiled : compiled (before ++ .compile stage handle :: after)
      = compiled before ++ handle :: compiled after := by
    simp [compiled, Call.compiled?]
  rw [hcompiled, List.nodup_append, List.nodup_cons] at h
  obtain ⟨-, ⟨hafter, -⟩, hbefore⟩ := h
  rcases List.mem_append.1 hother with hmem | hmem
  · have hh : handle ∈ compiled before := List.mem_filterMap.2 ⟨_, hmem, rfl⟩
    exact absurd rfl (hbefore handle hh handle (List.mem_cons_self ..))
  · rcases List.mem_cons.1 hmem with heq | hmem
    · exact (Call.compile.inj heq).1.symm
    · have hh : handle ∈ compiled after := List.mem_filterMap.2 ⟨_, hmem, rfl⟩
      exact absurd hh hafter

/-- What a link of composed stages is made of, with the calls before it and the device
after it. -/
structure LinksStages (version : Option Version) (shaders : List Shader) (before : List Call)
    (d : Headless) (handles : List UInt32) (attributes : List String) : Prop where
  stages : StandFor version shaders before d.sources handles
  /-- As long as the handles last, a handle has one source and one kind. -/
  sole : Bounded d → ∀ (i : Nat) (s : Shader) (h : UInt32), shaders[i]? = some s →
    handles[i]? = some h → d.source? h = some (s.source version) ∧
      ∀ stage, .compile stage h ∈ d.calls → stage = s.stage
  distinct : attributes.Nodup
  located : ∀ first rest, shaders = first :: rest → attributes = first.inputs.map Variable.name ∧
    (first.stage = .vertex →
      Shader.Locates (first.source version) (first.lines version) attributes)

/-- What stands for stages is linked as it should be: the context accounts for its handles
and the first stage is regular. -/
theorem StandFor.linksStages {first : Shader} {rest : List Shader} {before : List Call}
    {handles : List UInt32}
    (h : StandFor version (first :: rest) before c.device.sources handles)
    (hbefore : ∀ call ∈ before, call ∈ c.device.calls) (hsound : SoundContext c)
    (hfirst : first.Regular) :
    LinksStages version (first :: rest) before c.device handles
      (first.inputs.map Variable.name) where
  stages := h
  sole := by
    intro hb i s handle hi hhandle
    obtain ⟨hcall, hsource⟩ := h.2 i s handle hi hhandle
    have hcoherent := hsound hb
    have hnodup : (c.device.sources.map Prod.fst).Nodup := by
      rw [hcoherent.stages.sources]
      exact hcoherent.stages.nodup
    exact ⟨lookup_of_mem hnodup hsource, fun stage hstage =>
      stage_unique hcoherent.valid.nodup_compiled hstage (hbefore _ hcall)⟩
  distinct := hfirst.names .input
  located := by
    intro other others heq
    obtain ⟨rfl, rfl⟩ := List.cons.inj heq
    exact ⟨rfl, fun hstage => hfirst.locates hstage version⟩

/-- **Links of composed stages.** In a run that composes stages of a pool, built by hand or
by features and told apart by their names, whatever a program is linked from stands for
its stages, and the attributes lie where the source of a vertex stage says. A program
that is new and comes about is linked. -/
theorem linksStages_compose (hidden : List String) (rejected : Option String)
    (version : Option Version) {pool : Shader → Prop}
    (hbuilt : ∀ s, pool s → ∃ name stage, Shader.Reaches (Shader.empty name stage) s)
    (hnames : ∀ s t, pool s → pool t → s.name = t.name → s = t)
    (requests : List (Request Headless)) (hrequests : ∀ r ∈ requests, Composes pool r)
    (shaders : List Shader) (hshaders : ∀ s ∈ shaders, pool s) :
    let c := (Context.fresh { hidden, rejected } version).serveAll requests
    let c' := c.serve (.compose shaders)
    ∃ new, c'.device.calls = c.device.calls ++ new ∧
      (∀ before program handles attributes after,
        new = before ++ .link program handles attributes :: after →
        LinksStages version shaders (c.device.calls ++ before) c'.device handles attributes) ∧
      ((∃ id, (c.compose shaders).1 = .ok id) → c.find? (composedKey shaders) = none →
        ∃ program handles attributes, .link program handles attributes ∈ new) := by
  intro c c'
  have hcompiled : Compiled pool version c := (compiled_fresh pool _ version).serveAll hrequests
  have hsound : SoundContext c' :=
    keeps_soundContext.serve (keeps_soundContext.serveAll
      (soundContext_fresh hidden rejected version) requests) (.compose shaders)
  cases shaders with
  | nil =>
      have hsame : c'.device.calls = c.device.calls ++ [] := (List.append_nil _).symm
      exact ⟨[], hsame, by simp, fun ⟨_, h⟩ => nomatch h⟩
  | cons first rest =>
      rcases hcompiled.compose_cases hnames first rest hshaders with
        ⟨⟨new, hcalls, hnew⟩, hresult⟩ | ⟨new, program, handles, hcalls, hnew, hstand⟩
      · refine ⟨new, hcalls, ?_, ?_⟩
        · rintro before program handles attributes after rfl
          exact nomatch hnew (.link program handles attributes) (by simp)
        · rintro ⟨id, hid⟩ hfind
          rcases hresult with ⟨other, hother⟩ | ⟨e, he⟩
          · exact nomatch hfind.symm.trans hother
          · exact nomatch hid.symm.trans he
      · refine ⟨_, hcalls, ?_, fun _ _ => ⟨program, handles, first.inputs.map Variable.name,
          by simp⟩⟩
        intro before program' handles' attributes after hsplit
        rcases split_snoc hsplit with ⟨others, hothers⟩ | ⟨rfl, hlink⟩
        · exact nomatch hnew (.link program' handles' attributes) (by simp [hothers])
        · obtain ⟨rfl, rfl, rfl⟩ := Call.link.inj hlink
          obtain ⟨name, stage, hfirst⟩ := hbuilt first (hshaders first (List.mem_cons_self ..))
          have hregular := hfirst.regular (Shader.regular_empty name stage)
          refine hstand.linksStages ?_ hsound hregular
          intro call hcall
          rw [hcalls, ← List.append_assoc]
          exact List.mem_append_left _ hcall

end

/-- A vertex stage with an input declared by hand behind those of a feature. -/
def weighted : Shader :=
  ((Shader.empty "weighted" .vertex).extend (.vertexInputs ⟨true, false, false, false⟩)).put .input
    "weight" [.ty .float, .array 2]

/-- The vertex stage is compiled once more after the release, for a build that then
fails. -/
def failedRun : List (Request Headless) :=
  [ .compose [weighted, .empty "white" .fragment],
    .releaseStages,
    .compose [weighted, .broken "broken" .fragment] ]

/-- The stages of the run and of the program composed after it. -/
def weightedPool : List Shader :=
  [weighted, .broken "broken" .fragment, .empty "white" .fragment, .empty "dark" .fragment]

theorem reaches_weightedPool :
    ∀ s ∈ weightedPool, ∃ name stage, Shader.Reaches (Shader.empty name stage) s := by
  have hweighted : ((Shader.empty "weighted" .vertex).extend
      (.vertexInputs ⟨true, false, false, false⟩)).declare .input "weight" [.ty .float, .array 2]
        = .ok weighted := rfl
  have hbroken : (Shader.empty "broken" .fragment).declare .output "broken" [.ty (.vec 4)]
      = .ok (.broken "broken" .fragment) := rfl
  simp only [weightedPool, List.forall_mem_cons]
  refine ⟨⟨_, _, .declare (.feature (.start _) _) (by simp) hweighted⟩,
    ⟨_, _, .declare (.start _) (by simp) hbroken⟩, ⟨_, _, .start _⟩, ⟨_, _, .start _⟩, by simp⟩

/-- The stage object of the failed build is the one that is linked after it. -/
theorem record_failedRun :
    let c := (Context.fresh { hidden := [], rejected := some "broken" } none).serveAll failedRun
    let shaders := [weighted, .empty "dark" .fragment]
    (c.compose shaders).1 = .ok ⟨1⟩ ∧ c.find? (composedKey shaders) = none ∧
      compiled (c.serve (.compose shaders)).device.calls = [1, 2, 4, 5] ∧
      linked (c.serve (.compose shaders)).device.calls = [3, 6] := by
  decide +kernel

theorem linksStages_failedRun :
    let c := (Context.fresh { hidden := [], rejected := some "broken" } none).serveAll failedRun
    let shaders := [weighted, .empty "dark" .fragment]
    let c' := c.serve (.compose shaders)
    linked c'.device.calls = [3, 6] ∧ ∃ before program handles attributes,
      LinksStages none shaders (c.device.calls ++ before) c'.device handles attributes ∧
      .link program handles attributes ∈ c'.device.calls := by
  have hnames : ∀ s ∈ weightedPool, ∀ t ∈ weightedPool, s.name = t.name → s = t := by decide
  have hbefore : ∀ s ∈ [weighted, .empty "white" .fragment], s ∈ weightedPool := by decide
  have hfailing : ∀ s ∈ [weighted, .broken "broken" .fragment], s ∈ weightedPool := by decide
  have hrun : ∀ r ∈ failedRun, Composes (· ∈ weightedPool) r := by
    simp only [failedRun, List.forall_mem_cons]
    exact ⟨hbefore, trivial, hfailing, by simp⟩
  obtain ⟨new, hcalls, hlinks, hnew⟩ := linksStages_compose [] (some "broken") none
    reaches_weightedPool (fun s t hs ht => hnames s hs t ht) failedRun hrun
    [weighted, .empty "dark" .fragment] (by decide)
  obtain ⟨hok, hfind, -, hlinked⟩ := record_failedRun
  obtain ⟨program, handles, attributes, hlink⟩ := hnew ⟨_, hok⟩ hfind
  obtain ⟨before, after, hsplit⟩ := List.append_of_mem hlink
  have hstages := hlinks before program handles attributes after hsplit
  have hmem := hcalls ▸ List.mem_append_right _ hlink
  exact ⟨hlinked, before, program, handles, attributes, hstages, hmem⟩

end Headless

end Shaderwright
