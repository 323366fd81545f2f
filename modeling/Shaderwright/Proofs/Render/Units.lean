import Mathlib.Algebra.Group.Nat.Defs
import Shaderwright.Proofs.Render.Answers
import Shaderwright.Proofs.Render.Failure

/-!
# Texture units

Between two activations the active program gives the units `0, 1, 2, ...` to the samplers
that are set, in the order in which they are set. Each is bound and written in one go, and
a sampler that is not active in the program is passed over.

The record since the program was last put to use is read back as a list of writes
(`written`), beside what was asked for since (`expected`). Whatever else is asked for in
between, builds that fail and programs that do not exist included, the two agree.
-/

namespace Shaderwright

/-- The writes that a request asks for. -/
def Request.writes {δ : Type} [Device δ] : Request δ → List (Write (Device.Texture δ))
  | .set name value => [.value name value]
  | .bindTexture name target texture => [.sampler name target texture]
  | .stream aggregate => aggregate.writes
  | .compose _ | .fixed _ _ | .releaseStages | .activate _ | .locate _ => []

/-- The samplers among some writes, in order. -/
def samplers {τ : Type} (ws : List (Write τ)) : List String :=
  ws.filterMap fun w => match w with
    | .value _ _ => none
    | .sampler name _ _ => some name

theorem samplers_append {τ : Type} (ws more : List (Write τ)) :
    samplers (ws ++ more) = samplers ws ++ samplers more := List.filterMap_append ..

namespace Headless

open Context

/-! ## Reading the record -/

/-- What a program was told. A texture is bound to a unit, and the unit is written to the
location of the sampler. -/
inductive Written where
  | value (location : UInt32) (value : UniformValue)
  | sampler (unit : Nat) (target : TextureTarget) (texture location : UInt32) (told : Int)
  /-- A texture was bound and no integer written right after. -/
  | torn (unit : Nat)

def Written.unit? : Written → Option Nat
  | .value _ _ => none
  | .sampler unit _ _ _ _ => some unit
  | .torn unit => some unit

def Call.unit? : Call → Option Nat
  | .bindTexture unit _ _ => some unit.toNat
  | _ => none

/-- Reads a record. A texture belongs with the call right after it. -/
def written : List Call → List Written
  | [] => []
  | .bindTexture unit target texture :: .write location (.int n) :: rest =>
      .sampler unit.toNat target texture location n.toInt :: written rest
  | .bindTexture unit _ _ :: rest => .torn unit.toNat :: written rest
  | .write location value :: rest => .value location value :: written rest
  | _ :: rest => written rest

/-- What a program should be told from a unit on, if its uniforms are found as given. -/
def expected (location : String → Option UInt32) : Nat → List (Write UInt32) → List Written
  | _, [] => []
  | unit, .value name value :: ws =>
      match location name with
      | none => expected location unit ws
      | some l => .value l value :: expected location unit ws
  | unit, .sampler name target texture :: ws =>
      match location name with
      | none => expected location unit ws
      | some l => .sampler unit target texture l unit :: expected location (unit + 1) ws

/-- How many units the writes claim. -/
def claims (location : String → Option UInt32) (ws : List (Write UInt32)) : Nat :=
  (samplers ws).countP fun name => (location name).isSome

section
variable {location : String → Option UInt32}

theorem claims_append (ws more : List (Write UInt32)) :
    claims location (ws ++ more) = claims location ws + claims location more := by
  rw [claims, samplers_append, List.countP_append]
  rfl

theorem expected_append (unit : Nat) (ws more : List (Write UInt32)) :
    expected location unit (ws ++ more)
      = expected location unit ws ++ expected location (unit + claims location ws) more := by
  induction ws generalizing unit with
  | nil => rfl
  | cons w ws ih =>
      cases w with
      | value name value =>
          have hclaims : claims location (.value name value :: ws) = claims location ws := rfl
          rw [List.cons_append, expected, expected, hclaims, ih]
          cases location name <;> rfl
      | sampler name target texture =>
          have hclaims : claims location (.sampler name target texture :: ws)
              = claims location ws + if (location name).isSome then 1 else 0 :=
            List.countP_cons
          rw [List.cons_append, expected, expected, hclaims]
          cases location name with
          | none => exact ih unit
          | some l =>
              dsimp only
              rw [ih (unit + 1), List.cons_append]
              congr 3
              simp only [Option.isSome_some, if_true]
              omega

/-- The units that are claimed follow one another. -/
theorem units_expected (unit : Nat) (ws : List (Write UInt32)) :
    (expected location unit ws).filterMap Written.unit?
      = List.range' unit (claims location ws) := by
  induction ws generalizing unit with
  | nil => rfl
  | cons w ws ih =>
      cases w with
      | value name value =>
          have hclaims : claims location (.value name value :: ws) = claims location ws := rfl
          rw [expected, hclaims]
          cases location name with
          | none => exact ih unit
          | some l => exact ih unit
      | sampler name target texture =>
          have hclaims : claims location (.sampler name target texture :: ws)
              = claims location ws + if (location name).isSome then 1 else 0 :=
            List.countP_cons
          rw [expected, hclaims]
          cases location name with
          | none => exact ih unit
          | some l =>
              have hrest := ih (unit + 1)
              simp [Written.unit?, hrest, List.range'_succ]

/-- Only the uniforms that are written count. -/
theorem expected_congr {other : String → Option UInt32} {ws : List (Write UInt32)}
    (h : ∀ w ∈ ws, location w.name = other w.name) (unit : Nat) :
    expected location unit ws = expected other unit ws := by
  induction ws generalizing unit with
  | nil => rfl
  | cons w ws ih =>
      obtain ⟨hw, hws⟩ := List.forall_mem_cons.1 h
      cases w with
      | value name value | sampler name target texture =>
          have hname : location name = other name := hw
          simp only [expected, hname, ih hws]

theorem claims_congr {other : String → Option UInt32} {ws : List (Write UInt32)}
    (h : ∀ w ∈ ws, location w.name = other w.name) : claims location ws = claims other ws := by
  refine List.countP_congr fun name hname => ?_
  obtain ⟨w, hw, hsampler⟩ := List.mem_filterMap.1 hname
  cases w with
  | value => exact nomatch hsampler
  | sampler other target texture =>
      obtain rfl := Option.some.inj hsampler
      have heq : location other = _ := h _ hw
      rw [heq]
      rfl

end

/-- Nothing is bound at the very end, with its unit still to be written. -/
def Complete (calls : List Call) : Prop := ∀ call, calls.getLast? = some call → call.unit? = none

theorem complete_nil : Complete [] := fun _ h => nomatch h

theorem Complete.of_cons {call : Call} {rest : List Call} (h : Complete (call :: rest)) :
    Complete rest := by
  intro last hlast
  refine h last ?_
  rw [List.getLast?_cons, hlast]
  rfl

theorem written_append {calls : List Call} (h : Complete calls) (more : List Call) :
    written (calls ++ more) = written calls ++ written more := by
  fun_induction written calls with
  | case1 => rfl
  | case2 unit target texture location n rest ih =>
      simp only [List.cons_append, written, ih h.of_cons.of_cons]
  | case3 unit target texture rest hrest ih =>
      -- The texture is not the last call, so what follows it is in the first part.
      have hrest' : ∀ location n after,
          rest ++ more = .write location (.int n) :: after → False := by
        intro location n after heq
        cases rest with
        | nil => exact nomatch h (.bindTexture unit target texture) rfl
        | cons call rest => exact hrest location n rest (by rw [(List.cons.inj heq).1])
      rw [List.cons_append, written.eq_3 _ _ _ _ hrest', ih h.of_cons, List.cons_append]
  | case4 location value rest ih =>
      simp only [List.cons_append, written, ih h.of_cons]
  | case5 call rest hbound htexture hwrite ih =>
      have hskip : ∀ after, written (call :: after) = written after := by
        intro after
        cases call with
        | bindTexture unit target texture => exact (htexture unit target texture rfl).elim
        | write location value => exact (hwrite location value rfl).elim
        | compile | link | deleteStage | useProgram | locate => rfl
      rw [List.cons_append, hskip, ih h.of_cons]

theorem Complete.append {calls more : List Call} (h : Complete calls) (hmore : Complete more) :
    Complete (calls ++ more) := by
  intro last hlast
  rw [List.getLast?_append] at hlast
  rcases Option.or_eq_some_iff.1 hlast with hlast | ⟨-, hlast⟩
  · exact hmore last hlast
  · exact h last hlast

/-- The units in the order in which they were bound. -/
theorem units_written (calls : List Call) :
    (written calls).filterMap Written.unit? = calls.filterMap Call.unit? := by
  fun_induction written calls with
  | case1 => rfl
  | case2 | case3 | case4 => simp_all [List.filterMap_cons, Written.unit?, Call.unit?]
  | case5 call rest hbound htexture hwrite ih =>
      have hunit : call.unit? = none := by
        cases call with
        | bindTexture unit target texture => exact (htexture unit target texture rfl).elim
        | compile | link | deleteStage | useProgram | locate | write => rfl
      rw [ih, List.filterMap_cons_none hunit]

/-! ## One write after the other -/

/-- Where a uniform of a program is, if it is active and was asked for. -/
def located? (d : Headless) (program : UInt32) (name : String) : Option UInt32 :=
  (d.recalled? program name).join

/-- Neither the program in use nor its uniforms are concerned. -/
def Call.Aside : Call → Prop
  | .compile _ _ | .link _ _ _ | .deleteStage _ | .locate _ _ => True
  | .useProgram _ | .write _ _ | .bindTexture _ _ _ => False

theorem Call.Aside.unit? {call : Call} (h : call.Aside) : call.unit? = none := by
  cases call with
  | bindTexture => exact h.elim
  | compile | link | deleteStage | useProgram | locate | write => rfl

theorem Call.Aside.used? {call : Call} (h : call.Aside) : call.used? = none := by
  cases call with
  | useProgram => exact h.elim
  | compile | link | deleteStage | bindTexture | locate | write => rfl

theorem complete_of_aside {calls : List Call} (h : ∀ call ∈ calls, call.Aside) : Complete calls :=
  fun call hlast => (h call (List.mem_of_getLast? hlast)).unit?

theorem written_of_aside {calls : List Call} (h : ∀ call ∈ calls, call.Aside) :
    written calls = [] := by
  induction calls with
  | nil => rfl
  | cons call rest ih =>
      obtain ⟨hcall, hrest⟩ := List.forall_mem_cons.1 h
      have hskip : written (call :: rest) = written rest := by
        cases call with
        | useProgram | write | bindTexture => exact hcall.elim
        | compile | link | deleteStage | locate => rfl
      rw [hskip, ih hrest]

theorem located?_of_recalled? {d : Headless} {program : UInt32} {name : String}
    {answer : Option UInt32} (h : d.recalled? program name = some answer) :
    located? d program name = answer := by
  rw [located?, h]
  rfl

/-- The record from `start` on tells the program what is written, and the program counts
the units that it has claimed. -/
structure Tells (start : List Call) (program : UInt32) (ws : List (Write UInt32)) (d : Headless)
    (p : Program Headless) : Prop where
  handle : p.handle = program
  record : ∃ calls, d.calls = start ++ calls ∧ Complete calls ∧
    (∀ call ∈ calls, call.used? = none) ∧ written calls = expected (located? d program) 0 ws
  asked : ∀ w ∈ ws, (d.recalled? program w.name).isSome = true
  unit : p.textureUnit = UInt32.ofNat (claims (located? d program) ws)

section
variable {start : List Call} {program : UInt32} {ws : List (Write UInt32)} {d d' : Headless}
  {p : Program Headless}

/-- Other calls, and new locations, change nothing. -/
theorem Tells.aside (h : Tells start program ws d p) (hhidden : d'.hidden = d.hidden)
    (hlocations : d.locations <+: d'.locations)
    (hgrows : GrowsBy Call.Aside d.calls d'.calls) : Tells start program ws d' p := by
  obtain ⟨more, hcalls, hmore⟩ := hgrows
  have hlocated : ∀ w ∈ ws, located? d program w.name = located? d' program w.name := by
    intro w hw
    obtain ⟨answer, hanswer⟩ := Option.isSome_iff_exists.1 (h.asked w hw)
    rw [located?_of_recalled? hanswer,
      located?_of_recalled? (recalled?_mono hhidden hlocations hanswer)]
  obtain ⟨calls, hsplit, hcomplete, hused, hwritten⟩ := h.record
  exact {
    handle := h.handle
    record := by
      refine ⟨calls ++ more, by rw [hcalls, hsplit, List.append_assoc],
        hcomplete.append (complete_of_aside hmore), ?_, ?_⟩
      · rw [List.forall_mem_append]
        exact ⟨hused, fun call hcall => (hmore call hcall).used?⟩
      · rw [written_append hcomplete, written_of_aside hmore, List.append_nil, hwritten,
          expected_congr hlocated]
    asked := by
      intro w hw
      obtain ⟨answer, hanswer⟩ := Option.isSome_iff_exists.1 (h.asked w hw)
      exact Option.isSome_iff_exists.2 ⟨answer, recalled?_mono hhidden hlocations hanswer⟩
    unit := by rw [h.unit, claims_congr hlocated] }

variable {w : Write UInt32}

/-- One more write, and the calls that it comes to. -/
theorem Tells.snoc (h : Tells start program ws d p) {p' : Program Headless}
    (hhandle : p'.handle = p.handle) (hsame : d'.recalled? = d.recalled?) {more : List Call}
    (hcalls : d'.calls = d.calls ++ more) (hmore : Complete more)
    (hunused : ∀ call ∈ more, call.used? = none)
    (hasked : (d.recalled? program w.name).isSome = true)
    (hwritten : written more
      = expected (located? d program) (claims (located? d program) ws) [w])
    (hunit : p'.textureUnit
      = UInt32.ofNat (claims (located? d program) ws + claims (located? d program) [w])) :
    Tells start program (ws ++ [w]) d' p' := by
  have hlocated : located? d' program = located? d program :=
    funext fun name => congrArg (fun recalled => (recalled program name).join) hsame
  obtain ⟨calls, hsplit, hcomplete, hused, htold⟩ := h.record
  exact {
    handle := hhandle.trans h.handle
    record := by
      refine ⟨calls ++ more, by rw [hcalls, hsplit, List.append_assoc], hcomplete.append hmore,
        List.forall_mem_append.2 ⟨hused, hunused⟩, ?_⟩
      rw [written_append hcomplete, htold, hwritten, hlocated, expected_append, Nat.zero_add]
    asked := by
      rw [hsame, List.forall_mem_append]
      exact ⟨h.asked, by simpa using hasked⟩
    unit := by rw [hunit, hlocated, claims_append] }

/-- A write to a uniform that is not active. -/
theorem Tells.miss (h : Tells start program ws d p)
    (hrecalled : d.recalled? program w.name = some none) :
    Tells start program (ws ++ [w]) d p := by
  have hlocated := located?_of_recalled? hrecalled
  refine h.snoc rfl rfl (List.append_nil _).symm complete_nil (by simp) (by simp [hrecalled]) ?_ ?_
  · cases w with
    | value name value | sampler name target texture =>
        have hname : located? d program name = none := hlocated
        simp [written, expected, hname]
  · rw [h.unit]
    cases w with
    | value name value => rfl
    | sampler name target texture =>
        have hname : located? d program name = none := hlocated
        simp [claims, samplers, hname]

theorem toNat_ofNat {n : Nat} (h : n < 2 ^ 31) : (UInt32.ofNat n).toNat = n :=
  UInt32.toNat_ofNat_of_lt' (Nat.lt_trans h (by decide))

/-- A unit below `2 ^ 31` is the same number as an integer. -/
theorem toInt_toInt32_ofNat {n : Nat} (h : n < 2 ^ 31) :
    (UInt32.ofNat n).toInt32.toInt = n := by
  have hnat : (UInt32.ofNat n).toBitVec.toNat = n := toNat_ofNat h
  rw [← Int32.toInt_toBitVec, UInt32.toBitVec_toInt32, BitVec.toInt_eq_toNat_of_lt (by omega),
    hnat]

variable {b : Bound Headless}

/-- A write to a uniform that is active. The next unit goes to a sampler. -/
theorem Tells.writeTo (h : Tells start program ws b.device b.program) {location : UInt32}
    (hrecalled : b.device.recalled? program w.name = some (some location))
    (hfew : (samplers ws).length < 2 ^ 31) :
    Tells start program (ws ++ [w]) (b.writeTo location w).device
      (b.writeTo location w).program := by
  have hlocated := located?_of_recalled? hrecalled
  have hasked : (b.device.recalled? program w.name).isSome = true := by simp [hrecalled]
  have hcomplete : ∀ value, Complete [.write location value] := by
    intro value call hlast
    obtain rfl : Call.write location value = call := by simpa using hlast
    rfl
  cases w with
  | value name value =>
      have hname : located? b.device program name = some location := hlocated
      have hcalls : (b.writeTo location (.value name value)).device.calls
          = b.device.calls ++ [.write location value] := rfl
      refine h.snoc rfl rfl hcalls (hcomplete value) (by simp [Call.used?]) hasked ?_ h.unit
      simp [written, expected, hname]
  | sampler name target texture =>
      have hname : located? b.device program name = some location := hlocated
      -- The counter has not wrapped around, so it is the unit also as a signed number.
      have hunit := h.unit
      have hn : claims (located? b.device program) ws < 2 ^ 31 :=
        Nat.lt_of_le_of_lt List.countP_le_length hfew
      generalize hclaims : claims (located? b.device program) ws = n at hn hunit
      have hcalls : (b.writeTo location (.sampler name target texture)).device.calls
          = b.device.calls ++ [.bindTexture b.program.textureUnit target texture,
              .write location (.int b.program.textureUnit.toInt32)] := List.append_assoc ..
      refine h.snoc rfl rfl hcalls ?_ (by simp [Call.used?]) hasked ?_ ?_
      · exact hcomplete (.int b.program.textureUnit.toInt32)
      · simp only [hclaims, hunit, written, expected, hname, toNat_ofNat hn,
          toInt_toInt32_ofNat hn]
      · have hone : claims (located? b.device program) [.sampler name target texture] = 1 := by
          simp [claims, samplers, hname]
        rw [hclaims, hone, UInt32.ofNat_add, ← hunit]
        rfl

/-- A question for a location, asked of the table or of the device. -/
theorem Tells.resolve (h : Tells start program ws b.device b.program)
    (hknown : Known b.device b.program) (name : String) :
    Tells start program ws (b.resolve name).2.device (b.resolve name).2.program ∧
      (b.resolve name).2.device.recalled? program name = some (b.resolve name).1 := by
  have hhandle := h.handle
  rw [Bound.resolve]
  cases htable : b.program.uniforms.lookup name with
  | some answer => exact ⟨h, hhandle ▸ hknown name answer htable⟩
  | none =>
      have hanswer := recalled?_locate b.device b.program.handle name
      dsimp only
      generalize hlocate : Device.locate b.device b.program.handle name = out
      rw [show b.device.locate b.program.handle name = out from hlocate, hhandle] at hanswer
      obtain ⟨location, device⟩ := out
      obtain ⟨new, rfl, -, -⟩ := locate_spec hlocate
      have hasked : Tells start program ws
          { b.device.record (.locate b.program.handle name) with
            locations := b.device.locations ++ new } b.program :=
        h.aside rfl (List.prefix_append ..) (.snoc _ trivial)
      exact ⟨⟨hasked.handle, hasked.record, hasked.asked, hasked.unit⟩, hanswer⟩

theorem Tells.perform (h : Tells start program ws b.device b.program)
    (hknown : Known b.device b.program) (hfew : (samplers ws).length < 2 ^ 31) :
    Tells start program (ws ++ [w]) (b.perform w).device (b.perform w).program := by
  obtain ⟨hresolve, hrecalled⟩ := h.resolve hknown w.name
  rw [← Bound.performBy_resolve, Bound.performBy]
  generalize b.resolve w.name = out at hresolve hrecalled
  obtain ⟨answer, b'⟩ := out
  cases answer with
  | none => exact hresolve.miss hrecalled
  | some location => exact hresolve.writeTo hrecalled hfew

theorem Tells.performAll {c : Context Headless} {id : ProgramId} {q : Program Headless}
    (h : Tells start program ws b.device b.program) (hactive : c.active = some id)
    (hget : c.get? id = some q) (hknown : AllKnown (c.resume id b))
    {writes : List (Write UInt32)} (hfew : (samplers (ws ++ writes)).length < 2 ^ 31) :
    Tells start program (ws ++ writes) (b.performAll writes).device
      (b.performAll writes).program := by
  induction writes generalizing b ws with
  | nil =>
      rw [List.append_nil]
      exact h
  | cons w writes ih =>
      have hall : ws ++ w :: writes = (ws ++ [w]) ++ writes := List.append_cons ..
      have hws : (samplers ws).length < 2 ^ 31 := by
        rw [samplers_append, List.length_append] at hfew
        omega
      rw [hall] at hfew ⊢
      exact ih (h.perform (known_of_resume hget hknown) hws)
        (keeps_allKnown.perform hactive hget hknown w) hfew

end

/-! ## Requests that leave the active program alone -/

/-- The other context has the same programs and maybe more, and its device was not told
anything about the program in use. -/
structure Beside (c c' : Context Headless) : Prop where
  active : c'.active = c.active
  programs : c.cache.programs <+: c'.cache.programs
  hidden : c'.device.hidden = c.device.hidden
  locations : c'.device.locations = c.device.locations
  calls : GrowsBy Call.Aside c.device.calls c'.device.calls

theorem Beside.refl (c : Context Headless) : Beside c c :=
  ⟨rfl, List.prefix_rfl, rfl, rfl, .refl ..⟩

theorem Beside.trans {a b c : Context Headless} (hab : Beside a b) (hbc : Beside b c) :
    Beside a c where
  active := hbc.active.trans hab.active
  programs := hab.programs.trans hbc.programs
  hidden := hbc.hidden.trans hab.hidden
  locations := hbc.locations.trans hab.locations
  calls := hab.calls.trans hbc.calls

/-- Whatever is held and whatever the journal says. -/
theorem Beside.of_device {c c' after : Context Headless} (h : Beside c c')
    (hactive : after.active = c'.active) (hprograms : after.cache.programs = c'.cache.programs)
    (hdevice : after.device = c'.device) : Beside c after where
  active := hactive.trans h.active
  programs := hprograms ▸ h.programs
  hidden := hdevice ▸ h.hidden
  locations := hdevice ▸ h.locations
  calls := hdevice ▸ h.calls

theorem beside_compile (c : Context Headless) (key : String) (stage : Stage) (source : String) :
    Beside c (c.compile key stage source).2 := by
  rw [Context.compile]
  generalize hcompile : Device.compile (c.record (.compiling key stage)).device stage source = out
  obtain ⟨result, device⟩ := out
  cases result with
  | ok handle =>
      obtain ⟨rfl, rfl⟩ := compile_eq_ok hcompile
      exact ⟨rfl, List.prefix_rfl, rfl, rfl, .snoc _ trivial⟩
  | error log =>
      obtain rfl := compile_eq_error hcompile
      exact (Beside.refl c).of_device rfl rfl rfl

theorem beside_build (c : Context Headless) (r : Recipe) : Beside c (c.build r).2 := by
  have hparts : Beside c (c.obtainAll r.parts).2 :=
    obtainAll_rel Beside.refl Beside.trans
      (fun p _ c source _ _ => beside_compile c p.key p.stage source) c
  have houtcome := c.outcome_build r
  generalize c.build r = out at houtcome
  cases houtcome with
  | hit hfind => exact (Beside.refl c).of_device rfl rfl rfl
  | unprepared hfind hobtained => rwa [hobtained] at hparts
  | unlinked hfind hobtained hlink =>
      rw [hobtained] at hparts
      obtain rfl := link_eq_error hlink
      exact hparts.of_device rfl rfl rfl
  | @linked handles c' handle device hfind hobtained hlink =>
      rw [hobtained] at hparts
      obtain ⟨rfl, rfl⟩ := link_eq_ok hlink
      exact hparts.trans ⟨rfl, List.prefix_append .., rfl, rfl, .snoc _ trivial⟩

theorem beside_releaseStages (c : Context Headless) : Beside c c.releaseStages := by
  suffices hall : ∀ (entries : List (String × UInt32)) (c : Context Headless),
      Beside c (entries.foldl release c) by
    have hemptied : Beside c { c with cache := { c.cache with stages := [] } } :=
      (Beside.refl c).of_device rfl rfl rfl
    exact hemptied.trans (hall c.cache.stages _)
  intro entries
  induction entries with
  | nil => exact Beside.refl
  | cons entry rest ih =>
      intro c
      have hrelease : Beside c (c.release entry) :=
        ⟨rfl, List.prefix_rfl, rfl, rfl, .snoc _ trivial⟩
      exact hrelease.trans (ih (c.release entry))

end Headless

/-! ## What the active program is due -/

namespace Context

variable {δ : Type} [Device δ]

/-- The writes that the active program is due after one more request. An activation that
does not fail starts anew. -/
def due (c : Context δ) (ws : Option (List (Write (Device.Texture δ)))) :
    Request δ → Option (List (Write (Device.Texture δ)))
  | .activate id => if (c.activate id).1.isOk then some [] else ws
  | r => ws.map (· ++ r.writes)

/-- The writes that the active program is due after a run. -/
def dueAll (c : Context δ) (ws : Option (List (Write (Device.Texture δ)))) :
    List (Request δ) → Option (List (Write (Device.Texture δ)))
  | [] => ws
  | r :: rest => (c.serve r).dueAll (c.due ws r) rest

section
variable {c : Context δ} {α : Type}

theorem withActive_of_idle (h : c.active = none) (work : Bound δ → α × Bound δ) :
    (c.withActive work).2 = c := by
  rw [withActive, activeProgram, h]

theorem activeProgram_eq_ok {id : ProgramId} {p : Program δ} (hactive : c.active = some id)
    (hget : c.get? id = some p) : c.activeProgram = .ok (id, p) := by
  rw [activeProgram, hactive]
  simp only [hget]

theorem withActive_eq_resume {id : ProgramId} {p : Program δ} (hactive : c.active = some id)
    (hget : c.get? id = some p) (work : Bound δ → α × Bound δ) :
    (c.withActive work).2 = c.resume id (work { program := p, device := c.device }).2 := by
  rw [withActive, activeProgram_eq_ok hactive hget]
  rfl

end

end Context

namespace Headless

open Context

/-- Nothing was put to use yet, or the record since then tells the active program what it
is due, as long as the units last. -/
structure Telling (due : Option (List (Write UInt32))) (c : Context Headless) : Prop where
  idle : due = none → c.active = none ∧ ∀ call ∈ c.device.calls, call.Aside
  busy : ∀ ws, due = some ws → (samplers ws).length < 2 ^ 31 → ∃ id p before program,
    c.active = some id ∧ c.get? id = some p ∧
      Tells (before ++ [.useProgram program]) program ws c.device p

section
variable {due : Option (List (Write UInt32))} {c c' : Context Headless}

theorem Telling.beside (h : Telling due c) (hbeside : Beside c c') : Telling due c' where
  idle := by
    intro hdue
    obtain ⟨hactive, hcalls⟩ := h.idle hdue
    obtain ⟨more, hmore, haside⟩ := hbeside.calls
    rw [hbeside.active, hmore, List.forall_mem_append]
    exact ⟨hactive, hcalls, haside⟩
  busy := by
    intro ws hdue hfew
    obtain ⟨id, p, before, program, hactive, hget, htells⟩ := h.busy ws hdue hfew
    have hget' : c'.get? id = some p := by
      obtain ⟨hlt, hp⟩ := List.getElem?_eq_some_iff.1 hget
      rw [Context.get?, List.prefix_iff_getElem?.1 hbeside.programs id.index hlt, hp]
    exact ⟨id, p, before, program, hbeside.active.trans hactive, hget',
      htells.aside hbeside.hidden (hbeside.locations ▸ List.prefix_rfl) hbeside.calls⟩

/-- An activation starts anew, whatever the counter of the program was left at. -/
theorem Telling.activate (h : Telling due c) (id : ProgramId) :
    Telling (c.due due (.activate id)) (c.activate id).2 := by
  rw [Context.due, Context.activate]
  cases hget : c.get? id with
  | none => exact h
  | some p =>
      refine ⟨fun hnone => absurd hnone (Option.some_ne_none []), fun ws hws _ => ?_⟩
      obtain rfl := Option.some.inj hws
      have hlt : id.index < c.cache.programs.length := (List.getElem?_eq_some_iff.1 hget).1
      refine ⟨id, { p with textureUnit := 0 }, c.device.calls, p.handle, rfl,
        by simp [Context.get?, setProgram, hlt], ?_⟩
      exact ⟨rfl, ⟨[], (List.append_nil _).symm, complete_nil, by simp, rfl⟩, by simp, rfl⟩

/-- Work that tells the active program some more. -/
theorem Telling.withActive {α : Type} (h : Telling due c) (hknown : AllKnown c)
    {work : Bound Headless → α × Bound Headless} {more : List (Write UInt32)}
    (hwork : ∀ {start program ws b id p}, c.active = some id → c.get? id = some p →
      Tells start program ws b.device b.program → AllKnown (c.resume id b) →
      (samplers (ws ++ more)).length < 2 ^ 31 →
      Tells start program (ws ++ more) (work b).2.device (work b).2.program) :
    Telling (due.map (· ++ more)) (c.withActive work).2 where
  idle := by
    intro hnone
    have hidle := h.idle (Option.map_eq_none_iff.1 hnone)
    rwa [withActive_of_idle hidle.1]
  busy := by
    intro all hall hfew
    obtain ⟨ws, hdue, rfl⟩ := Option.map_eq_some_iff.1 hall
    have hws : (samplers ws).length < 2 ^ 31 := by
      rw [samplers_append, List.length_append] at hfew
      omega
    obtain ⟨id, p, before, program, hactive, hget, htells⟩ := h.busy ws hdue hws
    have hstart : AllKnown (c.resume id { program := p, device := c.device }) := by
      rwa [resume_start hget]
    rw [withActive_eq_resume hactive hget]
    exact ⟨id, _, before, program, hactive, get?_resume hget _,
      hwork (b := { program := p, device := c.device }) hactive hget htells hstart hfew⟩

theorem Telling.serve (h : Telling due c) (hknown : AllKnown c) (r : Request Headless) :
    Telling (c.due due r) (c.serve r) := by
  have hsame : due.map (· ++ ([] : List (Write UInt32))) = due := by simp
  have hbeside : ∀ {c'}, Beside c c' →
      Telling (due.map (· ++ ([] : List (Write UInt32)))) c' := by
    intro c' hc'
    rw [hsame]
    exact h.beside hc'
  have hperform : ∀ writes : List (Write UInt32),
      Telling (due.map (· ++ writes)) (c.perform writes).2 := fun writes =>
    h.withActive hknown fun hactive hget hb hknown hfew =>
      hb.performAll hactive hget hknown hfew
  cases r with
  | compose shaders =>
      cases shaders with
      | nil => exact hbeside (Beside.refl c)
      | cons first rest => exact hbeside (beside_build c _)
  | fixed read program => exact hbeside (beside_build c _)
  | releaseStages => exact hbeside (beside_releaseStages c)
  | activate id => exact h.activate id
  | locate name =>
      have hlocate : Telling (due.map (· ++ ([] : List (Write UInt32)))) (c.locate name).2 :=
        h.withActive hknown fun hactive hget hb hknown _ => by
          rw [List.append_nil]
          exact (hb.resolve (known_of_resume hget hknown) name).1
      exact hlocate
  | set name value => exact hperform [.value name value]
  | bindTexture name target texture => exact hperform [.sampler name target texture]
  | stream aggregate => exact hperform aggregate.writes

theorem Telling.serveAll (h : Telling due c) (hknown : AllKnown c)
    (requests : List (Request Headless)) :
    Telling (c.dueAll due requests) (c.serveAll requests) := by
  induction requests generalizing c due with
  | nil => exact h
  | cons r rest ih => exact ih (h.serve hknown r) (keeps_allKnown.serve hknown r)

end

theorem keeps_hidden (hidden : List String) :
    Keeps fun c : Context Headless => c.device.hidden = hidden where
  journal c events h := h
  compiled c key stage source handle device h hkey hcompile := by
    obtain ⟨rfl, rfl⟩ := compile_eq_ok hcompile
    exact h
  uncompiled c stage source log device h hcompile := by
    obtain rfl := compile_eq_error hcompile
    exact h
  linked c r handles handle device h hfind hparts hlink := by
    obtain ⟨rfl, rfl⟩ := link_eq_ok hlink
    exact h
  unlinked c handles attributes log device h hlink := by
    obtain rfl := link_eq_error hlink
    exact h
  released c key handle rest h hstages := h
  activated c id program h hget := h
  located c id program name location device h hactive hget hlookup hlocate := by
    obtain ⟨new, rfl, -, -⟩ := locate_spec hlocate
    exact h
  written c id program name location value h hactive hget hlookup := h
  bound c id program name location target texture h hactive hget hlookup := h

/-! ## The units of a run -/

theorem located?_eq_none_iff {d : Headless} {program : UInt32} {name : String}
    (hasked : (d.recalled? program name).isSome = true) :
    located? d program name = none ↔ name ∈ d.hidden := by
  rw [located?, recalled?] at *
  by_cases hname : name ∈ d.hidden
  · simp [hname]
  · have hnot : ¬ (d.hidden.contains name = true) := by simpa using hname
    rw [if_neg hnot, Option.isSome_map] at hasked
    obtain ⟨location, hlocation⟩ := Option.isSome_iff_exists.1 hasked
    simp [hname, hlocation]

/-- What the record says since the program was put to use. -/
structure Numbered (hidden : List String) (ws : List (Write UInt32)) (d : Headless)
    (p : Program Headless) (calls : List Call) : Prop where
  last_use : ∀ call ∈ calls, call.used? = none
  /-- The program is told what it is due, and each texture right before its unit. -/
  told : written calls = expected (located? d p.handle) 0 ws
  /-- The units are `0, 1, 2, ...`, one for each sampler that is not hidden. -/
  units : calls.filterMap Call.unit?
    = List.range ((samplers ws).countP fun name => !hidden.contains name)
  counter : p.textureUnit.toNat = (samplers ws).countP fun name => !hidden.contains name
  inactive : ∀ w ∈ ws, located? d p.handle w.name = none ↔ w.name ∈ hidden

/-- **Samplers get the next unit.** After any run on a device that records, with any
uniforms hidden and any text rejected: if no activation has succeeded, no program was told
anything. Otherwise the active program is the one put to use last, and the record since
then gives its samplers the units `0, 1, 2, ...`, as long as they are fewer than
`2 ^ 31`. -/
theorem numbered_serveAll (hidden : List String) (rejected : Option String)
    (version : Option Version) (requests : List (Request Headless)) :
    let fresh := Context.fresh ({ hidden, rejected } : Headless) version
    let c := fresh.serveAll requests
    (fresh.dueAll none requests = none →
      c.active = none ∧ ∀ call ∈ c.device.calls, call.Aside) ∧
    ∀ ws, fresh.dueAll none requests = some ws → (samplers ws).length < 2 ^ 31 →
      ∃ id program before calls, c.activeProgram = .ok (id, program) ∧
        c.device.calls = before ++ .useProgram program.handle :: calls ∧
        Numbered hidden ws c.device program calls := by
  intro fresh c
  have hknown : AllKnown fresh := fun p hp => nomatch hp
  have hstart : Telling none fresh :=
    ⟨fun _ => ⟨rfl, fun call hcall => nomatch hcall⟩, fun ws hws => nomatch hws⟩
  have hrun := hstart.serveAll hknown requests
  have hhidden : c.device.hidden = hidden := (keeps_hidden hidden).serveAll rfl requests
  refine ⟨hrun.idle, fun ws hdue hfew => ?_⟩
  obtain ⟨id, p, before, program, hactive, hget, htells⟩ := hrun.busy ws hdue hfew
  obtain rfl := htells.handle
  obtain ⟨calls, hcalls, hcomplete, hunused, hwritten⟩ := htells.record
  have hinactive : ∀ w ∈ ws, located? c.device p.handle w.name = none ↔ w.name ∈ hidden := by
    intro w hw
    rw [located?_eq_none_iff (htells.asked w hw), hhidden]
  -- Whatever was asked for is located unless it is hidden, so both count the same samplers.
  have hclaims : claims (located? c.device p.handle) ws
      = (samplers ws).countP fun name => !hidden.contains name := by
    refine List.countP_congr fun name hname => ?_
    obtain ⟨w, hw, hsampler⟩ := List.mem_filterMap.1 hname
    cases w with
    | value => exact nomatch hsampler
    | sampler other target texture =>
        obtain rfl := Option.some.inj hsampler
        have hnone : located? c.device p.handle other = none ↔ other ∈ hidden := hinactive _ hw
        rw [Option.isSome_iff_ne_none, ne_eq, hnone]
        simp
  refine ⟨id, p, before, calls, activeProgram_eq_ok hactive hget, ?_, ?_⟩
  · rw [hcalls, List.append_assoc]
    rfl
  · exact {
      last_use := hunused
      told := hwritten
      units := by
        rw [← units_written, hwritten, units_expected, hclaims, List.range_eq_range']
      counter := by
        have hfew' : claims (located? c.device p.handle) ws < 2 ^ 31 :=
          Nat.lt_of_le_of_lt List.countP_le_length hfew
        rw [htells.unit, toNat_ofNat hfew', hclaims]
      inactive := hinactive }

/-- Two programs that set textures, among them one for a sampler that is hidden. The second
goes on after a build and an activation that fail. -/
def texturedRun : List (Request Headless) :=
  [ .compose [.empty "lit" .vertex, .empty "white" .fragment],
    .compose [.empty "lit" .vertex, .empty "dark" .fragment],
    .activate ⟨0⟩,
    .bindTexture "u_color_sampler" .texture2d (7 : UInt32),
    .activate ⟨1⟩,
    .stream (.material { color := (7 : UInt32), normal := (8 : UInt32), specular := (9 : UInt32) }),
    .releaseStages,
    .fixed (fun _ => .error .missing) { shaderDir := "", vertex := "a", fragment := "b" },
    .activate ⟨2⟩,
    .set "u_light_ambience" (.float 1.0),
    .bindTexture "u_shadow_cube" .cubeMap (3 : UInt32) ]

/-- The hidden sampler is due, and gets no unit. -/
theorem numbered_texturedRun :
    let hidden := ["u_normal_sampler"]
    let fresh := Context.fresh ({ hidden, rejected := none } : Headless) none
    let c := fresh.serveAll texturedRun
    ∃ ws id program before calls, fresh.dueAll none texturedRun = some ws ∧
      samplers ws = ["u_color_sampler", "u_normal_sampler", "u_specular_sampler", "u_shadow_cube"] ∧
      c.activeProgram = .ok (id, program) ∧ program.textureUnit.toNat = 3 ∧
      c.device.calls = before ++ .useProgram program.handle :: calls ∧
      Numbered hidden ws c.device program calls := by
  have hrun := numbered_serveAll ["u_normal_sampler"] none none texturedRun
  dsimp only at hrun ⊢
  have hsamplers : ((Context.fresh ({ hidden := ["u_normal_sampler"], rejected := none } : Headless)
      none).dueAll none texturedRun).map samplers
      = some ["u_color_sampler", "u_normal_sampler", "u_specular_sampler", "u_shadow_cube"] := by
    decide +kernel
  obtain ⟨ws, hws, hnames⟩ := Option.map_eq_some_iff.1 hsamplers
  obtain ⟨id, program, before, calls, hactive, hcalls, hnumbered⟩ :=
    hrun.2 ws hws (by simp [hnames])
  have hcounter : program.textureUnit.toNat = 3 := by
    rw [hnumbered.counter, hnames]
    decide +kernel
  exact ⟨ws, id, program, before, calls, hws, hnames, hactive, hcounter, hcalls, hnumbered⟩

end Headless

end Shaderwright
