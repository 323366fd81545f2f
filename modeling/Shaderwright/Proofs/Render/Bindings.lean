import Mathlib.Algebra.Group.Nat.Defs
import Mathlib.Data.List.Nodup
import Shaderwright.Config.File
import Shaderwright.Proofs.Render.Index
import Shaderwright.Proofs.Render.Objects
import Shaderwright.Proofs.Shader.Growth

/-!
# Where vertex attributes are bound

For each attribute name of a program the library keeps one location, that of the latest call
that bound the name. A link binds the names of its list one after the other, so that each of
them ends up at the last place it has in the list. All of them are where the list has them
if and only if no name stands there twice, given that the places fit a location.

The inputs of a composed stage have each name once. The list of a configuration need not: its
rules ask for names that are not blank, and not that they differ.
-/

namespace Shaderwright

open OpenGl

/-! ## One location for each name -/

/-- Where a library has an attribute of a program after some calls. -/
def boundAt? (calls : List Recorder.Call) (program : UInt32) (name : String) : Option UInt32 :=
  (findLast? (fun binding => binding.2 = name)
    (calls.filterMap (Recorder.Call.bound? program))).map Prod.fst

/-- Attribute `i` of the list is bound to location `i`, for all of its places. -/
def InPlace (calls : List Recorder.Call) (program : UInt32) (attributes : List String) : Prop :=
  ∀ i name, attributes[i]? = some name →
    ∃ location, boundAt? calls program name = some location ∧ location.toNat = i

/-- Of a list that is bound in order, a name is bound last at its last place. -/
theorem findLast?_zipIdx (attributes : List String) (name : String) (start : Nat) :
    findLast? (fun binding => binding.2 = name)
        ((attributes.zipIdx start).map fun a => (UInt32.ofNat a.2, a.1))
      = (lastIndex? (fun other => other = name) attributes).map
          fun i => (UInt32.ofNat (start + i), name) := by
  induction attributes generalizing start with
  | nil => rfl
  | cons first rest ih =>
      rw [List.zipIdx_cons, List.map_cons, findLast?, ih, lastIndex?]
      cases lastIndex? (fun other => other = name) rest with
      | some i => simp [Nat.add_assoc, Nat.add_comm 1]
      | none =>
          by_cases hname : first = name
          · simp [hname]
          · simp [hname]

/-- In a list without repetitions, the last place of a name is its only one. -/
theorem lastIndex?_of_nodup {attributes : List String} (h : attributes.Nodup) {i : Nat}
    {name : String} (hi : attributes[i]? = some name) :
    lastIndex? (fun other => other = name) attributes = some i := by
  have hfound := lastIndex?_bind_getElem? (fun other => decide (other = name)) attributes
  cases hlast : lastIndex? (fun other => decide (other = name)) attributes with
  | none =>
      rw [hlast] at hfound
      have habsent := findLast?_eq_none_iff.1 hfound.symm name (List.mem_of_getElem? hi)
      simp at habsent
  | some j =>
      rw [hlast, Option.bind_some] at hfound
      have hlt := lastIndex?_lt hlast
      rw [List.getElem?_eq_getElem hlt] at hfound
      have hj : attributes[j] = name := by
        simpa using (findLast?_eq_some_iff.1 hfound.symm).1
      obtain ⟨hlt', hi'⟩ := List.getElem?_eq_some_iff.1 hi
      have hplace : j = i := h.getElem_inj_iff.1 (hj.trans hi'.symm)
      exact congrArg some hplace

section
variable {calls : List Recorder.Call} {program : UInt32} {earlier : List (UInt32 × String)}
  {attributes : List String}

/-- Whatever was bound before, a name of the list is at its last place. -/
theorem boundAt?_of_mem
    (h : calls.filterMap (Recorder.Call.bound? program)
      = earlier ++ attributes.zipIdx.map fun a => (UInt32.ofNat a.2, a.1))
    {name : String} (hname : name ∈ attributes) :
    boundAt? calls program name
      = (lastIndex? (fun other => other = name) attributes).map UInt32.ofNat := by
  have hsome : lastIndex? (fun other => decide (other = name)) attributes ≠ none := by
    intro hnone
    have hfound := lastIndex?_bind_getElem? (fun other => decide (other = name)) attributes
    rw [hnone] at hfound
    have habsent := findLast?_eq_none_iff.1 hfound.symm name hname
    simp at habsent
  obtain ⟨i, hi⟩ := Option.ne_none_iff_exists'.1 hsome
  rw [boundAt?, h, findLast?_append, findLast?_zipIdx, hi]
  simp

/-- **Attributes are in place if no name stands twice**, and only then. -/
theorem inPlace_iff_nodup
    (h : calls.filterMap (Recorder.Call.bound? program)
      = earlier ++ attributes.zipIdx.map fun a => (UInt32.ofNat a.2, a.1)) :
    InPlace calls program attributes ↔ attributes.Nodup ∧ attributes.length ≤ 2 ^ 32 := by
  constructor
  · intro hplace
    constructor
    · refine List.nodup_iff_getElem?_ne_getElem?.2 fun i j hij hj heq => ?_
      obtain ⟨name, hname⟩ : ∃ name, attributes[j]? = some name :=
        ⟨_, List.getElem?_eq_getElem hj⟩
      obtain ⟨location, hlocation, hi⟩ := hplace i name (heq.trans hname)
      obtain ⟨location', hlocation', hj'⟩ := hplace j name hname
      rw [hlocation] at hlocation'
      obtain rfl := Option.some.inj hlocation'
      exact absurd (hi.symm.trans hj') (Nat.ne_of_lt hij)
    · by_contra hlong
      have hlt : 2 ^ 32 < attributes.length := Nat.lt_of_not_le hlong
      obtain ⟨location, -, hlocation⟩ := hplace (2 ^ 32) _ (List.getElem?_eq_getElem hlt)
      have hsmall : location.toNat < 2 ^ 32 := location.toNat_lt
      omega
  · rintro ⟨hnodup, hlength⟩ i name hi
    refine ⟨UInt32.ofNat i, ?_, ?_⟩
    · rw [boundAt?_of_mem h (List.mem_of_getElem? hi), lastIndex?_of_nodup hnodup hi]
      rfl
    · have hlt : i < attributes.length := (List.getElem?_eq_some_iff.1 hi).1
      rw [UInt32.toNat_ofNat']
      exact Nat.mod_eq_of_lt (Nat.lt_of_lt_of_le hlt hlength)

end

/-! ## What a link finds -/

variable {γ : Type} [OpenGl.Library γ]

/-- A request makes some calls and then has the library link a program. -/
def Context.LinksAfter (c : Context (OpenGl (Traced γ))) (r : Request (OpenGl (Traced γ)))
    (before : List Recorder.Call) (program : UInt32) : Prop :=
  ∃ after, (c.serve r).device.calls
    = c.device.calls ++ (before ++ .command (.linkProgram program) :: after)

/-- When a request links, the attributes of its recipe have been bound after all else. -/
theorem bound_of_linksAfter {c : Context (OpenGl (Traced γ))}
    {r : Request (OpenGl (Traced γ))} {recipe : Recipe} (hrecipe : c.recipe? r = some recipe)
    {before : List Recorder.Call} {program : UInt32} (h : c.LinksAfter r before program) :
    (c.device.calls ++ before).filterMap (Recorder.Call.bound? program)
      = c.device.calls.filterMap (Recorder.Call.bound? program) ++
        recipe.attributes.zipIdx.map fun a => (UInt32.ofNat a.2, a.1) := by
  obtain ⟨after, hcalls⟩ := h
  obtain ⟨calls, hserve, hlinks⟩ := linksRight_serve c r
  obtain rfl := List.append_cancel_left (hserve.symm.trans hcalls)
  have hlink : (Recorder.Call.command (.linkProgram program)).Links := trivial
  rcases hlinks with ⟨hnone, -⟩ | ⟨other, stages, linked, prepared, rest, hother, -, hsplit, honce⟩
  · exact absurd hlink (hnone _ (by simp)).1
  · rw [hrecipe] at hother
    obtain rfl := Option.some.inj hother
    -- The calls of the request have one link among them, so they are cut at the same place.
    obtain ⟨rfl, hcall, -⟩ := split_alone hlink honce.alone hsplit
    simp only [Recorder.Call.command.injEq, Command.linkProgram.injEq] at hcall
    rw [List.filterMap_append, hcall, honce.bound]

/-- A program that is new and gets built is linked. -/
theorem exists_linksAfter {c : Context (OpenGl (Traced γ))} {r : Request (OpenGl (Traced γ))}
    {key : String} (hkey : r.key? = some key) (hnew : c.find? key = none)
    (hbuilt : c.answer? r ≠ none) : ∃ before program, c.LinksAfter r before program := by
  obtain ⟨calls, hcalls, ⟨-, hunbuilt⟩ | ⟨-, -, program, before, after, -, -, rfl, -⟩⟩ :=
    linksRight_serve c r
  · exact absurd (hunbuilt key hkey hnew) hbuilt
  · exact ⟨before, program, after, hcalls⟩

/-- **Where attributes are when a program is linked.** Over any library and in any state, the
link of a program of stage files finds its attributes in place exactly if no name is listed
twice. That of composed stages always does, as long as a location can count the inputs. A
program that is new and gets built comes to such a link. -/
theorem inPlace_linked (c : Context (OpenGl (Traced γ))) :
    (∀ read p before program, c.LinksAfter (.fixed read p) before program →
      (InPlace (c.device.calls ++ before) program p.attributes ↔
        p.attributes.Nodup ∧ p.attributes.length ≤ 2 ^ 32)) ∧
    (∀ name stage first rest before program, Shader.Assembles (.empty name stage) first →
      c.LinksAfter (.compose (first :: rest)) before program →
      (InPlace (c.device.calls ++ before) program (first.inputs.map Variable.name) ↔
        first.inputs.length ≤ 2 ^ 32)) ∧
    ∀ r key, r.key? = some key → c.find? key = none → c.answer? r ≠ none →
      ∃ before program, c.LinksAfter r before program := by
  refine ⟨?_, ?_, fun r key => exists_linksAfter⟩
  · intro read p before program h
    have hrecipe : c.recipe? (.fixed read p) = some (.ofFiles read p) := rfl
    exact inPlace_iff_nodup (bound_of_linksAfter hrecipe h)
  · intro name stage first rest before program hfirst h
    have hnodup : (first.inputs.map Variable.name).Nodup :=
      (hfirst.named (Shader.named_empty name stage)).nodup .input
    have hrecipe : c.recipe? (.compose (first :: rest))
        = some (.ofShaders c.cache.version first rest) := rfl
    refine (inPlace_iff_nodup (bound_of_linksAfter hrecipe h)).trans ?_
    rw [Recipe.ofShaders, List.length_map]
    exact and_iff_right hnodup

/-- A library that does all it is asked to. -/
def compliant : Context (OpenGl (Traced Recorder)) :=
  .fresh ⟨{ inner := { behaviour := {} } }⟩ none

def emptyMains : Reader := fun _ => .ok "void main() {}"

/-- A program of stage files and composed stages, both with two attributes. -/
theorem inPlace_linked_compliant :
    let p : FileProgram :=
      { shaderDir := "./data", vertex := "v", fragment := "f", attributes := ["position", "color"] }
    let first := (Shader.empty "lit" .vertex).extend (.vertexInputs .all)
    (∃ before program, compliant.LinksAfter (.fixed emptyMains p) before program ∧
      InPlace (compliant.device.calls ++ before) program ["position", "color"]) ∧
    ∃ before program, compliant.LinksAfter (.compose [first]) before program ∧
      InPlace (compliant.device.calls ++ before) program (first.inputs.map Variable.name) := by
  intro p first
  obtain ⟨hfixed, hcompose, hlinks⟩ := inPlace_linked compliant
  obtain ⟨before, program, hp⟩ := hlinks (.fixed emptyMains p) _ rfl rfl (by decide +kernel)
  obtain ⟨before', program', hfirst⟩ := hlinks (.compose [first]) _ rfl rfl (by decide +kernel)
  have hassembled : Shader.Assembles (.empty "lit" .vertex) first :=
    .feature (.start _) (by simp)
  exact ⟨⟨before, program, hp, (hfixed _ _ _ _ hp).2 (by decide)⟩,
    before', program', hfirst, (hcompose _ _ _ _ _ _ hassembled hfirst).2 (by decide)⟩

/-- A configuration whose only program lists an attribute twice. -/
def repeatingText : String :=
  "version = 1\n\n[programs.flat]\nvertex = \"v\"\nfragment = \"f\"\n" ++
    "attributes = [\"position\", \"position\"]\n"

/-- The configuration keeps all rules, and the first of the two places is bound to nothing
when the program is linked. -/
theorem repeatedAttribute_not_inPlace :
    ∃ config p before program, Config.parse repeatingText = .ok config ∧
      config.program? "flat" = some p ∧ p.attributes = ["position", "position"] ∧
      compliant.LinksAfter (.fixed emptyMains p) before program ∧
      boundAt? (compliant.device.calls ++ before) program "position" = some 1 ∧
      ¬ InPlace (compliant.device.calls ++ before) program p.attributes := by
  let attributes := ["position", "position"]
  let config : Config := { version := 1, programs := [("flat", ⟨"v", "f", some attributes⟩)] }
  let p : FileProgram := ⟨config.shaderDir, "v", "f", attributes⟩
  have hparse : Config.parse repeatingText = .ok config :=
    toOption_eq_some_iff.1 (by decide +kernel)
  obtain ⟨before, program, hlinks⟩ :=
    exists_linksAfter (c := compliant) (r := .fixed emptyMains p) rfl rfl (by decide +kernel)
  have hrecipe : compliant.recipe? (.fixed emptyMains p) = some (.ofFiles emptyMains p) := rfl
  have hbound := bound_of_linksAfter hrecipe hlinks
  have hmem : "position" ∈ (Recipe.ofFiles emptyMains p).attributes := by decide
  refine ⟨config, p, before, program, hparse, rfl, rfl, hlinks, boundAt?_of_mem hbound hmem, ?_⟩
  intro h
  exact absurd ((inPlace_iff_nodup hbound).1 h).1 (by decide)

end Shaderwright
