import Shaderwright.Proofs.Shader.Growth
import Shaderwright.Proofs.Shader.Slots

/-!
# What a stage takes in

A stage that is chained from another takes in all that the other puts out. An input that has
the name of an output gets its shape, in its place; every other output arrives behind the
inputs, in order. Nothing else is touched, and doing it once more changes nothing.

The outputs arrive one after the other. As no two of them have one name, none undoes what an
earlier one did, and the whole is one `map` over the inputs and one list behind them
(`apply_chainFrom`), from which everything is read off.
-/

namespace Shaderwright

namespace Variable

/-! ## Shapes -/

/-- The input that an output arrives as where there is none of its name. -/
def arriving (o : Variable) : Variable :=
  { role := .input, ty := o.ty, name := o.name, arraySize := o.arraySize, slot := o.slot }

theorem changeAll_fresh (o : Variable) :
    (plain .input .unset o.name).changeAll (Feature.shapeOf o) = arriving o := by
  rw [changeAll_shapeOf]
  cases h : o.slot <;> simp [arriving, plain, h]

/-- An input after outputs have arrived. -/
def taking (outputs : List Variable) (v : Variable) : Variable :=
  match outputs.find? fun o => o.name = v.name with
  | some o => v.changeAll (Feature.shapeOf o)
  | none => v

section
variable {outputs : List Variable} {v : Variable}

theorem name_taking : (v.taking outputs).name = v.name := by
  rw [taking]
  split
  · exact name_changeAll ..
  · rfl

theorem taking_of_not_mem (h : v.name ∉ outputs.map name) : v.taking outputs = v := by
  have hnone : outputs.find? (fun o => o.name = v.name) = none := by
    simpa [List.find?_eq_none] using h
  rw [taking, hnone]

/-- Of the outputs that arrive, the one that has the name of an input counts. -/
theorem taking_of_mem (hnodup : (outputs.map name).Nodup) {o : Variable} (ho : o ∈ outputs)
    (hname : o.name = v.name) : v.taking outputs = v.changeAll (Feature.shapeOf o) := by
  rw [taking]
  cases hfind : outputs.find? fun o => o.name = v.name with
  | none => exact absurd hname (by simpa using List.find?_eq_none.1 hfind o ho)
  | some p =>
      have hp : p.name = v.name := by simpa using List.find?_some hfind
      have hpo : p = o :=
        List.inj_on_of_nodup_map hnodup (List.mem_of_find?_eq_some hfind) ho (hp.trans hname.symm)
      rw [hpo]

theorem taking_cons_self {o : Variable} (h : v.name = o.name) :
    v.taking (o :: outputs) = v.changeAll (Feature.shapeOf o) := by
  simp [taking, h]

theorem taking_cons_of_ne {o : Variable} (h : v.name ≠ o.name) :
    v.taking (o :: outputs) = v.taking outputs := by
  simp [taking, Ne.symm h]

/-- What has taken outputs in has their shape already. -/
theorem taking_taking : (v.taking outputs).taking outputs = v.taking outputs := by
  cases hfind : outputs.find? fun o => o.name = v.name with
  | none => simp [taking, hfind]
  | some o =>
      have hv : v.taking outputs = v.changeAll (Feature.shapeOf o) := by rw [taking, hfind]
      rw [hv, taking, name_changeAll, hfind]
      cases hslot : o.slot <;> simp [changeAll_shapeOf, hslot]

end

/-! ## One arrival after the other -/

/-- **What the arrivals come to.** Inputs take in what has their names, the others stand behind
them in order. -/
theorem foldl_put_shapeOf {outputs inputs : List Variable} (houtputs : (outputs.map name).Nodup)
    (hinputs : (inputs.map name).Nodup) :
    outputs.foldl (fun vars o => put .input o.name (Feature.shapeOf o) vars) inputs
      = inputs.map (taking outputs)
        ++ (outputs.filter fun o => o.name ∉ inputs.map name).map arriving := by
  induction outputs generalizing inputs with
  | nil =>
      have hall : inputs.map (taking []) = inputs.map id := rfl
      simp [hall]
  | cons o outputs ih =>
      obtain ⟨ho, houtputs⟩ := List.nodup_cons.1 houtputs
      rw [List.foldl_cons]
      by_cases hin : o.name ∈ inputs.map name
      · have hnames : (inputs.map fun v => if v.name = o.name then v.changeAll (Feature.shapeOf o)
            else v).map name = inputs.map name := by
          rw [List.map_map]
          refine List.map_congr_left fun v _ => ?_
          by_cases hv : v.name = o.name <;> simp [hv, name_changeAll]
        rw [put_of_mem hinputs hin, ih houtputs (hnames ▸ hinputs), hnames, List.map_map,
          List.filter_cons_of_neg (by simpa using hin)]
        congr 1
        refine List.map_congr_left fun v _ => ?_
        -- Nothing that arrives later has the name of this output.
        by_cases hv : v.name = o.name
        · have hlater : (v.changeAll (Feature.shapeOf o)).name ∉ outputs.map name := by
            rwa [name_changeAll, hv]
          simp only [Function.comp_apply, if_pos hv, taking_of_not_mem hlater, taking_cons_self hv]
        · simp only [Function.comp_apply, if_neg hv, taking_cons_of_ne hv]
      · have hnew : ((inputs ++ [arriving o]).map name).Nodup := by
          rw [List.map_append]
          exact List.nodup_append_comm.2 (List.nodup_cons.2 ⟨hin, hinputs⟩)
        have hold : inputs.map (taking outputs) = inputs.map (taking (o :: outputs)) := by
          refine List.map_congr_left fun v hv => (taking_cons_of_ne fun hname => hin ?_).symm
          exact hname ▸ List.mem_map_of_mem hv
        have hlast : (arriving o).taking outputs = arriving o := taking_of_not_mem ho
        have hrest : (outputs.filter fun p => p.name ∉ (inputs ++ [arriving o]).map name)
            = outputs.filter fun p => p.name ∉ inputs.map name := by
          refine List.filter_congr fun p hp => ?_
          have hne : p.name ≠ o.name := fun hname => ho (hname ▸ List.mem_map_of_mem hp)
          simp [arriving, hne]
        rw [put_of_not_mem hin, changeAll_fresh, ih houtputs hnew, hrest, List.map_append, hold,
          List.map_singleton, hlast, List.filter_cons_of_pos (by simpa using hin)]
        simp

end Variable

namespace Shader

open Variable (taking arriving)

/-! ## A chained stage -/

theorem editAll_chainFrom (s : Shader) (outputs : List Variable) :
    s.editAll (outputs.map fun o => Feature.input o.name (Feature.shapeOf o))
      = { s with
          inputs := outputs.foldl
            (fun vars o => Variable.put .input o.name (Feature.shapeOf o) vars) s.inputs } := by
  induction outputs generalizing s with
  | nil => rfl
  | cons o outputs ih =>
      rw [List.map_cons, editAll_cons, ih]
      rfl

/-- What the inputs of a stage come to, if outputs arrive there. -/
def inputsAfter (outputs inputs : List Variable) : List Variable :=
  inputs.map (taking outputs)
    ++ (outputs.filter fun o => o.name ∉ inputs.map Variable.name).map arriving

/-- **Chaining is never refused, and changes the inputs alone.** -/
theorem apply_chainFrom {previous next : Shader} (hprevious : previous.Named) (hnext : next.Named) :
    next.apply (.chainFrom previous)
      = .ok { next with inputs := inputsAfter previous.outputs next.inputs } := by
  have hinputs : previous.outputs.foldl
      (fun vars o => Variable.put .input o.name (Feature.shapeOf o) vars) next.inputs
        = inputsAfter previous.outputs next.inputs :=
    Variable.foldl_put_shapeOf (hprevious.nodup .output) (hnext.nodup .input)
  have hedits := editAll_chainFrom next previous.outputs
  rw [hinputs] at hedits
  exact congrArg Except.ok hedits

section
variable {outputs inputs : List Variable}

theorem names_inputsAfter : (inputsAfter outputs inputs).map Variable.name
    = inputs.map Variable.name
      ++ (outputs.map Variable.name).filter fun x => x ∉ inputs.map Variable.name := by
  have htaking : (inputs.map (taking outputs)).map Variable.name = inputs.map Variable.name := by
    rw [List.map_map]
    exact List.map_congr_left fun v _ => Variable.name_taking
  rw [inputsAfter, List.map_append, htaking, List.map_map, List.filter_map]
  rfl

variable (inputs) in
/-- Every output is there in its shape afterwards. -/
theorem exists_mem_inputsAfter (houtputs : (outputs.map Variable.name).Nodup) {o : Variable}
    (ho : o ∈ outputs) : ∃ v ∈ inputsAfter outputs inputs, v.name = o.name ∧ v.ty = o.ty ∧
      v.arraySize = o.arraySize ∧ ∀ slot, o.slot = some slot → v.slot = some slot := by
  by_cases hin : o.name ∈ inputs.map Variable.name
  · obtain ⟨v, hv, hname⟩ := List.mem_map.1 hin
    have htaking := Variable.taking_of_mem houtputs ho hname.symm
    refine ⟨v.taking outputs, List.mem_append_left _ (List.mem_map_of_mem hv), ?_⟩
    rw [htaking, Variable.changeAll_shapeOf]
    exact ⟨hname, rfl, rfl, fun slot hslot => by simp [hslot]⟩
  · have hnew : o ∈ outputs.filter fun p => p.name ∉ inputs.map Variable.name :=
      List.mem_filter.2 ⟨ho, by simpa using hin⟩
    exact ⟨arriving o, List.mem_append_right _ (List.mem_map_of_mem hnew), rfl, rfl, rfl,
      fun slot hslot => hslot⟩

/-- What has arrived makes no difference if it arrives again. -/
theorem inputsAfter_inputsAfter (houtputs : (outputs.map Variable.name).Nodup) :
    inputsAfter outputs (inputsAfter outputs inputs) = inputsAfter outputs inputs := by
  have hold : ∀ v ∈ inputsAfter outputs inputs, v.taking outputs = v := by
    intro v hv
    rcases List.mem_append.1 hv with hv | hv
    · obtain ⟨u, -, rfl⟩ := List.mem_map.1 hv
      exact Variable.taking_taking
    · obtain ⟨o, ho, rfl⟩ := List.mem_map.1 hv
      have htaking : (arriving o).taking outputs = (arriving o).changeAll (Feature.shapeOf o) :=
        Variable.taking_of_mem houtputs (List.mem_filter.1 ho).1 rfl
      rw [htaking, Variable.changeAll_shapeOf]
      cases h : o.slot <;> simp [arriving, h]
  have hnone : (outputs.filter fun o =>
      o.name ∉ (inputsAfter outputs inputs).map Variable.name) = [] := by
    rw [List.filter_eq_nil_iff]
    intro o ho
    obtain ⟨v, hv, hname, -⟩ := exists_mem_inputsAfter inputs houtputs ho
    simpa using ⟨v, hv, hname⟩
  rw [inputsAfter, hnone, List.map_nil, List.append_nil]
  exact (List.map_congr_left hold).trans (List.map_id _)

/-- Where names stand once, a variable is the only one of its name. -/
theorem filter_name_eq {vars : List Variable} (hnodup : (vars.map Variable.name).Nodup)
    {v : Variable} (hv : v ∈ vars) : vars.filter (fun u => u.name = v.name) = [v] := by
  obtain ⟨before, after, rfl⟩ := List.append_of_mem hv
  rw [List.map_append, List.map_cons, List.nodup_middle, List.nodup_cons,
    ← List.map_append] at hnodup
  have hothers : ∀ ws : List Variable, (∀ w ∈ ws, w ∈ before ++ after) →
      ws.filter (fun u => u.name = v.name) = [] := by
    intro ws hws
    rw [List.filter_eq_nil_iff]
    intro w hw hname
    have heq : w.name = v.name := by simpa using hname
    exact hnodup.1 (heq ▸ List.mem_map_of_mem (hws w hw))
  rw [List.filter_append, List.filter_cons_of_pos (by simp),
    hothers before fun w hw => List.mem_append_left _ hw,
    hothers after fun w hw => List.mem_append_right _ hw]
  rfl

/-- Where there were no inputs, a slot finds the output that was declared last for it. -/
theorem isLast_inputsAfter {slot : Slot} {o : Variable}
    (h : IsLast (fun u => u.slot = some slot) outputs o) :
    IsLast (fun u => u.slot = some slot) (inputsAfter outputs []) (arriving o) := by
  obtain ⟨hslot, before, after, rfl, hafter⟩ := h
  refine ⟨hslot, before.map arriving, after.map arriving, by simp [inputsAfter], ?_⟩
  intro u hu
  obtain ⟨p, hp, rfl⟩ := List.mem_map.1 hu
  exact hafter p hp

end

/-- What becomes of a stage that is chained from another. -/
structure Chained (previous next chained : Shader) : Prop where
  /-- Each output arrives as the only input of its name, in its shape. -/
  arrives : ∀ o ∈ previous.outputs, ∃ v, chained.inputs.filter (fun u => u.name = o.name) = [v] ∧
    v.ty = o.ty ∧ v.arraySize = o.arraySize ∧ ∀ slot, o.slot = some slot → v.slot = some slot
  /-- An input that no output is called like stays as it is, where it is. -/
  stays : ∀ (place : Nat) (v : Variable), next.inputs[place]? = some v →
    v.name ∉ previous.names .output → chained.inputs[place]? = some v
  /-- Inputs keep their places, and what is new follows in the order of the outputs. -/
  names : chained.names .input
    = next.names .input ++ (previous.names .output).filter fun x => x ∉ next.names .input
  /-- All but the inputs is as it was. -/
  frame : chained = { next with inputs := chained.inputs }
  /-- Chaining once more changes nothing. -/
  again : chained.apply (.chainFrom previous) = .ok chained
  /-- In a stage that had no inputs, each slot that is put out finds the output that was
  declared last for it. -/
  slots : next.inputs = [] → ∀ slot, (∃ o ∈ previous.outputs, o.slot = some slot) →
    ∃ o v, IsLast (fun u => u.slot = some slot) previous.outputs o ∧
      chained.slotInput? slot = some v ∧ v.name = o.name ∧ v.ty = o.ty ∧
      v.arraySize = o.arraySize ∧ v.slot = some slot

/-- **Stages agree on what goes from one to the other.** A stage that is chained from another
takes in all of its outputs, each under its own name and in its shape, and is otherwise as it
was. -/
theorem chained_of_reachable {previous next : Shader} (hprevious : previous.Reachable)
    (hnext : next.Reachable) :
    ∃ chained, next.apply (.chainFrom previous) = .ok chained ∧ Chained previous next chained := by
  have houtputs : (previous.outputs.map Variable.name).Nodup := hprevious.named.nodup .output
  have happly := apply_chainFrom hprevious.named hnext.named
  have hchained : (next.extend (.chainFrom previous)).Named := by
    refine hnext.named.extend _ ?_
    rintro _ ⟨rfl⟩
    exact hprevious.named
  rw [extend, happly] at hchained
  refine ⟨_, happly, ?_⟩
  constructor
  case arrives =>
    intro o ho
    obtain ⟨v, hv, hname, hshape⟩ := exists_mem_inputsAfter next.inputs houtputs ho
    exact ⟨v, hname ▸ filter_name_eq (hchained.nodup .input) hv, hshape⟩
  case stays =>
    intro place v hv hname
    have hplace : place < (next.inputs.map (taking previous.outputs)).length := by
      simpa using (List.getElem?_eq_some_iff.1 hv).1
    show (inputsAfter previous.outputs next.inputs)[place]? = some v
    rw [inputsAfter, List.getElem?_append_left hplace, List.getElem?_map, hv]
    exact congrArg some (Variable.taking_of_not_mem hname)
  case names => exact names_inputsAfter
  case frame => rfl
  case again =>
    rw [apply_chainFrom hprevious.named hchained]
    exact congrArg (fun vars => Except.ok { next with inputs := vars })
      (inputsAfter_inputsAfter houtputs)
  case slots =>
    rintro hfresh slot ⟨o, ho, hslot⟩
    cases hlast : findLast? (fun u => decide (u.slot = some slot)) previous.outputs with
    | none => exact absurd hslot (by simpa using findLast?_eq_none_iff.1 hlast o ho)
    | some p =>
        have hp := findLast?_eq_some_iff_isLast.1 hlast
        have hfound := isLast_inputsAfter hp
        rw [← hfresh] at hfound
        exact ⟨p, arriving p, hp, slotInput?_eq_some_iff.2 (.inl hfound), rfl, rfl, rfl, hp.1⟩

/-- A vertex stage that puts out four weights, declared by hand, and carries a coordinate on. -/
def weighing : Shader :=
  (((Shader.empty "weighing" .vertex).put .output "weights_vsh" [.ty .float, .array 4]).extend
    (.vertexInputs ⟨false, false, false, true⟩)).extend (.passThrough "texcoord_in")

/-- A stage with two inputs of its own, one of which is called like an output. -/
def weighed : Shader :=
  ((Shader.empty "weighed" .fragment).put .input "weights_vsh" [.ty (.vec 2)]).put .input "fog"
    [.ty .float]

theorem reachable_weighing : weighing.Reachable :=
  .extend (.extend (.put (.empty ..) (by decide) ..) (by simp)) (by simp)

theorem reachable_weighed : weighed.Reachable :=
  .put (.put (.empty ..) (by decide) ..) (by decide) ..

theorem chained_weighed :
    weighing.Reachable ∧ weighed.Reachable ∧
      ∃ chained, weighed.apply (.chainFrom weighing) = .ok chained ∧
        Chained weighing weighed chained ∧
        chained.inputs.map Variable.declaration
          = ["in float weights_vsh[4]", "in float fog", "in vec3 texcoord_vsh"] := by
  obtain ⟨chained, happly, hchained⟩ := chained_of_reachable reachable_weighing reachable_weighed
  refine ⟨reachable_weighing, reachable_weighed, chained, happly, hchained, ?_⟩
  have hextend : weighed.extend (.chainFrom weighing) = chained := by rw [extend, happly]
  rw [← hextend]
  decide

end Shader

end Shaderwright
