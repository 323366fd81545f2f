import Shaderwright.Proofs.Results
import Shaderwright.Shader.Feature

/-!
# What edits do to a shader

A declaration changes one variable in place or appends a new one, so the names of a
list only ever grow at its end. A statement or a conditional appends lines and
leaves the depth as it was. A feature that is not refused comes down to a list of
edits; `Feature.Yields` says once, for every feature, what it found and which edits
it then makes.
-/

namespace Shaderwright

/-! ## Changing the last match -/

theorem updateLast?_eq_none_iff {p : α → Bool} {f : α → α} {as : List α} :
    updateLast? p f as = none ↔ ∀ a ∈ as, p a = false := by
  induction as with
  | nil => simp [updateLast?]
  | cons a as ih =>
      rw [updateLast?]
      -- The head is looked at only when nothing behind it matches.
      cases hu : updateLast? p f as with
      | some bs =>
          have hne : ¬ ∀ b ∈ as, p b = false := fun h => by simp [ih.2 h] at hu
          simp [hne]
      | none =>
          have hall := ih.1 hu
          cases hp : p a with
          | false => simpa [hp] using hall
          | true => simp [hp]

/-- One element is changed, the last that satisfies `p`. -/
theorem updateLast?_eq_some {p : α → Bool} {f : α → α} {as bs : List α}
    (h : updateLast? p f as = some bs) :
    ∃ before a after, as = before ++ a :: after ∧ p a = true ∧
      (∀ b ∈ after, p b = false) ∧ bs = before ++ f a :: after := by
  induction as generalizing bs with
  | nil => simp [updateLast?] at h
  | cons a as ih =>
      rw [updateLast?] at h
      cases hu : updateLast? p f as with
      | some cs =>
          rw [hu] at h
          obtain rfl : a :: cs = bs := by simpa using h
          obtain ⟨before, x, after, rfl, hx, hafter, rfl⟩ := ih hu
          exact ⟨a :: before, x, after, rfl, hx, hafter, rfl⟩
      | none =>
          rw [hu] at h
          cases hp : p a with
          | false => simp [hp] at h
          | true =>
              obtain rfl : f a :: as = bs := by simpa [hp] using h
              exact ⟨[], a, as, rfl, hp, updateLast?_eq_none_iff.1 hu, rfl⟩

/-- What is found stands in the list and satisfies `p`. -/
theorem mem_of_findLast? {p : α → Bool} {as : List α} {a : α} (h : findLast? p as = some a) :
    a ∈ as ∧ p a = true := by
  obtain ⟨hp, before, after, rfl, -⟩ := findLast?_eq_some_iff.1 h
  exact ⟨by simp, hp⟩

namespace Variable

/-! ## Declaring a variable -/

/-- A declaration changes a variable of that name in place, or appends one. -/
theorem put_cases (role : Role) (x : String) (cs : List Change) (vars : List Variable) :
    (∃ before v after, vars = before ++ v :: after ∧ v.name = x ∧
      (∀ w ∈ after, w.name ≠ x) ∧ put role x cs vars = before ++ v.changeAll cs :: after) ∨
    (x ∉ vars.map name ∧
      put role x cs vars = vars ++ [(plain role .unset x).changeAll cs]) := by
  rw [put]
  cases hu : updateLast? (fun v => v.name == x) (fun v => v.changeAll cs) vars with
  | some updated =>
      obtain ⟨before, v, after, rfl, hv, hafter, rfl⟩ := updateLast?_eq_some hu
      exact .inl ⟨before, v, after, rfl, by simpa using hv, by simpa using hafter, rfl⟩
  | none =>
      refine .inr ⟨?_, rfl⟩
      simpa using updateLast?_eq_none_iff.1 hu

theorem put_of_not_mem {role : Role} {x : String} {cs : List Change} {vars : List Variable}
    (h : x ∉ vars.map name) :
    put role x cs vars = vars ++ [(plain role .unset x).changeAll cs] := by
  obtain ⟨before, v, after, rfl, rfl, -, -⟩ | ⟨-, hput⟩ := put_cases role x cs vars
  · exact absurd (by simp) h
  · exact hput

/-- Where names stand once, one variable is changed, the one of the name. -/
theorem put_of_mem {role : Role} {x : String} {cs : List Change} {vars : List Variable}
    (hnodup : (vars.map name).Nodup) (h : x ∈ vars.map name) :
    put role x cs vars = vars.map fun v => if v.name = x then v.changeAll cs else v := by
  obtain ⟨before, v, after, rfl, rfl, hafter, hput⟩ | ⟨hx, -⟩ := put_cases role x cs vars
  · have hbefore : ∀ w ∈ before, w.name ≠ v.name := by
      intro w hw hname
      rw [List.map_append, List.nodup_append] at hnodup
      exact hnodup.2.2 _ (List.mem_map_of_mem hw) _ (by simp) hname
    have hsame : ∀ ws : List Variable, (∀ w ∈ ws, w.name ≠ v.name) →
        (ws.map fun w => if w.name = v.name then w.changeAll cs else w) = ws := by
      intro ws hws
      conv => rhs; rw [← List.map_id ws]
      exact List.map_congr_left fun w hw => if_neg (hws w hw)
    rw [hput, List.map_append, List.map_cons, hsame before hbefore, hsame after hafter, if_pos rfl]
  · exact absurd h hx

/-- The names of a list grow at its end, by what was not there. -/
theorem names_put (role : Role) (x : String) (cs : List Change) (vars : List Variable) :
    (put role x cs vars).map name
      = if x ∈ vars.map name then vars.map name else vars.map name ++ [x] := by
  obtain ⟨before, v, after, rfl, rfl, -, hput⟩ | ⟨hx, hput⟩ := put_cases role x cs vars
  · rw [hput, if_pos (by simp)]
    simp [name_changeAll]
  · rw [hput, if_neg hx]
    simp [name_changeAll, plain]

theorem mem_names_put (role : Role) (x y : String) (cs : List Change) (vars : List Variable) :
    y ∈ (put role x cs vars).map name ↔ y ∈ vars.map name ∨ y = x := by
  rw [names_put]
  split
  · next h =>
      constructor
      · exact .inl
      · rintro (hy | rfl)
        · exact hy
        · exact h
  · simp

/-- A property of variables survives a declaration if the changes keep it and the
fresh variable, once changed, has it. -/
theorem forall_put {P : Variable → Prop} {role : Role} {x : String} {cs : List Change}
    {vars : List Variable} (hvars : ∀ v ∈ vars, P v)
    (hchange : ∀ v, v.name = x → P v → P (v.changeAll cs))
    (hfresh : P ((plain role .unset x).changeAll cs)) : ∀ v ∈ put role x cs vars, P v := by
  obtain ⟨before, u, after, rfl, hu, -, hput⟩ | ⟨-, hput⟩ := put_cases role x cs vars
  · have hPu : P u := hvars u (by simp)
    rw [hput]
    intro v hv
    rcases List.mem_append.1 hv with hv | hv
    · exact hvars v (by simp [hv])
    · rcases List.mem_cons.1 hv with rfl | hv
      · exact hchange u hu hPu
      · exact hvars v (by simp [hv])
  · rw [hput]
    intro v hv
    rcases List.mem_append.1 hv with hv | hv
    · exact hvars v hv
    · obtain rfl := List.mem_singleton.1 hv
      exact hfresh

end Variable

namespace Shader

/-! ## Single edits -/

/-- The names declared in a list, in order. -/
def names (s : Shader) (storage : Storage) : List String :=
  (s.vars storage).map Variable.name

theorem vars_withVars (s : Shader) (storage other : Storage) (vars : List Variable) :
    (s.withVars storage vars).vars other = if other = storage then vars else s.vars other := by
  cases storage <;> cases other <;> rfl

@[simp] theorem stage_withVars (s : Shader) (storage : Storage) (vars : List Variable) :
    (s.withVars storage vars).stage = s.stage := by
  cases storage <;> rfl

@[simp] theorem statements_withVars (s : Shader) (storage : Storage) (vars : List Variable) :
    (s.withVars storage vars).statements = s.statements := by
  cases storage <;> rfl

@[simp] theorem depth_withVars (s : Shader) (storage : Storage) (vars : List Variable) :
    (s.withVars storage vars).depth = s.depth := by
  cases storage <;> rfl

@[simp] theorem vars_push (s : Shader) (line : Line) (storage : Storage) :
    (s.push line).vars storage = s.vars storage := by
  cases storage <;> rfl

@[simp] theorem vars_openIf (s : Shader) (condition : Expr) (storage : Storage) :
    (s.openIf condition).vars storage = s.vars storage := by
  cases storage <;> rfl

@[simp] theorem vars_closeIf (s : Shader) (storage : Storage) :
    s.closeIf.vars storage = s.vars storage := by
  cases storage <;> rfl

end Shader

/-- The lines an edit appends at a depth. -/
def Edit.lines (depth : Nat) : Edit → List Statement
  | .declare _ _ _ => []
  | .statement e => [⟨depth, .statement e⟩]
  | .conditional condition body =>
      [⟨depth, .openIf condition⟩, ⟨depth + 1, .statement body⟩, ⟨depth, .close⟩]

/-- The names that edits declare in a list. -/
def Edit.names (storage : Storage) (edits : List Edit) : List String :=
  edits.filterMap fun
    | .declare st x _ => if st = storage then some x else none
    | _ => none

namespace Shader

@[simp] theorem stage_edit (s : Shader) (e : Edit) : (s.edit e).stage = s.stage := by
  cases e with
  | declare storage x cs => exact stage_withVars ..
  | statement e => rfl
  | conditional condition body => rfl

@[simp] theorem depth_edit (s : Shader) (e : Edit) : (s.edit e).depth = s.depth := by
  cases e with
  | declare storage x cs => exact depth_withVars ..
  | statement e => rfl
  | conditional condition body => exact Nat.add_sub_cancel ..

theorem statements_edit (s : Shader) (e : Edit) :
    (s.edit e).statements = s.statements ++ e.lines s.depth := by
  cases e with
  | declare storage x cs => exact (statements_withVars ..).trans (List.append_nil _).symm
  | statement e => rfl
  | conditional condition body =>
      simp [edit, closeIf, next, push, openIf, Edit.lines]

theorem vars_declare (s : Shader) (st storage : Storage) (x : String)
    (cs : List Variable.Change) :
    (s.edit (.declare st x cs)).vars storage
      = if storage = st then Variable.put st.role x cs (s.vars st) else s.vars storage :=
  vars_withVars ..

theorem mem_names_edit (s : Shader) (e : Edit) (storage : Storage) (x : String) :
    x ∈ (s.edit e).names storage ↔ x ∈ s.names storage ∨ x ∈ Edit.names storage [e] := by
  cases e with
  | declare st y cs =>
      by_cases hst : st = storage
      · subst hst
        rw [names, vars_declare, if_pos rfl, Variable.mem_names_put]
        simp [names, Edit.names]
      · rw [names, vars_declare, if_neg fun h => hst h.symm]
        simp [names, Edit.names, hst]
  | statement e => simp [names, Edit.names, edit, next]
  | conditional condition body => simp [names, Edit.names, edit, next]

/-! ## Lists of edits -/

@[simp] theorem editAll_nil (s : Shader) : s.editAll [] = s := rfl

@[simp] theorem editAll_cons (s : Shader) (e : Edit) (es : List Edit) :
    s.editAll (e :: es) = (s.edit e).editAll es := rfl

@[simp] theorem stage_editAll (s : Shader) (es : List Edit) : (s.editAll es).stage = s.stage := by
  induction es generalizing s with
  | nil => rfl
  | cons e es ih => rw [editAll_cons, ih, stage_edit]

@[simp] theorem depth_editAll (s : Shader) (es : List Edit) : (s.editAll es).depth = s.depth := by
  induction es generalizing s with
  | nil => rfl
  | cons e es ih => rw [editAll_cons, ih, depth_edit]

theorem statements_editAll (s : Shader) (es : List Edit) :
    (s.editAll es).statements = s.statements ++ es.flatMap (Edit.lines s.depth) := by
  induction es generalizing s with
  | nil => simp
  | cons e es ih => simp [ih, statements_edit]

theorem mem_names_editAll (s : Shader) (es : List Edit) (storage : Storage) (x : String) :
    x ∈ (s.editAll es).names storage ↔ x ∈ s.names storage ∨ x ∈ Edit.names storage es := by
  induction es generalizing s with
  | nil => simp [Edit.names]
  | cons e es ih =>
      have hcons : x ∈ Edit.names storage (e :: es)
          ↔ x ∈ Edit.names storage [e] ∨ x ∈ Edit.names storage es := by
        rw [← List.singleton_append, Edit.names, List.filterMap_append, List.mem_append]
        rfl
      rw [editAll_cons, ih, mem_names_edit, hcons, or_assoc]

/-- A property of the variables of a list survives edits, if every declaration
among them keeps it and establishes it. -/
theorem forall_vars_editAll {P : Storage → Variable → Prop} {es : List Edit} {s : Shader}
    (hs : ∀ storage, ∀ v ∈ s.vars storage, P storage v)
    (hes : ∀ st x cs, .declare st x cs ∈ es →
      (∀ v, v.name = x → P st v → P st (v.changeAll cs)) ∧
      P st ((Variable.plain st.role .unset x).changeAll cs)) :
    ∀ storage, ∀ v ∈ (s.editAll es).vars storage, P storage v := by
  induction es generalizing s with
  | nil => exact hs
  | cons e es ih =>
      refine ih (fun storage v hv => ?_) fun st x cs h => hes st x cs (List.mem_cons_of_mem _ h)
      cases e with
      | declare st x cs =>
          obtain ⟨hchange, hfresh⟩ := hes st x cs (List.mem_cons_self ..)
          rw [vars_declare] at hv
          split at hv
          · next heq =>
              subst heq
              exact Variable.forall_put (hs storage) hchange hfresh v hv
          · exact hs storage v hv
      | statement e => exact hs storage v (by simpa [edit, next] using hv)
      | conditional condition body => exact hs storage v (by simpa [edit, next] using hv)

end Shader

/-- Taking the shape of a variable takes its type and array size, and its slot, if it has one. -/
theorem Variable.changeAll_shapeOf (v source : Variable) :
    v.changeAll (Feature.shapeOf source) = { v with
      ty := source.ty, arraySize := source.arraySize, slot := source.slot.or v.slot } := by
  rw [Feature.shapeOf]
  cases source.slot <;> rfl

/-! ## What a feature comes down to -/

namespace Feature

/-- The edits of a feature on a shader, with everything the feature finds there. -/
inductive Yields (s : Shader) : Feature → List Edit → Prop
  | vertexInputs (inputs : VertexInputs) :
      Yields s (.vertexInputs inputs) (vertexInputsEdits inputs)
  | chainFrom (previous : Shader) : Yields s (.chainFrom previous) (chainFromEdits previous)
  | transform {position : Variable} (hposition : s.slotInput? .position = some position) :
      Yields s .transform (transformEdits s position)
  | view {transformed : Variable} (h : s.find? .local posTransformed = some transformed) :
      Yields s .view (projectedEdits posViewed "u_view_matrix" transformed)
  | project {viewed : Variable} (h : s.find? .local posViewed = some viewed) :
      Yields s .project (projectedEdits posProjected "u_proj_matrix" viewed)
  | computeBinormal {normal tangent : Variable}
      (hnormal : produced s .computeBinormal .normal = .ok normal)
      (htangent : produced s .computeBinormal .tangent = .ok tangent) :
      Yields s .computeBinormal (binormalEdits s normal tangent)
  | passThrough {pattern : String} {source : Variable}
      (h : s.find? .input pattern = some source) :
      Yields s (.passThrough pattern) (passThroughEdits s source)
  | emitPosition {transformed : Variable}
      (h : s.find? .local posTransformed = some transformed) :
      Yields s .emitPosition (emitPositionEdits s transformed)
  | emitClipPosition {projected clip : Variable}
      (h : s.find? .local posProjected = some projected)
      (hclip : s.builtin? "gl_Position" = some clip) :
      Yields s .emitClipPosition (emitClipPositionEdits clip projected)
  | colorWhite : Yields s .colorWhite (colorWhiteEdits s)
  | colorTextured {texcoord : Variable} (htexcoord : s.slotInput? .texCoord = some texcoord) :
      Yields s .colorTextured (colorTexturedEdits s texcoord)
  | normalMapped {texcoord normal tangent binormal facing : Variable}
      (htexcoord : s.slotInput? .texCoord = some texcoord)
      (hnormal : s.slotInput? .normal = some normal)
      (htangent : s.slotInput? .tangent = some tangent)
      (hbinormal : s.slotInput? .binormal = some binormal)
      (hfacing : s.builtin? "gl_FrontFacing" = some facing) :
      Yields s .normalMapped (normalMappedEdits texcoord normal tangent binormal facing)
  | blinn {normal position texcoord color : Variable}
      (hnormal : s.slotInput? .normal = some normal)
      (hposition : s.slotInput? .position = some position)
      (htexcoord : s.slotInput? .texCoord = some texcoord)
      (hcolor : s.find? .output Slot.color.stem = some color) :
      Yields s .blinn (blinnEdits s normal position texcoord color)
  | shadowMapped {position : Variable} (hposition : s.slotInput? .position = some position) :
      Yields s .shadowMapped (shadowMappedEdits position)
  | shadowMappedVariance {position : Variable}
      (hposition : s.slotInput? .position = some position) :
      Yields s .shadowMappedVariance (shadowMappedVarianceEdits position)

theorem requireSlot_eq_ok {s : Shader} {f : Feature} {slot : Slot} {v : Variable} :
    requireSlot s f slot = .ok v ↔ s.slotInput? slot = some v := by
  rw [requireSlot]
  cases s.slotInput? slot <;> simp

theorem requireLocal_eq_ok {s : Shader} {f : Feature} {name : String} {v : Variable} :
    requireLocal s f name = .ok v ↔ s.find? .local name = some v := by
  rw [requireLocal]
  cases s.find? .local name <;> simp

theorem requireBuiltin_eq_ok {s : Shader} {name : String} {v : Variable} :
    s.requireBuiltin name = .ok v ↔ s.builtin? name = some v := by
  rw [Shader.requireBuiltin]
  cases s.builtin? name <;> simp

theorem yields_of_edits {s : Shader} {f : Feature} {es : List Edit} (h : f.edits s = .ok es) :
    Yields s f es := by
  cases f with
  | vertexInputs inputs =>
      obtain rfl := Except.ok.inj h
      exact .vertexInputs inputs
  | chainFrom previous =>
      obtain rfl := Except.ok.inj h
      exact .chainFrom previous
  | transform =>
      simp only [edits, bind_eq_ok, requireSlot_eq_ok] at h
      obtain ⟨position, hposition, h⟩ := h
      obtain rfl := Except.ok.inj h
      exact .transform hposition
  | view =>
      simp only [edits, bind_eq_ok, requireLocal_eq_ok] at h
      obtain ⟨transformed, ht, h⟩ := h
      obtain rfl := Except.ok.inj h
      exact .view ht
  | project =>
      simp only [edits, bind_eq_ok, requireLocal_eq_ok] at h
      obtain ⟨viewed, hv, h⟩ := h
      obtain rfl := Except.ok.inj h
      exact .project hv
  | computeBinormal =>
      simp only [edits, bind_eq_ok] at h
      obtain ⟨normal, hnormal, tangent, htangent, h⟩ := h
      obtain rfl := Except.ok.inj h
      exact .computeBinormal hnormal htangent
  | passThrough pattern =>
      rw [edits] at h
      cases hfind : s.find? .input pattern with
      | none => simp [hfind, throw, throwThe, MonadExceptOf.throw] at h
      | some source =>
          rw [hfind] at h
          obtain rfl := Except.ok.inj h
          exact .passThrough hfind
  | emitPosition =>
      simp only [edits, bind_eq_ok, requireLocal_eq_ok] at h
      obtain ⟨transformed, ht, h⟩ := h
      obtain rfl := Except.ok.inj h
      exact .emitPosition ht
  | emitClipPosition =>
      simp only [edits, bind_eq_ok, requireLocal_eq_ok, requireBuiltin_eq_ok] at h
      obtain ⟨projected, hp, clip, hclip, h⟩ := h
      obtain rfl := Except.ok.inj h
      exact .emitClipPosition hp hclip
  | colorWhite =>
      obtain rfl := Except.ok.inj h
      exact .colorWhite
  | colorTextured =>
      simp only [edits, bind_eq_ok, requireSlot_eq_ok] at h
      obtain ⟨texcoord, htexcoord, h⟩ := h
      obtain rfl := Except.ok.inj h
      exact .colorTextured htexcoord
  | normalMapped =>
      simp only [edits, bind_eq_ok, requireSlot_eq_ok, requireBuiltin_eq_ok] at h
      obtain ⟨texcoord, htexcoord, normal, hnormal, tangent, htangent, binormal, hbinormal,
        facing, hfacing, h⟩ := h
      obtain rfl := Except.ok.inj h
      exact .normalMapped htexcoord hnormal htangent hbinormal hfacing
  | blinn =>
      simp only [edits, bind_eq_ok, requireSlot_eq_ok] at h
      obtain ⟨normal, hnormal, position, hposition, texcoord, htexcoord, h⟩ := h
      cases hcolor : s.find? .output Slot.color.stem with
      | none => simp [hcolor, throw, throwThe, MonadExceptOf.throw] at h
      | some color =>
          rw [hcolor] at h
          obtain rfl := Except.ok.inj h
          exact .blinn hnormal hposition htexcoord hcolor
  | shadowMapped =>
      simp only [edits, bind_eq_ok, requireSlot_eq_ok] at h
      obtain ⟨position, hposition, h⟩ := h
      obtain rfl := Except.ok.inj h
      exact .shadowMapped hposition
  | shadowMappedVariance =>
      simp only [edits, bind_eq_ok, requireSlot_eq_ok] at h
      obtain ⟨position, hposition, h⟩ := h
      obtain rfl := Except.ok.inj h
      exact .shadowMappedVariance hposition

end Feature

namespace Shader

/-- A feature is refused and changes nothing, or makes its edits. -/
theorem extend_cases (s : Shader) (f : Feature) :
    s.extend f = s ∨ ∃ es, f.Yields s es ∧ s.extend f = s.editAll es := by
  rw [extend, apply]
  cases h : f.edits s with
  | error fault => exact .inl rfl
  | ok es => exact .inr ⟨es, Feature.yields_of_edits h, rfl⟩

end Shader

end Shaderwright
