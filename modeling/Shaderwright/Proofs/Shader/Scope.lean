import Shaderwright.Proofs.Expr.Names
import Shaderwright.Proofs.Shader.Edits

/-!
# Main functions are closed

Whatever features are added to a fresh stage, in whatever order and under whatever
conditions, the main function names only what the stage declares or the language
provides, and assigns only to locals, outputs and built-in outputs.

Declarations are never taken back, so it is enough that the edits of one feature are
closed in the shader they lead to (`closedIn_of_yields`).
-/

namespace Shaderwright

/-! ## Scopes -/

/-- What may be named and what may be assigned. -/
structure Scope where
  known : String → Prop
  assignable : String → Prop

namespace Scope

/-- Two scopes taken together. -/
def join (Γ Δ : Scope) : Scope where
  known x := Γ.known x ∨ Δ.known x
  assignable x := Γ.assignable x ∨ Δ.assignable x

/-- What is in a scope is in the other. -/
structure Within (Γ Δ : Scope) : Prop where
  known : ∀ x, Γ.known x → Δ.known x
  assignable : ∀ x, Γ.assignable x → Δ.assignable x

theorem within_join_left (Γ Δ : Scope) : Γ.Within (Γ.join Δ) :=
  ⟨fun _ => .inl, fun _ => .inl⟩

theorem within_join_right {Γ Δ Θ : Scope} (h : Θ.Within Δ) : Θ.Within (Γ.join Δ) :=
  ⟨fun x hx => .inr (h.known x hx), fun x hx => .inr (h.assignable x hx)⟩

end Scope

/-- The identifiers of a tree are known. -/
def Expr.Names (Γ : Scope) (e : Expr) : Prop := ∀ x ∈ e.names, Γ.known x

/-- The roots of what a tree assigns to are assignable. -/
def Expr.Assigns (Γ : Scope) (e : Expr) : Prop :=
  ∀ target ∈ e.targets, ∃ x, target.root? = some x ∧ Γ.assignable x

/-- A line names what is known, and a statement assigns to what is assignable. -/
def Line.Closed (Γ : Scope) : Line → Prop
  | .statement e => e.Names Γ ∧ e.Assigns Γ
  | .openIf condition => condition.Names Γ
  | .close => True

theorem Line.Closed.mono {Γ Δ : Scope} {line : Line} (h : line.Closed Γ) (hle : Γ.Within Δ) :
    line.Closed Δ := by
  cases line with
  | statement e =>
      obtain ⟨hnames, htargets⟩ := h
      refine ⟨fun x hx => hle.known x (hnames x hx), fun t ht => ?_⟩
      obtain ⟨x, hroot, hx⟩ := htargets t ht
      exact ⟨x, hroot, hle.assignable x hx⟩
  | openIf condition => exact fun x hx => hle.known x (h x hx)
  | close => trivial

namespace Shader

/-- The names of the declarations and of the built-in variables of the stage; the
locals, the outputs and the built-in outputs among them can be assigned. -/
def scope (s : Shader) : Scope where
  known x := (∃ storage, x ∈ s.names storage) ∨ ∃ v ∈ Builtin.table s.stage, v.name = x
  assignable x := x ∈ s.names .local ∨ x ∈ s.names .output ∨
    ∃ v ∈ Builtin.table s.stage, v.role = .output ∧ v.name = x

/-- Every line of the main function is closed in what the shader declares. -/
def Closed (s : Shader) : Prop := ∀ st ∈ s.statements, st.line.Closed s.scope

/-- No declared variable is a block. -/
def Flat (s : Shader) : Prop := ∀ storage, ∀ v ∈ s.vars storage, v.members = []

end Shader

/-! ## Scopes grow -/

theorem Storage.exists_iff {P : Storage → Prop} :
    (∃ storage, P storage) ↔ P .input ∨ P .output ∨ P .parameter ∨ P .local := by
  constructor
  · rintro ⟨storage, h⟩
    cases storage <;> simp [h]
  · rintro (h | h | h | h) <;> exact ⟨_, h⟩

namespace Edit

theorem names_of_subset {storage : Storage} {es fs : List Edit} (h : ∀ e ∈ es, e ∈ fs)
    {x : String} (hx : x ∈ names storage es) : x ∈ names storage fs := by
  obtain ⟨e, he, hx⟩ := List.mem_filterMap.1 hx
  exact List.mem_filterMap.2 ⟨e, h e he, hx⟩

/-- What edits bring into scope. -/
def scope (edits : List Edit) : Scope where
  known x := ∃ storage, x ∈ names storage edits
  assignable x := x ∈ names .local edits ∨ x ∈ names .output edits

/-- Edits in a longer list bring no less into scope. -/
theorem scope_of_subset {es fs : List Edit} (h : ∀ e ∈ es, e ∈ fs) :
    (scope es).Within (scope fs) where
  known x hx := by
    obtain ⟨storage, hx⟩ := hx
    exact ⟨storage, names_of_subset h hx⟩
  assignable x hx := hx.imp (names_of_subset h) (names_of_subset h)

/-- The lines of an edit are closed. -/
def Closed (Γ : Scope) : Edit → Prop
  | .declare _ _ _ => True
  | .statement e => (Line.statement e).Closed Γ
  | .conditional condition body =>
      (Line.openIf condition).Closed Γ ∧ (Line.statement body).Closed Γ

theorem Closed.lines {Γ : Scope} {e : Edit} (h : e.Closed Γ) (depth : Nat) :
    ∀ st ∈ e.lines depth, st.line.Closed Γ := by
  cases e with
  | declare storage x cs => simp [Edit.lines]
  | statement e => simpa [Edit.lines, Closed] using h
  | conditional condition body => simpa [Edit.lines, Closed, Line.Closed] using h

end Edit

namespace Shader

theorem scope_editAll (s : Shader) (es : List Edit) :
    (s.scope.join (Edit.scope es)).Within (s.editAll es).scope where
  known x hx := by
    rcases hx with (⟨storage, hx⟩ | hx) | ⟨storage, hx⟩
    · exact .inl ⟨storage, (mem_names_editAll ..).2 (.inl hx)⟩
    · exact .inr (by rwa [stage_editAll])
    · exact .inl ⟨storage, (mem_names_editAll ..).2 (.inr hx)⟩
  assignable x hx := by
    rcases hx with (hx | hx | hx) | hx | hx
    · exact .inl ((mem_names_editAll ..).2 (.inl hx))
    · exact .inr (.inl ((mem_names_editAll ..).2 (.inl hx)))
    · exact .inr (.inr (by rwa [stage_editAll]))
    · exact .inl ((mem_names_editAll ..).2 (.inr hx))
    · exact .inr (.inl ((mem_names_editAll ..).2 (.inr hx)))

/-- Edits that are closed in what was there and what they declare keep the shader
closed. -/
theorem Closed.editAll {s : Shader} (hs : s.Closed) {es : List Edit}
    (hes : ∀ e ∈ es, e.Closed (s.scope.join (Edit.scope es))) : (s.editAll es).Closed := by
  have hgrow := s.scope_editAll es
  intro st hst
  rw [statements_editAll, List.mem_append] at hst
  rcases hst with hst | hst
  · exact (hs st hst).mono
      ⟨fun x hx => hgrow.known x (.inl hx), fun x hx => hgrow.assignable x (.inl hx)⟩
  · obtain ⟨e, he, hst⟩ := List.mem_flatMap.1 hst
    exact ((hes e he).lines _ st hst).mono hgrow

/-! ## What is found is declared -/

theorem mem_of_find? {s : Shader} {storage : Storage} {pattern : String} {v : Variable}
    (h : s.find? storage pattern = some v) : v ∈ s.vars storage := (mem_of_findLast? h).1

theorem name_of_find? {s : Shader} {storage : Storage} {pattern : String} {v : Variable}
    (h : s.find? storage pattern = some v)
    (hp : Pattern.ofString pattern = .exact pattern) : v.name = pattern := by
  have haccepts := (mem_of_findLast? h).2
  rw [hp] at haccepts
  simpa [Pattern.accepts] using haccepts

theorem mem_of_slotInput? {s : Shader} {slot : Slot} {v : Variable}
    (h : s.slotInput? slot = some v) : v ∈ s.vars .input := by
  rcases Option.or_eq_some_iff.1 h with h | ⟨-, h⟩
  · exact (mem_of_findLast? h).1
  · exact mem_of_find? h

theorem mem_of_produced {s : Shader} {f : Feature} {slot : Slot} {v : Variable}
    (h : Feature.produced s f slot = .ok v) : v ∈ s.vars .output ∨ v ∈ s.vars .input := by
  rw [Feature.produced] at h
  cases ho : findLast? (fun v => v.slot = some slot) s.outputs with
  | some w =>
      rw [ho] at h
      obtain rfl := Except.ok.inj h
      exact .inl (mem_of_findLast? ho).1
  | none =>
      rw [ho] at h
      exact .inr (mem_of_slotInput? (Feature.requireSlot_eq_ok.1 h))

theorem mem_of_builtin? {s : Shader} {x : String} {v : Variable}
    (h : s.builtin? x = some v) : v ∈ Builtin.table s.stage ∧ v.name = x :=
  ⟨List.mem_of_find?_eq_some h, by simpa using List.find?_some h⟩

theorem known_of_mem {s : Shader} {storage : Storage} {v : Variable}
    (h : v ∈ s.vars storage) : s.scope.known v.name :=
  .inl ⟨storage, List.mem_map_of_mem h⟩

theorem known_of_slotInput? {s : Shader} {slot : Slot} {v : Variable}
    (h : s.slotInput? slot = some v) : s.scope.known v.name :=
  known_of_mem (mem_of_slotInput? h)

theorem known_of_produced {s : Shader} {f : Feature} {slot : Slot} {v : Variable}
    (h : Feature.produced s f slot = .ok v) : s.scope.known v.name :=
  (mem_of_produced h).elim known_of_mem known_of_mem

theorem known_of_find? {s : Shader} {storage : Storage} {pattern : String} {v : Variable}
    (h : s.find? storage pattern = some v) : s.scope.known v.name :=
  known_of_mem (mem_of_find? h)

theorem known_of_builtin? {s : Shader} {x : String} {v : Variable}
    (h : s.builtin? x = some v) : s.scope.known v.name :=
  .inr ⟨v, (mem_of_builtin? h).1, rfl⟩

/-- The only built-in variable of that name is an output, in every stage that has
one. -/
theorem role_of_glPosition {stage : Stage} :
    ∀ v ∈ Builtin.table stage, v.name = "gl_Position" → v.role = .output := by
  cases stage <;> decide

end Shader

/-! ## Every feature is closed -/

theorem Variable.member_of_flat {v : Variable} (h : v.members = []) (x : String) :
    v.member x = .member v.toExpr x := by
  simp [Variable.member, h]

/-- A change of the type, the array size or the slot. -/
def Variable.Change.shapes : Variable.Change → Bool
  | .ty _ | .array _ | .slot _ => true
  | .role _ | .member _ => false

namespace Feature

open Shader

attribute [local simp] Edit.Closed Line.Closed Expr.Names Expr.Assigns Expr.names
  Expr.argNames Expr.targets Expr.argTargets Expr.root? Expr.set Expr.scale Expr.increase
  Expr.normalize Expr.length Expr.dot Expr.cross Expr.pow Expr.saturate Expr.vec4 Expr.mat3
  Expr.texture Expr.ofFloat32 Edit.names Edit.scope Scope.join input parameter localVar output
  Variable.toExpr Storage.exists_iff

section
variable {Γ : Scope} {s : Shader}

theorem closed_rotated {slot : Slot} (hs : s.scope.Within Γ)
    (hes : (Edit.scope (rotated s slot)).Within Γ) : ∀ e ∈ rotated s slot, e.Closed Γ := by
  cases hsource : s.slotInput? slot with
  | none => simp [rotated, hsource]
  | some source =>
      have hknown := hs.known _ (known_of_slotInput? hsource)
      have hmatrix := hes.known "u_normal_matrix" (by simp [rotated, hsource])
      have hout := hes.known (outputName s.stage slot) (by simp [rotated, hsource])
      have htarget := hes.assignable (outputName s.stage slot) (by simp [rotated, hsource])
      simp [rotated, hsource, hknown, hmatrix, hout, htarget]

theorem closed_litNormal {normal : Variable} (hnormal : Γ.known normal.name)
    (hes : (Edit.scope (litNormal s normal)).Within Γ) :
    ∀ e ∈ litNormal s normal, e.Closed Γ := by
  cases hn : s.find? .local "l_normal" with
  | none =>
      have hknown := hes.known "l_normal" (by simp [litNormal, hn])
      have htarget := hes.assignable "l_normal" (by simp [litNormal, hn])
      simp [litNormal, hn, hnormal, hknown, htarget]
  | some v => simp [litNormal, hn]

/-- Either way there is a normal to light with afterwards. -/
theorem known_litNormal {normal : Variable} (hs : s.scope.Within Γ)
    (hes : (Edit.scope (litNormal s normal)).Within Γ) : Γ.known "l_normal" := by
  cases hn : s.find? .local "l_normal" with
  | none => exact hes.known _ (by simp [litNormal, hn])
  | some v =>
      have hname : v.name = "l_normal" := name_of_find? hn rfl
      exact hname ▸ hs.known _ (known_of_find? hn)

theorem closed_dimmed {x : String} (hs : s.scope.Within Γ) (hx : Γ.known x)
    (htarget : Γ.assignable x) : ∀ e ∈ dimmed s (.ident x), e.Closed Γ := by
  cases hlit : s.find? .local "l_lit" with
  | none => simp [dimmed, hlit]
  | some lit => simp [dimmed, hlit, hs.known _ (known_of_find? hlit), hx, htarget]

end

theorem closed_transform {s : Shader} {position : Variable}
    (hposition : s.scope.known position.name) :
    ∀ e ∈ transformEdits s position,
      e.Closed (s.scope.join (Edit.scope (transformEdits s position))) := by
  have hin : ∀ {es : List Edit}, (∀ e ∈ es, e ∈ transformEdits s position) →
      (Edit.scope es).Within (s.scope.join (Edit.scope (transformEdits s position))) :=
    fun h => Scope.within_join_right (Edit.scope_of_subset h)
  have hs := s.scope.within_join_left (Edit.scope (transformEdits s position))
  have hdecls : (Edit.scope [localVar posTransformed (.vec 4),
      parameter "u_world_matrix" (.mat 4)]).Within
        (s.scope.join (Edit.scope (transformEdits s position))) := by
    refine hin ?_
    simp only [transformEdits, List.forall_mem_cons]
    exact ⟨by simp, by simp, by simp⟩
  have hnormal : (Edit.scope (rotated s .normal)).Within
      (s.scope.join (Edit.scope (transformEdits s position))) :=
    hin fun e he => List.mem_append_left _ (List.mem_append_right _ he)
  have htangent : (Edit.scope (rotated s .tangent)).Within
      (s.scope.join (Edit.scope (transformEdits s position))) :=
    hin fun e he => List.mem_append_right _ he
  -- From here on the scope is any that has the shader and the declarations in it.
  generalize s.scope.join (Edit.scope (transformEdits s position)) = Γ
    at hs hdecls hnormal htangent
  have hknown := hdecls.known
  have hassignable := hdecls.assignable
  simp [or_imp, forall_and] at hknown hassignable
  have hsource := hs.known _ hposition
  rw [transformEdits, List.forall_mem_append, List.forall_mem_append]
  -- The position itself, then the normal and the tangent where there are any.
  refine ⟨⟨?_, closed_rotated hs hnormal⟩, closed_rotated hs htangent⟩
  simp [hsource, hknown, hassignable]

/-- All parts of the lighting work with the same declarations, so these are brought
into scope first. -/
theorem closed_blinn {s : Shader} {normal position texcoord color : Variable}
    (hnormal : s.scope.known normal.name) (hposition : s.scope.known position.name)
    (htexcoord : s.scope.known texcoord.name) (hcolor : s.scope.known color.name)
    (hassign : s.scope.assignable color.name) (hflatPosition : position.members = [])
    (hflatTexcoord : texcoord.members = []) (hflatColor : color.members = []) :
    ∀ e ∈ blinnEdits s normal position texcoord color,
      e.Closed (s.scope.join (Edit.scope (blinnEdits s normal position texcoord color))) := by
  have hs := s.scope.within_join_left
    (Edit.scope (blinnEdits s normal position texcoord color))
  have hlit : (Edit.scope (litNormal s normal)).Within
      (s.scope.join (Edit.scope (blinnEdits s normal position texcoord color))) :=
    Scope.within_join_right (Edit.scope_of_subset fun e he => by simp [blinnEdits, he])
  have hdecls : (Edit.scope blinnDeclarations).Within
      (s.scope.join (Edit.scope (blinnEdits s normal position texcoord color))) :=
    Scope.within_join_right (Edit.scope_of_subset fun e he => by simp [blinnEdits, he])
  -- From here on the scope is any that has the shader and the declarations in it.
  generalize s.scope.join (Edit.scope (blinnEdits s normal position texcoord color)) = Γ
    at hs hlit hdecls
  have hparameters : ∀ x ∈ Edit.names .parameter blinnDeclarations, Γ.known x :=
    fun x hx => hdecls.known x ⟨_, hx⟩
  have hlocals : ∀ x ∈ Edit.names .local blinnDeclarations, Γ.known x ∧ Γ.assignable x :=
    fun x hx => ⟨hdecls.known x ⟨_, hx⟩, hdecls.assignable x (.inl hx)⟩
  simp [blinnDeclarations] at hparameters hlocals
  have hl := known_litNormal hs hlit
  replace hnormal := hs.known _ hnormal
  replace hposition := hs.known _ hposition
  replace htexcoord := hs.known _ htexcoord
  replace hcolor := hs.known _ hcolor
  replace hassign := hs.assignable _ hassign
  have hdimmed := closed_dimmed (x := "l_intensity") hs (by simp [hlocals]) (by simp [hlocals])
  simp only [blinnEdits, List.forall_mem_append]
  refine ⟨⟨⟨⟨⟨⟨closed_litNormal hnormal hlit, ?_⟩, ?_⟩, hdimmed⟩, ?_⟩, hdimmed⟩, ?_⟩
  · simp [blinnDeclarations]
  · simp [diffuseTerm, Variable.member_of_flat hflatPosition, hposition, hl, hparameters, hlocals]
  · simp [specularTerm, lightShare, Variable.member_of_flat hflatTexcoord, htexcoord, hl,
      hparameters, hlocals]
  · simp [litColor, lightShare, Variable.member_of_flat hflatColor, hcolor, hassign, hparameters,
      hlocals]

/-- Edits are closed in what they declare themselves if they are closed wherever the shader and
their parameters and locals are in scope. -/
theorem closed_of_within {s : Shader} {es : List Edit}
    (h : ∀ Γ : Scope, s.scope.Within Γ → (∀ x ∈ Edit.names .parameter es, Γ.known x) →
      (∀ x ∈ Edit.names .local es, Γ.known x ∧ Γ.assignable x) → ∀ e ∈ es, e.Closed Γ) :
    ∀ e ∈ es, e.Closed (s.scope.join (Edit.scope es)) := by
  have hdecls : (Edit.scope es).Within (s.scope.join (Edit.scope es)) :=
    Scope.within_join_right (Edit.scope_of_subset fun e he => he)
  refine h _ (s.scope.within_join_left _) ?_ ?_
  · exact fun x hx => hdecls.known x ⟨_, hx⟩
  · exact fun x hx => ⟨hdecls.known x ⟨_, hx⟩, hdecls.assignable x (.inl hx)⟩

/-- **The edits of a feature are closed** in what the shader declares and what they
declare themselves. -/
theorem closed_of_yields {s : Shader} (hflat : s.Flat) {f : Feature} {es : List Edit}
    (h : f.Yields s es) : ∀ e ∈ es, e.Closed (s.scope.join (Edit.scope es)) := by
  have hflatSlot : ∀ {slot v}, s.slotInput? slot = some v → v.members = [] :=
    fun h => hflat .input _ (mem_of_slotInput? h)
  cases h with
  | vertexInputs inputs => simp [vertexInputsEdits]
  | chainFrom previous => simp [chainFromEdits]
  | transform hposition => exact closed_transform (known_of_slotInput? hposition)
  | view ht => simp [projectedEdits, known_of_find? ht]
  | project hv => simp [projectedEdits, known_of_find? hv]
  | computeBinormal hnormal htangent =>
      simp [binormalEdits, known_of_produced hnormal, known_of_produced htangent]
  | passThrough hsource => simp [passThroughEdits, known_of_find? hsource]
  | emitPosition ht => simp [emitPositionEdits, known_of_find? ht]
  | @emitClipPosition projected clip hp hclip =>
      obtain ⟨hmem, hname⟩ := mem_of_builtin? hclip
      -- The one assignment to something that the stage does not declare itself.
      have htarget : s.scope.assignable clip.name :=
        .inr (.inr ⟨clip, hmem, role_of_glPosition clip hmem hname, rfl⟩)
      simp [emitClipPositionEdits, known_of_find? hp, known_of_builtin? hclip, htarget]
  | colorWhite => simp [colorWhiteEdits]
  | colorTextured ht =>
      simp [colorTexturedEdits, known_of_slotInput? ht, Variable.member_of_flat (hflatSlot ht)]
  | normalMapped ht hn hta hb hfacing =>
      refine closed_of_within fun Γ hs hparameters hlocals => ?_
      have htexcoord := hs.known _ (known_of_slotInput? ht)
      have hnormal := hs.known _ (known_of_slotInput? hn)
      have htangent := hs.known _ (known_of_slotInput? hta)
      have hbinormal := hs.known _ (known_of_slotInput? hb)
      have hfront := hs.known _ (known_of_builtin? hfacing)
      simp [normalMappedEdits] at hparameters hlocals
      simp [normalMappedEdits, Variable.member_of_flat (hflatSlot ht), htexcoord, hnormal, htangent,
        hbinormal, hfront, hparameters, hlocals]
  | blinn hn hp ht hcolor =>
      have hmem := mem_of_find? hcolor
      exact closed_blinn (known_of_slotInput? hn) (known_of_slotInput? hp)
        (known_of_slotInput? ht) (known_of_mem hmem) (.inr (.inl (List.mem_map_of_mem hmem)))
        (hflatSlot hp) (hflatSlot ht) (hflat .output _ hmem)
  | shadowMapped hp =>
      refine closed_of_within fun Γ hs hparameters hlocals => ?_
      have hposition := hs.known _ (known_of_slotInput? hp)
      simp [shadowMappedEdits, shadowPrologue] at hparameters hlocals
      simp [shadowMappedEdits, shadowPrologue, Variable.member_of_flat (hflatSlot hp), hposition,
        hparameters, hlocals]
  | shadowMappedVariance hp =>
      refine closed_of_within fun Γ hs hparameters hlocals => ?_
      have hposition := hs.known _ (known_of_slotInput? hp)
      simp [shadowMappedVarianceEdits, shadowPrologue] at hparameters hlocals
      simp [shadowMappedVarianceEdits, shadowPrologue, Variable.member_of_flat (hflatSlot hp),
        hposition, hparameters, hlocals]

/-- An edit that gives no variable a member. -/
def IsFlat : Edit → Prop
  | .declare _ _ cs => ∀ c ∈ cs, ∀ m, c ≠ .member m
  | .statement _ | .conditional _ _ => True

/-- An edit that changes type, array size and slot at most. -/
def IsShaping : Edit → Prop
  | .declare _ _ cs => ∀ c ∈ cs, c.shapes = true
  | .statement _ | .conditional _ _ => True

theorem IsShaping.isFlat {e : Edit} (h : IsShaping e) : IsFlat e := by
  cases e with
  | declare st x cs =>
      intro c hc m heq
      have hshapes := h c hc
      rw [heq] at hshapes
      exact nomatch hshapes
  | statement | conditional => trivial

attribute [local simp] IsShaping Variable.Change.shapes

theorem isShaping_rotated (s : Shader) (slot : Slot) : ∀ e ∈ rotated s slot, IsShaping e := by
  cases hsource : s.slotInput? slot <;> simp [rotated, hsource]

theorem isShaping_dimmed (s : Shader) (intensity : Expr) :
    ∀ e ∈ dimmed s intensity, IsShaping e := by
  cases hlit : s.find? .local "l_lit" <;> simp [dimmed, hlit]

theorem isShaping_litNormal (s : Shader) (normal : Variable) :
    ∀ e ∈ litNormal s normal, IsShaping e := by
  cases hn : s.find? .local "l_normal" <;> simp [litNormal, hn]

theorem isShaping_shapeOf (st : Storage) (x : String) (v : Variable) :
    IsShaping (.declare st x (shapeOf v)) := by
  cases hslot : v.slot <;> simp [shapeOf, hslot]

theorem isShaping_of_yields {s : Shader} {f : Feature} {es : List Edit} (h : f.Yields s es) :
    ∀ e ∈ es, IsShaping e := by
  cases h with
  | vertexInputs inputs => simp [vertexInputsEdits]
  | chainFrom previous =>
      intro e he
      obtain ⟨o, -, rfl⟩ := List.mem_map.1 he
      exact isShaping_shapeOf .input o.name o
  | transform hposition =>
      rw [transformEdits, List.forall_mem_append, List.forall_mem_append]
      exact ⟨⟨by simp, isShaping_rotated s .normal⟩, isShaping_rotated s .tangent⟩
  | view ht => simp [projectedEdits]
  | project hv => simp [projectedEdits]
  | computeBinormal hnormal htangent => simp [binormalEdits]
  | @passThrough pattern source hsource =>
      have hshape := isShaping_shapeOf .output (forwardedName s source) source
      rw [passThroughEdits, List.forall_mem_cons]
      exact ⟨hshape, by simp⟩
  | emitPosition ht => simp [emitPositionEdits]
  | emitClipPosition hp hclip => simp [emitClipPositionEdits]
  | colorWhite => simp [colorWhiteEdits]
  | colorTextured ht => simp [colorTexturedEdits]
  | normalMapped ht hn hta hb hfacing => simp [normalMappedEdits]
  | blinn hn hp ht hcolor =>
      simp only [blinnEdits, List.forall_mem_append]
      have hdimmed := isShaping_dimmed s (.ident "l_intensity")
      refine ⟨⟨⟨⟨⟨⟨isShaping_litNormal s _, ?_⟩, ?_⟩, hdimmed⟩, ?_⟩, hdimmed⟩, ?_⟩
      · simp [blinnDeclarations]
      · simp [diffuseTerm]
      · simp [specularTerm]
      · simp [litColor]
  | shadowMapped hp => simp [shadowMappedEdits, shadowPrologue]
  | shadowMappedVariance hp => simp [shadowMappedVarianceEdits, shadowPrologue]

theorem isFlat_of_yields {s : Shader} {f : Feature} {es : List Edit} (h : f.Yields s es) :
    ∀ e ∈ es, IsFlat e :=
  fun e he => (isShaping_of_yields h e he).isFlat

end Feature

/-! ## Runs -/

theorem Variable.members_changeAll {v : Variable} {cs : List Change}
    (hcs : ∀ c ∈ cs, ∀ m, c ≠ .member m) : (v.changeAll cs).members = v.members := by
  induction cs generalizing v with
  | nil => rfl
  | cons c cs ih =>
      obtain ⟨hc, hcs⟩ := List.forall_mem_cons.1 hcs
      refine (ih hcs).trans ?_
      cases c with
      | member m => exact absurd rfl (hc m)
      | role | ty | array | slot => rfl

namespace Shader

theorem Flat.editAll {s : Shader} (hs : s.Flat) {es : List Edit}
    (hes : ∀ e ∈ es, Feature.IsFlat e) : (s.editAll es).Flat := by
  refine forall_vars_editAll hs fun st x cs hmem => ?_
  have hcs : ∀ c ∈ cs, ∀ m, c ≠ .member m := hes _ hmem
  exact ⟨fun v _ hv => (Variable.members_changeAll hcs).trans hv, Variable.members_changeAll hcs⟩

/-- What is built on a shader by adding features, some of them inside blocks under
conditions that name what is known by then. A refused feature leaves the shader as
it was, and so does a block that is given up. -/
inductive Builds : Shader → Shader → Prop
  | start (s : Shader) : Builds s s
  | feature {s t : Shader} (h : Builds s t) (f : Feature) : Builds s (t.extend f)
  | block {s t u : Shader} (h : Builds s t) {condition : Expr}
      (hcondition : condition.Names t.scope) (hbody : Builds (t.openIf condition) u) :
      Builds s u.closeIf

@[simp] theorem scope_openIf (s : Shader) (condition : Expr) :
    (s.openIf condition).scope = s.scope := rfl

@[simp] theorem scope_closeIf (s : Shader) : s.closeIf.scope = s.scope := rfl

theorem Closed.openIf {s : Shader} (hs : s.Closed) {condition : Expr}
    (hcondition : condition.Names s.scope) : (s.openIf condition).Closed := by
  intro st hst
  rcases List.mem_append.1 hst with hst | hst
  · exact hs st hst
  · obtain rfl := List.mem_singleton.1 hst
    exact hcondition

theorem Closed.closeIf {s : Shader} (hs : s.Closed) : s.closeIf.Closed := by
  intro st hst
  rcases List.mem_append.1 hst with hst | hst
  · exact hs st hst
  · obtain rfl := List.mem_singleton.1 hst
    trivial

theorem Closed.extend {s : Shader} (hs : s.Closed) (hflat : s.Flat) (f : Feature) :
    (s.extend f).Closed ∧ (s.extend f).Flat := by
  rcases s.extend_cases f with h | ⟨es, hes, h⟩
  · rw [h]
    exact ⟨hs, hflat⟩
  · rw [h]
    exact ⟨hs.editAll (Feature.closed_of_yields hflat hes),
      hflat.editAll (Feature.isFlat_of_yields hes)⟩

theorem Builds.closed {s t : Shader} (h : Builds s t) (hs : s.Closed) (hflat : s.Flat) :
    t.Closed ∧ t.Flat := by
  induction h with
  | start s => exact ⟨hs, hflat⟩
  | feature h f ih =>
      obtain ⟨hclosed, hflat⟩ := ih hs hflat
      exact hclosed.extend hflat f
  | block h hcondition hbody ih ihbody =>
      obtain ⟨hclosed, hflat⟩ := ih hs hflat
      obtain ⟨hclosed, hflat⟩ := ihbody (hclosed.openIf hcondition)
        fun storage v hv => hflat storage v (by simpa using hv)
      exact ⟨hclosed.closeIf, fun storage v hv => hflat storage v (by simpa using hv)⟩

theorem closed_empty (name : String) (stage : Stage) : (Shader.empty name stage).Closed :=
  fun st hst => by simp [Shader.empty] at hst

theorem flat_empty (name : String) (stage : Stage) : (Shader.empty name stage).Flat := by
  intro storage v hv
  cases storage <;> simp [Shader.empty, vars] at hv

/-- **Main functions are closed.** Whatever is built on a fresh shader, every
identifier of its main function is the name of a declaration or of a built-in
variable of the stage, and every assignment goes to a local, an output or a built-in
output. -/
theorem closed_of_builds {name : String} {stage : Stage} {s : Shader}
    (h : Builds (Shader.empty name stage) s) : s.Closed :=
  (h.closed (closed_empty name stage) (flat_empty name stage)).1

/-- A vertex stage that changes into the viewer's space in one half of the world
only. -/
def halfViewed : Shader :=
  (((((empty "half" .vertex).extend (.vertexInputs .all)).extend .transform).openIf
    (.binary .gt (.member (.ident "l_pos_trans") "x") (.literal "0.0"))).extend .view).closeIf

theorem closed_halfViewed : halfViewed.statements.length = 6 ∧ halfViewed.Closed := by
  refine ⟨by decide, closed_of_builds (.block (.feature (.feature (.start _) _) _) ?_
    (.feature (.start _) _))⟩
  intro x hx
  obtain rfl : x = "l_pos_trans" := by simpa [Expr.names] using hx
  exact .inl ⟨.local, by decide⟩

end Shader

end Shaderwright
