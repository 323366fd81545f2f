import Shaderwright.Proofs.History
import Shaderwright.Proofs.Shader.Scope

/-!
# Nothing is read before it is assigned

A local or an output has no value until one is assigned. Whatever features are added
to a fresh stage, in whatever order, a line of its main function reads a local or an
output only after an assignment to all of it that no condition guards.

What features declare they also assign, each within its own edits, so *declared* means
*assigned* between any two features (`Tidy`). What else their lines read is an input, a
parameter or a built-in variable, and no feature gives a local or an output the name of
one of these (`isProduct`).
-/

namespace Shaderwright

/-! ## Reading and assigning -/

namespace Expr

mutual

/-- The variables a tree reads. A plain assignment to a whole variable is the one place
where a name stands that is not read: a compound assignment reads its target, and one
to a part of a variable leaves the rest of it as it was. -/
def reads : Expr → List String
  | .literal _ | .raw _ => []
  | .ident x => [x]
  | .unary _ x => x.reads
  | .binary _ l r => l.reads ++ r.reads
  | .call _ args => argReads args
  | .member base _ => base.reads
  | .index base position => base.reads ++ position.reads
  | .assign .set (.ident _) value => value.reads
  | .assign _ target value => target.reads ++ value.reads

def argReads : List Expr → List String
  | [] => []
  | x :: xs => x.reads ++ argReads xs

end

/-- The variable that a statement gives a new value as a whole. -/
def assigned? : Expr → Option String
  | .assign .set (.ident x) _ => some x
  | _ => none

end Expr

namespace Line

def reads : Line → List String
  | .statement e => e.reads
  | .openIf condition => condition.reads
  | .close => []

def assigned? : Line → Option String
  | .statement e => e.assigned?
  | .openIf _ | .close => none

/-- The number of open blocks behind a line, from the number before it. -/
def nest (blocks : Nat) : Line → Nat
  | .statement _ => blocks
  | .openIf _ => blocks + 1
  | .close => blocks - 1

end Line

/-- The number of blocks that lines leave open. -/
def openBlocks (sts : List Statement) : Nat := sts.foldl (fun n st => st.line.nest n) 0

/-- A variable was given a value as a whole, and outside of every block. -/
def Assigned (sts : List Statement) (x : String) : Prop :=
  Happened (fun before st => openBlocks before = 0 ∧ st.line.assigned? = some x) sts

/-- **Nothing is read before it is assigned**: a local or an output that a line reads,
unless an input has its name, was assigned before it. -/
def Shader.Defined (s : Shader) : Prop :=
  Always (fun before st => ∀ x ∈ st.line.reads,
    x ∈ s.names .local ∨ x ∈ s.names .output → x ∉ s.names .input → Assigned before x)
    s.statements

/-! ## Lines in order -/

theorem openBlocks_snoc (sts : List Statement) (st : Statement) :
    openBlocks (sts ++ [st]) = st.line.nest (openBlocks sts) := by
  simp [openBlocks]

theorem assigned_snoc {sts : List Statement} {st : Statement} {x : String} :
    Assigned (sts ++ [st]) x
      ↔ Assigned sts x ∨ (openBlocks sts = 0 ∧ st.line.assigned? = some x) :=
  happened_snoc

/-- Every line reads only what was assigned before it or is known in another way. -/
def Orderly (known : String → Prop) (sts : List Statement) : Prop :=
  Always (fun before st => ∀ x ∈ st.line.reads, Assigned before x ∨ known x) sts

namespace Edit

/-- The variables that edits assign as a whole, outside of blocks. -/
def assigned (edits : List Edit) : List String :=
  edits.filterMap fun
    | .statement e => e.assigned?
    | _ => none

@[simp] theorem assigned_nil : assigned [] = [] := rfl

@[simp] theorem assigned_declare (st : Storage) (x : String) (cs : List Variable.Change)
    (es : List Edit) : assigned (.declare st x cs :: es) = assigned es := rfl

@[simp] theorem assigned_conditional (condition body : Expr) (es : List Edit) :
    assigned (.conditional condition body :: es) = assigned es := rfl

@[simp] theorem assigned_statement (e : Expr) (es : List Edit) :
    assigned (.statement e :: es) = e.assigned?.toList ++ assigned es := by
  cases h : e.assigned? <;> simp [assigned, h]

@[simp] theorem assigned_append (es fs : List Edit) :
    assigned (es ++ fs) = assigned es ++ assigned fs := List.filterMap_append ..

@[simp] theorem names_nil (storage : Storage) : names storage [] = [] := rfl

@[simp] theorem names_declare (storage st : Storage) (x : String) (cs : List Variable.Change)
    (es : List Edit) : names storage (.declare st x cs :: es)
      = if st = storage then x :: names storage es else names storage es := by
  by_cases h : st = storage <;> simp [names, h]

@[simp] theorem names_statement (storage : Storage) (e : Expr) (es : List Edit) :
    names storage (.statement e :: es) = names storage es := rfl

@[simp] theorem names_conditional (storage : Storage) (condition body : Expr)
    (es : List Edit) : names storage (.conditional condition body :: es) = names storage es := rfl

@[simp] theorem names_append (storage : Storage) (es fs : List Edit) :
    names storage (es ++ fs) = names storage es ++ names storage fs := List.filterMap_append ..

/-- The locals and outputs that edits declare. -/
def products (edits : List Edit) : List String := names .local edits ++ names .output edits

/-- Each edit reads only what is known before the first or assigned by an earlier
one. -/
def Ordered (known : String → Prop) : List Edit → Prop
  | [] => True
  | .declare _ _ _ :: es => Ordered known es
  | .statement e :: es =>
      (∀ x ∈ e.reads, known x) ∧ Ordered (fun x => known x ∨ e.assigned? = some x) es
  | .conditional condition body :: es =>
      (∀ x ∈ condition.reads, known x) ∧ (∀ x ∈ body.reads, known x) ∧ Ordered known es

theorem Ordered.imp {known known' : String → Prop} {es : List Edit} (h : Ordered known es)
    (hle : ∀ x, known x → known' x) : Ordered known' es := by
  induction es generalizing known known' with
  | nil => trivial
  | cons e es ih =>
      cases e with
      | declare st x cs => exact ih h hle
      | statement e =>
          obtain ⟨hreads, hes⟩ := h
          refine ⟨fun x hx => hle x (hreads x hx), ih hes ?_⟩
          intro x hx
          exact hx.imp_left (hle x)
      | conditional condition body =>
          obtain ⟨hcondition, hbody, hes⟩ := h
          exact ⟨fun x hx => hle x (hcondition x hx), fun x hx => hle x (hbody x hx),
            ih hes hle⟩

/-- Edits in order, followed by edits in order that may read what the first ones
assign. -/
theorem ordered_append {known : String → Prop} {es fs : List Edit} :
    Ordered known (es ++ fs)
      ↔ Ordered known es ∧ Ordered (fun x => known x ∨ x ∈ assigned es) fs := by
  induction es generalizing known with
  | nil => simp [Ordered]
  | cons e es ih =>
      cases e with
      | declare st x cs => simpa [Ordered] using ih
      | statement e =>
          rw [List.cons_append, Ordered, Ordered, ih, and_assoc]
          have hknown : (fun x => (known x ∨ e.assigned? = some x) ∨ x ∈ assigned es)
              = fun x => known x ∨ x ∈ assigned (.statement e :: es) := by
            funext x
            simp [or_assoc]
          rw [hknown]
      | conditional condition body => simp [Ordered, ih, and_assoc]

end Edit

namespace Shader

variable {known : String → Prop}

theorem orderly_next {s : Shader} (hs : Orderly known s.statements)
    {e : Expr} (he : ∀ x ∈ e.reads, Assigned s.statements x ∨ known x) :
    Orderly known (s.next e).statements :=
  hs.snoc he

/-- The lines of a block stand one by one behind those that were there. -/
theorem orderly_conditional {s : Shader} (hs : Orderly known s.statements)
    {condition body : Expr}
    (hcondition : ∀ x ∈ condition.reads, Assigned s.statements x ∨ known x)
    (hbody : ∀ x ∈ body.reads, Assigned s.statements x ∨ known x) :
    Orderly known (s.edit (.conditional condition body)).statements := by
  have hopen : Orderly known (s.openIf condition).statements := hs.snoc hcondition
  have hinner : Orderly known ((s.openIf condition).next body).statements := by
    refine hopen.snoc ?_
    intro x hx
    exact (hbody x hx).imp_left fun h => h.append _
  refine hinner.snoc ?_
  intro x hx
  simp [Line.reads] at hx

theorem openBlocks_edit {s : Shader} (hs : openBlocks s.statements = 0) (e : Edit) :
    openBlocks (s.edit e).statements = 0 := by
  cases e with
  | declare storage x cs => simpa [edit, put] using hs
  | statement e =>
      show openBlocks (s.statements ++ [_]) = 0
      rw [openBlocks_snoc]
      exact hs
  | conditional condition body =>
      show openBlocks (((s.statements ++ [_]) ++ [_]) ++ [_]) = 0
      simp only [openBlocks_snoc, hs]
      rfl

/-- Edits in order leave lines in order, and what they assign is assigned. -/
theorem orderly_editAll {s : Shader} {es : List Edit} (hs : Orderly known s.statements)
    (hopen : openBlocks s.statements = 0)
    (hes : Edit.Ordered (fun x => Assigned s.statements x ∨ known x) es) :
    Orderly known (s.editAll es).statements ∧ openBlocks (s.editAll es).statements = 0 ∧
      ∀ x, Assigned s.statements x ∨ x ∈ Edit.assigned es →
        Assigned (s.editAll es).statements x := by
  induction es generalizing s with
  | nil =>
      refine ⟨hs, hopen, ?_⟩
      intro x hx
      simpa using hx
  | cons e es ih =>
      have hopen' := openBlocks_edit hopen e
      cases e with
      | declare storage x cs =>
          have hsame : (s.edit (.declare storage x cs)).statements = s.statements :=
            statements_withVars ..
          exact hsame ▸ ih (hsame ▸ hs) hopen' (hsame ▸ hes)
      | statement e =>
          obtain ⟨hreads, hes⟩ := hes
          have hgrow : ∀ x, Assigned (s.next e).statements x
              ↔ Assigned s.statements x ∨ e.assigned? = some x := by
            intro x
            refine assigned_snoc.trans (or_congr_right ?_)
            exact and_iff_right hopen
          have hes' : Edit.Ordered (fun x => Assigned (s.next e).statements x ∨ known x) es := by
            refine hes.imp ?_
            rintro x ((hx | hx) | hx)
            · exact .inl ((hgrow x).2 (.inl hx))
            · exact .inr hx
            · exact .inl ((hgrow x).2 (.inr hx))
          obtain ⟨horderly, hclosed, hassigned⟩ := ih (orderly_next hs hreads) hopen' hes'
          refine ⟨horderly, hclosed, ?_⟩
          intro x hx
          refine hassigned x ?_
          rw [hgrow]
          simpa [or_assoc] using hx
      | conditional condition body =>
          obtain ⟨hcondition, hbody, hes⟩ := hes
          have hgrow : ∀ x, Assigned s.statements x →
              Assigned (s.edit (.conditional condition body)).statements x := by
            intro x hx
            rw [statements_edit]
            exact hx.append _
          obtain ⟨horderly, hclosed, hassigned⟩ := ih (orderly_conditional hs hcondition hbody)
            hopen' (hes.imp fun x hx => hx.imp_left (hgrow x))
          refine ⟨horderly, hclosed, ?_⟩
          intro x hx
          exact hassigned x (hx.imp_left (hgrow x))

end Shader

/-! ## What features name -/

namespace Feature

/-- Whether a feature may give a local or an output of the stage this name. -/
def isProduct (stage : Stage) (x : String) : Bool :=
  ['l', '_'].isPrefixOf x.toList || x == Slot.color.stem
    || ('_' :: stage.suffix.toList).isSuffixOf x.toList

/-- What features read that is no variable of the stage's own making: parameters, and a
built-in variable. -/
def given : List String :=
  [ "u_world_matrix", "u_view_matrix", "u_proj_matrix", "u_normal_matrix", "u_color_sampler",
    "u_normal_sampler", "u_specular_sampler", "u_shadow_cube", "u_light_position",
    "u_light_power", "u_view_position", "u_light_ambience", "gl_FrontFacing" ]

theorem not_isProduct_of_given (stage : Stage) :
    ∀ x ∈ given, isProduct stage x = false := by
  cases stage <;> decide +kernel

theorem isProduct_of_suffix (stage : Stage) (stem : String) :
    isProduct stage (stem ++ "_" ++ stage.suffix) = true := by
  simp [isProduct]

theorem isProduct_outputName (stage : Stage) (slot : Slot) :
    isProduct stage (outputName stage slot) = true := by
  cases slot with
  | color => cases stage <;> decide
  | position | normal | tangent | binormal | texCoord => exact isProduct_of_suffix stage _

end Feature

/-! ## Between two features -/

namespace Shader

/-- What a line may read without an assignment: an input, or what no feature gives a
value to. -/
def Provided (s : Shader) (x : String) : Prop :=
  x ∈ s.names .input ∨ Feature.isProduct s.stage x = false

/-- A shader between two features. -/
structure Tidy (s : Shader) : Prop where
  flat : s.Flat
  closed : openBlocks s.statements = 0
  orderly : Orderly s.Provided s.statements
  assigned : ∀ x, x ∈ s.names .local ∨ x ∈ s.names .output → Assigned s.statements x
  product : ∀ x, x ∈ s.names .local ∨ x ∈ s.names .output →
    Feature.isProduct s.stage x = true

theorem tidy_empty (name : String) (stage : Stage) : (Shader.empty name stage).Tidy where
  flat := flat_empty name stage
  closed := rfl
  orderly := always_nil
  assigned x hx := by simp [Shader.empty, names, vars] at hx
  product x hx := by simp [Shader.empty, names, vars] at hx

/-- A tidy shader reads nothing before it is assigned. -/
theorem Tidy.defined {s : Shader} (hs : s.Tidy) : s.Defined := by
  refine hs.orderly.imp ?_
  intro before st hst x hx hown hinput
  rcases hst x hx with h | h | h
  · exact h
  · exact absurd h hinput
  · have hproduct := hs.product x hown
    rw [h] at hproduct
    exact nomatch hproduct

/-- What may be read in a shader: what is assigned in it, and what is provided. -/
def Readable (s : Shader) (x : String) : Prop := Assigned s.statements x ∨ s.Provided x

end Shader

/-! ## Every feature reads in order -/

namespace Feature

open Shader

attribute [local simp] Edit.Ordered Expr.reads Expr.argReads
  Expr.assigned? Expr.set Expr.scale Expr.increase Expr.normalize Expr.length Expr.dot
  Expr.cross Expr.pow Expr.saturate Expr.vec4 Expr.mat3 Expr.texture Expr.ofFloat32 input
  parameter localVar output Variable.toExpr

section
variable {s : Shader}

theorem readable_of_given {x : String} (hx : x ∈ given) : s.Readable x :=
  .inr (.inr (not_isProduct_of_given s.stage x hx))

theorem readable_input {v : Variable} (h : v ∈ s.vars .input) : s.Readable v.name :=
  .inr (.inl (List.mem_map_of_mem h))

theorem readable_slotInput {slot : Slot} {v : Variable} (h : s.slotInput? slot = some v) :
    s.Readable v.name := readable_input (mem_of_slotInput? h)

theorem readable_local (hs : s.Tidy) {x : String} {v : Variable}
    (h : s.find? .local x = some v) : s.Readable v.name :=
  .inl (hs.assigned _ (.inl (List.mem_map_of_mem (mem_of_find? h))))

theorem readable_output (hs : s.Tidy) {v : Variable} (h : v ∈ s.vars .output) :
    s.Readable v.name :=
  .inl (hs.assigned _ (.inr (List.mem_map_of_mem h)))

theorem readable_produced (hs : s.Tidy) {f : Feature} {slot : Slot} {v : Variable}
    (h : produced s f slot = .ok v) : s.Readable v.name := by
  rcases mem_of_produced h with h | h
  · exact readable_output hs h
  · exact readable_input h

end

/-! ### Parts of features -/

/-- Declarations read nothing. -/
theorem ordered_of_declares {known : String → Prop} {es : List Edit}
    (hes : ∀ e ∈ es, ∃ st x cs, e = .declare st x cs) : Edit.Ordered known es := by
  induction es with
  | nil => trivial
  | cons e es ih =>
      obtain ⟨⟨st, x, cs, rfl⟩, hrest⟩ := List.forall_mem_cons.1 hes
      exact ih hrest

section
variable {s : Shader} {known : String → Prop}

theorem ordered_rotated {slot : Slot} (hknown : ∀ x, s.Readable x → known x) :
    Edit.Ordered known (rotated s slot) := by
  cases hsource : s.slotInput? slot with
  | none => simp [rotated, hsource]
  | some source =>
      have hmatrix := hknown "u_normal_matrix" (readable_of_given (by decide))
      have hvalue := hknown _ (readable_slotInput hsource)
      simp [rotated, hsource, hmatrix, hvalue]

theorem ordered_litNormal {normal : Variable} (hnormal : known normal.name) :
    Edit.Ordered known (litNormal s normal) := by
  cases hn : s.find? .local "l_normal" <;> simp [litNormal, hn, hnormal]

/-- Either way there is a normal to light with. -/
theorem readable_litNormal (hs : s.Tidy) (normal : Variable) :
    s.Readable "l_normal" ∨ "l_normal" ∈ Edit.assigned (litNormal s normal) := by
  cases hn : s.find? .local "l_normal" with
  | none =>
      right
      simp [litNormal, hn]
  | some v =>
      have hname : v.name = "l_normal" := name_of_find? hn rfl
      exact .inl (hname ▸ readable_local hs hn)

theorem ordered_dimmed (hs : s.Tidy) (hknown : ∀ x, s.Readable x → known x) {x : String}
    (hx : known x) : Edit.Ordered known (dimmed s (.ident x)) := by
  cases hlit : s.find? .local "l_lit" with
  | none => simp [dimmed, hlit]
  | some lit => simp [dimmed, hlit, hx, hknown _ (readable_local hs hlit)]

/-- Light that is dimmed was there before. -/
theorem assigned_dimmed (s : Shader) (intensity : Expr) :
    Edit.assigned (dimmed s intensity) = [] := by
  cases hlit : s.find? .local "l_lit" <;> simp [dimmed, hlit]

end

theorem ordered_transform {s : Shader} {position : Variable}
    (hposition : s.slotInput? .position = some position) :
    Edit.Ordered s.Readable (transformEdits s position) := by
  have hmatrix : s.Readable "u_world_matrix" := readable_of_given (by decide)
  rw [transformEdits, Edit.ordered_append, Edit.ordered_append]
  refine ⟨⟨?_, ordered_rotated fun x => .inl⟩, ordered_rotated fun x => .inl⟩
  simp [hmatrix, readable_slotInput hposition]

/-- Each part of the lighting may read what the parts before it assign. -/
theorem ordered_blinn {s : Shader} (hs : s.Tidy) {normal position texcoord color : Variable}
    (hnormal : s.slotInput? .normal = some normal)
    (hposition : s.slotInput? .position = some position)
    (htexcoord : s.slotInput? .texCoord = some texcoord)
    (hcolor : s.find? .output Slot.color.stem = some color) :
    Edit.Ordered s.Readable (blinnEdits s normal position texcoord color) := by
  have hgiven : ∀ x ∈ given, s.Readable x := fun x => readable_of_given
  simp only [given, List.forall_mem_cons] at hgiven
  have hpos := readable_slotInput hposition
  have htex := readable_slotInput htexcoord
  have hcol := readable_output hs (mem_of_find? hcolor)
  have hl := readable_litNormal hs normal
  have hmemberPos := Variable.member_of_flat (hs.flat .input _ (mem_of_slotInput? hposition))
  have hmemberTex := Variable.member_of_flat (hs.flat .input _ (mem_of_slotInput? htexcoord))
  have hmemberCol := Variable.member_of_flat (hs.flat .output _ (mem_of_find? hcolor))
  have hdeclared : Edit.assigned blinnDeclarations = [] := rfl
  simp only [blinnEdits, Edit.ordered_append]
  refine ⟨⟨⟨⟨⟨⟨?_, ?_⟩, ?_⟩, ?_⟩, ?_⟩, ?_⟩, ?_⟩
  · exact ordered_litNormal (readable_slotInput hnormal)
  · simp [blinnDeclarations]
  · simp [diffuseTerm, hmemberPos, hpos, hgiven, hdeclared, hl]
  · refine ordered_dimmed hs (fun x hx => ?_) ?_
    · simp [hx]
    · simp [diffuseTerm]
  · simp [specularTerm, lightShare, diffuseTerm, hmemberTex, htex, hgiven, hdeclared,
      assigned_dimmed, hl]
  · refine ordered_dimmed hs (fun x hx => ?_) ?_
    · simp [hx]
    · simp [diffuseTerm]
  · simp [litColor, lightShare, specularTerm, diffuseTerm, hmemberCol, hcol, hgiven]

/-! ### Whole features -/

/-- **A feature reads in order**: each of its lines reads only what was assigned before
the feature or by an earlier line of it, and what needs no assignment. -/
theorem ordered_of_yields {s : Shader} (hs : s.Tidy) {f : Feature} {es : List Edit}
    (h : f.Yields s es) : Edit.Ordered s.Readable es := by
  have hgiven : ∀ x ∈ given, s.Readable x := fun x => readable_of_given
  simp only [given, List.forall_mem_cons] at hgiven
  have hmember : ∀ {slot v}, s.slotInput? slot = some v → ∀ x, v.member x = .member v.toExpr x :=
    fun h => Variable.member_of_flat (hs.flat .input _ (mem_of_slotInput? h))
  cases h with
  | vertexInputs inputs => exact ordered_of_declares (by simp [vertexInputsEdits])
  | chainFrom previous => exact ordered_of_declares (by simp [chainFromEdits])
  | transform hposition => exact ordered_transform hposition
  | view ht => simp [projectedEdits, readable_local hs ht, hgiven]
  | project hv => simp [projectedEdits, readable_local hs hv, hgiven]
  | computeBinormal hnormal htangent =>
      simp [binormalEdits, readable_produced hs hnormal, readable_produced hs htangent]
  | passThrough hsource => simp [passThroughEdits, readable_input (mem_of_find? hsource)]
  | emitPosition ht => simp [emitPositionEdits, readable_local hs ht]
  | emitClipPosition hp hclip => simp [emitClipPositionEdits, readable_local hs hp]
  | colorWhite => simp [colorWhiteEdits]
  | colorTextured ht => simp [colorTexturedEdits, readable_slotInput ht, hmember ht, hgiven]
  | normalMapped ht hn hta hb hfacing =>
      obtain ⟨-, hname⟩ := mem_of_builtin? hfacing
      simp [normalMappedEdits, readable_slotInput ht, readable_slotInput hn,
        readable_slotInput hta, readable_slotInput hb, hmember ht, hname, hgiven]
  | blinn hn hp ht hcolor => exact ordered_blinn hs hn hp ht hcolor
  | shadowMapped hp =>
      simp [shadowMappedEdits, shadowPrologue, readable_slotInput hp, hmember hp, hgiven]
  | shadowMappedVariance hp =>
      simp [shadowMappedVarianceEdits, shadowPrologue, readable_slotInput hp, hmember hp, hgiven]

/-- What edits declare as a local or an output they assign, and a feature may give it
that name. -/
def Settled (stage : Stage) (es : List Edit) : Prop :=
  ∀ x ∈ Edit.products es, x ∈ Edit.assigned es ∧ isProduct stage x = true

theorem Settled.append {stage : Stage} {es fs : List Edit} (hes : Settled stage es)
    (hfs : Settled stage fs) : Settled stage (es ++ fs) := by
  intro x hx
  have hsplit : x ∈ Edit.products es ∨ x ∈ Edit.products fs := by
    simp only [Edit.products, Edit.names_append, List.mem_append] at hx ⊢
    grind
  rw [Edit.assigned_append, List.mem_append]
  rcases hsplit with h | h
  · exact ⟨.inl (hes x h).1, (hes x h).2⟩
  · exact ⟨.inr (hfs x h).1, (hfs x h).2⟩

/-- Edits that declare inputs only. -/
theorem settled_of_inputs {stage : Stage} {es : List Edit}
    (hes : ∀ e ∈ es, ∃ x cs, e = .declare .input x cs) : Settled stage es := by
  have hnone : ∀ st, st ≠ .input → Edit.names st es = [] := by
    intro st hst
    rw [Edit.names, List.filterMap_eq_nil_iff]
    intro e he
    obtain ⟨x, cs, rfl⟩ := hes e he
    exact if_neg hst.symm
  intro x hx
  simp [Edit.products, hnone] at hx

theorem settled_rotated (s : Shader) (slot : Slot) : Settled s.stage (rotated s slot) := by
  cases hsource : s.slotInput? slot with
  | none => simp [Settled, Edit.products, rotated, hsource]
  | some source =>
      simp [Settled, Edit.products, rotated, hsource, isProduct_outputName s.stage]

theorem settled_litNormal (s : Shader) (normal : Variable) :
    Settled s.stage (litNormal s normal) := by
  cases hn : s.find? .local "l_normal" <;>
    simp [Settled, Edit.products, litNormal, hn, isProduct]

/-- The declarations of the lighting stand apart from the lines that assign them. -/
theorem settled_blinn (s : Shader) (normal position texcoord color : Variable) :
    Settled s.stage (blinnEdits s normal position texcoord color) := by
  have hrest : Settled s.stage (blinnDeclarations ++ (diffuseTerm position
      ++ (dimmed s (.ident "l_intensity") ++ (specularTerm texcoord
        ++ (dimmed s (.ident "l_intensity") ++ litColor color))))) := by
    have hdimmed : ∀ st, Edit.names st (dimmed s (.ident "l_intensity")) = [] := by
      intro st
      cases hlit : s.find? .local "l_lit" <;> simp [dimmed, hlit]
    simp [Settled, Edit.products, blinnDeclarations, diffuseTerm, specularTerm, litColor,
      hdimmed, assigned_dimmed, isProduct]
  simpa only [blinnEdits, List.append_assoc] using (settled_litNormal s normal).append hrest

/-- **What a feature declares as a local or an output it assigns.** -/
theorem settled_of_yields {s : Shader} {f : Feature} {es : List Edit} (h : f.Yields s es) :
    Settled s.stage es := by
  have hout : ∀ slot, isProduct s.stage (outputName s.stage slot) = true :=
    isProduct_outputName s.stage
  cases h with
  | vertexInputs inputs => exact settled_of_inputs (by simp [vertexInputsEdits])
  | chainFrom previous => exact settled_of_inputs (by simp [chainFromEdits])
  | transform hposition =>
      rw [transformEdits]
      refine Settled.append (Settled.append ?_ (settled_rotated s .normal))
        (settled_rotated s .tangent)
      simp [Settled, Edit.products, posTransformed, isProduct]
  | view ht => simp [Settled, Edit.products, projectedEdits, posViewed, isProduct]
  | project hv => simp [Settled, Edit.products, projectedEdits, posProjected, isProduct]
  | computeBinormal hnormal htangent => simp [Settled, Edit.products, binormalEdits, hout]
  | passThrough hsource =>
      simp [Settled, Edit.products, passThroughEdits, forwardedName, suffix, isProduct_of_suffix]
  | emitPosition ht => simp [Settled, Edit.products, emitPositionEdits, hout]
  | emitClipPosition hp hclip => simp [Settled, Edit.products, emitClipPositionEdits]
  | colorWhite => simp [Settled, Edit.products, colorWhiteEdits, hout]
  | colorTextured ht => simp [Settled, Edit.products, colorTexturedEdits, hout]
  | normalMapped ht hn hta hb hfacing =>
      simp [Settled, Edit.products, normalMappedEdits, isProduct]
  | blinn hn hp ht hcolor => exact settled_blinn s _ _ _ _
  | shadowMapped hp =>
      simp [Settled, Edit.products, shadowMappedEdits, shadowPrologue, isProduct]
  | shadowMappedVariance hp =>
      simp [Settled, Edit.products, shadowMappedVarianceEdits, shadowPrologue, isProduct]

end Feature

/-! ## Whole runs -/

namespace Shader

/-- Edits that read in order, and assign the locals and outputs that they declare, keep
a shader tidy. -/
theorem Tidy.editAll {s : Shader} (hs : s.Tidy) {es : List Edit}
    (hflat : ∀ e ∈ es, Feature.IsFlat e) (hordered : Edit.Ordered s.Readable es)
    (hsettled : Feature.Settled s.stage es) : (s.editAll es).Tidy := by
  -- Inputs are only added, so what was provided still is.
  have hprovided : ∀ x, s.Provided x → (s.editAll es).Provided x := by
    rintro x (hx | hx)
    · exact .inl ((mem_names_editAll ..).2 (.inl hx))
    · exact .inr ((stage_editAll s es).symm ▸ hx)
  have hsplit : ∀ x, x ∈ (s.editAll es).names .local ∨ x ∈ (s.editAll es).names .output →
      (x ∈ s.names .local ∨ x ∈ s.names .output) ∨ x ∈ Edit.products es := by
    intro x hx
    rw [mem_names_editAll, mem_names_editAll] at hx
    rw [Edit.products, List.mem_append]
    grind
  obtain ⟨horderly, hclosed, hgrow⟩ := orderly_editAll hs.orderly hs.closed hordered
  constructor
  · exact hs.flat.editAll hflat
  · exact hclosed
  · refine horderly.imp ?_
    intro before st hst x hx
    exact (hst x hx).imp_right (hprovided x)
  · intro x hx
    rcases hsplit x hx with hx | hx
    · exact hgrow x (.inl (hs.assigned x hx))
    · exact hgrow x (.inr (hsettled x hx).1)
  · intro x hx
    rw [stage_editAll]
    rcases hsplit x hx with hx | hx
    · exact hs.product x hx
    · exact (hsettled x hx).2

theorem Tidy.extend {s : Shader} (hs : s.Tidy) (f : Feature) : (s.extend f).Tidy := by
  rcases s.extend_cases f with h | ⟨es, hes, h⟩
  · rw [h]
    exact hs
  · rw [h]
    exact hs.editAll (Feature.isFlat_of_yields hes) (Feature.ordered_of_yields hs hes)
      (Feature.settled_of_yields hes)

theorem Tidy.extendAll {s : Shader} (hs : s.Tidy) (features : List Feature) :
    (s.extendAll features).Tidy := by
  induction features generalizing s with
  | nil => exact hs
  | cons f features ih => exact ih (hs.extend f)

/-- **Whatever features are added, nothing is read before it is assigned.** A feature
that is refused changes nothing. -/
theorem defined_extendAll (name : String) (stage : Stage) (features : List Feature) :
    ((Shader.empty name stage).extendAll features).Defined :=
  ((tidy_empty name stage).extendAll features).defined

end Shader

end Shaderwright
