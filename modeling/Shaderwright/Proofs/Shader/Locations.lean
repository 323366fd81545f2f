import Mathlib.Data.List.Nodup
import Shaderwright.Proofs.Shader.Scope
import Shaderwright.Shader.Source

/-!
# Vertex locations

Whatever is built on a fresh stage, by hand or by features, no list declares a name
twice, every variable has the role of its list, and every line of the main function is
indented. The source of a vertex stage therefore has one line for each location, the
names on these lines are those of the inputs in their order, and no other line looks
like one of them.
-/

namespace Shaderwright

/-! ## Changes that keep the role -/

theorem Variable.role_changeAll {v : Variable} {cs : List Change}
    (hcs : ∀ c ∈ cs, ∀ role, c ≠ .role role) : (v.changeAll cs).role = v.role := by
  induction cs generalizing v with
  | nil => rfl
  | cons c cs ih =>
      obtain ⟨hc, hcs⟩ := List.forall_mem_cons.1 hcs
      refine (ih hcs).trans ?_
      cases c with
      | role role => exact absurd rfl (hc role)
      | ty | array | slot => rfl
      | member m =>
          simp only [change]
          split <;> rfl

theorem Variable.Change.ne_role_of_shapes {c : Variable.Change} (h : c.shapes = true)
    (role : Role) : c ≠ .role role := by
  rintro rfl
  exact nomatch h

namespace Shader

/-! ## What is built -/

/-- What the operations of a builder make of a shader: variables are declared and
changed, but for their role, statements are appended and features added, all of it
inside conditional blocks as well. -/
inductive Reaches : Shader → Shader → Prop
  | start (s : Shader) : Reaches s s
  | declare {s t u : Shader} (h : Reaches s t) {storage : Storage} {pattern : String}
      {changes : List Variable.Change} (hchanges : ∀ c ∈ changes, ∀ role, c ≠ .role role)
      (hu : t.declare storage pattern changes = .ok u) : Reaches s u
  | next {s t : Shader} (h : Reaches s t) (e : Expr) : Reaches s (t.next e)
  | feature {s t : Shader} (h : Reaches s t) (f : Feature) : Reaches s (t.extend f)
  | block {s t u : Shader} (h : Reaches s t) (condition : Expr)
      (hbody : Reaches (t.openIf condition) u) : Reaches s u.closeIf

/-! ## Indentation -/

/-- Whatever is in the main function is indented. -/
structure Indented (s : Shader) : Prop where
  depth : 1 ≤ s.depth
  statements : ∀ st ∈ s.statements, 1 ≤ st.depth

theorem Indented.push {s : Shader} (h : s.Indented) (line : Line) : (s.push line).Indented where
  depth := h.depth
  statements := by
    intro st hst
    rcases List.mem_append.1 hst with hst | hst
    · exact h.statements st hst
    · obtain rfl := List.mem_singleton.1 hst
      exact h.depth

theorem Indented.withVars {s : Shader} (h : s.Indented) (storage : Storage)
    (vars : List Variable) : (s.withVars storage vars).Indented where
  depth := (depth_withVars s storage vars).symm ▸ h.depth
  statements := (statements_withVars s storage vars).symm ▸ h.statements

theorem Indented.openIf {s : Shader} (h : s.Indented) (condition : Expr) :
    (s.openIf condition).Indented where
  depth := Nat.le_add_left 1 _
  statements := (h.push (.openIf condition)).statements

theorem Indented.closeIf {s : Shader} (h : s.Indented) (hopen : 1 < s.depth) :
    s.closeIf.Indented := by
  have hdepth : { s with depth := s.depth - 1 }.Indented :=
    ⟨Nat.le_sub_one_of_lt hopen, h.statements⟩
  exact hdepth.push .close

theorem Indented.edit {s : Shader} (h : s.Indented) (e : Edit) : (s.edit e).Indented := by
  cases e with
  | declare storage x changes => exact h.withVars ..
  | statement e => exact h.push _
  | conditional condition body =>
      exact ((h.openIf condition).push _).closeIf (Nat.lt_succ_of_le h.depth)

theorem Indented.editAll {s : Shader} (h : s.Indented) (es : List Edit) :
    (s.editAll es).Indented := by
  induction es generalizing s with
  | nil => exact h
  | cons e es ih => exact ih (h.edit e)

/-! ## Names, roles and indentation -/

/-- Names are declared once in a list, with the role of the list, and what is in the main
function is indented. -/
structure Regular (s : Shader) : Prop where
  names : ∀ storage, (s.names storage).Nodup
  roles : ∀ storage, ∀ v ∈ s.vars storage, v.role = storage.role
  depth : 1 ≤ s.depth
  indented : ∀ st ∈ s.statements, 1 ≤ st.depth

theorem regular_empty (name : String) (stage : Stage) : (Shader.empty name stage).Regular where
  names storage := by cases storage <;> exact List.nodup_nil
  roles storage v hv := by cases storage <;> simp [Shader.empty, vars] at hv
  depth := Nat.le_refl 1
  indented st hst := by simp [Shader.empty] at hst

namespace Regular
variable {s : Shader}

theorem inside (h : s.Regular) : s.Indented := ⟨h.depth, h.indented⟩

theorem withVars (h : s.Regular) {storage : Storage} {vars : List Variable}
    (hnames : (vars.map Variable.name).Nodup) (hroles : ∀ v ∈ vars, v.role = storage.role) :
    (s.withVars storage vars).Regular where
  names other := by
    rw [Shader.names, vars_withVars]
    split
    · exact hnames
    · exact h.names other
  roles other v hv := by
    rw [vars_withVars] at hv
    split at hv
    · next heq => exact heq ▸ hroles v hv
    · exact h.roles other v hv
  depth := (h.inside.withVars storage vars).depth
  indented := (h.inside.withVars storage vars).statements

theorem put (h : s.Regular) (storage : Storage) (x : String) {cs : List Variable.Change}
    (hcs : ∀ c ∈ cs, ∀ role, c ≠ .role role) : (s.put storage x cs).Regular := by
  apply h.withVars
  · rw [Variable.names_put]
    split
    · exact h.names storage
    · next hx => exact List.nodup_append_comm.2 (List.nodup_cons.2 ⟨hx, h.names storage⟩)
  · exact Variable.forall_put (h.roles storage)
      (fun v _ hv => (Variable.role_changeAll hcs).trans hv) (Variable.role_changeAll hcs)

theorem declare (h : s.Regular) {storage : Storage} {pattern : String}
    {cs : List Variable.Change} (hcs : ∀ c ∈ cs, ∀ role, c ≠ .role role) {u : Shader}
    (hu : s.declare storage pattern cs = .ok u) : u.Regular := by
  rw [Shader.declare] at hu
  cases hpattern : Pattern.ofString pattern with
  | exact name =>
      rw [hpattern] at hu
      obtain rfl := Except.ok.inj hu
      exact h.put storage name hcs
  | containing part =>
      simp only [hpattern] at hu
      cases hupdate : updateLast? (fun v => Text.contains v.name part)
          (fun v => v.changeAll cs) (s.vars storage) with
      | none =>
          rw [hupdate] at hu
          exact nomatch hu
      | some updated =>
          rw [hupdate] at hu
          obtain rfl := Except.ok.inj hu
          obtain ⟨before, v, after, hsplit, -, -, rfl⟩ := updateLast?_eq_some hupdate
          have hnames := h.names storage
          have hroles := h.roles storage
          rw [Shader.names, hsplit] at hnames
          rw [hsplit] at hroles
          -- The variable that changes keeps its place, its name and its role.
          apply h.withVars
          · simpa [Variable.name_changeAll] using hnames
          · intro w hw
            rcases List.mem_append.1 hw with hw | hw
            · exact hroles w (by simp [hw])
            · rcases List.mem_cons.1 hw with rfl | hw
              · exact (Variable.role_changeAll hcs).trans (hroles v (by simp))
              · exact hroles w (by simp [hw])

theorem push (h : s.Regular) (line : Line) : (s.push line).Regular where
  names storage := by
    rw [Shader.names, vars_push]
    exact h.names storage
  roles storage := by
    rw [vars_push]
    exact h.roles storage
  depth := h.depth
  indented := (h.inside.push line).statements

/-- The depth is nobody's business but that of the lines to come. -/
theorem withDepth (h : s.Regular) {depth : Nat} (hdepth : 1 ≤ depth) :
    { s with depth }.Regular where
  names storage := by
    have hnames := h.names storage
    cases storage <;> exact hnames
  roles storage := by
    have hroles := h.roles storage
    cases storage <;> exact hroles
  depth := hdepth
  indented := h.indented

theorem openIf (h : s.Regular) (condition : Expr) : (s.openIf condition).Regular :=
  (h.push (.openIf condition)).withDepth (Nat.le_add_left 1 _)

theorem closeIf (h : s.Regular) (hdepth : 2 ≤ s.depth) : s.closeIf.Regular :=
  (h.withDepth (Nat.le_sub_of_add_le hdepth)).push .close

theorem edit (h : s.Regular) {e : Edit} (he : Feature.IsShaping e) : (s.edit e).Regular := by
  cases e with
  | declare storage x cs =>
      exact h.put storage x fun c hc => Variable.Change.ne_role_of_shapes (he c hc)
  | statement e => exact h.push _
  | conditional condition body =>
      exact ((h.openIf condition).push _).closeIf (Nat.succ_le_succ h.depth)

theorem editAll (h : s.Regular) {es : List Edit} (hes : ∀ e ∈ es, Feature.IsShaping e) :
    (s.editAll es).Regular := by
  induction es generalizing s with
  | nil => exact h
  | cons e es ih =>
      obtain ⟨he, hes⟩ := List.forall_mem_cons.1 hes
      exact ih (h.edit he) hes

theorem extend (h : s.Regular) (f : Feature) : (s.extend f).Regular := by
  rcases s.extend_cases f with heq | ⟨es, hes, heq⟩
  · rwa [heq]
  · rw [heq]
    exact h.editAll (Feature.isShaping_of_yields hes)

end Regular

theorem depth_declare {s u : Shader} {storage : Storage} {pattern : String}
    {cs : List Variable.Change} (hu : s.declare storage pattern cs = .ok u) :
    u.depth = s.depth := by
  rw [declare] at hu
  split at hu
  · obtain rfl := Except.ok.inj hu
    exact depth_withVars ..
  · split at hu
    · obtain rfl := Except.ok.inj hu
      exact depth_withVars ..
    · exact nomatch hu

theorem depth_extend (s : Shader) (f : Feature) : (s.extend f).depth = s.depth := by
  rcases s.extend_cases f with heq | ⟨es, -, heq⟩
  · rw [heq]
  · rw [heq, depth_editAll]

/-- Every block that is opened is closed again. -/
theorem Reaches.depth {s t : Shader} (h : Reaches s t) : t.depth = s.depth := by
  induction h with
  | start s => rfl
  | declare h hchanges hu ih => exact (depth_declare hu).trans ih
  | next h e ih => exact ih
  | feature h f ih => exact (depth_extend ..).trans ih
  | block h condition hbody ih ihbody =>
      have hclose : _ - 1 = _ := congrArg (· - 1) ihbody
      exact hclose.trans ih

theorem Reaches.regular {s t : Shader} (h : Reaches s t) (hs : s.Regular) : t.Regular := by
  induction h with
  | start s => exact hs
  | declare h hchanges hu ih => exact (ih hs).declare hchanges hu
  | next h e ih => exact (ih hs).push _
  | feature h f ih => exact (ih hs).extend f
  | block h condition hbody ih ihbody =>
      refine (ihbody ((ih hs).openIf condition)).closeIf ?_
      rw [hbody.depth]
      exact Nat.succ_le_succ (ih hs).depth

/-! ## Lines that give locations -/

/-- Whether a line says at which location a variable lies. -/
def opensLocation (line : String) : Bool := "layout(location = ".toList.isPrefixOf line.toList

theorem opensLocation_eq_false {line : String} (h : line.toList.head? ≠ some 'l') :
    opensLocation line = false := by
  rw [opensLocation]
  cases hline : line.toList with
  | nil => rfl
  | cons c cs =>
      have hc : 'l' ≠ c := by
        rintro rfl
        exact h (by simp [hline])
      simp [List.isPrefixOf, hc]

theorem filter_opensLocation_eq_nil {lines : List String}
    (h : ∀ line ∈ lines, line.toList.head? ≠ some 'l') : lines.filter opensLocation = [] := by
  rw [List.filter_eq_nil_iff]
  intro line hline
  simp [opensLocation_eq_false (h line hline)]

theorem head?_header (version : Option Version) :
    ∀ line ∈ header version, line.toList.head? ≠ some 'l' := by
  cases version with
  | none => simp [header]
  | some v => simp [header]

theorem line_of_qualifier {v : Variable} (qualifier : String)
    (h : v.role.qualifier? = some qualifier) : v.line = qualifier ++ v.ty.name ++ " " ++ v.name
      ++ (if 0 < v.arraySize then "[" ++ Nat.repr v.arraySize ++ "]" else "") ++ ";" := by
  rw [Variable.line, Variable.declaration, h]

/-- No declaration begins like a line that gives a location. -/
theorem head?_line (v : Variable) : v.line.toList.head? ≠ some 'l' := by
  have htype : v.ty.name.toList.head? ≠ some 'l' := by
    cases v.ty <;> simp [ShaderType.name]
  cases hrole : v.role with
  | none => simp [Variable.line, Variable.declaration, hrole, Role.qualifier?]
  | input => simp [line_of_qualifier (v := v) "in " (by rw [hrole]; rfl)]
  | output => simp [line_of_qualifier (v := v) "out " (by rw [hrole]; rfl)]
  | inout => simp [line_of_qualifier (v := v) "inout " (by rw [hrole]; rfl)]
  | uniform => simp [line_of_qualifier (v := v) "uniform " (by rw [hrole]; rfl)]
  | «local» =>
      -- A local has no qualifier, so its line begins with its type, or with a blank.
      cases htext : v.ty.name.toList with
      | nil => simp [line_of_qualifier (v := v) "" (by rw [hrole]; rfl), htext]
      | cons c cs =>
          rw [htext] at htype
          simpa [line_of_qualifier (v := v) "" (by rw [hrole]; rfl), htext] using htype

theorem head?_declarations (vars : List Variable) :
    ∀ line ∈ vars.map Variable.line, line.toList.head? ≠ some 'l' := by
  intro line hline
  obtain ⟨v, -, rfl⟩ := List.mem_map.1 hline
  exact head?_line v

theorem head?_mainLines {s : Shader} (h : s.Indented) :
    ∀ line ∈ s.mainLines, line.toList.head? ≠ some 'l' := by
  have hstatements : ∀ line ∈ s.statements.map Statement.text,
      line.toList.head? ≠ some 'l' := by
    intro line hline
    obtain ⟨st, hst, rfl⟩ := List.mem_map.1 hline
    obtain ⟨n, hn⟩ := Nat.exists_eq_add_of_le' (h.statements st hst)
    simp [Statement.text, hn, List.replicate_succ]
  simp only [mainLines, List.forall_mem_append]
  refine ⟨⟨⟨⟨by simp, ?_⟩, by simp⟩, hstatements⟩, by simp⟩
  intro line hline
  obtain ⟨v, -, rfl⟩ := List.mem_map.1 hline
  simp

/-- The lines that give locations are those of the inputs. -/
theorem filter_opensLocation_lines {s : Shader} (h : s.Indented) (hstage : s.stage = .vertex)
    (version : Option Version) :
    (s.lines version).filter opensLocation = locationLines s.inputs := by
  have hinputs : (locationLines s.inputs).filter opensLocation = locationLines s.inputs := by
    rw [List.filter_eq_self]
    intro line hline
    obtain ⟨⟨v, location⟩, -, rfl⟩ := List.mem_map.1 hline
    simp [opensLocation]
  have hheader := filter_opensLocation_eq_nil (head?_header version)
  have houtputs := filter_opensLocation_eq_nil (head?_declarations s.outputs)
  have hparameters := filter_opensLocation_eq_nil (head?_declarations s.parameters)
  have hmain := filter_opensLocation_eq_nil (head?_mainLines h)
  have hblank : opensLocation "" = false := rfl
  simp [lines, layoutLines, inputLines, hstage, List.filter_append, hinputs, hheader, houtputs,
    hparameters, hmain, hblank]

/-- The locations that a source of these lines gives are those of the attributes: there is
one line for each of them in order, and it declares a variable of that name. -/
structure Locates (source : String) (lines attributes : List String) : Prop where
  text : source = Text.concat (lines.map fun line => line ++ "\n")
  length : (lines.filter opensLocation).length = attributes.length
  line : ∀ i name, attributes[i]? = some name → ∃ (ty : ShaderType) (size : Nat),
    (lines.filter opensLocation)[i]? = some ("layout(location = " ++ Nat.repr i ++ ") in " ++
      ty.name ++ " " ++ name ++ (if 0 < size then "[" ++ Nat.repr size ++ "]" else "") ++ ";")

/-- **Attributes lie where the source says.** The inputs of a vertex stage, in order, are
what its source gives the locations from zero on to. -/
theorem Regular.locates {s : Shader} (h : s.Regular) (hstage : s.stage = .vertex)
    (version : Option Version) :
    Locates (s.source version) (s.lines version) (s.inputs.map Variable.name) := by
  have hlines := filter_opensLocation_lines h.inside hstage version
  constructor
  · rfl
  · simp [hlines, locationLines]
  · intro i name hname
    rw [List.getElem?_map] at hname
    obtain ⟨v, hv, rfl⟩ := Option.map_eq_some_iff.1 hname
    have hrole : v.role = .input := h.roles .input v (List.mem_of_getElem? hv)
    refine ⟨v.ty, v.arraySize, ?_⟩
    have hin : ∀ text : String, ") " ++ ("in " ++ text) = ") in " ++ text := by
      intro text
      rw [← String.append_assoc]
      rfl
    rw [hlines, locationLines, List.getElem?_map, List.getElem?_zipIdx, hv]
    simp [line_of_qualifier (v := v) "in " (by rw [hrole]; rfl),
      String.append_assoc, hin]

end Shader

end Shaderwright
