import Shaderwright.Proofs.Shader.Blocks

/-!
# What is put out can be read back

A source is a row of sections with a blank line between neighbours: the version header and
the layout of the stage, where there are any, then inputs, outputs, parameters, the head of
the main function with its locals, and its statements. No line of a section is blank, so
that cutting the source at its blank lines gives the sections back, whichever of them are
empty. In a section each line goes back to the declaration or to the statement that it was
made from: nothing that is printed is lost.
-/

namespace Shaderwright

/-! ## Statements -/

/-- What is printed of a line of the main function. -/
def Statement.printed (st : Statement) : Nat × Mark String :=
  (st.depth, st.line.mark Expr.text)

/-- Reads a line of the main function: the tabs before it are its depth. -/
def Statement.read? (line : String) : Option (Nat × Mark String) :=
  let tabs := (line.toList.takeWhile (· = '\t')).length
  (Mark.ofText? tabs line).map fun mark => (tabs, mark)

/-- **A statement is read back**, if there is no tab in what is printed of its
expression. -/
theorem Statement.read?_text {st : Statement}
    (h : ∀ text ∈ st.line.texts, '\t' ∉ text.toList) : read? st.text = some st.printed := by
  have hline : '\t' ∉ st.line.text.toList := by
    cases hline : st.line with
    | statement e => simpa [Line.text, Line.texts, hline] using h
    | openIf condition => simpa [Line.text, Line.texts, hline] using h
    | close => decide
  have hnone : st.line.text.toList.takeWhile (· = '\t') = [] := by
    rw [List.takeWhile_eq_nil_iff]
    intro hpos htab
    exact hline (of_decide_eq_true htab ▸ List.getElem_mem hpos)
  have htabs : (st.text.toList.takeWhile (· = '\t')).length = st.depth := by
    rw [Statement.text, String.toList_append, String.toList_ofList,
      List.takeWhile_append_of_pos (by simp [List.mem_replicate]), hnone]
    simp
  rw [read?, htabs, Mark.ofText?_text]
  rfl

/-! ## Declarations -/

/-- What is put around every element alike can be taken away again. -/
theorem map_of_map_comp {f : β → γ} (hf : Function.Injective f) {g : α → β} {as bs : List α}
    (h : as.map (fun a => f (g a)) = bs.map fun a => f (g a)) : as.map g = bs.map g := by
  apply List.map_injective_iff.2 hf
  rw [List.map_map, List.map_map]
  exact h

namespace Variable

/-- The semicolon behind a declaration says nothing about it. -/
theorem map_declaration_of_line {vs ws : List Variable} (h : vs.map line = ws.map line) :
    vs.map declaration = ws.map declaration :=
  map_of_map_comp (fun _ _ heq => (String.append_left_inj ";").1 heq) h

/-- Nor do the locations before the inputs of a vertex stage. -/
theorem map_line_of_locationLines {vs ws : List Variable}
    (h : Shader.locationLines vs = Shader.locationLines ws) : vs.map line = ws.map line := by
  refine List.ext_getElem? fun i => ?_
  have hlocated : Function.Injective fun text : String =>
      "layout(location = " ++ Nat.repr i ++ ") " ++ text :=
    fun _ _ heq => (String.append_right_inj _).1 heq
  have hline : ∀ us : List Variable, (Shader.locationLines us)[i]?
      = (us.map line)[i]?.map fun text => "layout(location = " ++ Nat.repr i ++ ") " ++ text := by
    intro us
    simp [Shader.locationLines, Function.comp_def]
  apply Option.map_injective hlocated
  rw [← hline, ← hline, h]

end Variable

/-! ## Lines -/

/-- A line of text that is not blank. -/
def IsLine (text : String) : Prop := text ≠ "" ∧ '\n' ∉ text.toList
deriving Decidable

/-- Whatever stands before a line without a line feed, it is a line. -/
theorem IsLine.prepend {text : String} (h : IsLine text) {before : String}
    (hbefore : '\n' ∉ before.toList) : IsLine (before ++ text) := by
  obtain ⟨hne, htext⟩ := h
  exact ⟨by simp [hne], by simp [hbefore, htext]⟩

/-- A number is written in digits. -/
theorem not_mem_toDigits (n : Nat) : '\n' ∉ Nat.toDigits 10 n := by
  intro h
  have hdigit : Char.isDigit '\n' = true := Nat.isDigit_of_mem_toDigits (by decide) (by decide) h
  exact nomatch hdigit

theorem eq_of_repr {m n : Nat} (h : Nat.repr m = Nat.repr n) : m = n := by
  have hvalue : ∀ k : Nat, Nat.ofDigitChars 10 (Nat.repr k).toList 0 = k := by
    intro k
    rw [Nat.toList_repr, Nat.ofDigitChars_toDigits (by decide) (by decide)]
  rw [← hvalue m, h, hvalue]

/-- A declaration is a line if the name holds no line feed. -/
theorem Variable.isLine {v : Variable} (h : '\n' ∉ v.name.toList) : IsLine v.line := by
  have hty : '\n' ∉ v.ty.name.toList := by
    cases v.ty with
    | vec rank | mat rank => simp [ShaderType.name, not_mem_toDigits]
    | _ => decide
  have hsemicolon : IsLine ";" := by decide
  refine hsemicolon.prepend ?_
  rw [declaration]
  cases hrole : v.role.qualifier? with
  | none => exact List.not_mem_nil
  | some qualifier =>
      have hqualifier : '\n' ∉ qualifier.toList := by
        cases hv : v.role <;> rw [hv] at hrole <;> cases hrole <;> decide
      have hsize : '\n' ∉ (if 0 < v.arraySize then "[" ++ Nat.repr v.arraySize ++ "]"
          else "").toList := by
        split <;> simp [not_mem_toDigits]
      simp [hqualifier, hty, h, hsize]

/-- A line of the main function is one if what is printed of its expression is. -/
theorem Statement.isLine {st : Statement} (h : ∀ text ∈ st.line.texts, '\n' ∉ text.toList) :
    IsLine st.text :=
  ⟨st.text_ne_empty, st.not_mem_text h⟩

/-! ## Sections -/

namespace Shader

/-- What stands before the declarations is a section of its own, if there is anything. -/
def front : List String → List (List String)
  | [] => []
  | line :: rest => [(line :: rest).dropLast]

/-- The sections that every source has. -/
def body (s : Shader) : List (List String) :=
  [ s.inputLines, s.outputs.map Variable.line, s.parameters.map Variable.line,
    ["void main()", "\x7b"] ++ s.locals.map (fun v => "\t" ++ v.line),
    s.statements.map Statement.text ++ ["\x7d"] ]

/-- The sections of a source. -/
def sections (s : Shader) (version : Option Version) : List (List String) :=
  front (header version) ++ (front (layoutLines s.stage) ++ s.body)

/-- What holds of the separator and of all that it separates. -/
theorem forall_mem_intercalate {p : α → Prop} {separator : α} {ls : List (List α)}
    (hseparator : p separator) (h : ∀ l ∈ ls, ∀ a ∈ l, p a) :
    ∀ a ∈ [separator].intercalate ls, p a := by
  induction ls with
  | nil => exact fun a ha => nomatch ha
  | cons l ls ih =>
      obtain ⟨hl, hls⟩ := List.forall_mem_cons.1 h
      cases ls with
      | nil => simpa [List.intercalate] using hl
      | cons l' ls =>
          rw [List.intercalate_cons_cons, List.forall_mem_append, List.forall_mem_append,
            List.forall_mem_singleton]
          exact ⟨⟨hl, hseparator⟩, ih hls⟩

theorem intercalate_front {ls : List String} {rest : List (List String)}
    (hls : ls = [] ∨ ls.getLast? = some "") (hrest : rest ≠ []) :
    [""].intercalate (front ls ++ rest) = ls ++ [""].intercalate rest := by
  obtain ⟨first, others, rfl⟩ := List.exists_cons_of_ne_nil hrest
  cases ls with
  | nil => rfl
  | cons line ls =>
      have hlast : (line :: ls).getLast? = some "" := hls.resolve_left (List.cons_ne_nil _ _)
      rw [front, List.singleton_append, List.intercalate_cons_cons,
        List.dropLast_append_getLast? _ hlast]

/-- **A source is its sections**, with a blank line between neighbours. -/
theorem lines_eq_intercalate (s : Shader) (version : Option Version) :
    s.lines version = [""].intercalate (s.sections version) := by
  have hheader : header version = [] ∨ (header version).getLast? = some "" := by
    cases version with
    | none => exact .inl rfl
    | some v => exact .inr rfl
  have hlayout : layoutLines s.stage = [] ∨ (layoutLines s.stage).getLast? = some "" := by
    cases s.stage <;> simp [layoutLines]
  have hbody : s.body ≠ [] := List.cons_ne_nil _ _
  rw [sections, intercalate_front hheader (List.append_ne_nil_of_right_ne_nil _ hbody),
    intercalate_front hlayout hbody]
  simp [body, lines, mainLines, List.intercalate]

/-- There is no line feed in a name, and neither a line feed nor a tab in what is printed
of an expression. -/
structure SingleLined (s : Shader) : Prop where
  names : ∀ storage, ∀ v ∈ s.vars storage, '\n' ∉ v.name.toList
  texts : ∀ st ∈ s.statements, ∀ text ∈ st.line.texts, '\n' ∉ text.toList ∧ '\t' ∉ text.toList

theorem isLine_front {ls : List String} (h : ∀ line ∈ ls.dropLast, IsLine line) :
    ∀ lines ∈ front ls, ∀ line ∈ lines, IsLine line := by
  cases ls with
  | nil => exact fun lines hlines => nomatch hlines
  | cons line ls => simpa [front] using h

/-- No line of a section is blank, nor more than a line. -/
theorem SingleLined.isLine {s : Shader} (hs : s.SingleLined) (version : Option Version) :
    ∀ lines ∈ s.sections version, ∀ line ∈ lines, IsLine line := by
  have hdeclared : ∀ storage, ∀ line ∈ (s.vars storage).map Variable.line, IsLine line := by
    intro storage line hline
    obtain ⟨v, hv, rfl⟩ := List.mem_map.1 hline
    exact Variable.isLine (hs.names storage v hv)
  have hheader : ∀ line ∈ (header version).dropLast, IsLine line := by
    cases version with
    | none => exact fun line hline => nomatch hline
    | some v => simp [header, IsLine, not_mem_toDigits]
  have hlayout : ∀ line ∈ (layoutLines s.stage).dropLast, IsLine line := by
    cases s.stage <;> decide
  have hinputs : ∀ line ∈ s.inputLines, IsLine line := by
    cases hstage : s.stage <;> simp only [inputLines, hstage]
    case vertex =>
      intro line hline
      obtain ⟨⟨v, i⟩, hv, rfl⟩ := List.mem_map.1 hline
      have hname := hs.names .input v (List.fst_mem_of_mem_zipIdx hv)
      exact (Variable.isLine hname).prepend (by simp [not_mem_toDigits])
    all_goals exact hdeclared .input
  have hlocals : ∀ line ∈ s.locals.map (fun v => "\t" ++ v.line), IsLine line := by
    intro line hline
    obtain ⟨v, hv, rfl⟩ := List.mem_map.1 hline
    exact (Variable.isLine (hs.names .local v hv)).prepend (by decide)
  have hstatements : ∀ line ∈ s.statements.map Statement.text, IsLine line := by
    intro line hline
    obtain ⟨st, hst, rfl⟩ := List.mem_map.1 hline
    exact Statement.isLine fun text htext => (hs.texts st hst text htext).1
  have hbody : ∀ lines ∈ s.body, ∀ line ∈ lines, IsLine line := by
    simp only [body, List.forall_mem_cons]
    refine ⟨hinputs, hdeclared .output, hdeclared .parameter, ?_, ?_, by simp⟩
    · rw [List.forall_mem_append]
      exact ⟨by decide, hlocals⟩
    · rw [List.forall_mem_append]
      exact ⟨hstatements, by decide⟩
  rw [sections, List.forall_mem_append, List.forall_mem_append]
  exact ⟨isLine_front hheader, isLine_front hlayout, hbody⟩

/-- **The sections of a source are found again** from its text. -/
theorem sections_of_source {s : Shader} (hs : s.SingleLined) (version : Option Version) :
    (Text.lines (s.source version)).splitOn "" = s.sections version := by
  have hlines := hs.isLine version
  have hblank : ∀ lines ∈ s.sections version, "" ∉ lines :=
    fun lines hmem hempty => (hlines lines hmem "" hempty).1 rfl
  have hfeed : ∀ line ∈ s.lines version, '\n' ∉ line.toList := by
    rw [lines_eq_intercalate]
    exact forall_mem_intercalate (by decide) fun lines hmem line hline =>
      (hlines lines hmem line hline).2
  rw [source, Text.lines_concat hfeed, lines_eq_intercalate,
    List.splitOn_intercalate "" hblank (by simp [sections, body])]

/-- The first section of all is that of the version, if there is one. -/
theorem number_of_front {v w : Option Version} (h : front (header v) = front (header w)) :
    v.map Version.number = w.map Version.number := by
  cases v with
  | none => cases w with
    | none => rfl
    | some w => exact nomatch h
  | some v => cases w with
    | none => exact nomatch h
    | some w =>
        have hline : "#version " ++ Nat.repr v.number = "#version " ++ Nat.repr w.number := by
          simpa [front, header] using h
        exact congrArg some (eq_of_repr ((String.append_right_inj _).1 hline))

theorem declarations_of_inputLines {s t : Shader} (hstage : s.stage = t.stage)
    (h : s.inputLines = t.inputLines) :
    s.inputs.map Variable.declaration = t.inputs.map Variable.declaration := by
  apply Variable.map_declaration_of_line
  rw [inputLines, inputLines, ← hstage] at h
  cases hs : s.stage <;> rw [hs] at h
  case vertex => exact Variable.map_line_of_locationLines h
  all_goals exact h

/-- The lines of the main function are those of the same statements. -/
theorem printed_of_texts {s t : Shader} (hs : s.SingleLined) (ht : t.SingleLined)
    (h : s.statements.map Statement.text = t.statements.map Statement.text) :
    s.statements.map Statement.printed = t.statements.map Statement.printed := by
  have hread : ∀ {u : Shader}, u.SingleLined → (u.statements.map Statement.text).map Statement.read?
      = (u.statements.map Statement.printed).map some := by
    intro u hu
    rw [List.map_map, List.map_map, List.map_inj_left]
    exact fun st hst => Statement.read?_text fun text htext => (hu.texts st hst text htext).2
  have hsome := (hread hs).symm.trans ((congrArg _ h).trans (hread ht))
  exact List.map_injective_iff.2 (fun _ _ => Option.some.inj) hsome

/-- **Nothing that is printed is lost.** Two shaders of a stage with the same source have
the same version number, if any, the same declarations list by list, and the same
statements. -/
theorem printed_of_source_eq {s t : Shader} {v w : Option Version} (hstage : s.stage = t.stage)
    (hs : s.SingleLined) (ht : t.SingleLined) (h : s.source v = t.source w) :
    v.map Version.number = w.map Version.number ∧
      (∀ storage, (s.vars storage).map Variable.declaration
        = (t.vars storage).map Variable.declaration) ∧
      s.statements.map Statement.printed = t.statements.map Statement.printed := by
  have hsections : s.sections v = t.sections w := by
    rw [← sections_of_source hs, ← sections_of_source ht, h]
  -- Five sections stand at the end of every source, the layouts are those of one stage.
  obtain ⟨hversion, hrest⟩ := List.append_inj' hsections (by simp [hstage, body])
  obtain ⟨-, hbody⟩ := List.append_inj' hrest rfl
  obtain ⟨hinputs, houtputs, hparameters, hlocals, hstatements⟩ :
      s.inputLines = t.inputLines ∧
      s.outputs.map Variable.line = t.outputs.map Variable.line ∧
      s.parameters.map Variable.line = t.parameters.map Variable.line ∧
      s.locals.map (fun v => "\t" ++ v.line) = t.locals.map (fun v => "\t" ++ v.line) ∧
      s.statements.map Statement.text = t.statements.map Statement.text := by
    simpa [body] using hbody
  refine ⟨number_of_front hversion, fun storage => ?_, printed_of_texts hs ht hstatements⟩
  cases storage with
  | input => exact declarations_of_inputLines hstage hinputs
  | output => exact Variable.map_declaration_of_line houtputs
  | parameter => exact Variable.map_declaration_of_line hparameters
  | «local» =>
      have hline : s.locals.map Variable.line = t.locals.map Variable.line :=
        map_of_map_comp (fun _ _ heq => (String.append_right_inj "\t").1 heq) hlocals
      exact Variable.map_declaration_of_line hline

/-- A vertex stage put together by features. -/
def bound : Shader :=
  ((Shader.empty "bound" .vertex).extend (.vertexInputs ⟨true, false, false, true⟩)).extend
    (.passThrough "*coord_in")

/-- A stage that prints the same, with no slots and with a statement given as text. -/
def unbound : Shader :=
  ((((Shader.empty "unbound" .vertex).put .input "position_in" [.ty (.vec 3)]).put .input
    "texcoord_in" [.ty (.vec 3)]).put .output "texcoord_vsh" [.ty (.vec 3)]).next
      (.raw "texcoord_vsh = texcoord_in")

theorem printed_bound :
    bound ≠ unbound ∧
      Version.number ⟨4, 10⟩ = Version.number ⟨5, 0⟩ ∧
      bound.inputs.map Variable.declaration = unbound.inputs.map Variable.declaration ∧
      bound.statements.map Statement.printed = unbound.statements.map Statement.printed := by
  have hstage : bound.stage = unbound.stage := by decide
  have hbound : bound.SingleLined :=
    ⟨fun storage => by cases storage <;> decide, by decide +kernel⟩
  have hunbound : unbound.SingleLined :=
    ⟨fun storage => by cases storage <;> decide, by decide +kernel⟩
  have hsource : bound.source (some ⟨4, 10⟩) = unbound.source (some ⟨5, 0⟩) := by decide +kernel
  obtain ⟨hnumber, hdeclarations, hstatements⟩ :=
    printed_of_source_eq hstage hbound hunbound hsource
  exact ⟨by decide, Option.some.inj hnumber, hdeclarations .input, hstatements⟩

end Shader

end Shaderwright
