import Mathlib.Data.List.DropRight
import Shaderwright.Proofs.Shader.Growth
import Shaderwright.Proofs.Shader.Locations
import Shaderwright.Proofs.Text.Lines

/-!
# The main function is a forest of blocks

A shader keeps the lines of its main function in a row, each with its depth. Whatever is
built on a fresh stage, these lines are the flattening of statements and conditionals with
bodies of their own, to any depth, and of no other such forest.

The source puts the forest out again. Its lines are read from the last one up: a line that
ends in a closing brace begins a body, one that ends in an opening brace takes it, and each
line has to be indented by one tab for every brace around it (`Blocks.read`).
-/

namespace Shaderwright

/-! ## Forests -/

/-- Statements and conditionals in a row, with what stands between the braces of each
conditional. -/
inductive Blocks (α : Type) where
  | nil
  | statement (e : α) (rest : Blocks α)
  | conditional (condition : α) (body rest : Blocks α)
deriving DecidableEq, Repr

namespace Blocks

def map (f : α → β) : Blocks α → Blocks β
  | nil => nil
  | statement e rest => statement (f e) (rest.map f)
  | conditional condition body rest => conditional (f condition) (body.map f) (rest.map f)

def append : Blocks α → Blocks α → Blocks α
  | nil, other => other
  | statement e rest, other => statement e (rest.append other)
  | conditional condition body rest, other => conditional condition body (rest.append other)

/-- The lines of a forest in a row, those between braces one deeper than the braces. -/
def lines (depth : Nat) : Blocks Expr → List Statement
  | nil => []
  | statement e rest => ⟨depth, .statement e⟩ :: rest.lines depth
  | conditional condition body rest =>
      ⟨depth, .openIf condition⟩ :: (body.lines (depth + 1) ++ ⟨depth, .close⟩ :: rest.lines depth)

theorem lines_append (depth : Nat) (blocks other : Blocks Expr) :
    (blocks.append other).lines depth = blocks.lines depth ++ other.lines depth := by
  induction blocks with
  | nil => rfl
  | statement e rest ih => simp [append, lines, ih]
  | conditional condition body rest _ ih => simp [append, lines, ih]

theorem le_depth_of_mem_lines {depth : Nat} {blocks : Blocks Expr} :
    ∀ st ∈ blocks.lines depth, depth ≤ st.depth := by
  induction blocks generalizing depth with
  | nil => simp [lines]
  | statement e rest ih =>
      rw [lines, List.forall_mem_cons]
      exact ⟨Nat.le_refl _, ih⟩
  | conditional condition body rest ihbody ih =>
      rw [lines, List.forall_mem_cons, List.forall_mem_append, List.forall_mem_cons]
      refine ⟨Nat.le_refl _, fun st hst => ?_, Nat.le_refl _, ih⟩
      exact Nat.le_of_succ_le (ihbody st hst)

end Blocks

/-- Every line that opens a block is closed at its depth, with deeper lines only before
that. -/
def Matched (sts : List Statement) : Prop :=
  ∀ before depth condition after, sts = before ++ ⟨depth, .openIf condition⟩ :: after →
    ∃ inner rest, after = inner ++ ⟨depth, .close⟩ :: rest ∧ ∀ st ∈ inner, depth < st.depth

theorem Blocks.matched_lines (depth : Nat) (blocks : Blocks Expr) :
    Matched (blocks.lines depth) := by
  induction blocks generalizing depth with
  | nil =>
      intro before d c after h
      simp [lines] at h
  | statement e rest ih =>
      intro before d c after h
      cases before with
      | nil => simp [lines] at h
      | cons st before =>
          obtain ⟨-, h⟩ := List.cons.inj h
          exact ih depth before d c after h
  | conditional condition body rest ihbody ih =>
      intro before d c after h
      cases before with
      | nil =>
          obtain ⟨hline, rfl⟩ := List.cons.inj h
          obtain ⟨rfl, -⟩ := Statement.mk.inj hline
          exact ⟨_, _, rfl, le_depth_of_mem_lines⟩
      | cons st before =>
          obtain ⟨-, h⟩ := List.cons.inj h
          -- The line stands in the body, or behind the brace that closes it.
          rcases List.append_eq_append_iff.1 h with ⟨more, -, hrest⟩ | ⟨more, hbody, hrest⟩
          · cases more with
            | nil => exact nomatch (Statement.mk.inj (List.cons.inj hrest).1).2
            | cons st more => exact ih depth more d c after (List.cons.inj hrest).2
          · cases more with
            | nil => exact nomatch (Statement.mk.inj (List.cons.inj hrest).1).2
            | cons st more =>
                obtain ⟨rfl, rfl⟩ := List.cons.inj hrest
                obtain ⟨inner, others, rfl, hinner⟩ := ihbody (depth + 1) before d c more hbody
                exact ⟨inner, _, List.append_assoc .., hinner⟩

/-! ## Reading -/

/-- What a line says, whatever stands for its expression. -/
inductive Mark (α : Type) where
  | statement (e : α)
  | openIf (condition : α)
  | close
deriving DecidableEq, Repr

/-- What a line says, with `f` of its expression. -/
def Line.mark (f : Expr → α) : Line → Mark α
  | .statement e => .statement (f e)
  | .openIf condition => .openIf (f condition)
  | .close => .close

/-- The number of braces that are open behind a line, from the number around it. -/
def Line.behind (depth : Nat) : Line → Nat
  | .openIf _ => depth + 1
  | .statement _ | .close => depth

namespace Blocks

/-- Reads lines from the last one up, given what a line says where a number of braces are
open behind it. The result is the forest that begins here and, for each brace around it,
from the innermost on, the forest behind that brace. -/
def read (mark? : Nat → τ → Option (Mark α)) : List τ → Option (Blocks α × List (Blocks α))
  | [] => some (nil, [])
  | line :: rest =>
      match read mark? rest with
      | none => none
      | some (blocks, outer) =>
          match mark? outer.length line, outer with
          | some (.statement e), _ => some (statement e blocks, outer)
          | some .close, _ => some (nil, blocks :: outer)
          | some (.openIf condition), next :: outer =>
              some (conditional condition blocks next, outer)
          | some (.openIf _), [] | none, _ => none

section
variable {mark? : Nat → τ → Option (Mark α)} {print : Statement → τ} {f : Expr → α}

/-- **Reading gives back the forest that was put out**, up to what is put out of an
expression. -/
theorem read_lines
    (hprint : ∀ st, mark? (st.line.behind st.depth) (print st) = some (st.line.mark f))
    (blocks : Blocks Expr) {outer : List (Blocks α)} {tail : List τ}
    (htail : read mark? tail = some (nil, outer)) :
    read mark? ((blocks.lines outer.length).map print ++ tail) = some (blocks.map f, outer) := by
  induction blocks generalizing outer tail with
  | nil => simpa [lines, map] using htail
  | statement e rest ih =>
      have hmark := hprint ⟨outer.length, .statement e⟩
      simp only [Line.behind] at hmark
      simp [lines, read, ih htail, hmark, Line.mark, map]
  | conditional condition body rest ihbody ih =>
      -- From the last line up: what is behind the block, its closing brace, its body.
      have hclose := hprint ⟨outer.length, .close⟩
      have hopen := hprint ⟨outer.length, .openIf condition⟩
      simp only [Line.behind] at hclose hopen
      have hbehind : read mark? (print ⟨outer.length, .close⟩ ::
          ((rest.lines outer.length).map print ++ tail)) = some (nil, rest.map f :: outer) := by
        simp [read, ih htail, hclose, Line.mark]
      have hbody := ihbody hbehind
      rw [List.length_cons] at hbody
      simp [lines, read, hbody, hopen, Line.mark, map]

end

theorem map_id (blocks : Blocks α) : blocks.map id = blocks := by
  induction blocks with
  | nil => rfl
  | statement e rest ih => simp [map, ih]
  | conditional condition body rest ihbody ih => simp [map, ihbody, ih]

/-- The braces that close as many blocks. -/
def closings : Nat → List Statement
  | 0 => []
  | depth + 1 => ⟨depth, .close⟩ :: closings depth

end Blocks

/-- What a statement says, if it has the depth that goes with the braces behind it. -/
def Statement.mark? (braces : Nat) (st : Statement) : Option (Mark Expr) :=
  if st.line.behind st.depth = braces then some (st.line.mark id) else none

namespace Blocks

theorem read_closings (depth : Nat) :
    read Statement.mark? (closings depth) = some (nil, List.replicate depth nil) := by
  induction depth with
  | zero => rfl
  | succ depth ih =>
      simp [closings, read, ih, Statement.mark?, Line.behind, Line.mark, List.replicate_succ]

/-- **No other forest has the same lines.** -/
theorem lines_injective {depth : Nat} {blocks other : Blocks Expr}
    (h : blocks.lines depth = other.lines depth) : blocks = other := by
  have hprint : ∀ st : Statement, Statement.mark? (st.line.behind st.depth) (id st)
      = some (st.line.mark id) := fun st => if_pos rfl
  have hread : ∀ bs : Blocks Expr, read Statement.mark? (bs.lines depth ++ closings depth)
      = some (bs, List.replicate depth nil) := by
    intro bs
    have hbs := read_lines hprint bs (read_closings depth)
    simpa [map_id] using hbs
  have hboth := hread blocks
  rw [h, hread other] at hboth
  exact (Prod.mk.inj (Option.some.inj hboth)).1.symm

end Blocks

/-! ## Forests of shaders -/

/-- The forest of the lines that edits append. -/
def Edit.blocks : List Edit → Blocks Expr
  | [] => .nil
  | .declare _ _ _ :: es => blocks es
  | .statement e :: es => .statement e (blocks es)
  | .conditional condition body :: es => .conditional condition (.statement body .nil) (blocks es)

theorem Edit.lines_blocks (depth : Nat) (es : List Edit) :
    (blocks es).lines depth = es.flatMap (Edit.lines depth) := by
  induction es with
  | nil => rfl
  | cons e es ih =>
      cases e with
      | declare storage x changes => exact ih
      | statement e => simp [blocks, Blocks.lines, lines, ih]
      | conditional condition body => simp [blocks, Blocks.lines, lines, ih]

namespace Shader

/-- **What is built on a shader appends a forest to its lines**, at the depth it stands
at. -/
theorem Reaches.exists_blocks {s t : Shader} (h : Reaches s t) :
    ∃ blocks : Blocks Expr, t.statements = s.statements ++ blocks.lines s.depth := by
  induction h with
  | start s => exact ⟨.nil, by simp [Blocks.lines]⟩
  | declare h hchanges hu ih =>
      obtain ⟨vars, rfl, -⟩ := declare_cases hu
      rwa [statements_withVars]
  | @next s t h e ih =>
      obtain ⟨blocks, hblocks⟩ := ih
      refine ⟨blocks.append (.statement e .nil), ?_⟩
      simp [Shader.next, push, hblocks, h.depth, Blocks.lines_append, Blocks.lines]
  | @feature s t h f ih =>
      obtain ⟨blocks, hblocks⟩ := ih
      rcases t.extend_cases f with heq | ⟨es, -, heq⟩
      · exact ⟨blocks, by rw [heq, hblocks]⟩
      · refine ⟨blocks.append (Edit.blocks es), ?_⟩
        rw [heq, statements_editAll, hblocks, h.depth, Blocks.lines_append, Edit.lines_blocks,
          List.append_assoc]
  | @block s t u h condition hbody ih ihbody =>
      obtain ⟨blocks, hblocks⟩ := ih
      obtain ⟨inner, hinner⟩ := ihbody
      have hdepth : u.depth = s.depth + 1 := by
        rw [hbody.depth, ← h.depth]
        rfl
      refine ⟨blocks.append (.conditional condition inner .nil), ?_⟩
      rw [Blocks.lines_append]
      simp [closeIf, push, hinner, openIf, hblocks, hdepth, h.depth, Blocks.lines]

end Shader

/-! ## The text of a forest -/

/-- The text of the expression of a line, if it has one. -/
def Line.texts : Line → List String
  | .statement e | .openIf e => [e.text]
  | .close => []

/-- What stands between two texts. -/
def between? (before after : List Char) (cs : List Char) : Option String :=
  let text := (cs.drop before.length).take (cs.length - before.length - after.length)
  if before ++ text ++ after = cs then some (String.ofList text) else none

theorem between?_append (before text after : List Char) :
    between? before after (before ++ text ++ after) = some (String.ofList text) := by
  simp [between?]

/-- The character that a line ends in. -/
def Line.last : Line → Char
  | .statement _ => ';'
  | .openIf _ => '\x7b'
  | .close => '\x7d'

theorem Statement.getLast?_text (st : Statement) : st.text.toList.getLast? = some st.line.last := by
  obtain ⟨depth, line⟩ := st
  cases line with
  | statement e => simp [Statement.text, Line.text, Line.last]
  | openIf condition =>
      have htext : (Statement.text ⟨depth, .openIf condition⟩).toList
          = (List.replicate depth '\t' ++ "if (".toList ++ condition.text.toList)
            ++ ") \x7b".toList := by
        simp [Statement.text, Line.text]
      rw [htext, List.getLast?_append]
      rfl
  | close => simp [Statement.text, Line.text, Line.last]

theorem Statement.text_ne_empty (st : Statement) : st.text ≠ "" := by
  intro h
  have hlast := st.getLast?_text
  rw [h] at hlast
  exact nomatch hlast

/-- A line holds no line feed but in the text of its expression. -/
theorem Statement.not_mem_text (st : Statement)
    (h : ∀ text ∈ st.line.texts, '\n' ∉ text.toList) : '\n' ∉ st.text.toList := by
  obtain ⟨depth, line⟩ := st
  cases line with
  | statement e => simpa [Statement.text, Line.text, Line.texts] using h
  | openIf condition => simpa [Statement.text, Line.text, Line.texts] using h
  | close => simp [Statement.text, Line.text]

/-- Reads a line with so many tabs before it, which shows by its last character what it
is. -/
def Mark.ofText? (tabs : Nat) (line : String) : Option (Mark String) :=
  let indent := List.replicate tabs '\t'
  match line.toList.getLast? with
  | some '\x7b' => (between? (indent ++ "if (".toList) ") \x7b".toList line.toList).map .openIf
  | some '\x7d' => if line.toList = indent ++ "\x7d".toList then some .close else none
  | some ';' => (between? indent ";".toList line.toList).map .statement
  | _ => none

/-- **A line is read as what it says**, at its own indentation. -/
theorem Mark.ofText?_text (st : Statement) :
    ofText? st.depth st.text = some (st.line.mark Expr.text) := by
  rw [ofText?, st.getLast?_text]
  obtain ⟨depth, line⟩ := st
  cases line with
  | statement e =>
      have htext : (Statement.text ⟨depth, .statement e⟩).toList
          = List.replicate depth '\t' ++ e.text.toList ++ ";".toList := by
        simp [Statement.text, Line.text]
      simp only [Line.last, htext, between?_append]
      simp [Line.mark]
  | openIf condition =>
      have htext : (Statement.text ⟨depth, .openIf condition⟩).toList
          = List.replicate depth '\t' ++ "if (".toList ++ condition.text.toList
            ++ ") \x7b".toList := by
        simp [Statement.text, Line.text]
      simp only [Line.last, htext, between?_append]
      simp [Line.mark]
  | close => simp [Line.last, Statement.text, Line.text, Line.mark]

/-- Reads a line of the main function where a number of braces are open behind it. A line
that opens a block stands outside of the last of them. -/
def Mark.ofLine? (braces : Nat) (line : String) : Option (Mark String) :=
  ofText? (if line.toList.getLast? = some '\x7b' then braces - 1 else braces) line

theorem Mark.ofLine?_text (st : Statement) :
    ofLine? (st.line.behind st.depth) st.text = some (st.line.mark Expr.text) := by
  have htabs : (if st.text.toList.getLast? = some '\x7b' then st.line.behind st.depth - 1
      else st.line.behind st.depth) = st.depth := by
    rw [st.getLast?_text]
    cases st.line <;> simp [Line.last, Line.behind]
  rw [ofLine?, htabs, ofText?_text]

/-- The forest in the main function of a source: what is put out behind the last blank
line, up to the brace that closes the function. -/
def Blocks.ofSource? (source : String) : Option (Blocks String) :=
  match read Mark.ofLine? ((Text.lines source).rtakeWhile fun line => line ≠ "") with
  | some (blocks, [.nil]) => some blocks
  | _ => none

/-- **The text of a forest is read back**, whatever stands before it. -/
theorem Blocks.ofSource?_of_lines {source : String} {before : List String}
    {blocks : Blocks Expr} (h : Text.lines source
      = before ++ "" :: ((blocks.lines 1).map Statement.text ++ ["\x7d"])) :
    ofSource? source = some (blocks.map Expr.text) := by
  have hblank : ∀ line ∈ (blocks.lines 1).map Statement.text ++ ["\x7d"], line ≠ "" := by
    rw [List.forall_mem_append]
    refine ⟨?_, by simp⟩
    intro line hline
    obtain ⟨st, -, rfl⟩ := List.mem_map.1 hline
    exact st.text_ne_empty
  have hbody : (Text.lines source).rtakeWhile (fun line => line ≠ "")
      = (blocks.lines 1).map Statement.text ++ ["\x7d"] := by
    rw [h, List.rtakeWhile, List.reverse_append, List.reverse_cons, List.append_assoc,
      List.takeWhile_append_of_pos]
    · simp
    · intro line hline
      simpa using hblank line (List.mem_reverse.1 hline)
  have hmain : read Mark.ofLine? ["\x7d"] = some (nil, [nil]) := rfl
  have hread := read_lines Mark.ofLine?_text blocks hmain
  rw [List.length_singleton] at hread
  rw [ofSource?, hbody, hread]

namespace Shader

/-- The lines of a source, if what it puts out of expressions holds no line feed: those of
the main function stand behind a blank one. -/
theorem lines_source (s : Shader) (version : Option Version)
    (h : ∀ st ∈ s.statements, ∀ text ∈ st.line.texts, '\n' ∉ text.toList) :
    ∃ before, Text.lines (s.source version)
      = before ++ "" :: (s.statements.map Statement.text ++ ["\x7d"]) := by
  -- Names may hold anything, so nothing is said about the lines that come before.
  let front := header version ++ layoutLines s.stage ++ s.inputLines ++ [""]
    ++ s.outputs.map Variable.line ++ [""] ++ s.parameters.map Variable.line ++ [""]
    ++ ["void main()", "\x7b"] ++ s.locals.map fun v => "\t" ++ v.line
  have hsplit : s.lines version
      = front ++ [""] ++ (s.statements.map Statement.text ++ ["\x7d"]) := by
    simp [lines, mainLines, front]
  have hbody : ∀ line ∈ s.statements.map Statement.text ++ ["\x7d"], '\n' ∉ line.toList := by
    rw [List.forall_mem_append]
    refine ⟨?_, by simp⟩
    intro line hline
    obtain ⟨st, hst, rfl⟩ := List.mem_map.1 hline
    exact st.not_mem_text (h st hst)
  obtain ⟨before, hbefore⟩ := Text.pieces_concat front
  refine ⟨before, ?_⟩
  rw [source, hsplit, List.map_append, List.map_append, Text.concat_append, Text.concat_append]
  rw [show Text.concat ([""].map fun line => line ++ "\n") = "\n" from rfl, Text.lines_append,
    hbefore, Text.lines_concat hbody, List.append_assoc, List.singleton_append]

/-- **Main functions are forests.** -/
theorem blocks_of_reaches {name : String} {stage : Stage} {s : Shader}
    (h : Reaches (Shader.empty name stage) s) :
    s.depth = 1 ∧ (∃! blocks : Blocks Expr, s.statements = blocks.lines 1) ∧
      Matched s.statements ∧
      ∀ blocks : Blocks Expr, s.statements = blocks.lines 1 →
        (∀ st ∈ s.statements, ∀ text ∈ st.line.texts, '\n' ∉ text.toList) →
        ∀ version, Blocks.ofSource? (s.source version) = some (blocks.map Expr.text) := by
  obtain ⟨blocks, hblocks⟩ := h.exists_blocks
  have hlines : s.statements = blocks.lines 1 := hblocks
  refine ⟨h.depth, ⟨blocks, hlines, ?_⟩, ?_, ?_⟩
  · intro other hother
    exact Blocks.lines_injective (hother.symm.trans hlines)
  · rw [hlines]
    exact Blocks.matched_lines 1 blocks
  · intro other hother htexts version
    obtain ⟨before, hbefore⟩ := s.lines_source version htexts
    rw [hother] at hbefore
    exact Blocks.ofSource?_of_lines hbefore

/-- A feature inside of a block, a block inside of that one, and texts that look like
lines of their own. -/
def nested : Shader :=
  ((((((((Shader.empty "nested" .vertex).extend (.vertexInputs ⟨true, false, false, false⟩)).openIf
    (.ident "a")).extend (.passThrough "position_in")).openIf (.ident "b")).next
      (.raw "x; \x7d")).closeIf).next (.raw "\tif (c) \x7b")).closeIf

theorem blocks_nested :
    nested.statements.length = 7 ∧
      Blocks.ofSource? (nested.source (some ⟨4, 1⟩)) = some
        (.conditional "a"
          (.statement "position_vsh = position_in"
            (.conditional "b" (.statement "x; \x7d" .nil) (.statement "\tif (c) \x7b" .nil)))
          .nil) := by
  have hreaches : Reaches (Shader.empty "nested" .vertex) nested :=
    .block (.feature (.start _) _) _
      (.next (.block (.feature (.start _) _) _ (.next (.start _) _)) _)
  obtain ⟨-, -, -, hread⟩ := blocks_of_reaches hreaches
  let blocks : Blocks Expr :=
    .conditional (.ident "a")
      (.statement (.assign .set (.ident "position_vsh") (.ident "position_in"))
        (.conditional (.ident "b") (.statement (.raw "x; \x7d") .nil)
          (.statement (.raw "\tif (c) \x7b") .nil)))
      .nil
  have hlines : nested.statements = blocks.lines 1 := by decide +kernel
  exact ⟨by decide +kernel, hread blocks hlines (by decide +kernel) _⟩

end Shader

end Shaderwright
