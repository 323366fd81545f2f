import Shaderwright.Text.Words

/-!
# Texts line by line

A text is cut at its line feeds. Lines that hold none are read back as they were put out,
and what stands in a text before a line feed has no bearing on how the rest is read.
-/

namespace Shaderwright.Text

/-- The pieces of a text between its line feeds. -/
def pieces (s : String) : List String := (s.toList.splitOn '\n').map String.ofList

/-- The lines of a text, each closed by a line feed. -/
def lines (s : String) : List String := (pieces s).dropLast

theorem pieces_append (before after : String) :
    pieces (before ++ "\n" ++ after) = pieces before ++ pieces after := by
  have hfeed : ('\n' == '\n') = true := rfl
  have hsplit := List.splitOnP_append_cons (p := (· == '\n')) before.toList after.toList hfeed
  simp [pieces, List.splitOn_eq_splitOnP, hsplit]

theorem pieces_ne_nil (s : String) : pieces s ≠ [] := by
  simp [pieces, List.splitOn_eq_splitOnP, List.splitOnP_ne_nil]

/-- A new line begins behind a line feed. -/
theorem lines_append (before after : String) :
    lines (before ++ "\n" ++ after) = pieces before ++ lines after := by
  rw [lines, pieces_append, List.dropLast_append_of_ne_nil (pieces_ne_nil after), lines]

theorem pieces_of_not_mem {line : String} (h : '\n' ∉ line.toList) : pieces line = [line] := by
  have hnone : ∀ c ∈ line.toList, (c == '\n') = false := by
    intro c hc
    simp only [beq_eq_false_iff_ne]
    rintro rfl
    exact h hc
  rw [pieces, List.splitOn_eq_splitOnP, List.splitOnP_eq_singleton hnone]
  simp

/-- **Lines are read back**, if none of them holds a line feed. -/
theorem lines_concat {ls : List String} (h : ∀ line ∈ ls, '\n' ∉ line.toList) :
    lines (concat (ls.map fun line => line ++ "\n")) = ls := by
  induction ls with
  | nil => rfl
  | cons line ls ih =>
      obtain ⟨hline, hls⟩ := List.forall_mem_cons.1 h
      rw [List.map_cons, concat, lines_append, pieces_of_not_mem hline, ih hls,
        List.singleton_append]

theorem concat_append (as bs : List String) : concat (as ++ bs) = concat as ++ concat bs := by
  induction as with
  | nil => simp [concat]
  | cons a as ih => rw [List.cons_append, concat, concat, ih, String.append_assoc]

/-- Behind lines that are closed an empty piece begins. -/
theorem pieces_concat (ls : List String) :
    ∃ before, pieces (concat (ls.map fun line => line ++ "\n")) = before ++ [""] := by
  rcases List.eq_nil_or_concat ls with rfl | ⟨front, last, rfl⟩
  · exact ⟨[], rfl⟩
  · refine ⟨pieces (concat (front.map fun line => line ++ "\n") ++ last), ?_⟩
    have hlast : concat ((front ++ [last]).map fun line => line ++ "\n")
        = concat (front.map fun line => line ++ "\n") ++ last ++ "\n" ++ "" := by
      simp [concat_append, concat, String.append_assoc]
    rw [List.concat_eq_append, hlast, pieces_append]
    rfl

end Shaderwright.Text
