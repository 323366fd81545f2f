import Mathlib.Data.List.Basic
import Shaderwright.Text.Words

/-!
# Texts with separators

Parts that hold no separator are read back from the text that they are joined to, so that no
two lists of them are joined to the same text. A list of one blank part is an exception: it
makes the same text as no part at all.
-/

namespace Shaderwright.Text

/-- The pieces of a text between the marks in it. -/
def cut (mark : Char) (s : String) : List (List Char) := s.toList.splitOn mark

theorem cut_of_not_mem {mark : Char} {s : String} (h : mark ∉ s.toList) :
    cut mark s = [s.toList] := List.splitOn_eq_singleton h

/-- A text is known from its pieces. -/
theorem cut_inj {mark : Char} {s t : String} : cut mark s = cut mark t ↔ s = t := by
  constructor
  · intro h
    have hjoined := congrArg ([mark].intercalate) h
    simp only [cut, List.intercalate_splitOn] at hjoined
    exact String.toList_inj.1 hjoined
  · rintro rfl
    rfl

theorem cut_append {mark : Char} {separator : String} (hmark : separator.toList = [mark])
    (before after : String) :
    cut mark (before ++ separator ++ after) = cut mark before ++ cut mark after := by
  have hself : (mark == mark) = true := beq_self_eq_true mark
  have hsplit := List.splitOnP_append_cons (p := (· == mark)) before.toList after.toList hself
  simp [cut, List.splitOn_eq_splitOnP, hmark, hsplit]

/-- Parts without the separator are read back from the text that they are joined to. -/
theorem cut_join {mark : Char} {separator : String} (hmark : separator.toList = [mark])
    {parts : List String} (hparts : ∀ part ∈ parts, mark ∉ part.toList) (hne : parts ≠ []) :
    cut mark (join separator parts) = parts.map String.toList := by
  induction parts with
  | nil => exact absurd rfl hne
  | cons part rest ih =>
      obtain ⟨hpart, hrest⟩ := List.forall_mem_cons.1 hparts
      cases rest with
      | nil => exact cut_of_not_mem hpart
      | cons next rest =>
          rw [join, cut_append hmark, cut_of_not_mem hpart, ih hrest (List.cons_ne_nil _ _)]
          rfl

theorem join_ne_empty {mark : Char} {separator : String} (hmark : separator.toList = [mark])
    {parts : List String} (hparts : ∀ part ∈ parts, mark ∉ part.toList) (hne : parts ≠ [])
    (hblank : parts ≠ [""]) : join separator parts ≠ "" := by
  intro hempty
  have hcut := cut_join hmark hparts hne
  rw [hempty] at hcut
  have hsingle : [""].map String.toList = parts.map String.toList := hcut
  exact hblank (List.map_injective_iff.2 (fun _ _ => String.toList_inj.1) hsingle).symm

/-- Joining loses nothing of parts that hold no separator, a single blank one apart. -/
theorem join_inj {mark : Char} {separator : String} (hmark : separator.toList = [mark])
    {as bs : List String} (has : ∀ a ∈ as, mark ∉ a.toList) (hbs : ∀ b ∈ bs, mark ∉ b.toList)
    (ha : as ≠ [""]) (hb : bs ≠ [""]) : join separator as = join separator bs ↔ as = bs := by
  constructor
  · intro h
    cases as with
    | nil =>
        by_contra hne
        exact join_ne_empty hmark hbs (Ne.symm hne) hb h.symm
    | cons a as =>
        cases bs with
        | nil => exact absurd h (join_ne_empty hmark has (List.cons_ne_nil _ _) ha)
        | cons b bs =>
            have hcut := congrArg (cut mark) h
            rw [cut_join hmark has (List.cons_ne_nil _ _),
              cut_join hmark hbs (List.cons_ne_nil _ _)] at hcut
            exact List.map_injective_iff.2 (fun _ _ => String.toList_inj.1) hcut
  · rintro rfl
    rfl

end Shaderwright.Text
