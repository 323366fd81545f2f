import Mathlib.Data.List.TakeWhile
import Shaderwright.Text.Blank

/-!
# Texts without the blanks around them

What trimming leaves of a text is told from the text alone: it is the part that has nothing but
blanks around it and no blank at either of its own ends (`toList_trim_eq_iff`). A text has one
such part only; of a blank text it is the empty one.
-/

namespace Shaderwright.Text

/-- The part of a text that has nothing but blanks around it and no blank at its ends. -/
structure IsCore (core cs : List Char) : Prop where
  around : ∃ lead trail, cs = lead ++ core ++ trail ∧
    lead.all isBlank = true ∧ trail.all isBlank = true
  head : ∀ c ∈ core.head?, isBlank c = false
  last : ∀ c ∈ core.getLast?, isBlank c = false

theorem trimEnd_append {cs trail : List Char} (h : trail.all isBlank = true) :
    trimEnd (cs ++ trail) = trimEnd cs := by
  induction cs with
  | nil => exact trimEnd_eq_nil_iff.2 h
  | cons c cs ih => simp only [List.cons_append, trimEnd, ih]

theorem trimEnd_of_last {cs : List Char} (h : ∀ c ∈ cs.getLast?, isBlank c = false) :
    trimEnd cs = cs := by
  induction cs with
  | nil => rfl
  | cons c cs ih =>
      cases cs with
      | nil => simp [trimEnd, h c rfl]
      | cons d ds =>
          have hrest : trimEnd (d :: ds) = d :: ds := ih fun x hx => h x (by simpa using hx)
          rw [trimEnd, hrest]

theorem last_trimEnd (cs : List Char) : ∀ c ∈ (trimEnd cs).getLast?, isBlank c = false := by
  induction cs with
  | nil => simp [trimEnd]
  | cons c cs ih =>
      rw [trimEnd]
      cases hrest : trimEnd cs with
      | nil => by_cases hc : isBlank c = true <;> simp [hc]
      | cons d ds => simpa [hrest] using ih

theorem isCore_trim (s : String) : IsCore (trim s).toList s.toList := by
  obtain ⟨trail, hsplit, htrail⟩ := trimEnd_append_blanks (s.toList.dropWhile isBlank)
  have htext : (trim s).toList = trimEnd (s.toList.dropWhile isBlank) := by simp [trim]
  rw [htext]
  refine ⟨⟨s.toList.takeWhile isBlank, trail, ?_, List.all_takeWhile, htrail⟩, ?_, last_trimEnd _⟩
  · rw [List.append_assoc, hsplit, List.takeWhile_append_dropWhile]
  · -- The first character left is the first one that is no blank.
    intro c hc
    obtain ⟨rest, hrest⟩ : ∃ rest, trimEnd (s.toList.dropWhile isBlank) = c :: rest :=
      List.head?_eq_some_iff.1 hc
    have hhead : (s.toList.dropWhile isBlank).head? = some c := by
      rw [← hsplit, hrest, List.cons_append, List.head?_cons]
    have hfirst := List.head?_dropWhile_not isBlank s.toList
    rwa [hhead] at hfirst

theorem IsCore.eq_trim {core : List Char} {s : String} (h : IsCore core s.toList) :
    (trim s).toList = core := by
  obtain ⟨⟨lead, trail, htext, hlead, htrail⟩, hhead, hlast⟩ := h
  have htrimmed : (trim s).toList = trimEnd ((core ++ trail).dropWhile isBlank) := by
    rw [trim, String.toList_ofList, htext, List.append_assoc,
      List.dropWhile_append_of_pos (List.all_eq_true.1 hlead)]
  rw [htrimmed]
  cases core with
  | nil =>
      rw [List.nil_append, List.dropWhile_eq_nil_iff.2 (List.all_eq_true.1 htrail)]
      rfl
  | cons c rest =>
      have hc : isBlank c = false := hhead c rfl
      rw [List.cons_append, List.dropWhile_cons_of_neg (by simp [hc]), ← List.cons_append,
        trimEnd_append htrail, trimEnd_of_last hlast]

/-- A text without blanks is left as it is. -/
theorem isCore_of_forall {cs : List Char} (h : ∀ c ∈ cs, isBlank c = false) : IsCore cs cs where
  around := ⟨[], [], by simp, rfl, rfl⟩
  head c hc := h c (List.mem_of_head? hc)
  last c hc := h c (List.mem_of_getLast? hc)

/-- **What trimming leaves** is the only part of the text with nothing but blanks around it and
no blank at its ends. -/
theorem toList_trim_eq_iff {s : String} {core : List Char} :
    (trim s).toList = core ↔ IsCore core s.toList := by
  constructor
  · rintro rfl
    exact isCore_trim s
  · exact IsCore.eq_trim

end Shaderwright.Text
