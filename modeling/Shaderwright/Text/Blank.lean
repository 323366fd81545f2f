/-!
# White space

Trimming and emptiness go by the Unicode property White_Space, not by the six
ASCII blanks: a no-break space at the end of a name is dropped, a zero-width
space is kept. `trim` removes blanks at both ends and nothing between.
-/

namespace Shaderwright.Text

/-- The twenty-five characters with the Unicode property White_Space. -/
def isBlank (c : Char) : Bool :=
  let n := c.toNat
  (9 ≤ n && n ≤ 13) || n == 0x20 || n == 0x85 || n == 0xA0 || n == 0x1680
    || (0x2000 ≤ n && n ≤ 0x200A) || n == 0x2028 || n == 0x2029 || n == 0x202F
    || n == 0x205F || n == 0x3000

/-- Drops the blanks that end a text. -/
def trimEnd : List Char → List Char
  | [] => []
  | c :: cs =>
      match trimEnd cs with
      | [] => if isBlank c then [] else [c]
      | d :: ds => c :: d :: ds

/-- Drops the blanks at both ends. -/
def trim (s : String) : String :=
  String.ofList (trimEnd (s.toList.dropWhile isBlank))

/-- Holds of a text that is empty once trimmed. -/
def isBlankText (s : String) : Bool := s.toList.all isBlank

/-! ## Facts -/

theorem trimEnd_eq_nil_iff {cs : List Char} : trimEnd cs = [] ↔ cs.all isBlank = true := by
  induction cs with
  | nil => simp [trimEnd]
  | cons c cs ih =>
      simp only [trimEnd, List.all_cons, Bool.and_eq_true]
      cases h : trimEnd cs with
      | nil => simp [← ih, h]
      | cons d ds => simp [← ih, h]

/-- Trimming the end removes blanks that end the text and nothing else. -/
theorem trimEnd_append_blanks (cs : List Char) :
    ∃ tail, trimEnd cs ++ tail = cs ∧ tail.all isBlank = true := by
  induction cs with
  | nil => exact ⟨[], rfl, rfl⟩
  | cons c cs ih =>
      obtain ⟨tail, hcs, htail⟩ := ih
      rw [trimEnd]
      cases h : trimEnd cs with
      | nil =>
          rw [h, List.nil_append] at hcs
          by_cases hc : isBlank c = true
          · exact ⟨c :: tail, by simp [hc, hcs], by simp [hc, htail]⟩
          · exact ⟨tail, by simp [hc, hcs], htail⟩
      | cons d ds =>
          exact ⟨tail, by rw [h] at hcs; simpa using hcs, htail⟩

end Shaderwright.Text
