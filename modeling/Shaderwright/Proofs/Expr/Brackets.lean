import Shaderwright.Expr.Printer

/-!
# Brackets in texts

How deep a text is inside of brackets at each of its places, and which of its characters stand
outside of all of them. A round bracket may be closed by a square one and the other way round:
only the depth counts, as it does when a text is told apart as one operand.

Both are read piece by piece (`depthAfter_append`, `outer_append`), and a balanced text between
brackets shows nothing outside (`outer_enclosed`).
-/

namespace Shaderwright.Expr

/-- The depth behind a text that begins inside of `depth` brackets, unless the text closes one
that is not open. -/
def depthAfter : Nat → List Char → Option Nat
  | depth, [] => some depth
  | depth, c :: cs =>
      if isOpening c then depthAfter (depth + 1) cs
      else if isClosing c then
        match depth with
        | 0 => none
        | inner + 1 => depthAfter inner cs
      else depthAfter depth cs

/-- Every bracket is closed again, and none is closed that was not open. -/
def isBalanced (cs : List Char) : Bool := depthAfter 0 cs == some 0

/-- The characters outside of brackets, the brackets themselves left out. -/
def outer : Nat → List Char → List Char
  | _, [] => []
  | depth, c :: cs =>
      if isOpening c then outer (depth + 1) cs
      else if isClosing c then outer (depth - 1) cs
      else if depth = 0 then c :: outer depth cs
      else outer depth cs

def isBracket (c : Char) : Bool := isOpening c || isClosing c

theorem isBalanced_iff {cs : List Char} : isBalanced cs = true ↔ depthAfter 0 cs = some 0 := by
  simp [isBalanced]

/-! ## One character -/

theorem not_isOpening_of_isClosing {c : Char} (h : isClosing c = true) : isOpening c = false := by
  simp only [isClosing, Bool.or_eq_true, beq_iff_eq] at h
  rcases h with rfl | rfl <;> decide

theorem depthAfter_opening {c : Char} (h : isOpening c = true) (depth : Nat) (cs : List Char) :
    depthAfter depth (c :: cs) = depthAfter (depth + 1) cs := by
  rw [depthAfter.eq_def]
  exact if_pos h

theorem depthAfter_closing {c : Char} (h : isClosing c = true) (depth : Nat) (cs : List Char) :
    depthAfter (depth + 1) (c :: cs) = depthAfter depth cs := by
  rw [depthAfter, if_neg (by simp [not_isOpening_of_isClosing h]), if_pos h]

theorem depthAfter_other {c : Char} (h : isBracket c = false) (depth : Nat) (cs : List Char) :
    depthAfter depth (c :: cs) = depthAfter depth cs := by
  obtain ⟨ho, hc⟩ := Bool.or_eq_false_iff.1 h
  rw [depthAfter.eq_def]
  simp [ho, hc]

theorem outer_opening {c : Char} (h : isOpening c = true) (depth : Nat) (cs : List Char) :
    outer depth (c :: cs) = outer (depth + 1) cs := by
  rw [outer, if_pos h]

theorem outer_closing {c : Char} (h : isClosing c = true) (depth : Nat) (cs : List Char) :
    outer (depth + 1) (c :: cs) = outer depth cs := by
  rw [outer, if_neg (by simp [not_isOpening_of_isClosing h]), if_pos h, Nat.add_sub_cancel]

theorem outer_inside {c : Char} (h : isBracket c = false) (depth : Nat) (cs : List Char) :
    outer (depth + 1) (c :: cs) = outer (depth + 1) cs := by
  obtain ⟨ho, hc⟩ := Bool.or_eq_false_iff.1 h
  rw [outer, if_neg (by simp [ho]), if_neg (by simp [hc]), if_neg (Nat.succ_ne_zero depth)]

theorem outer_outside {c : Char} (h : isBracket c = false) (cs : List Char) :
    outer 0 (c :: cs) = c :: outer 0 cs := by
  obtain ⟨ho, hc⟩ := Bool.or_eq_false_iff.1 h
  rw [outer, if_neg (by simp [ho]), if_neg (by simp [hc]), if_pos rfl]

/-- What the first character does to the depth: it opens a bracket, closes an open one, or is no
bracket. -/
theorem depthAfter_cons {c : Char} {cs : List Char} {depth behind : Nat}
    (h : depthAfter depth (c :: cs) = some behind) :
    (isOpening c = true ∧ depthAfter (depth + 1) cs = some behind) ∨
      (isClosing c = true ∧ ∃ inner, depth = inner + 1 ∧ depthAfter inner cs = some behind) ∨
      (isBracket c = false ∧ depthAfter depth cs = some behind) := by
  cases ho : isOpening c with
  | true => exact .inl ⟨rfl, depthAfter_opening ho depth cs ▸ h⟩
  | false =>
      cases hc : isClosing c with
      | true =>
          cases depth with
          | zero => simp [depthAfter, ho, hc] at h
          | succ inner => exact .inr (.inl ⟨rfl, inner, rfl, depthAfter_closing hc inner cs ▸ h⟩)
      | false =>
          have hother : isBracket c = false := by simp [isBracket, ho, hc]
          exact .inr (.inr ⟨hother, depthAfter_other hother depth cs ▸ h⟩)

/-! ## Piece by piece -/

theorem depthAfter_append {as : List Char} (bs : List Char) {depth behind : Nat}
    (h : depthAfter depth as = some behind) :
    depthAfter depth (as ++ bs) = depthAfter behind bs := by
  induction as generalizing depth with
  | nil => obtain rfl := Option.some.inj h; rfl
  | cons c cs ih =>
      rw [List.cons_append]
      rcases depthAfter_cons h with ⟨hc, hcs⟩ | ⟨hc, inner, rfl, hcs⟩ | ⟨hc, hcs⟩
      · rw [depthAfter_opening hc, ih hcs]
      · rw [depthAfter_closing hc, ih hcs]
      · rw [depthAfter_other hc, ih hcs]

/-- The depth behind a text is reached by way of the depth behind its front. -/
theorem exists_depthAfter {as bs : List Char} {depth behind : Nat}
    (h : depthAfter depth (as ++ bs) = some behind) :
    ∃ between, depthAfter depth as = some between ∧ depthAfter between bs = some behind := by
  induction as generalizing depth with
  | nil => exact ⟨depth, rfl, h⟩
  | cons c cs ih =>
      rcases depthAfter_cons h with ⟨hc, hcs⟩ | ⟨hc, inner, rfl, hcs⟩ | ⟨hc, hcs⟩
      · rw [depthAfter_opening hc]; exact ih hcs
      · rw [depthAfter_closing hc]; exact ih hcs
      · rw [depthAfter_other hc]; exact ih hcs

theorem outer_append {as : List Char} (bs : List Char) {depth behind : Nat}
    (h : depthAfter depth as = some behind) :
    outer depth (as ++ bs) = outer depth as ++ outer behind bs := by
  induction as generalizing depth with
  | nil => obtain rfl := Option.some.inj h; rfl
  | cons c cs ih =>
      rw [List.cons_append]
      rcases depthAfter_cons h with ⟨hc, hcs⟩ | ⟨hc, inner, rfl, hcs⟩ | ⟨hc, hcs⟩
      · rw [outer_opening hc, outer_opening hc, ih hcs]
      · rw [outer_closing hc, outer_closing hc, ih hcs]
      · cases depth with
        | zero => rw [outer_outside hc, outer_outside hc, ih hcs, List.cons_append]
        | succ depth => rw [outer_inside hc, outer_inside hc, ih hcs]

/-- Inside of one more bracket a text does the same. -/
theorem depthAfter_succ {cs : List Char} {depth behind : Nat}
    (h : depthAfter depth cs = some behind) :
    depthAfter (depth + 1) cs = some (behind + 1) := by
  induction cs generalizing depth with
  | nil => obtain rfl := Option.some.inj h; rfl
  | cons c cs ih =>
      rcases depthAfter_cons h with ⟨hc, hcs⟩ | ⟨hc, inner, rfl, hcs⟩ | ⟨hc, hcs⟩
      · rw [depthAfter_opening hc, ih hcs]
      · rw [depthAfter_closing hc, ih hcs]
      · rw [depthAfter_other hc, ih hcs]

theorem outer_succ {cs : List Char} {depth behind : Nat} (h : depthAfter depth cs = some behind) :
    outer (depth + 1) cs = [] := by
  induction cs generalizing depth with
  | nil => rfl
  | cons c cs ih =>
      rcases depthAfter_cons h with ⟨hc, hcs⟩ | ⟨hc, inner, rfl, hcs⟩ | ⟨hc, hcs⟩
      · rw [outer_opening hc, ih hcs]
      · rw [outer_closing hc, ih hcs]
      · rw [outer_inside hc, ih hcs]

/-! ## Balanced texts -/

theorem isBalanced_append {as bs : List Char} (ha : isBalanced as = true)
    (hb : isBalanced bs = true) : isBalanced (as ++ bs) = true := by
  rw [isBalanced_iff] at ha hb ⊢
  rw [depthAfter_append bs ha, hb]

/-- Behind a balanced text the depth is what it was before. -/
theorem depthAfter_balanced {as : List Char} (ha : isBalanced as = true) (bs : List Char) :
    depthAfter 0 (as ++ bs) = depthAfter 0 bs :=
  depthAfter_append bs (isBalanced_iff.1 ha)

theorem outer_balanced {as : List Char} (ha : isBalanced as = true) (bs : List Char) :
    outer 0 (as ++ bs) = outer 0 as ++ outer 0 bs :=
  outer_append bs (isBalanced_iff.1 ha)

theorem isBalanced_enclosed {o c : Char} {cs : List Char} (ho : isOpening o = true)
    (hc : isClosing c = true) (h : isBalanced cs = true) :
    isBalanced (o :: cs ++ [c]) = true := by
  rw [isBalanced_iff] at h ⊢
  rw [List.cons_append, depthAfter_opening ho, depthAfter_append _ (depthAfter_succ h),
    depthAfter_closing hc]
  rfl

/-- Between brackets a balanced text shows nothing outside. -/
theorem outer_enclosed {o c : Char} {cs : List Char} (ho : isOpening o = true)
    (hc : isClosing c = true) (h : isBalanced cs = true) : outer 0 (o :: cs ++ [c]) = [] := by
  rw [isBalanced_iff] at h
  rw [List.cons_append, outer_opening ho, outer_append _ (depthAfter_succ h), outer_succ h,
    outer_closing hc]
  rfl

theorem isBalanced_of_forall {cs : List Char} (h : ∀ c ∈ cs, isBracket c = false) :
    isBalanced cs = true := by
  rw [isBalanced_iff]
  induction cs with
  | nil => rfl
  | cons c cs ih =>
      obtain ⟨hc, hcs⟩ := List.forall_mem_cons.1 h
      rw [depthAfter_other hc, ih hcs]

theorem outer_of_forall {cs : List Char} (h : ∀ c ∈ cs, isBracket c = false) :
    outer 0 cs = cs := by
  induction cs with
  | nil => rfl
  | cons c cs ih =>
      obtain ⟨hc, hcs⟩ := List.forall_mem_cons.1 h
      rw [outer_outside hc, ih hcs]

/-- A character that stands behind a balanced text stands outside of brackets. -/
theorem mem_outer {before after : List Char} {c : Char} (h : isBalanced before = true)
    (hc : isBracket c = false) : c ∈ outer 0 (before ++ c :: after) := by
  rw [outer_balanced h, outer_outside hc]
  exact List.mem_append_right _ List.mem_cons_self

/-! ## Operands -/

theorem isBracket_of_isOperandChar {c : Char} (h : isOperandChar c = true) :
    isBracket c = false := by
  cases hb : isBracket c with
  | false => rfl
  | true =>
      simp only [isBracket, isOpening, isClosing, Bool.or_eq_true, beq_iff_eq] at hb
      rcases hb with (rfl | rfl) | rfl | rfl <;> exact absurd h (by decide)

/-- What is scanned as an operand closes all brackets and has operand characters only outside. -/
theorem depthAfter_of_scan {depth : Nat} {cs : List Char} (h : scan depth cs = true) :
    depthAfter depth cs = some 0 ∧ ∀ c ∈ outer depth cs, isOperandChar c = true := by
  induction cs generalizing depth with
  | nil => simpa [scan, depthAfter, outer] using h
  | cons c cs ih =>
      rw [scan.eq_def] at h
      dsimp only at h
      split at h
      · next ho => rw [depthAfter_opening ho, outer_opening ho]; exact ih h
      · next ho =>
          split at h
          · next hc =>
              cases depth with
              | zero => cases h
              | succ inner => rw [depthAfter_closing hc, outer_closing hc]; exact ih h
          · next hc =>
              have hother : isBracket c = false := by simp [isBracket, ho, hc]
              rw [depthAfter_other hother]
              cases depth with
              | zero =>
                  obtain ⟨hchar, hrest⟩ : isOperandChar c = true ∧ scan 0 cs = true := by
                    simpa using h
                  rw [outer_outside hother]
                  exact ⟨(ih hrest).1, List.forall_mem_cons.2 ⟨hchar, (ih hrest).2⟩⟩
              | succ inner =>
                  rw [outer_inside hother]
                  exact ih (by simpa using h)

theorem unsignedText_cases (cs : List Char) :
    unsignedText cs = cs ∨ ∃ s, isSign s = true ∧ cs = s :: unsignedText cs := by
  cases cs with
  | nil => exact .inl rfl
  | cons c cs =>
      rw [unsignedText]
      split
      · next hs => exact .inr ⟨c, hs, rfl⟩
      · exact .inl rfl

theorem scan_of_isOperand {cs : List Char} (h : isOperand cs = true) :
    unsignedText cs ≠ [] ∧ scan 0 (unsignedText cs) = true := by
  simpa [isOperand] using h

theorem isBracket_of_isSign {c : Char} (h : isSign c = true) : isBracket c = false := by
  simp only [isSign, Bool.or_eq_true, beq_iff_eq] at h
  rcases h with rfl | rfl <;> decide

/-- An operand is balanced, and shows a sign and operand characters only. -/
theorem outer_of_isOperand {cs : List Char} (h : isOperand cs = true) :
    isBalanced cs = true ∧ ∀ c ∈ outer 0 cs, isSign c = true ∨ isOperandChar c = true := by
  obtain ⟨hdepth, houter⟩ := depthAfter_of_scan (scan_of_isOperand h).2
  rcases unsignedText_cases cs with hself | ⟨s, hs, hcs⟩
  · rw [hself] at hdepth houter
    exact ⟨isBalanced_iff.2 hdepth, fun c hc => .inr (houter c hc)⟩
  · have hother := isBracket_of_isSign hs
    rw [hcs, isBalanced_iff, depthAfter_other hother, outer_outside hother]
    exact ⟨hdepth, List.forall_mem_cons.2 ⟨.inl hs, fun c hc => .inr (houter c hc)⟩⟩

/-- Behind its sign an operand begins with an operand character or a bracket. -/
theorem head_of_isOperand {cs : List Char} (h : isOperand cs = true) :
    ∃ c rest, unsignedText cs = c :: rest ∧ (isOpening c || isOperandChar c) = true := by
  obtain ⟨hne, hscan⟩ := scan_of_isOperand h
  obtain ⟨c, rest, hbody⟩ := List.exists_cons_of_ne_nil hne
  refine ⟨c, rest, hbody, ?_⟩
  rw [hbody, scan.eq_def] at hscan
  dsimp only at hscan
  split at hscan
  · next ho => simp [ho]
  · split at hscan
    · cases hscan
    · have hchar : isOperandChar c = true ∧ scan 0 rest = true := by simpa using hscan
      simp [hchar.1]

end Shaderwright.Expr
