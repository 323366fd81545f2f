import Shaderwright.Proofs.Expr.Brackets

/-!
# The language of operands

A text is one operand if it is a sequence of operand characters and bracket groups, with at most
one sign before it. The scan that tells operands apart keeps the depth alone, and takes no notice
of what it passes inside of brackets; the grammar says where a group ends and what may stand in it.

The two agree on every text (`isOperand_iff_items`). A group leaves the depth of the scan as it was
(`IsGroup.scan_append`), and the scan leaves a bracket only behind the filling of a group
(`exists_filling_of_scan`), so that it can be read off where each group ends.
-/

namespace Shaderwright.Expr

/-! ## The grammar -/

mutual

/-- A bracket, a filling, and a bracket. -/
inductive IsGroup : List Char → Prop where
  | enclosed {o c : Char} {filling : List Char} : o = '(' ∨ o = '[' → IsFilling filling →
      c = ')' ∨ c = ']' → IsGroup (o :: (filling ++ [c]))

/-- Characters that are no brackets, and groups, in any order. -/
inductive IsFilling : List Char → Prop where
  | nil : IsFilling []
  | char {c : Char} {cs : List Char} : c ∉ ['(', '[', ')', ']'] → IsFilling cs →
      IsFilling (c :: cs)
  | group {g cs : List Char} : IsGroup g → IsFilling cs → IsFilling (g ++ cs)

end

/-- What operands are sequences of: an ASCII letter or digit, an underscore, a point, or a
group. -/
inductive IsItem : List Char → Prop where
  | char {c : Char} : c.isAlphanum = true ∨ c = '_' ∨ c = '.' → IsItem [c]
  | group {g : List Char} : IsGroup g → IsItem g

/-! ## Characters -/

theorem isOpening_iff {c : Char} : isOpening c = true ↔ c = '(' ∨ c = '[' := by
  simp [isOpening]

theorem isClosing_iff {c : Char} : isClosing c = true ↔ c = ')' ∨ c = ']' := by
  simp [isClosing]

theorem isBracket_eq_false_iff {c : Char} : isBracket c = false ↔ c ∉ ['(', '[', ')', ']'] := by
  simp [isBracket, isOpening, isClosing, and_assoc]

theorem isOperandChar_iff {c : Char} :
    isOperandChar c = true ↔ c.isAlphanum = true ∨ c = '_' ∨ c = '.' := by
  simp [isOperandChar, or_assoc]

theorem bracket_cases (c : Char) :
    isOpening c = true ∨ isClosing c = true ∨ isBracket c = false := by
  unfold isBracket
  cases isOpening c <;> cases isClosing c <;> simp

/-! ## One step of the scan -/

theorem scan_opening {c : Char} (h : isOpening c = true) (depth : Nat) (cs : List Char) :
    scan depth (c :: cs) = scan (depth + 1) cs := by
  rw [scan.eq_def]
  exact if_pos h

theorem scan_closing {c : Char} (h : isClosing c = true) (depth : Nat) (cs : List Char) :
    scan (depth + 1) (c :: cs) = scan depth cs := by
  rw [scan, if_neg (by simp [not_isOpening_of_isClosing h]), if_pos h]

theorem scan_closing_outside {c : Char} (h : isClosing c = true) (cs : List Char) :
    scan 0 (c :: cs) = false := by
  rw [scan, if_neg (by simp [not_isOpening_of_isClosing h]), if_pos h]

theorem scan_inside {c : Char} (h : isBracket c = false) (depth : Nat) (cs : List Char) :
    scan (depth + 1) (c :: cs) = scan (depth + 1) cs := by
  obtain ⟨ho, hc⟩ := Bool.or_eq_false_iff.1 h
  rw [scan, if_neg (by simp [ho]), if_neg (by simp [hc]), if_pos (Nat.succ_pos depth)]

theorem scan_outside {c : Char} (h : isBracket c = false) (cs : List Char) :
    scan 0 (c :: cs) = (isOperandChar c && scan 0 cs) := by
  obtain ⟨ho, hc⟩ := Bool.or_eq_false_iff.1 h
  rw [scan, if_neg (by simp [ho]), if_neg (by simp [hc]), if_neg (Nat.lt_irrefl 0)]

/-! ## What the grammar derives is passed -/

mutual

/-- A group is passed at any depth, and leaves the depth as it was. -/
theorem IsGroup.scan_append {g : List Char} : IsGroup g → ∀ (depth : Nat) (rest : List Char),
    scan depth (g ++ rest) = scan depth rest
  | .enclosed ho hfilling hc, depth, rest => by
      rw [List.cons_append, List.append_assoc, scan_opening (isOpening_iff.2 ho),
        hfilling.scan_append]
      exact scan_closing (isClosing_iff.2 hc) depth rest

theorem IsFilling.scan_append {cs : List Char} : IsFilling cs → ∀ (depth : Nat)
    (rest : List Char), scan (depth + 1) (cs ++ rest) = scan (depth + 1) rest
  | .nil, _, _ => rfl
  | .char hc hcs, depth, rest => by
      rw [List.cons_append, scan_inside (isBracket_eq_false_iff.2 hc)]
      exact hcs.scan_append depth rest
  | .group hg hcs, depth, rest => by
      rw [List.append_assoc, hg.scan_append]
      exact hcs.scan_append depth rest

end

theorem IsItem.scan_append {i : List Char} (h : IsItem i) (rest : List Char) :
    scan 0 (i ++ rest) = scan 0 rest := by
  cases h with
  | char hc =>
      have hchar := isOperandChar_iff.2 hc
      rw [List.singleton_append, scan_outside (isBracket_of_isOperandChar hchar), hchar,
        Bool.true_and]
  | group hg => exact hg.scan_append 0 rest

theorem scan_flatten {items : List (List Char)} (h : ∀ i ∈ items, IsItem i) :
    scan 0 items.flatten = true := by
  induction items with
  | nil => rfl
  | cons i is ih =>
      obtain ⟨hi, his⟩ := List.forall_mem_cons.1 h
      rw [List.flatten_cons, hi.scan_append, ih his]

/-! ## What is passed is derived by the grammar -/

/-- From inside of a bracket the scan goes on to the end of a filling, and comes out behind the
bracket that closes it. -/
theorem exists_filling_of_scan {depth : Nat} {cs : List Char} (h : scan (depth + 1) cs = true) :
    ∃ filling c rest, cs = filling ++ c :: rest ∧ IsFilling filling ∧ (c = ')' ∨ c = ']') ∧
      scan depth rest = true := by
  -- By the length, since the text behind a group is none of the tails met on the way.
  induction hlength : cs.length using Nat.strongRecOn generalizing depth cs with
  | ind length ih =>
      subst hlength
      cases cs with
      | nil => cases h
      | cons a cs =>
          rcases bracket_cases a with ho | hc | hother
          · rw [scan_opening ho] at h
            obtain ⟨inner, c, rest, rfl, hinner, hc, hrest⟩ := ih cs.length (by simp) h rfl
            obtain ⟨filling, c', rest', rfl, hfilling, hc', hrest'⟩ :=
              ih rest.length (by simp; omega) hrest rfl
            have hgroup : IsGroup (a :: (inner ++ [c])) :=
              .enclosed (isOpening_iff.1 ho) hinner hc
            exact ⟨_, c', rest', by simp, .group hgroup hfilling, hc', hrest'⟩
          · rw [scan_closing hc] at h
            exact ⟨[], a, cs, rfl, .nil, isClosing_iff.1 hc, h⟩
          · rw [scan_inside hother] at h
            obtain ⟨filling, c, rest, rfl, hfilling, hc, hrest⟩ := ih cs.length (by simp) h rfl
            exact ⟨a :: filling, c, rest, rfl, .char (isBracket_eq_false_iff.1 hother) hfilling,
              hc, hrest⟩

theorem exists_items_of_scan {cs : List Char} (h : scan 0 cs = true) :
    ∃ items : List (List Char), (∀ i ∈ items, IsItem i) ∧ items.flatten = cs := by
  induction hlength : cs.length using Nat.strongRecOn generalizing cs with
  | ind length ih =>
      subst hlength
      cases cs with
      | nil => exact ⟨[], by simp, rfl⟩
      | cons a cs =>
          rcases bracket_cases a with ho | hc | hother
          · rw [scan_opening ho] at h
            obtain ⟨filling, c, rest, rfl, hfilling, hc, hrest⟩ := exists_filling_of_scan h
            obtain ⟨items, hitems, rfl⟩ := ih rest.length (by simp; omega) hrest rfl
            have hgroup : IsGroup (a :: (filling ++ [c])) :=
              .enclosed (isOpening_iff.1 ho) hfilling hc
            exact ⟨_ :: items, List.forall_mem_cons.2 ⟨.group hgroup, hitems⟩, by simp⟩
          · rw [scan_closing_outside hc] at h
            cases h
          · rw [scan_outside hother] at h
            obtain ⟨hchar, hrest⟩ := Bool.and_eq_true_iff.1 h
            obtain ⟨items, hitems, rfl⟩ := ih cs.length (by simp) hrest rfl
            exact ⟨[a] :: items,
              List.forall_mem_cons.2 ⟨.char (isOperandChar_iff.1 hchar), hitems⟩, rfl⟩

/-! ## Signs -/

theorem isSign_iff {c : Char} : isSign c = true ↔ c = '-' ∨ c = '!' := by
  simp [isSign]

/-- An item begins with a character, and with no sign. -/
theorem IsItem.head {i : List Char} (h : IsItem i) : ∃ c cs, i = c :: cs ∧ isSign c = false := by
  cases h with
  | @char c hc =>
      refine ⟨c, [], rfl, ?_⟩
      cases hs : isSign c with
      | false => rfl
      | true =>
          rcases isSign_iff.1 hs with rfl | rfl
          · exact absurd hc (by decide)
          · exact absurd hc (by decide)
  | group hg =>
      cases hg with
      | @enclosed o c filling ho _ _ =>
          refine ⟨o, filling ++ [c], rfl, ?_⟩
          rcases ho with rfl | rfl
          · rfl
          · rfl

theorem flatten_eq_cons {items : List (List Char)} (hne : items ≠ [])
    (h : ∀ i ∈ items, IsItem i) : ∃ c cs, items.flatten = c :: cs ∧ isSign c = false := by
  obtain ⟨i, is, rfl⟩ := List.exists_cons_of_ne_nil hne
  obtain ⟨c, cs, rfl, hs⟩ := (h i List.mem_cons_self).head
  exact ⟨c, cs ++ is.flatten, rfl, hs⟩

/-- **The language of operands.** A text reads as one operand if and only if it is a sequence of
items, at least one, with at most one sign before it. -/
theorem isOperand_iff_items (t : String) :
    isOperand t.toList = true ↔
      ∃ (sign : List Char) (items : List (List Char)),
        (sign = [] ∨ sign = ['-'] ∨ sign = ['!']) ∧ items ≠ [] ∧ (∀ i ∈ items, IsItem i) ∧
          t.toList = sign ++ items.flatten := by
  constructor
  · intro h
    obtain ⟨hne, hscan⟩ := scan_of_isOperand h
    obtain ⟨items, hitems, hflatten⟩ := exists_items_of_scan hscan
    have hsome : items ≠ [] := by
      rintro rfl
      exact hne hflatten.symm
    rcases unsignedText_cases t.toList with hself | ⟨s, hs, ht⟩
    · exact ⟨[], items, .inl rfl, hsome, hitems, by rw [hflatten, hself]; rfl⟩
    · refine ⟨[s], items, .inr ?_, hsome, hitems, by rw [hflatten]; exact ht⟩
      rcases isSign_iff.1 hs with rfl | rfl
      · exact .inl rfl
      · exact .inr rfl
  · rintro ⟨sign, items, hsign, hsome, hitems, ht⟩
    obtain ⟨c, cs, hflatten, hc⟩ := flatten_eq_cons hsome hitems
    have hbody : unsignedText t.toList = items.flatten := by
      rw [ht]
      rcases hsign with rfl | rfl | rfl
      · rw [List.nil_append, hflatten, unsignedText, if_neg (by simp [hc])]
      · rfl
      · rfl
    show (!(unsignedText t.toList).isEmpty && scan 0 (unsignedText t.toList)) = true
    rw [hbody, scan_flatten hitems, hflatten]
    rfl

/-- Only the depth counts: a square bracket closes a round one as well. -/
example : isOperand "-f(a + b].x".toList = true := by decide

end Shaderwright.Expr
