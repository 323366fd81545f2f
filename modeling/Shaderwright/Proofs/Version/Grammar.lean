import Mathlib.Data.List.Induction
import Shaderwright.Proofs.Text.Trimming
import Shaderwright.Version

/-!
# The texts of versions

A text is read as a version exactly when, blanks around it aside, it is two numerals in range
with a point between them, each with at most one `+` before it (`parse_eq_ok_iff`). The grammar
is that of the text alone: a numeral is built digit by digit, and its value with it.
-/

namespace Shaderwright.Version

/-! ## Numerals -/

/-- Decimal digits, any zeros in front of them included, and the number they stand for. -/
inductive Numeral : List Char → Nat → Prop
  | digit {d : Nat} (hd : d < 10) : Numeral [Nat.digitChar d] d
  | snoc {cs : List Char} {n d : Nat} (h : Numeral cs n) (hd : d < 10) :
      Numeral (cs ++ [Nat.digitChar d]) (10 * n + d)

theorem digitsValue_snoc (cs : List Char) (c : Char) :
    digitsValue (cs ++ [c]) = digitsValue cs * 10 + (c.toNat - '0'.toNat) := by
  simp [digitsValue, List.foldl_append]

theorem toNat_digitChar {d : Nat} (hd : d < 10) : (Nat.digitChar d).toNat - '0'.toNat = d :=
  Nat.toNat_digitChar_sub_48_of_lt_ten hd

theorem exists_digitChar {c : Char} (h : c.isDigit = true) : ∃ d < 10, c = Nat.digitChar d := by
  have hrange : 48 ≤ c.toNat ∧ c.toNat ≤ 57 := by
    simpa [Char.isDigit, UInt32.le_iff_toNat_le] using h
  refine ⟨c.toNat - 48, by omega, Char.toNat_inj.1 ?_⟩
  rw [Nat.toNat_digitChar_of_lt_ten (by omega)]
  omega

theorem Numeral.spec {cs : List Char} {n : Nat} (h : Numeral cs n) :
    cs ≠ [] ∧ cs.all Char.isDigit = true ∧ digitsValue cs = n := by
  induction h with
  | @digit d hd =>
      refine ⟨List.cons_ne_nil _ _, by simp [Nat.isDigit_digitChar, hd], ?_⟩
      show 0 * 10 + ((Nat.digitChar d).toNat - '0'.toNat) = d
      rw [Nat.zero_mul, Nat.zero_add, toNat_digitChar hd]
  | snoc _ hd ih =>
      refine ⟨by simp, by simp [ih.2.1, Nat.isDigit_digitChar, hd], ?_⟩
      rw [digitsValue_snoc, ih.2.2, toNat_digitChar hd, Nat.mul_comm]

theorem numeral_digitsValue {cs : List Char} (hne : cs ≠ []) (hall : cs.all Char.isDigit = true) :
    Numeral cs (digitsValue cs) := by
  induction cs using List.reverseRecOn with
  | nil => exact absurd rfl hne
  | append_singleton cs c ih =>
      rw [List.all_append, Bool.and_eq_true] at hall
      obtain ⟨d, hd, rfl⟩ := exists_digitChar (by simpa using hall.2)
      rw [digitsValue_snoc, toNat_digitChar hd, Nat.mul_comm]
      by_cases hcs : cs = []
      · subst hcs
        simpa [digitsValue] using Numeral.digit hd
      · exact Numeral.snoc (ih hcs hall.1) hd

/-- A numeral is made of digits alone and stands for one number. -/
theorem numeral_iff {cs : List Char} {n : Nat} :
    Numeral cs n ↔ cs ≠ [] ∧ cs.all Char.isDigit = true ∧ digitsValue cs = n := by
  constructor
  · exact Numeral.spec
  · rintro ⟨hne, hall, rfl⟩
    exact numeral_digitsValue hne hall

theorem numeral_repr (n : Nat) : Numeral (Nat.repr n).toList n := by
  rw [Nat.toList_repr]
  induction n using Nat.strongRecOn with
  | ind n ih =>
      by_cases hn : n < 10
      · rw [Nat.toDigits_of_lt_base hn]
        exact Numeral.digit hn
      · have hnext := Numeral.snoc (ih (n / 10) (by omega)) (Nat.mod_lt n (by decide : 0 < 10))
        rwa [← Nat.toDigits_of_base_le (by decide) (by omega), Nat.div_add_mod] at hnext

/-- A numeral with at most one `+` before it. -/
def Counts (cs : List Char) (n : Nat) : Prop :=
  Numeral cs n ∨ ∃ ds, cs = '+' :: ds ∧ Numeral ds n

theorem unsigned?_eq_some_iff {cs : List Char} {b : UInt8} :
    unsigned? cs = some b ↔ Numeral cs b.toNat := by
  rw [numeral_iff, unsigned?]
  constructor
  · intro h
    split at h
    · next hdigits =>
        obtain ⟨hne, hall, hlt⟩ := hdigits
        obtain rfl := Option.some.inj h
        exact ⟨hne, hall, (UInt8.toNat_ofNat_of_lt' hlt).symm⟩
    · cases h
  · rintro ⟨hne, hall, hvalue⟩
    rw [if_pos ⟨hne, hall, hvalue ▸ b.toNat_lt⟩, hvalue, UInt8.ofNat_toNat]

theorem byte?_eq_some_iff {cs : List Char} {b : UInt8} :
    byte? cs = some b ↔ Counts cs b.toNat := by
  unfold byte? Counts
  split
  · next ds =>
      rw [unsigned?_eq_some_iff]
      constructor
      · intro h
        exact .inr ⟨ds, rfl, h⟩
      · rintro (h | ⟨ds', heq, h⟩)
        · -- A plus sign is no digit.
          exact absurd h.spec.2.1 (by simp)
        · obtain ⟨-, rfl⟩ := List.cons.inj heq
          exact h
  · next hsign =>
      rw [unsigned?_eq_some_iff]
      constructor
      · exact .inl
      · rintro (h | ⟨ds, rfl, -⟩)
        · exact h
        · exact absurd rfl (hsign ds)

theorem Counts.unique {cs : List Char} {m n : Nat} (hm : Counts cs m) (hn : Counts cs n) :
    m = n := by
  have hplus : ∀ {ds : List Char} {k : Nat}, ¬ Numeral ('+' :: ds) k := fun h =>
    absurd h.spec.2.1 (by simp)
  rcases hm with hm | ⟨ds, rfl, hm⟩ <;> rcases hn with hn | ⟨ds', heq, hn⟩
  · exact hm.spec.2.2.symm.trans hn.spec.2.2
  · exact absurd (heq ▸ hm) hplus
  · exact absurd hn hplus
  · obtain ⟨-, rfl⟩ := List.cons.inj heq
    exact hm.spec.2.2.symm.trans hn.spec.2.2

theorem Counts.point_not_mem {cs : List Char} {n : Nat} (h : Counts cs n) : '.' ∉ cs := by
  have hdigits : ∀ {ds : List Char} {k : Nat}, Numeral ds k → '.' ∉ ds := fun h hmem =>
    absurd (List.all_eq_true.1 h.spec.2.1 '.' hmem) (by decide)
  rcases h with h | ⟨ds, rfl, h⟩
  · exact hdigits h
  · simpa using hdigits h

/-! ## Versions -/

/-- Blanks around it aside, the text is the two numbers with a point between them, both in
range. -/
structure Spells (t : String) (major minor : Nat) : Prop where
  form : ∃ before after, Text.IsCore (before ++ '.' :: after) t.toList ∧
    Counts before major ∧ Counts after minor
  one_le_major : 1 ≤ major
  major_le : major ≤ 255
  minor_le : minor ≤ 9

theorem read?_eq_some_iff {cs : List Char} {v : Version} :
    read? cs = some v ↔
      (∃ before after, cs = before ++ '.' :: after ∧
        Counts before v.major.toNat ∧ Counts after v.minor.toNat) ∧
      1 ≤ v.major.toNat ∧ v.minor.toNat ≤ 9 := by
  have hzero : ∀ b : UInt8, b ≠ 0 ↔ 1 ≤ b.toNat := fun b => by
    rw [ne_eq, ← UInt8.toNat_inj]
    exact Nat.pos_iff_ne_zero.symm
  have hnine : ∀ b : UInt8, b ≤ 9 ↔ b.toNat ≤ 9 := fun b => UInt8.le_iff_toNat_le
  constructor
  · intro h
    unfold read? at h
    split at h
    · cases h
    · next before after hsplit =>
        split at h
        · next major minor hmajor hminor =>
            split at h
            · next hrange =>
                obtain rfl := Option.some.inj h
                exact ⟨⟨before, after, (Text.splitAt?_eq_some_iff.1 hsplit).1,
                  byte?_eq_some_iff.1 hmajor, byte?_eq_some_iff.1 hminor⟩,
                  (hzero major).1 hrange.1, (hnine minor).1 hrange.2⟩
            · cases h
        · cases h
  · rintro ⟨⟨before, after, rfl, hmajor, hminor⟩, hpos, hle⟩
    -- A number holds no point, so that the text is cut at this one.
    have hsplit : Text.splitAt? '.' (before ++ '.' :: after) = some (before, after) :=
      Text.splitAt?_eq_some_iff.2 ⟨rfl, hmajor.point_not_mem⟩
    simp only [read?, hsplit, byte?_eq_some_iff.2 hmajor, byte?_eq_some_iff.2 hminor]
    exact if_pos ⟨(hzero _).2 hpos, (hnine _).2 hle⟩

theorem parse_eq_ok_iff {t : String} {v : Version} :
    parse t = .ok v ↔ Spells t v.major.toNat v.minor.toNat := by
  have hread : parse t = .ok v ↔ read? (Text.trim t).toList = some v := by
    unfold parse
    cases read? (Text.trim t).toList <;> simp
  rw [hread, read?_eq_some_iff]
  constructor
  · rintro ⟨⟨before, after, htext, hmajor, hminor⟩, hpos, hle⟩
    have hlt := v.major.toNat_lt
    exact ⟨⟨before, after, Text.toList_trim_eq_iff.1 htext, hmajor, hminor⟩, hpos, by omega, hle⟩
  · rintro ⟨⟨before, after, hcore, hmajor, hminor⟩, hpos, -, hle⟩
    exact ⟨⟨before, after, hcore.eq_trim, hmajor, hminor⟩, hpos, hle⟩

/-- The numbers of a text that spells a version fit the version. -/
theorem Spells.exists_parse {t : String} {major minor : Nat} (h : Spells t major minor) :
    ∃ v, parse t = .ok v ∧ v.major.toNat = major ∧ v.minor.toNat = minor := by
  have hmajor : (UInt8.ofNat major).toNat = major :=
    UInt8.toNat_ofNat_of_lt' (Nat.lt_succ_of_le h.major_le)
  have hminor : (UInt8.ofNat minor).toNat = minor :=
    UInt8.toNat_ofNat_of_lt' (Nat.lt_of_le_of_lt h.minor_le (by decide))
  refine ⟨⟨UInt8.ofNat major, UInt8.ofNat minor⟩, ?_, hmajor, hminor⟩
  rwa [parse_eq_ok_iff, hmajor, hminor]

theorem parse_eq_error_iff {t : String} {e : Invalid} :
    parse t = .error e ↔ e = ⟨t⟩ ∧ ∀ major minor, ¬ Spells t major minor := by
  cases hparse : parse t with
  | ok v =>
      constructor
      · intro h
        cases h
      · rintro ⟨-, hnone⟩
        exact absurd (parse_eq_ok_iff.1 hparse) (hnone _ _)
  | error e' =>
      have htext : e' = ⟨t⟩ := by
        unfold parse at hparse
        cases hread : read? (Text.trim t).toList <;> simp [hread] at hparse
        exact hparse.symm
      have hnone : ∀ major minor, ¬ Spells t major minor := by
        intro major minor h
        obtain ⟨v, hv, -⟩ := h.exists_parse
        rw [hparse] at hv
        cases hv
      rw [Except.error.injEq, htext]
      constructor
      · rintro rfl
        exact ⟨rfl, hnone⟩
      · rintro ⟨rfl, -⟩
        rfl

/-! ## Written versions -/

theorem not_isBlank_of_numeral {cs : List Char} {n : Nat} (h : Numeral cs n) :
    ∀ c ∈ cs, Text.isBlank c = false := by
  have hdigit : ∀ d < 10, Text.isBlank (Nat.digitChar d) = false := by decide
  intro c hc
  obtain ⟨d, hd, rfl⟩ := exists_digitChar (List.all_eq_true.1 h.spec.2.1 c hc)
  exact hdigit d hd

/-- Two numbers in decimal with a point between them are read as these two. -/
theorem spells_repr_iff {a b major minor : Nat} :
    Spells (Nat.repr a ++ "." ++ Nat.repr b) major minor ↔
      major = a ∧ minor = b ∧ 1 ≤ a ∧ a ≤ 255 ∧ b ≤ 9 := by
  have htext : (Nat.repr a ++ "." ++ Nat.repr b).toList
      = (Nat.repr a).toList ++ '.' :: (Nat.repr b).toList := by simp
  have hsolid : ∀ c ∈ (Nat.repr a).toList ++ '.' :: (Nat.repr b).toList,
      Text.isBlank c = false := by
    intro c hc
    rcases List.mem_append.1 hc with hc | hc
    · exact not_isBlank_of_numeral (numeral_repr a) c hc
    · rcases List.mem_cons.1 hc with rfl | hc
      · decide
      · exact not_isBlank_of_numeral (numeral_repr b) c hc
  have hcore := Text.isCore_of_forall hsolid
  rw [← htext] at hcore
  constructor
  · rintro ⟨⟨before, after, hcore', hmajor, hminor⟩, hpos, hle, hle'⟩
    have hsame : before ++ '.' :: after = (Nat.repr a).toList ++ '.' :: (Nat.repr b).toList := by
      rw [← hcore'.eq_trim, hcore.eq_trim, htext]
    have hcut := Text.splitAt?_eq_some_iff.2 ⟨hsame.symm, hmajor.point_not_mem⟩
    have hcut' : Text.splitAt? '.' ((Nat.repr a).toList ++ '.' :: (Nat.repr b).toList)
        = some ((Nat.repr a).toList, (Nat.repr b).toList) :=
      Text.splitAt?_eq_some_iff.2 ⟨rfl, Counts.point_not_mem (.inl (numeral_repr a))⟩
    obtain ⟨rfl, rfl⟩ := Prod.mk.inj (Option.some.inj (hcut.symm.trans hcut'))
    obtain rfl := hmajor.unique (.inl (numeral_repr a))
    obtain rfl := hminor.unique (.inl (numeral_repr b))
    exact ⟨rfl, rfl, hpos, hle, hle'⟩
  · rintro ⟨rfl, rfl, hpos, hle, hle'⟩
    refine ⟨⟨(Nat.repr major).toList, (Nat.repr minor).toList, ?_, .inl (numeral_repr major),
      .inl (numeral_repr minor)⟩, hpos, hle, hle'⟩
    rwa [← htext]

/-- **A version is read back from its text** if it can be read at all. -/
theorem parse_text {t : String} {v : Version} (h : parse t = .ok v) : parse v.text = .ok v := by
  obtain ⟨-, hpos, hle, hle'⟩ := parse_eq_ok_iff.1 h
  exact parse_eq_ok_iff.2 (spells_repr_iff.2 ⟨rfl, rfl, hpos, hle, hle'⟩)

theorem eq_of_number_eq {v w : Version} (hv : v.minor.toNat ≤ 9) (hw : w.minor.toNat ≤ 9)
    (h : v.number = w.number) : v = w := by
  unfold number at h
  obtain ⟨major, minor⟩ := v
  obtain ⟨major', minor'⟩ := w
  have hmajor : major = major' := UInt8.toNat_inj.1 (by simp only at h hv hw; omega)
  have hminor : minor = minor' := UInt8.toNat_inj.1 (by simp only at h hv hw; omega)
  rw [hmajor, hminor]

/-- **The texts of versions.** A text is read as a version exactly when it spells one, and is
given back with the fault otherwise. The text of a version that was read is read as the same
version, and versions that were read have one header number only if they are the same. -/
theorem parse_iff_spells (t : String) :
    (∀ v, parse t = .ok v ↔ Spells t v.major.toNat v.minor.toNat) ∧
    ((∃ v, parse t = .ok v) ↔ ∃ major minor, Spells t major minor) ∧
    (∀ e, parse t = .error e ↔ e = ⟨t⟩ ∧ ∀ major minor, ¬ Spells t major minor) ∧
    (∀ v, parse t = .ok v → parse v.text = .ok v) ∧
    ∀ u v w, parse t = .ok v → parse u = .ok w → v.number = w.number → v = w := by
  refine ⟨fun v => parse_eq_ok_iff, ⟨?_, ?_⟩, fun e => parse_eq_error_iff,
    fun v => parse_text, ?_⟩
  · rintro ⟨v, hv⟩
    exact ⟨_, _, parse_eq_ok_iff.1 hv⟩
  · rintro ⟨major, minor, h⟩
    obtain ⟨v, hv, -⟩ := h.exists_parse
    exact ⟨v, hv⟩
  · intro u v w hv hw hnumber
    exact eq_of_number_eq (parse_eq_ok_iff.1 hv).minor_le (parse_eq_ok_iff.1 hw).minor_le hnumber

/-- Blanks, a sign and zeros do not show in the version, nor in its header number. -/
theorem parse_iff_spells_padded :
    Spells "\t+04.01\u00a0" 4 1 ∧ parse (text ⟨4, 1⟩) = .ok ⟨4, 1⟩ ∧
      ∀ w, parse "4.1" = .ok w → w.number = 410 → w = ⟨4, 1⟩ := by
  have hparse : parse "\t+04.01\u00a0" = .ok ⟨4, 1⟩ := by rfl
  obtain ⟨hspells, -, -, htext, hnumber⟩ := parse_iff_spells "\t+04.01\u00a0"
  refine ⟨(hspells ⟨4, 1⟩).1 hparse, htext _ hparse, fun w hw h => ?_⟩
  exact (hnumber "4.1" ⟨4, 1⟩ w hparse hw h.symm).symm

end Shaderwright.Version
