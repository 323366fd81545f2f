/-!
# Small operations on text

Hexadecimal digits are the ASCII ones, and lower-casing touches the ASCII letters
only. `occursIn` is the substring test behind wildcard names and rejected sources,
`splitAt?` cuts at the first of a character, `join` puts a separator between
neighbours and `padRight` fills a column of a listing, counting characters.
-/

namespace Shaderwright.Text

/-- The digits of base sixteen, with letters of either case. -/
def isHexDigit (c : Char) : Bool :=
  c.isDigit || ('a' ≤ c && c ≤ 'f') || ('A' ≤ c && c ≤ 'F')

/-- Lower-cases the ASCII letters and leaves every other character alone. -/
def lower (s : String) : String :=
  String.ofList (s.toList.map Char.toLower)

/-- Whether `needle` stands somewhere in `hay` without a gap. -/
def occursIn (needle : List Char) : List Char → Bool
  | [] => needle.isEmpty
  | c :: cs => needle.isPrefixOf (c :: cs) || occursIn needle cs

/-- Whether `hay` holds `needle` as a substring. -/
def contains (hay needle : String) : Bool := occursIn needle.toList hay.toList

/-- The texts before and after the first `mark`, if there is one. -/
def splitAt? (mark : Char) : List Char → Option (List Char × List Char)
  | [] => none
  | c :: cs =>
      if c = mark then some ([], cs)
      else (splitAt? mark cs).map fun (before, after) => (c :: before, after)

/-- The texts in order with `separator` between neighbours. -/
def join (separator : String) : List String → String
  | [] => ""
  | [s] => s
  | s :: t :: rest => s ++ separator ++ join separator (t :: rest)

/-- All texts in order, nothing between. -/
def concat : List String → String
  | [] => ""
  | s :: rest => s ++ concat rest

/-- `s` with spaces after it until it is `width` characters long. -/
def padRight (width : Nat) (s : String) : String :=
  s ++ String.ofList (List.replicate (width - s.length) ' ')

/-! ## Facts -/

theorem occursIn_iff {needle hay : List Char} :
    occursIn needle hay = true ↔ needle <:+: hay := by
  induction hay with
  | nil => simp [occursIn, List.infix_nil]
  | cons c cs ih => simp [occursIn, ih, List.infix_cons_iff]

theorem splitAt?_eq_some_iff {mark : Char} {cs before after : List Char} :
    splitAt? mark cs = some (before, after) ↔ cs = before ++ mark :: after ∧ mark ∉ before := by
  induction cs generalizing before with
  | nil => simp [splitAt?]
  | cons c cs ih =>
      by_cases h : c = mark
      · subst h
        cases before with
        | nil => simp [splitAt?, eq_comm]
        | cons d ds =>
            simp only [splitAt?, if_true, Option.some.injEq, Prod.mk.injEq, List.nil_eq,
              reduceCtorEq, false_and, List.cons_append, List.cons.injEq, List.mem_cons,
              not_or, false_iff, not_and]
            rintro ⟨rfl, -⟩ h
            exact absurd rfl h
      · cases before with
        | nil => simp [splitAt?, h]
        | cons d ds =>
            simp only [splitAt?, h, if_false, Option.map_eq_some_iff, Prod.mk.injEq,
              List.cons.injEq, Prod.exists, List.cons_append, List.mem_cons, not_or]
            constructor
            · rintro ⟨b, a, hba, ⟨rfl, rfl⟩, rfl⟩
              obtain ⟨rfl, hm⟩ := ih.1 hba
              exact ⟨⟨rfl, rfl⟩, fun e => h e.symm, hm⟩
            · rintro ⟨⟨rfl, rfl⟩, -, hm⟩
              exact ⟨ds, after, ih.2 ⟨rfl, hm⟩, ⟨rfl, rfl⟩, rfl⟩

theorem splitAt?_eq_none_iff {mark : Char} {cs : List Char} :
    splitAt? mark cs = none ↔ mark ∉ cs := by
  induction cs with
  | nil => simp [splitAt?]
  | cons c cs ih =>
      by_cases h : c = mark
      · simp [splitAt?, h]
      · simp [splitAt?, h, Ne.symm h, ih]

end Shaderwright.Text
