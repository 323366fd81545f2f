import Shaderwright.Toml.Text
import Shaderwright.Toml.Value

/-!
# Numbers, dates and times

Underscores stand between digits only, a decimal number has no leading zeros, an
integer has to fit 64 bits with a sign, and a float must not overflow upward.
Dates exist in the calendar; a leap second is a second. Dates and times are kept
in one spelling: `T` between them, fractions without trailing zeros and no finer
than a billionth.
-/

namespace Shaderwright.Toml

/-- The digits that follow a first one, underscores between them left out. -/
def moreDigits (isDigit : Char → Bool) : List Char → List Char × List Char
  | [] => ([], [])
  | c :: cs =>
      if isDigit c then
        match moreDigits isDigit cs with
        | (ds, rest) => (c :: ds, rest)
      else if c = '_' then
        match cs with
        | [] => ([], ['_'])
        | d :: cs =>
            if isDigit d then
              match moreDigits isDigit cs with
              | (ds, rest) => (d :: ds, rest)
            else ([], '_' :: d :: cs)
      else ([], c :: cs)

def digits? (isDigit : Char → Bool) : Read (List Char)
  | [] => none
  | c :: cs =>
      if isDigit c then
        match moreDigits isDigit cs with
        | (ds, rest) => some (c :: ds, rest)
      else none

/-- Decimal digits without a leading zero. -/
def whole? : Read (List Char)
  | '0' :: cs => some (['0'], cs)
  | cs => digits? Char.isDigit cs

def sign? : List Char → Bool × List Char
  | '-' :: cs => (true, cs)
  | '+' :: cs => (false, cs)
  | cs => (false, cs)

def integerOf (negative : Bool) (n : Nat) : Option Value :=
  if negative then if n ≤ 0x8000000000000000 then some (.integer (-(n : Int))) else none
  else if n < 0x8000000000000000 then some (.integer n) else none

def based? (base : Nat) (isDigit : Char → Bool) : Read Value := fun cs =>
  match digits? isDigit cs with
  | none => none
  | some (ds, rest) => (integerOf false (Decimal.ofDigits base ds)).map fun v => (v, rest)

def infinity : Float := Float.ofBits 0x7FF0000000000000

def notANumber : Float := Float.ofBits 0x7FF8000000000000

def floatOf (negative : Bool) (mantissa : Nat) (exponent : Int) : Option Value :=
  let x := Decimal.nearest negative mantissa exponent
  if x == infinity then none else some (.float x)

/-- The power of ten behind an `e`. -/
def exponent? : Read Int := fun cs =>
  let (negative, cs) := sign? cs
  match digits? Char.isDigit cs with
  | none => none
  | some (ds, rest) =>
      let n := Decimal.ofDigits 10 ds
      some (if negative then -(n : Int) else n, rest)

def isExponentMark (c : Char) : Bool := c = 'e' || c = 'E'

/-- What may follow the whole part of a number. -/
def numberTail (negative : Bool) (whole : List Char) : Read Value
  | '.' :: cs =>
      match digits? Char.isDigit cs with
      | none => none
      | some (ds, rest) =>
          let mantissa := Decimal.ofDigits 10 (whole ++ ds)
          let places : Int := ds.length
          match rest with
          | [] => (floatOf negative mantissa (-places)).map fun v => (v, [])
          | c :: cs =>
              if isExponentMark c then
                match exponent? cs with
                | none => none
                | some (e, rest) => (floatOf negative mantissa (e - places)).map fun v => (v, rest)
              else (floatOf negative mantissa (-places)).map fun v => (v, c :: cs)
  | c :: cs =>
      if isExponentMark c then
        match exponent? cs with
        | none => none
        | some (e, rest) =>
            (floatOf negative (Decimal.ofDigits 10 whole) e).map fun v => (v, rest)
      else (integerOf negative (Decimal.ofDigits 10 whole)).map fun v => (v, c :: cs)
  | [] => (integerOf negative (Decimal.ofDigits 10 whole)).map fun v => (v, [])

def number? : Read Value
  | '0' :: 'x' :: cs => based? 16 Text.isHexDigit cs
  | '0' :: 'o' :: cs => based? 8 (fun c => '0' ≤ c && c ≤ '7') cs
  | '0' :: 'b' :: cs => based? 2 (fun c => c = '0' || c = '1') cs
  | cs =>
      match sign? cs with
      | (negative, 'i' :: 'n' :: 'f' :: rest) =>
          some (.float (if negative then -infinity else infinity), rest)
      | (negative, 'n' :: 'a' :: 'n' :: rest) =>
          some (.float (if negative then -notANumber else notANumber), rest)
      | (negative, cs) =>
          match whole? cs with
          | none => none
          | some (whole, rest) => numberTail negative whole rest

/-! ## Dates and times -/

/-- Exactly so many decimal digits. -/
def fixedDigits? (count : Nat) : Read Nat := fun cs =>
  let ds := cs.take count
  if ds.length = count ∧ ds.all Char.isDigit then some (Decimal.ofDigits 10 ds, cs.drop count)
  else none

def padded (width n : Nat) : String :=
  let ds := Nat.repr n
  String.ofList (List.replicate (width - ds.length) '0') ++ ds

def isLeapYear (year : Nat) : Bool :=
  year % 4 = 0 && (year % 100 ≠ 0 || year % 400 = 0)

def daysIn (year month : Nat) : Nat :=
  match month with
  | 2 => if isLeapYear year then 29 else 28
  | 4 | 6 | 9 | 11 => 30
  | _ => 31

def date? : Read String := fun cs => do
  let (year, cs) ← fixedDigits? 4 cs
  let '-' :: cs := cs | none
  let (month, cs) ← fixedDigits? 2 cs
  let '-' :: cs := cs | none
  let (day, cs) ← fixedDigits? 2 cs
  guard (1 ≤ month ∧ month ≤ 12 ∧ 1 ≤ day ∧ day ≤ daysIn year month)
  return (padded 4 year ++ "-" ++ padded 2 month ++ "-" ++ padded 2 day, cs)

/-- The fraction of a second, without trailing zeros. -/
def fraction : List Char → String × List Char
  | '.' :: cs =>
      let ds := cs.takeWhile Char.isDigit
      if ds = [] then ("", '.' :: cs)
      else
        let kept := ((ds.take 9).reverse.dropWhile (· = '0')).reverse
        (if kept = [] then "" else "." ++ String.ofList kept, cs.dropWhile Char.isDigit)
  | cs => ("", cs)

def time? : Read String := fun cs => do
  let (hour, cs) ← fixedDigits? 2 cs
  let ':' :: cs := cs | none
  let (minute, cs) ← fixedDigits? 2 cs
  let ':' :: cs := cs | none
  let (second, cs) ← fixedDigits? 2 cs
  guard (hour ≤ 23 ∧ minute ≤ 59 ∧ second ≤ 60)
  let (part, cs) := fraction cs
  return (padded 2 hour ++ ":" ++ padded 2 minute ++ ":" ++ padded 2 second ++ part, cs)

def offset? : Read String
  | 'Z' :: cs | 'z' :: cs => some ("Z", cs)
  | c :: cs => do
      guard (c = '+' ∨ c = '-')
      let (hour, cs) ← fixedDigits? 2 cs
      let ':' :: cs := cs | none
      let (minute, cs) ← fixedDigits? 2 cs
      guard (hour ≤ 23 ∧ minute ≤ 59)
      let mark := if c = '-' ∧ (hour, minute) ≠ (0, 0) then "-" else "+"
      return (mark ++ padded 2 hour ++ ":" ++ padded 2 minute, cs)
  | [] => none

/-- Whether a date or time starts here: by its digits and first mark. -/
def startsDate (cs : List Char) : Bool :=
  match fixedDigits? 4 cs with
  | some (_, '-' :: _) => true
  | _ => false

def startsTime (cs : List Char) : Bool :=
  match fixedDigits? 2 cs with
  | some (_, ':' :: _) => true
  | _ => false

/-- The time of day behind a date, and its offset. -/
def timeOfDate? (date : String) : Read Value
  | [] => some (.datetime date, [])
  | c :: cs =>
      if (c = 'T' || c = 't' || c = ' ') && startsTime cs then do
        let (time, cs) ← time? cs
        match offset? cs with
        | some (offset, cs) => return (.datetime (date ++ "T" ++ time ++ offset), cs)
        | none => return (.datetime (date ++ "T" ++ time), cs)
      else some (.datetime date, c :: cs)

/-- A number, date or time. -/
def scalar? : Read Value := fun cs =>
  if startsDate cs then do
    let (date, cs) ← date? cs
    timeOfDate? date cs
  else if startsTime cs then
    (time? cs).map fun (time, cs) => (.datetime time, cs)
  else
    number? cs

end Shaderwright.Toml
