import Shaderwright.Decimal.Reader
import Shaderwright.Text.Words

/-!
# The characters of TOML

White space, comments, line ends and the four kinds of strings. A reader takes a
text apart into what it read and the rest, or finds that it does not begin with
what it reads. Tabs are the only control characters that may stand unescaped, and
a carriage return counts only before a line feed, with which it is read as one.
-/

namespace Shaderwright.Toml

/-- What reads a text from its start. -/
abbrev Read (α : Type) := List Char → Option (α × List Char)

def isSpace (c : Char) : Bool := c = ' ' || c = '\t'

/-- Characters that may stand in comments and, with their quotes and escapes set
apart, in strings. -/
def isShown (c : Char) : Bool := c = '\t' || (0x20 ≤ c.toNat && c.toNat ≠ 0x7F)

def skipSpaces (cs : List Char) : List Char := cs.dropWhile isSpace

/-- The rest behind a line feed. -/
def lineFeed? : List Char → Option (List Char)
  | '\n' :: cs => some cs
  | '\r' :: '\n' :: cs => some cs
  | _ => none

def skipComment : List Char → List Char
  | '#' :: cs => cs.dropWhile isShown
  | cs => cs

/-- The rest behind the spaces, the comment and the line feed that end a line; the
end of the text ends a line, too. -/
def lineEnd? (cs : List Char) : Option (List Char) :=
  match skipComment (skipSpaces cs) with
  | [] => some []
  | cs => lineFeed? cs

/-- The rest behind spaces, comments and line feeds. -/
def skipLayout (inComment : Bool) : List Char → List Char
  | [] => []
  | '\r' :: '\n' :: cs => skipLayout false cs
  | '\n' :: cs => skipLayout false cs
  | c :: cs =>
      if inComment then if isShown c then skipLayout true cs else c :: cs
      else if isSpace c then skipLayout false cs
      else if c = '#' then skipLayout true cs
      else c :: cs

/-! ## Strings -/

def simpleEscape? : Char → Option Char
  | 'b' => some '\x08'
  | 't' => some '\t'
  | 'n' => some '\n'
  | 'f' => some '\x0c'
  | 'r' => some '\r'
  | '"' => some '"'
  | '\\' => some '\\'
  | _ => none

/-- The character with the code in hexadecimal digits; surrogates are none. -/
def coded? (ds : List Char) : Option Char :=
  if ds.all Text.isHexDigit then
    let n := Decimal.ofDigits 16 ds
    if n.isValidChar then some (Char.ofNat n) else none
  else none

/-- Puts a character before what a reader reads. -/
def prepend (c : Char) (r : Option (List Char × List Char)) : Option (List Char × List Char) :=
  r.map fun (text, rest) => (c :: text, rest)

/-- A basic string on one line, from behind its opening quote. -/
def basicTail : Read (List Char)
  | [] => none
  | '"' :: cs => some ([], cs)
  | '\\' :: 'u' :: a :: b :: c :: d :: cs =>
      match coded? [a, b, c, d] with
      | some x => prepend x (basicTail cs)
      | none => none
  | '\\' :: 'U' :: a :: b :: c :: d :: e :: f :: g :: h :: cs =>
      match coded? [a, b, c, d, e, f, g, h] with
      | some x => prepend x (basicTail cs)
      | none => none
  | '\\' :: c :: cs =>
      match simpleEscape? c with
      | some x => prepend x (basicTail cs)
      | none => none
  | c :: cs => if c ≠ '\\' && isShown c then prepend c (basicTail cs) else none

/-- A literal string on one line, from behind its opening quote. -/
def literalTail : Read (List Char)
  | [] => none
  | c :: cs =>
      if c = '\x27' then some ([], cs)
      else if isShown c then prepend c (literalTail cs)
      else none

/-- The quotes that close a string of several lines, up to two of which belong to
the string. -/
def closing (quote : Char) (cs : List Char) : List Char × List Char :=
  let own := ((cs.takeWhile (· = quote)).length).min 2
  (List.replicate own quote, cs.drop own)

/-- Whether a line ends here but for spaces. -/
def atLineEnd (cs : List Char) : Bool := (lineFeed? (skipSpaces cs)).isSome

/-- A basic string of several lines, from behind its opening quotes. In a gap,
which a backslash at the end of a line opens, spaces and line feeds are left
out. -/
def longBasicTail (gap : Bool) : Read (List Char)
  | [] => none
  | '"' :: '"' :: '"' :: cs => some (closing '"' cs)
  | '\r' :: '\n' :: cs =>
      if gap then longBasicTail true cs else prepend '\n' (longBasicTail false cs)
  | '\\' :: 'u' :: a :: b :: c :: d :: cs =>
      match coded? [a, b, c, d] with
      | some x => prepend x (longBasicTail false cs)
      | none => none
  | '\\' :: 'U' :: a :: b :: c :: d :: e :: f :: g :: h :: cs =>
      match coded? [a, b, c, d, e, f, g, h] with
      | some x => prepend x (longBasicTail false cs)
      | none => none
  | '\\' :: c :: cs =>
      if atLineEnd (c :: cs) then longBasicTail true (c :: cs)
      else
        match simpleEscape? c with
        | some x => prepend x (longBasicTail false cs)
        | none => none
  | c :: cs =>
      if gap && (isSpace c || c = '\n') then longBasicTail true cs
      else if c ≠ '\\' && (isShown c || c = '\n') then prepend c (longBasicTail false cs)
      else none

/-- A literal string of several lines, from behind its opening quotes. -/
def longLiteralTail : Read (List Char)
  | [] => none
  | '\r' :: '\n' :: cs => prepend '\n' (longLiteralTail cs)
  | '\x27' :: '\x27' :: '\x27' :: cs => some (closing '\x27' cs)
  | c :: cs =>
      if isShown c || c = '\n' then prepend c (longLiteralTail cs) else none

/-- A line feed right behind the opening quotes is not part of the string. -/
def skipLineFeed (cs : List Char) : List Char := (lineFeed? cs).getD cs

/-- A string on one line, of either kind. -/
def shortString? : Read String
  | '"' :: cs => (basicTail cs).map fun (s, rest) => (String.ofList s, rest)
  | '\x27' :: cs => (literalTail cs).map fun (s, rest) => (String.ofList s, rest)
  | _ => none

/-- A string of any kind. -/
def string? : Read String
  | '"' :: '"' :: '"' :: cs =>
      (longBasicTail false (skipLineFeed cs)).map fun (s, rest) => (String.ofList s, rest)
  | '\x27' :: '\x27' :: '\x27' :: cs =>
      (longLiteralTail (skipLineFeed cs)).map fun (s, rest) => (String.ofList s, rest)
  | cs => shortString? cs

end Shaderwright.Toml
