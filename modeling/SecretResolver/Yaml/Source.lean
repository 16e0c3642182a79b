/-
**The characters of a YAML stream.**

A stream is UTF-8 text of printable characters, tabs and line breaks.  A `Cursor` is what is left
of it together with the place reached; several kinds of line break count as one line each.

Main definitions:

* `Yaml.characters` — the characters of a stream;
* `Yaml.Mark`, `Yaml.Cursor`;
* `Cursor.next`, `Cursor.takeWhile`, `Cursor.lineBreak?` — moving on.
-/

import SecretResolver.Text.Blank
import SecretResolver.Text.Position

set_option relaxedAutoImplicit false
set_option autoImplicit false

namespace SecretResolver

namespace Yaml

/-! ### Characters -/

/-- The mark that may stand at the beginning of a line. -/
def byteOrderMark : Char := Char.ofNat 0xFEFF

/-- The characters that a stream may hold. -/
def isAllowed (c : Char) : Bool :=
  let n := c.toNat
  n == 0x09 || n == 0x0A || n == 0x0D || (0x20 ≤ n && n ≤ 0x7E) || n == 0x85 ||
    (0xA0 ≤ n && n ≤ 0xD7FF) || (0xE000 ≤ n && n ≤ 0xFFFD) || 0x10000 ≤ n

/-- The characters of a stream, unless some bytes are not allowed in one. -/
def characters (bs : Bytes) : Option (List Char) :=
  match Utf8.decode bs with
  | (cs, []) => if cs.all isAllowed then some cs else none
  | (_, _ :: _) => none

/-- The line separator. -/
def lineSeparator : Char := Char.ofNat 0x2028

/-- The paragraph separator. -/
def paragraphSeparator : Char := Char.ofNat 0x2029

/-- The next line character. -/
def nextLine : Char := Char.ofNat 0x85

/-- Whether a character ends a line. -/
def isBreak (c : Char) : Bool :=
  c == '\n' || c == '\r' || c == nextLine || c == lineSeparator || c == paragraphSeparator

/-- Whether a character separates words. -/
def isSpace (c : Char) : Bool := Text.isBlank c || isBreak c

/-! ### Places -/

/-- A place in a stream, counted in characters from zero. -/
structure Mark where
  index : Nat
  line : Nat
  /-- The number of characters before it in its line. -/
  column : Nat
  deriving Repr, DecidableEq, Inhabited

/-- The start of a stream. -/
def Mark.zero : Mark := ⟨0, 0, 0⟩

/-- The same place counted from one. -/
def Mark.position (m : Mark) : Position := ⟨m.line + 1, m.column + 1⟩

/-- What is left of a stream. -/
structure Cursor where
  rest : List Char
  mark : Mark
  deriving Repr, DecidableEq

namespace Cursor

/-- The next character. -/
def peek (c : Cursor) : Option Char := c.rest.head?

/-- Whether the next character satisfies a condition. -/
def at_ (c : Cursor) (p : Char → Bool) : Bool := c.peek.any p

/-- Whether the next character is a given one. -/
def sees (c : Cursor) (ch : Char) : Bool := c.peek == some ch

/-- Whether the stream is at its end or the next character separates words. -/
def atSpaceOrEnd (c : Cursor) : Bool := c.peek.all isSpace

/-- Whether the stream is at its end or the next character ends a line. -/
def atBreakOrEnd (c : Cursor) : Bool := c.peek.all isBreak

/-- The place after one character of the same line. -/
def next (c : Cursor) : Cursor :=
  ⟨c.rest.drop 1, ⟨c.mark.index + 1, c.mark.line, c.mark.column + 1⟩⟩

/-- The place after `n` characters of the same line. -/
def skip (c : Cursor) (n : Nat) : Cursor :=
  ⟨c.rest.drop n, ⟨c.mark.index + n, c.mark.line, c.mark.column + n⟩⟩

/-- The characters of the same line that satisfy a condition, and the place after them. -/
def takeWhile (c : Cursor) (p : Char → Bool) : List Char × Cursor :=
  let cs := c.rest.takeWhile p
  (cs, ⟨c.rest.dropWhile p, ⟨c.mark.index + cs.length, c.mark.line, c.mark.column + cs.length⟩⟩)

/-- The place after the characters of the same line that satisfy a condition. -/
def skipWhile (c : Cursor) (p : Char → Bool) : Cursor := (c.takeWhile p).2

/-- The place at the start of the next line, with so many characters in the break. -/
def newLine (c : Cursor) (n : Nat) (rest : List Char) : Cursor :=
  ⟨rest, ⟨c.mark.index + n, c.mark.line + 1, 0⟩⟩

/-- A line break as it counts in a scalar, and the place after it: the line and the paragraph
separator stay what they are, any other break is a line feed. -/
def lineBreak? (c : Cursor) : Option (Char × Cursor) :=
  match c.rest with
  | '\r' :: '\n' :: rest => some ('\n', c.newLine 2 rest)
  | ch :: rest =>
      if ch == lineSeparator || ch == paragraphSeparator then some (ch, c.newLine 1 rest)
      else if isBreak ch then some ('\n', c.newLine 1 rest)
      else none
  | [] => none

/-- The place after a line break, if there is one. -/
def skipBreak (c : Cursor) : Cursor :=
  match c.lineBreak? with
  | some (_, c) => c
  | none => c

/-- Whether the line begins with three given characters and nothing more of that word. -/
def isRule (c : Cursor) (ch : Char) : Bool :=
  c.mark.column == 0 && c.rest.take 3 == [ch, ch, ch] && (c.rest.drop 3).head?.all isSpace

/-- Whether the line begins with a mark between documents. -/
def atDocumentMark (c : Cursor) : Bool := c.isRule '-' || c.isRule '.'

/-- The end of the line after blanks and a comment, if nothing else stands there. -/
def lineEnd? (c : Cursor) : Option Cursor :=
  let c := c.skipWhile Text.isBlank
  let c := if c.sees '#' then c.skipWhile fun ch => !isBreak ch else c
  if c.atBreakOrEnd then some c.skipBreak else none

end Cursor

end Yaml

end SecretResolver
