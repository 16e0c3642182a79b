/-
**Writing YAML.**

Texts are written so that they read back as the same texts: plain where that is safe, in single
quotes where the plain text would denote something else or begin with an indicator, as a block
scalar when there is a line feed in them, and in double quotes with escapes where nothing else
will do.  A mapping has one line for each key that fits on one.

Main definitions:

* `Yaml.Traits`, `Traits.of` — what about a text matters for the choice;
* `Yaml.Form`, `Yaml.formOf` — the choice;
* `Yaml.writeScalar` — a text in its form;
* `Yaml.writeDocument`, `Yaml.writeMapping`, `Yaml.writeRows`.
-/

import SecretResolver.Yaml.Plain
import SecretResolver.Yaml.Source

set_option relaxedAutoImplicit false
set_option autoImplicit false

namespace SecretResolver

namespace Yaml

/-! ### Characters -/

/-- The characters that are shown as they are. -/
def isShown (c : Char) : Bool :=
  let n := c.toNat
  n == 0x0A || (0x20 ≤ n && n ≤ 0x7E) || (0xA0 ≤ n && n ≤ 0xD7FF) ||
    (0xE000 ≤ n && n ≤ 0xFFFD && n ≠ 0xFEFF) || 0x10000 ≤ n

/-! ### Traits -/

/-- What about a text matters for the form in which it is written. -/
structure Traits where
  multiline : Bool
  plain : Bool
  single : Bool
  block : Bool
  deriving Repr, DecidableEq

/-- What is known about a text when its characters are gone through one by one. -/
structure Survey where
  /-- There is an indicator in it that forbids plain text. -/
  indicators : Bool
  breaks : Bool
  /-- There is a character in it that is not shown as it is. -/
  special : Bool
  leadingSpace : Bool
  leadingBreak : Bool
  trailingSpace : Bool
  trailingBreak : Bool
  breakSpace : Bool
  spaceBreak : Bool
  deriving Repr, DecidableEq

/-- Whether a character at the front forbids plain text, given whether a separator or nothing
follows it. -/
def forbidsFirst (c : Char) (followed : Bool) : Bool :=
  c ∈ "#,[]\x7b\x7d&*!|>\x27\"%@\x60".toList || c == '?' && followed || c == ':' && followed ||
    c == '-' && followed

/-- Whether a character after the first one forbids plain text, given whether a separator or
nothing follows it and whether a separator comes before it. -/
def forbidsLater (c : Char) (followed preceded : Bool) : Bool :=
  c == ':' && followed || c == '#' && preceded

/-- Whether the next character is a separator or there is none. -/
def separatorAhead (cs : List Char) : Bool := cs.head?.all isSpace

/-- Goes through the characters after the first one; `before` is the one before them. -/
def surveyFrom (s : Survey) (before : Char) : List Char → Survey
  | [] => { s with trailingSpace := before == ' ', trailingBreak := isBreak before }
  | c :: cs =>
      surveyFrom
        { s with
          indicators := s.indicators || forbidsLater c (separatorAhead cs) (isSpace before)
          breaks := s.breaks || isBreak c
          special := s.special || !(isShown c)
          breakSpace := s.breakSpace || (c == ' ' && isBreak before)
          spaceBreak := s.spaceBreak || (isBreak c && before == ' ') }
        c cs

/-- What is known about a text that is not empty. -/
def survey (c : Char) (cs : List Char) : Survey :=
  surveyFrom
    { indicators := forbidsFirst c (separatorAhead cs) || [c, c, c] == (c :: cs).take 3 &&
        (c == '-' || c == '.')
      breaks := isBreak c
      special := !(isShown c)
      leadingSpace := c == ' '
      leadingBreak := isBreak c
      trailingSpace := false
      trailingBreak := false
      breakSpace := false
      spaceBreak := false }
    c cs

/-- The traits of a text. -/
def Traits.of : List Char → Traits
  | [] => ⟨false, true, true, false⟩
  | c :: cs =>
      let s := survey c cs
      let edge := s.leadingSpace || s.leadingBreak || s.trailingSpace || s.trailingBreak
      let hidden := s.spaceBreak || s.special
      { multiline := s.breaks
        plain := !(s.indicators || s.breaks || edge || s.breakSpace || hidden)
        single := !(s.breakSpace || hidden)
        block := !(s.trailingSpace || hidden) }

/-! ### Forms -/

/-- The forms of a scalar. -/
inductive Form where
  | plain
  | single
  | double
  | literal
  deriving Repr, DecidableEq

/-- Whether the plain text would not be read as this text. -/
def isAmbiguous (s : String) : Bool :=
  match scalarOf? s with
  | some (.text _) => hasLeadingZero s.toList
  | _ => true

/-- The form of a text. -/
def formOf (s : String) : Form :=
  let t := Traits.of s.toList
  -- within quotes a line feed would be folded, so such a text is written line by line
  if s.contains '\n' then (if t.block then .literal else .double)
  else if !isAmbiguous s && t.plain then .plain
  else if t.single then .single
  else .double

/-- The longest key, in bytes, that stands on a line with its value. -/
def simpleKeyBytes : Nat := 128

/-- Whether a key may stand on a line with its value. -/
def isSimpleKey (s : String) : Bool :=
  !(Traits.of s.toList).multiline && s.utf8ByteSize ≤ simpleKeyBytes

/-! ### Scalars -/

/-- The indentation of the further lines of a scalar. -/
def indentation : List Char := [' ', ' ']

/-- A text with its further lines indented; `fresh` says that a line has just ended. -/
def indentLines (fresh : Bool) : List Char → List Char
  | [] => []
  | c :: cs =>
      if isBreak c then c :: indentLines true cs
      else (if fresh then indentation else []) ++ c :: indentLines false cs

/-- Whether a text ends with a line break. -/
def endsLine (cs : List Char) : Bool := cs.getLast?.any isBreak

/-- A text in single quotes. -/
def writeSingle (cs : List Char) : List Char :=
  let doubled := cs.flatMap fun c => if c == '\x27' then [c, c] else [c]
  -- after a last break the closing quote stands on a line of its own
  '\x27' :: indentLines false doubled ++ (if endsLine cs then indentation else []) ++ ['\x27']

/-- A hexadecimal digit in capitals. -/
def hexDigit (n : Nat) : Char := Char.ofNat (if n < 10 then 48 + n else 55 + n)

/-- A number in so many hexadecimal digits. -/
def hexDigits : (width : Nat) → Nat → List Char
  | 0, _ => []
  | width + 1, n => hexDigit (n / Nat.pow 16 width % 16) :: hexDigits width n

/-- The letter that stands for a character after a backslash. -/
def escapeLetterOf? (n : Nat) : Option Char :=
  match n with
  | 0x00 => some '0'
  | 0x07 => some 'a'
  | 0x08 => some 'b'
  | 0x09 => some 't'
  | 0x0A => some 'n'
  | 0x0B => some 'v'
  | 0x0C => some 'f'
  | 0x0D => some 'r'
  | 0x1B => some 'e'
  | 0x22 => some '"'
  | 0x5C => some '\\'
  | 0x85 => some 'N'
  | 0xA0 => some '_'
  | 0x2028 => some 'L'
  | 0x2029 => some 'P'
  | _ => none

/-- An escape. -/
def writeEscape (c : Char) : List Char :=
  let n := c.toNat
  '\\' ::
    match escapeLetterOf? n with
    | some letter => [letter]
    | none =>
        if n ≤ 0xFF then 'x' :: hexDigits 2 n
        else if n ≤ 0xFFFF then 'u' :: hexDigits 4 n
        else 'U' :: hexDigits 8 n

/-- A text in double quotes. -/
def writeDouble (cs : List Char) : List Char :=
  '"' :: (cs.flatMap fun c =>
    if !isShown c || isBreak c || c == '"' || c == '\\' then writeEscape c else [c]) ++ ['"']

/-- What follows the bar of a block scalar: a digit if the first line begins with a space or is
empty, and what is to happen to the last line breaks. -/
def blockHints (cs : List Char) : List Char :=
  (if cs.head?.any fun c => c == ' ' || isBreak c then ['2'] else []) ++
    match cs.reverse with
    | [] => ['-']
    | c :: before =>
        if !isBreak c then ['-']
        else if before.head?.all isBreak then ['+']
        else []

/-- A text line by line. -/
def writeLiteral (cs : List Char) : List Char :=
  '|' :: blockHints cs ++ '\n' :: indentLines true cs

/-- A text in a form. -/
def writeAs (cs : List Char) : Form → List Char
  | .plain => cs
  | .single => writeSingle cs
  | .double => writeDouble cs
  | .literal => writeLiteral cs

/-- A text in its form. -/
def writeScalar (s : String) : List Char := writeAs s.toList (formOf s)

/-- A line break, unless the scalar in this form ends with one. -/
def lineFeedAfter (s : String) : List Char :=
  if formOf s = .literal && endsLine s.toList then [] else ['\n']

/-- A text in its form on lines of its own. -/
def writeLines (s : String) : List Char := writeScalar s ++ lineFeedAfter s

/-! ### Documents -/

/-- A stream of one text. -/
def writeDocument (s : String) : List Char := writeLines s

/-- A key with its value. -/
def writeEntry (e : String × String) : List Char :=
  if isSimpleKey e.1 then writeScalar e.1 ++ ": ".toList ++ writeLines e.2
  else "? ".toList ++ writeLines e.1 ++ ": ".toList ++ writeLines e.2

/-- A stream of one mapping of texts. -/
def writeMapping : List (String × String) → List Char
  | [] => "\x7b\x7d\n".toList
  | es => es.flatMap writeEntry

/-- One mapping as an entry of a sequence. -/
def writeRow : List (String × String) → List Char
  | [] => "- \x7b\x7d\n".toList
  | e :: es =>
      "- ".toList ++ writeEntry e ++ es.flatMap fun e => indentation ++ writeEntry e

/-- A stream of one sequence of mappings whose texts have one line each. -/
def writeRows : List (List (String × String)) → List Char
  | [] => "[]\n".toList
  | rows => rows.flatMap writeRow

end Yaml

end SecretResolver
