/-
**Scalars as they are written.**

Plain and quoted scalars may run over several lines; what stands between two words is a `Gap`, and
a single line break in it is folded into a space.  Block scalars keep their lines or fold them,
and their last breaks are kept, clipped or stripped.

Main definitions:

* `Yaml.Gap` — blanks and line breaks between words;
* `Yaml.plain`, `Yaml.quoted`, `Yaml.block` — the text of a scalar and the place after it.
-/

import SecretResolver.Text.Split
import SecretResolver.Yaml.Source

set_option relaxedAutoImplicit false
set_option autoImplicit false

namespace SecretResolver

namespace Yaml

/-- A scan of `α` from some place on; a fault lies at a place. -/
abbrev Scan (α : Type) := Except Mark (α × Cursor)

/-! ### Gaps -/

/-- What stands between two words. -/
structure Gap where
  blanks : List Char
  first : Option Char
  more : List Char
  broken : Bool
  deriving Repr, DecidableEq

namespace Gap

/-- Nothing. -/
def none : Gap := ⟨[], Option.none, [], false⟩

/-- What is left of a gap when it stands between two words of one scalar. -/
def text (g : Gap) : List Char :=
  if g.broken then
    -- the first line feed is folded away: into a space if it is the only one
    if g.first = some '\n' then (if g.more.isEmpty then [' '] else g.more)
    else g.first.toList ++ g.more
  else g.blanks

/-- The gap with one more blank; after a line break blanks do not count. -/
def blank (g : Gap) (ch : Char) : Gap :=
  if g.broken then g else ⟨g.blanks ++ [ch], g.first, g.more, false⟩

/-- The gap with one more line break. -/
def lineBreak (g : Gap) (ch : Char) : Gap :=
  if g.broken then ⟨g.blanks, g.first, g.more ++ [ch], true⟩ else ⟨[], some ch, g.more, true⟩

/-- Reads on in a gap.  A tab left of `indent` after a line break is a fault. -/
def scan (indent : Int) : (fuel : Nat) → Gap → Cursor → Scan Gap
  | 0, g, c => .ok (g, c)
  | fuel + 1, g, c =>
      match c.lineBreak? with
      | some (ch, c) => scan indent fuel (g.lineBreak ch) c
      | Option.none =>
          match c.peek with
          | some ch =>
              if !Text.isBlank ch then .ok (g, c)
              else if g.broken && ch == '\t' && (c.mark.column : Int) < indent then .error c.mark
              else scan indent fuel (g.blank ch) c.next
          | Option.none => .ok (g, c)

end Gap

/-! ### Plain scalars -/

/-- The characters that end a word within brackets. -/
def isFlowIndicator (ch : Char) : Bool :=
  ch == ',' || ch == '[' || ch == ']' || ch == '\x7b' || ch == '\x7d'

/-- One word of a plain scalar.  A colon ends it before a space; within brackets so do indicators,
and a colon before one of them is a fault. -/
def plainWord (flow : Bool) : (fuel : Nat) → Cursor → Scan (List Char)
  | 0, c => .ok ([], c)
  | fuel + 1, c =>
      match c.peek with
      | none => .ok ([], c)
      | some ch =>
          let after := c.next
          if isSpace ch then .ok ([], c)
          else if flow && ch == ':' && after.at_ (fun d => isFlowIndicator d || d == '?') then
            .error c.mark
          else if ch == ':' && after.atSpaceOrEnd then .ok ([], c)
          else if flow && isFlowIndicator ch then .ok ([], c)
          else
            match plainWord flow fuel after with
            | .error m => .error m
            | .ok (cs, c) => .ok (ch :: cs, c)

/-- A scanned plain scalar. -/
structure Plain where
  text : List Char
  stop : Mark
  broken : Bool
  deriving Repr, DecidableEq

/-- The words of a plain scalar from the gap before the next one on. -/
def plainWords (flow : Bool) (indent : Int) :
    (fuel : Nat) → (gap : Gap) → (stop : Mark) → Cursor → Scan Plain
  | 0, gap, stop, c => .ok (⟨[], stop, gap.broken⟩, c)
  | fuel + 1, gap, stop, c =>
      if c.atDocumentMark || c.sees '#' then .ok (⟨[], stop, gap.broken⟩, c)
      else
        match plainWord flow (c.rest.length + 1) c with
        | .error m => .error m
        | .ok (word, c) =>
            let gapBefore := gap
            let broken := word.isEmpty && gap.broken
            let stop := if word.isEmpty then stop else c.mark
            let text := if word.isEmpty then [] else gapBefore.text ++ word
            if !c.at_ isSpace then .ok (⟨text, stop, broken⟩, c)
            else
              match Gap.scan indent (c.rest.length + 1) .none c with
              | .error m => .error m
              | .ok (gap, c) =>
                  -- the next line belongs to what is around the scalar
                  if !flow && (c.mark.column : Int) < indent then
                    .ok (⟨text, stop, gap.broken⟩, c)
                  else
                    match plainWords flow indent fuel gap stop c with
                    | .error m => .error m
                    | .ok (p, c) => .ok (⟨text ++ p.text, p.stop, p.broken⟩, c)

/-- A plain scalar; its further lines stand at least at `indent` unless it is within brackets. -/
def plain (flow : Bool) (indent : Int) (c : Cursor) : Scan Plain :=
  plainWords flow indent (c.rest.length + 1) .none c.mark c

/-! ### Quoted scalars -/

/-- The number that hexadecimal digits denote. -/
def hexNumber? (cs : List Char) : Option Nat :=
  cs.foldl (fun n ch => n.bind fun n => (Text.hexDigit? ch).map fun d => 16 * n + d) (some 0)

/-- The character that a letter stands for after a backslash. -/
def escapeLetter? (ch : Char) : Option Char :=
  match ch with
  | '0' => some '\x00'
  | 'a' => some '\x07'
  | 'b' => some '\x08'
  | 't' => some '\t'
  | '\t' => some '\t'
  | 'n' => some '\n'
  | 'v' => some '\x0b'
  | 'f' => some '\x0c'
  | 'r' => some '\r'
  | 'e' => some '\x1b'
  | ' ' => some ' '
  | '"' => some '"'
  | '/' => some '/'
  | '\\' => some '\\'
  | 'N' => some nextLine
  | '_' => some (Char.ofNat 0xA0)
  | 'L' => some lineSeparator
  | 'P' => some paragraphSeparator
  | _ => none

/-- The number of digits that a letter announces after a backslash. -/
def escapeDigits? (ch : Char) : Option Nat :=
  match ch with
  | 'x' => some 2
  | 'u' => some 4
  | 'U' => some 8
  | _ => none

/-- Whether a number is a character. -/
def isScalarValue (n : Nat) : Bool := n < 0xD800 || (0xDFFF < n && n ≤ 0x10FFFF)

/-- The character of an escape, from its backslash on. -/
def escape (c : Cursor) : Scan Char :=
  match c.rest with
  | _ :: letter :: rest =>
      match escapeLetter? letter with
      | some ch => .ok (ch, c.skip 2)
      | none =>
          match escapeDigits? letter with
          | none => .error c.mark
          | some n =>
              let c := c.skip 2
              let ds := rest.take n
              match (if ds.length = n then hexNumber? ds else none) with
              | none => .error c.mark
              | some v => if isScalarValue v then .ok (Char.ofNat v, c.skip n) else .error c.mark
  | _ => .error c.mark

/-- The quotes. -/
inductive Quote where
  /-- Quotes in which only the quote itself is written twice. -/
  | single
  /-- Quotes in which a backslash begins an escape. -/
  | double
  deriving Repr, DecidableEq

/-- The character of a quote. -/
def Quote.char : Quote → Char
  | .single => '\x27'
  | .double => '"'

/-- One word of a quoted scalar, with the gap that a backslash at the end of a line begins. -/
def quotedWord (q : Quote) : (fuel : Nat) → Cursor → Scan (List Char × Gap)
  | 0, c => .ok (([], .none), c)
  | fuel + 1, c =>
      let more (ch : Char) (c : Cursor) : Scan (List Char × Gap) :=
        match quotedWord q fuel c with
        | .error m => .error m
        | .ok ((cs, g), c) => .ok ((ch :: cs, g), c)
      match c.peek with
      | none => .ok (([], .none), c)
      | some ch =>
          if isSpace ch then .ok (([], .none), c)
          else if q = .single && ch == '\x27' && c.next.sees '\x27' then more '\x27' (c.skip 2)
          else if ch == q.char then .ok (([], .none), c)
          else if q = .double && ch == '\\' then
            -- an escaped break leaves nothing behind, not even the space of a fold
            if c.next.at_ isBreak then .ok (([], ⟨[], none, [], true⟩), c.next.skipBreak)
            else
              match escape c with
              | .error m => .error m
              | .ok (ch, c) => more ch c
          else more ch c.next

/-- The words of a quoted scalar up to its closing quote, which is used up. -/
def quotedWords (q : Quote) : (fuel : Nat) → Cursor → Scan (List Char)
  | 0, c => .error c.mark
  | fuel + 1, c =>
      if c.atDocumentMark || c.rest.isEmpty then .error c.mark
      else
        match quotedWord q (c.rest.length + 1) c with
        | .error m => .error m
        | .ok ((word, gap), c) =>
            if c.sees q.char then .ok (word, c.next)
            else
              match Gap.scan 0 (c.rest.length + 1) gap c with
              | .error m => .error m
              | .ok (gap, c) =>
                  match quotedWords q fuel c with
                  | .error m => .error m
                  | .ok (cs, c) => .ok (word ++ gap.text ++ cs, c)

/-- A quoted scalar, from its opening quote on. -/
def quoted (q : Quote) (c : Cursor) : Scan (List Char) :=
  quotedWords q (c.rest.length + 1) c.next

/-! ### Block scalars -/

/-- What happens to the line breaks at the end of a block scalar. -/
inductive Chomping where
  | strip
  | clip
  | keep
  deriving Repr, DecidableEq

/-- What stands on the first line of a block scalar. -/
structure BlockHeader where
  chomping : Chomping
  /-- The indentation of the lines relative to what is around, if it is given. -/
  indent : Option Nat
  deriving Repr, DecidableEq

/-- The treatment that a character asks for. -/
def chompingOf? (ch : Char) : Option Chomping :=
  match ch with
  | '+' => some .keep
  | '-' => some .strip
  | _ => none

/-- An indentation digit, if there is one; zero is a fault. -/
def indentDigit (c : Cursor) : Scan (Option Nat) :=
  match c.peek with
  | some ch =>
      if ch == '0' then .error c.mark
      else if '0' ≤ ch && ch ≤ '9' then .ok (some (ch.toNat - 48), c.next)
      else .ok (none, c)
  | none => .ok (none, c)

/-- The indicators on the first line of a block scalar, in either order. -/
def blockHeader (c : Cursor) : Scan BlockHeader :=
  match c.peek.bind chompingOf? with
  | some chomping =>
      match indentDigit c.next with
      | .error m => .error m
      | .ok (indent, c) => .ok (⟨chomping, indent⟩, c)
  | none =>
      match indentDigit c with
      | .error m => .error m
      | .ok (none, c) => .ok (⟨.clip, none⟩, c)
      | .ok (some n, c) =>
          match c.peek.bind chompingOf? with
          | some chomping => .ok (⟨chomping, some n⟩, c.next)
          | none => .ok (⟨.clip, some n⟩, c)

/-- Empty lines before a line of a block scalar. -/
structure EmptyLines where
  breaks : List Char
  stop : Mark
  deepest : Nat
  deriving Repr, DecidableEq

/-- Passes over empty lines and the indentation of the line after them.  `indent` is nothing as
long as it is not known; a tab left of it is a fault. -/
def emptyLines (indent : Option Nat) : (fuel : Nat) → EmptyLines → Cursor → Scan EmptyLines
  | 0, e, c => .ok (e, c)
  | fuel + 1, e, c =>
      let width := ((c.takeWhile (· == ' ')).1).length
      let c := c.skip (indent.elim width fun n => min width (n - c.mark.column))
      let e := { e with deepest := max e.deepest c.mark.column }
      if indent.all (c.mark.column < ·) && c.sees '\t' then .error c.mark
      else
        match c.lineBreak? with
        | none => .ok (e, c)
        | some (ch, c) =>
            emptyLines indent fuel { e with breaks := e.breaks ++ [ch], stop := c.mark } c

/-- What has been read of a block scalar. -/
structure BlockState where
  text : List Char
  /-- The break after the last line that is not empty. -/
  first : List Char
  more : List Char
  blank : Bool
  deriving Repr, DecidableEq

/-- The text with the breaks before a further line; between two lines that do not begin with a
blank a folded scalar has a space in place of a single break. -/
def BlockState.join (literal blank : Bool) (s : BlockState) : List Char :=
  if !literal && s.first == ['\n'] && !s.blank && !blank then
    s.text ++ (if s.more.isEmpty then [' '] else []) ++ s.more
  else s.text ++ s.first ++ s.more

/-- The lines of a block scalar that stand at `indent`. -/
def blockLines (literal : Bool) (indent : Nat) :
    (fuel : Nat) → BlockState → (stop : Mark) → Cursor → Scan (BlockState × Mark)
  | 0, s, stop, c => .ok ((s, stop), c)
  | fuel + 1, s, stop, c =>
      if c.mark.column ≠ indent || c.rest.isEmpty then .ok ((s, stop), c)
      else
        let blank := c.at_ Text.isBlank
        let before := s.join literal blank
        let (line, c) := c.takeWhile fun ch => !isBreak ch
        let first := (c.lineBreak?.map Prod.fst).toList
        let c := c.skipBreak
        match emptyLines (some indent) (c.rest.length + 1) ⟨[], c.mark, 0⟩ c with
        | .error m => .error m
        | .ok (e, c) =>
            blockLines literal indent fuel ⟨before ++ line, first, e.breaks, blank⟩ e.stop c

/-- The text of a block scalar with its last breaks treated. -/
def BlockState.chomped (chomping : Chomping) (s : BlockState) : List Char :=
  match chomping with
  | .strip => s.text
  | .clip => s.text ++ s.first
  | .keep => s.text ++ s.first ++ s.more

/-- A block scalar, from its indicator on; `around` is the indentation of what is around it. -/
def block (literal : Bool) (around : Int) (c : Cursor) : Scan (List Char × Mark) :=
  match blockHeader c.next with
  | .error m => .error m
  | .ok (h, c) =>
      match c.lineEnd? with
      | none =>
          let c := c.skipWhile Text.isBlank
          .error c.mark
      | some c =>
          let given := h.indent.map fun n => (max around 0).toNat + n
          match emptyLines given (c.rest.length + 1) ⟨[], c.mark, 0⟩ c with
          | .error m => .error m
          | .ok (e, c) =>
              -- without a digit the deepest line up to the first one that is not empty decides
              let indent := given.getD (max (max e.deepest (around + 1).toNat) 1)
              let start : BlockState := ⟨[], [], e.breaks, false⟩
              match blockLines literal indent (c.rest.length + 1) start e.stop c with
              | .error m => .error m
              | .ok ((s, stop), c) => .ok ((s.chomped h.chomping, stop), c)

end Yaml

end SecretResolver
