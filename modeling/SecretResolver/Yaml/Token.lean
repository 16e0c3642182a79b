/-
**YAML tokens.**

Tokens make the structure explicit: where a block sequence or mapping begins is seen from the
indentation, and where a mapping key begins only from the colon after it.  Until then the key is
*pending*: tokens from its place on are held back, because a `key` token, and perhaps the start of
a block mapping, has to go before them.

Main definitions:

* `Yaml.Token`, `Yaml.TokenKind`;
* `Yaml.Lexer`, `Lexer.fetch` — one step: the next token is added to those held back;
* `Yaml.Lexer.run`, `Yaml.tokens` — the tokens in the order of their release, and where reading
  stopped if it did.
-/

import SecretResolver.Yaml.Property

set_option relaxedAutoImplicit false
set_option autoImplicit false

namespace SecretResolver

namespace Yaml

/-- How a scalar is written. -/
inductive ScalarStyle where
  | plain
  /-- In any way that makes it a text whatever it looks like. -/
  | marked
  deriving Repr, DecidableEq

/-- The kinds of token. -/
inductive TokenKind where
  | directive (d : Directive)
  | documentStart
  | documentEnd
  | streamEnd
  | blockSequenceStart
  | blockMappingStart
  | blockEnd
  | flowSequenceStart
  | flowSequenceEnd
  | flowMappingStart
  | flowMappingEnd
  | blockEntry
  | flowEntry
  | key
  | value
  | alias (name : List Char)
  | anchor (name : List Char)
  | tag (t : TagText)
  | scalar (text : List Char) (style : ScalarStyle)
  deriving Repr, DecidableEq

/-- A token with the places where it begins and ends. -/
structure Token where
  kind : TokenKind
  start : Mark
  stop : Mark
  deriving Repr, DecidableEq

/-! ### Pending keys -/

/-- What may turn out to be a key. -/
structure PendingKey where
  required : Bool
  /-- The number of the token with which it begins. -/
  number : Nat
  mark : Mark
  deriving Repr, DecidableEq

/-- How many characters a key may take. -/
def keyLength : Nat := 1024

/-- Whether a key has been given up at a place: it takes one line and no more than so many
characters. -/
def PendingKey.isStale (k : PendingKey) (m : Mark) : Bool :=
  k.mark.line < m.line || k.mark.index + keyLength < m.index

/-- What the lexer knows. -/
structure Lexer where
  cursor : Cursor
  /-- The tokens that are not yet released, the first one to go first. -/
  held : List Token
  released : Nat
  /-- The column of the innermost block, `-1` outside of all blocks. -/
  indent : Int
  indents : List Int
  keyAllowed : Bool
  pending : Option PendingKey
  /-- The pending keys of the levels around, one for each open bracket or brace. -/
  outer : List (Option PendingKey)
  deriving Repr, DecidableEq

namespace Lexer

/-- The lexer before a stream. -/
def start (cs : List Char) : Lexer := ⟨⟨cs, .zero⟩, [], 0, -1, [], true, none, []⟩

/-- Whether a bracket or brace is open. -/
def inFlow (l : Lexer) : Bool := !l.outer.isEmpty

/-- The place reached. -/
def mark (l : Lexer) : Mark := l.cursor.mark

/-- Adds a token at the end. -/
def emit (l : Lexer) (t : Token) : Lexer := { l with held := l.held ++ [t] }

/-- Adds a token before the one with the given number. -/
def insert (l : Lexer) (number : Nat) (t : Token) : Lexer :=
  let n := number - l.released
  { l with held := l.held.take n ++ t :: l.held.drop n }

/-- Adds a token that takes `n` characters from here. -/
def emitHere (l : Lexer) (kind : TokenKind) (n : Nat) : Lexer :=
  let after := l.cursor.skip n
  { l with cursor := after, held := l.held ++ [⟨kind, l.mark, after.mark⟩] }

/-- Gives up the pending key of this level; it is a fault if it was required. -/
def dropKey (l : Lexer) : Except Mark Lexer :=
  match l.pending with
  | some k => if k.required then .error l.mark else .ok { l with pending := none }
  | none => .ok l

/-- Lets a key begin here, if one may. -/
def saveKey (l : Lexer) : Except Mark Lexer :=
  if l.keyAllowed then
    match l.dropKey with
    | .error m => .error m
    | .ok l =>
        let required := !l.inFlow && l.indent == (l.mark.column : Int)
        .ok { l with pending := some ⟨required, l.released + l.held.length, l.mark⟩ }
  else .ok l

/-- Drops stale keys, outermost first; it is a fault if one was required. -/
def dropStale (l : Lexer) : Except Mark Lexer :=
  let stale (k : Option PendingKey) : Bool := k.any (·.isStale l.mark)
  let fault (k : Option PendingKey) : Bool := k.any fun k => k.isStale l.mark && k.required
  if l.outer.any fault || fault l.pending then .error l.mark
  else
    .ok { l with
      pending := if stale l.pending then none else l.pending
      outer := l.outer.map fun k => if stale k then none else k }

/-! ### Indentation -/

/-- Begins a block at a column, if it lies right of the innermost one: `add` puts its token. -/
def openBlock (l : Lexer) (column : Nat) (add : Lexer → Lexer) : Lexer :=
  if l.inFlow then l
  else if l.indent < column then
    add { l with indent := column, indents := l.indent :: l.indents }
  else l

/-- Ends the blocks right of a column, at most so many as are open. -/
def closeBlocks (column : Int) : (fuel : Nat) → Lexer → Lexer
  | 0, l => l
  | fuel + 1, l =>
      if column < l.indent then
        match l.indents with
        | [] => l
        | i :: is =>
            closeBlocks column fuel
              ({ l with indent := i, indents := is }.emit ⟨.blockEnd, l.mark, l.mark⟩)
      else l

/-- Ends the blocks right of a column, outside of brackets. -/
def unindent (l : Lexer) (column : Int) : Lexer :=
  if l.inFlow then l else closeBlocks column l.indents.length l

/-! ### Between tokens -/

/-- Passes over blanks, comments and line breaks.  Outside of brackets a key may begin after a
line break, and a tab may not stand where one may begin. -/
def skipSpace : (fuel : Nat) → Lexer → Lexer
  | 0, l => l
  | fuel + 1, l =>
      let c := l.cursor
      -- a byte order mark is passed over at the start of a line only
      let c := if c.mark.column == 0 && c.sees byteOrderMark then c.next else c
      let c := c.skipWhile fun ch => ch == ' ' || ((l.inFlow || !l.keyAllowed) && ch == '\t')
      let c := if c.sees '#' then c.skipWhile fun ch => !isBreak ch else c
      match c.lineBreak? with
      | some (_, c) =>
          skipSpace fuel { l with cursor := c, keyAllowed := l.keyAllowed || !l.inFlow }
      | none => { l with cursor := c }

/-! ### Tokens -/

/-- The end of the stream stands at the start of a line. -/
def fetchEnd (l : Lexer) : Except Mark Lexer :=
  let m := l.mark
  -- a last line without a break counts as a whole line
  let m := if m.column = 0 then m else ⟨m.index, m.line + 1, 0⟩
  let l := { l with cursor := ⟨l.cursor.rest, m⟩ }.unindent (-1)
  match l.dropKey with
  | .error m => .error m
  | .ok l => .ok ({ l with keyAllowed := false }.emit ⟨.streamEnd, m, m⟩)

/-- A directive. -/
def fetchDirective (l : Lexer) : Except Mark Lexer :=
  match (l.unindent (-1)).dropKey with
  | .error m => .error m
  | .ok l =>
      match Yaml.directive l.cursor with
      | .error m => .error m
      | .ok ((d, stop), c) =>
          .ok ({ l with cursor := c, keyAllowed := false }.emit ⟨.directive d, l.mark, stop⟩)

/-- A mark between documents. -/
def fetchDocumentMark (l : Lexer) (kind : TokenKind) : Except Mark Lexer :=
  match (l.unindent (-1)).dropKey with
  | .error m => .error m
  | .ok l => .ok ({ l with keyAllowed := false }.emitHere kind 3)

/-- An opening bracket or brace; it may begin a key. -/
def fetchOpening (l : Lexer) (kind : TokenKind) : Except Mark Lexer :=
  match l.saveKey with
  | .error m => .error m
  | .ok l =>
      .ok ({ l with keyAllowed := true, pending := none, outer := l.pending :: l.outer }.emitHere
        kind 1)

/-- A closing bracket or brace. -/
def fetchClosing (l : Lexer) (kind : TokenKind) : Except Mark Lexer :=
  match l.dropKey with
  | .error m => .error m
  | .ok l =>
      let l := { l with keyAllowed := false }
      let l :=
        match l.outer with
        | [] => l
        | k :: ks => { l with pending := k, outer := ks }
      .ok (l.emitHere kind 1)

/-- A comma. -/
def fetchFlowEntry (l : Lexer) : Except Mark Lexer :=
  match l.dropKey with
  | .error m => .error m
  | .ok l => .ok ({ l with keyAllowed := true }.emitHere .flowEntry 1)

/-- Begins a block here with a token of the given kind, where an entry or key may begin. -/
def openHere (l : Lexer) (kind : TokenKind) : Except Mark Lexer :=
  if l.inFlow then .ok l
  else if !l.keyAllowed then .error l.mark
  else .ok (l.openBlock l.mark.column fun l => l.emit ⟨kind, l.mark, l.mark⟩)

/-- The dash before an entry. -/
def fetchBlockEntry (l : Lexer) : Except Mark Lexer :=
  match l.openHere .blockSequenceStart with
  | .error m => .error m
  | .ok l =>
      match l.dropKey with
      | .error m => .error m
      | .ok l => .ok ({ l with keyAllowed := true }.emitHere .blockEntry 1)

/-- The question mark before a key. -/
def fetchKey (l : Lexer) : Except Mark Lexer :=
  match l.openHere .blockMappingStart with
  | .error m => .error m
  | .ok l =>
      match l.dropKey with
      | .error m => .error m
      | .ok l => .ok ({ l with keyAllowed := !l.inFlow }.emitHere .key 1)

/-- The colon before a value; it turns a pending key into one. -/
def fetchValue (l : Lexer) : Except Mark Lexer :=
  match l.pending with
  | some k =>
      let l := l.insert k.number ⟨.key, k.mark, k.mark⟩
      -- the start of the mapping goes in at the same number, so it comes before the key
      let l := l.openBlock k.mark.column fun l =>
        l.insert k.number ⟨.blockMappingStart, k.mark, k.mark⟩
      .ok ({ l with pending := none, keyAllowed := false }.emitHere .value 1)
  | none =>
      match l.openHere .blockMappingStart with
      | .error m => .error m
      | .ok l => .ok ({ l with keyAllowed := !l.inFlow }.emitHere .value 1)

/-- A token that may begin a key, read by `scan` with the place where it ends. -/
def fetchNode (l : Lexer) (scan : Cursor → Scan (TokenKind × Mark)) : Except Mark Lexer :=
  match l.saveKey with
  | .error m => .error m
  | .ok l =>
      match scan l.cursor with
      | .error m => .error m
      | .ok ((kind, stop), c) =>
          .ok ({ l with cursor := c, keyAllowed := false }.emit ⟨kind, l.mark, stop⟩)

/-- A token that ends where its scan does. -/
def upTo {α : Type} (kind : α → TokenKind) : Scan α → Scan (TokenKind × Mark)
  | .error m => .error m
  | .ok (x, c) => .ok ((kind x, c.mark), c)

/-- A quoted scalar. -/
def fetchQuoted (l : Lexer) (q : Quote) : Except Mark Lexer :=
  l.fetchNode fun c => upTo (TokenKind.scalar · .marked) (quoted q c)

/-- A block scalar. -/
def fetchBlock (l : Lexer) (literal : Bool) : Except Mark Lexer :=
  match l.dropKey with
  | .error m => .error m
  | .ok l =>
      match block literal l.indent l.cursor with
      | .error m => .error m
      | .ok ((text, stop), c) =>
          .ok ({ l with cursor := c, keyAllowed := true }.emit
            ⟨.scalar text .marked, l.mark, stop⟩)

/-- A plain scalar; if a line ended after it, a key may begin. -/
def fetchPlain (l : Lexer) : Except Mark Lexer :=
  match l.saveKey with
  | .error m => .error m
  | .ok l =>
      match plain l.inFlow (l.indent + 1) l.cursor with
      | .error m => .error m
      | .ok (p, c) =>
          .ok ({ l with cursor := c, keyAllowed := p.broken }.emit
            ⟨.scalar p.text .plain, l.mark, p.stop⟩)

/-- The characters that cannot begin a plain scalar without further ado. -/
def isIndicator (ch : Char) : Bool :=
  ch ∈ "-?:,[]\x7b\x7d#&*!|>\x27\"%@\x60".toList

/-- Whether a plain scalar begins with this character before that one. -/
def beginsPlain (flow : Bool) (ch : Char) (after : Cursor) : Bool :=
  (!isSpace ch && !isIndicator ch) || (ch == '-' && !after.at_ Text.isBlank) ||
    (!flow && (ch == '?' || ch == ':') && !after.atSpaceOrEnd)

/-- The token that begins with a character, after everything that depends on the line. -/
def fetchAt (l : Lexer) (ch : Char) : Except Mark Lexer :=
  let after := l.cursor.next
  let indicates := l.inFlow || after.atSpaceOrEnd
  if ch == '[' then l.fetchOpening .flowSequenceStart
  else if ch == '\x7b' then l.fetchOpening .flowMappingStart
  else if ch == ']' then l.fetchClosing .flowSequenceEnd
  else if ch == '\x7d' then l.fetchClosing .flowMappingEnd
  else if ch == ',' then l.fetchFlowEntry
  else if ch == '-' && after.atSpaceOrEnd then l.fetchBlockEntry
  else if ch == '?' && indicates then l.fetchKey
  else if ch == ':' && indicates then l.fetchValue
  else if ch == '*' then l.fetchNode fun c => upTo .alias (anchorName c)
  else if ch == '&' then l.fetchNode fun c => upTo .anchor (anchorName c)
  else if ch == '!' then l.fetchNode fun c => upTo .tag (Yaml.tag l.inFlow c)
  else if ch == '|' && !l.inFlow then l.fetchBlock true
  else if ch == '>' && !l.inFlow then l.fetchBlock false
  else if ch == '\x27' then l.fetchQuoted .single
  else if ch == '"' then l.fetchQuoted .double
  else if beginsPlain l.inFlow ch after then l.fetchPlain
  else .error l.mark

/-- Adds the next token to those that are held back. -/
def fetch (l : Lexer) : Except Mark Lexer :=
  match (skipSpace (l.cursor.rest.length + 1) l).dropStale with
  | .error m => .error m
  | .ok l =>
      let l := l.unindent l.mark.column
      match l.cursor.peek with
      | none => l.fetchEnd
      | some ch =>
          if l.mark.column == 0 && ch == '%' then l.fetchDirective
          else if l.cursor.isRule '-' then l.fetchDocumentMark .documentStart
          else if l.cursor.isRule '.' then l.fetchDocumentMark .documentEnd
          else l.fetchAt ch

/-! ### Release -/

/-- Whether a pending key begins with the first token that is held back. -/
def holdsFirst (l : Lexer) : Bool :=
  let first (k : Option PendingKey) : Bool := k.any fun k => k.number == l.released
  first l.pending || l.outer.any first

/-- The tokens in the order of their release, and the place of the fault that ended them. -/
def run : (fuel : Nat) → Lexer → List Token × Option Mark
  | 0, _ => ([], none)
  | fuel + 1, l =>
      let fetchMore (l : Lexer) : List Token × Option Mark :=
        match l.fetch with
        | .error m => ([], some m)
        | .ok l => run fuel l
      match l.held with
      | [] => fetchMore l
      | t :: held =>
          match l.dropStale with
          | .error m => ([], some m)
          | .ok l =>
              -- a token that may begin a key waits until that is decided
              if l.holdsFirst then fetchMore l
              else if t.kind = .streamEnd then ([t], none)
              else
                let (ts, fault) := run fuel { l with held := held, released := l.released + 1 }
                (t :: ts, fault)

end Lexer

/-- The tokens of a stream and the place of the fault that ended them, if there was one. -/
def tokens (cs : List Char) : List Token × Option Mark :=
  Lexer.run (8 * cs.length + 8) (.start cs)

end Yaml

end SecretResolver
