/-
**YAML events.**

Events are the structure of a document in one row: scalars, aliases, and where sequences and
mappings begin and end.  Entries without a value are empty plain scalars here.  The events of a
document are found by working off a stack of goals, each of which looks at the next token.

Main definitions:

* `Yaml.Event`, `Yaml.PlacedEvent`;
* `Yaml.Goal`, `Goal.step` — what is expected next, and how a token meets it;
* `Yaml.EventRow`, `Yaml.events` — the events of a stream of one document.
-/

import SecretResolver.Yaml.Token

set_option relaxedAutoImplicit false
set_option autoImplicit false

namespace SecretResolver

namespace Yaml

/-- An event. -/
inductive Event where
  | alias (name : List Char)
  | scalar (anchor tag : Option (List Char)) (text : List Char) (style : ScalarStyle)
  | sequenceStart (anchor tag : Option (List Char))
  | sequenceEnd
  | mappingStart (anchor tag : Option (List Char))
  | mappingEnd
  deriving Repr, DecidableEq

/-- An event with its place. -/
abbrev PlacedEvent := Event × Mark

/-- An entry without a value. -/
def emptyScalar (m : Mark) : PlacedEvent := (.scalar none none [] .plain, m)

/-! ### Tags -/

/-- What the handles of tags stand for. -/
abbrev Handles := List (List Char × List Char)

/-- The handles that need no directive. -/
def defaultHandles : Handles :=
  [("!".toList, "!".toList), ("!!".toList, "tag:yaml.org,2002:".toList)]

/-- What a handle stands for; a directive comes before the default. -/
def startOf? (handles : Handles) (handle : List Char) : Option (List Char) :=
  (handles.find? fun h => h.1 == handle).map Prod.snd

/-- The full tag. -/
def fullTag? (handles : Handles) (t : TagText) : Option (List Char) :=
  if t.handle.isEmpty then some t.suffix else (startOf? handles t.handle).map (· ++ t.suffix)

/-! ### Properties of a node -/

/-- The anchor and the tag before a node, and where they begin. -/
structure Properties where
  anchor : Option (List Char)
  tag : Option (TagText × Mark)
  deriving Repr, DecidableEq

/-- The properties before a node, in either order, each at most once. -/
def properties : List Token → Properties × List Token
  | ⟨.anchor a, _, _⟩ :: ⟨.tag t, m, _⟩ :: ts => (⟨some a, some (t, m)⟩, ts)
  | ⟨.tag t, m, _⟩ :: ⟨.anchor a, _, _⟩ :: ts => (⟨some a, some (t, m)⟩, ts)
  | ⟨.anchor a, _, _⟩ :: ts => (⟨some a, none⟩, ts)
  | ⟨.tag t, m, _⟩ :: ts => (⟨none, some (t, m)⟩, ts)
  | ts => (⟨none, none⟩, ts)

/-! ### Goals -/

/-- What is expected next. -/
inductive Goal where
  /-- A node; `block` allows indented collections, `indentless` a sequence whose dashes stand at
  the column of the mapping around it. -/
  | node (block indentless : Bool)
  | blockEntry
  /-- An entry of a sequence without an indentation of its own or its end. -/
  | indentlessEntry
  | blockKey
  | blockValue
  /-- An entry of a sequence in brackets or its end. -/
  | flowEntry (first : Bool)
  /-- The key of a pair that is an entry of a sequence in brackets. -/
  | pairKey
  | pairValue
  | pairEnd
  | flowKey (first : Bool)
  | flowValue
  | flowNoValue
  deriving Repr, DecidableEq

/-- Why the events end early. -/
inductive Halt where
  /-- A token that does not meet the goal, at this place. -/
  | at_ (m : Mark)
  | noToken
  deriving Repr, DecidableEq

/-- What is left after a goal was looked at: an event, the goals, and the tokens. -/
structure Step where
  event : Option PlacedEvent
  goals : List Goal
  tokens : List Token
  deriving Repr, DecidableEq

/-- A step that only changes the goals. -/
def Step.turn (goals : List Goal) (ts : List Token) : Except Halt Step := .ok ⟨none, goals, ts⟩

/-- A step with an event. -/
def Step.found (e : PlacedEvent) (goals : List Goal) (ts : List Token) : Except Halt Step :=
  .ok ⟨some e, goals, ts⟩

/-- A single mark is no tag of a scalar. -/
def scalarTag (tag : Option (List Char)) : Option (List Char) :=
  if tag = some ['!'] then none else tag

/-- The start of a node after its properties. -/
def nodeBody (block indentless : Bool) (p : Properties) (tag : Option (List Char)) (start : Mark)
    (goals : List Goal) : List Token → Except Halt Step
  | [] => .error .noToken
  | t :: ts =>
      let sequence (g : Goal) (ts : List Token) : Except Halt Step :=
        Step.found (.sequenceStart p.anchor tag, start) (g :: goals) ts
      let mapping (g : Goal) : Except Halt Step :=
        Step.found (.mappingStart p.anchor tag, start) (g :: goals) ts
      -- properties alone make a node, namely an empty scalar
      let other : Except Halt Step :=
        if p.anchor.isSome || tag.isSome then
          Step.found (.scalar p.anchor tag [] .plain, start) goals (t :: ts)
        else .error (.at_ t.start)
      match t.kind with
      | .blockEntry => if indentless then sequence .indentlessEntry (t :: ts) else other
      | .scalar text style =>
          Step.found (.scalar p.anchor (scalarTag tag) text style, start) goals ts
      | .flowSequenceStart => sequence (.flowEntry true) ts
      | .flowMappingStart => mapping (.flowKey true)
      | .blockSequenceStart => if block then sequence .blockEntry ts else other
      | .blockMappingStart => if block then mapping .blockKey else other
      | _ => other

/-- A node; its place is that of its first property. -/
def nodeStep (handles : Handles) (block indentless : Bool) (goals : List Goal) :
    List Token → Except Halt Step
  | [] => .error .noToken
  | ⟨.alias name, m, _⟩ :: ts => Step.found (.alias name, m) goals ts
  | t :: ts =>
      let (p, rest) := properties (t :: ts)
      match rest, p.tag with
      | [], _ => .error .noToken
      | rest, none => nodeBody block indentless p none t.start goals rest
      | rest, some (tag, m) =>
          match fullTag? handles tag with
          | none => .error (.at_ m)
          | some tag => nodeBody block indentless p (some tag) t.start goals rest

/-- A node before tokens that do not end it, else an empty scalar at a place. -/
def nodeOrEmpty (goal : Goal) (ends : TokenKind → Bool) (empty : Token → Mark)
    (goals : List Goal) : List Token → Except Halt Step
  | [] => .error .noToken
  | t :: ts =>
      if ends t.kind then Step.found (emptyScalar (empty t)) goals (t :: ts)
      else Step.turn (goal :: goals) (t :: ts)

/-- The tokens that end an entry of an indented sequence. -/
def endsBlockEntry (k : TokenKind) : Bool := k = .blockEntry || k = .blockEnd

/-- The tokens that end a key or a value of an indented mapping. -/
def endsBlockPart (k : TokenKind) : Bool := k = .key || k = .value || k = .blockEnd

/-- The tokens that end an entry of a sequence without an indentation of its own. -/
def endsIndentlessEntry (k : TokenKind) : Bool :=
  k = .blockEntry || k = .key || k = .value || k = .blockEnd

/-- The tokens that end a part of a pair within brackets. -/
def endsPairPart (k : TokenKind) : Bool := k = .flowEntry || k = .flowSequenceEnd

/-- The tokens that end a part of an entry within braces. -/
def endsFlowPart (k : TokenKind) : Bool := k = .flowEntry || k = .flowMappingEnd

/-- The next entry of a sequence in brackets or its end. -/
def flowEntryStep (goals : List Goal) : List Token → Except Halt Step
  | [] => .error .noToken
  | t :: ts =>
      match t.kind with
      | .flowSequenceEnd => Step.found (.sequenceEnd, t.start) goals ts
      | .key =>
          Step.found (.mappingStart none none, t.start) (.pairKey :: .flowEntry false :: goals) ts
      | _ => Step.turn (.node false false :: .flowEntry false :: goals) (t :: ts)

/-- The next key of a mapping in braces or its end. -/
def flowKeyStep (goals : List Goal) : List Token → Except Halt Step
  | [] => .error .noToken
  | t :: ts =>
      match t.kind with
      | .flowMappingEnd => Step.found (.mappingEnd, t.start) goals ts
      | .key =>
          nodeOrEmpty (.node false false) (fun k => k = .value || endsFlowPart k) Token.start
            (.flowValue :: goals) ts
      | _ => Step.turn (.node false false :: .flowNoValue :: goals) (t :: ts)

/-- Passes over a comma between entries. -/
def afterComma (step : List Token → Except Halt Step) : List Token → Except Halt Step
  | [] => .error .noToken
  | t :: ts => if t.kind = .flowEntry then step ts else .error (.at_ t.start)

/-- Looks at the innermost goal. -/
def Goal.step (handles : Handles) (goals : List Goal) : Goal → List Token → Except Halt Step
  | _, [] => .error .noToken
  | .node block indentless, t :: ts => nodeStep handles block indentless goals (t :: ts)
  | .blockEntry, t :: ts =>
      match t.kind with
      | .blockEntry =>
          nodeOrEmpty (.node true false) endsBlockEntry (fun _ => t.stop) (.blockEntry :: goals) ts
      | .blockEnd => Step.found (.sequenceEnd, t.start) goals ts
      | _ => .error (.at_ t.start)
  | .indentlessEntry, t :: ts =>
      match t.kind with
      | .blockEntry =>
          nodeOrEmpty (.node true false) endsIndentlessEntry (fun _ => t.stop)
            (.indentlessEntry :: goals) ts
      | _ => Step.found (.sequenceEnd, t.start) goals (t :: ts)
  | .blockKey, t :: ts =>
      match t.kind with
      | .key =>
          nodeOrEmpty (.node true true) endsBlockPart (fun _ => t.stop) (.blockValue :: goals) ts
      | .blockEnd => Step.found (.mappingEnd, t.start) goals ts
      | _ => .error (.at_ t.start)
  | .blockValue, t :: ts =>
      match t.kind with
      | .value =>
          nodeOrEmpty (.node true true) endsBlockPart (fun _ => t.stop) (.blockKey :: goals) ts
      | _ => Step.found (emptyScalar t.start) (.blockKey :: goals) (t :: ts)
  | .flowEntry first, t :: ts =>
      if first || t.kind = .flowSequenceEnd then flowEntryStep goals (t :: ts)
      else afterComma (flowEntryStep goals) (t :: ts)
  | .pairKey, t :: ts =>
      if t.kind = .value || endsPairPart t.kind then
        -- the token that ends the key is used up
        Step.found (emptyScalar t.stop) (.pairValue :: goals) ts
      else Step.turn (.node false false :: .pairValue :: goals) (t :: ts)
  | .pairValue, t :: ts =>
      match t.kind with
      | .value =>
          nodeOrEmpty (.node false false) endsPairPart Token.start (.pairEnd :: goals) ts
      | _ => Step.found (emptyScalar t.start) (.pairEnd :: goals) (t :: ts)
  | .pairEnd, t :: ts => Step.found (.mappingEnd, t.start) goals (t :: ts)
  | .flowKey first, t :: ts =>
      if first || t.kind = .flowMappingEnd then flowKeyStep goals (t :: ts)
      else afterComma (flowKeyStep goals) (t :: ts)
  | .flowValue, t :: ts =>
      match t.kind with
      | .value =>
          nodeOrEmpty (.node false false) endsFlowPart Token.start (.flowKey false :: goals) ts
      | _ => Step.found (emptyScalar t.start) (.flowKey false :: goals) (t :: ts)
  | .flowNoValue, t :: ts => Step.found (emptyScalar t.start) (.flowKey false :: goals) (t :: ts)

/-- A row of events, with the reason why it ends early or the tokens after it. -/
structure EventRow where
  events : List PlacedEvent
  outcome : Except Halt (List Token)
  deriving Repr

/-- Works off the goals. -/
def workOff (handles : Handles) : (fuel : Nat) → List Goal → List Token → EventRow
  | 0, _, _ => ⟨[], .error .noToken⟩
  | _ + 1, [], ts => ⟨[], .ok ts⟩
  | fuel + 1, g :: goals, ts =>
      match g.step handles goals ts with
      | .error halt => ⟨[], .error halt⟩
      | .ok s =>
          let row := workOff handles fuel s.goals s.tokens
          ⟨s.event.toList ++ row.events, row.outcome⟩

/-! ### Documents -/

/-- The directives before a document: whether a version was given, and the handles. -/
structure Prologue where
  versioned : Bool
  handles : Handles
  deriving Repr, DecidableEq

/-- Reads the directives before a document. -/
def prologue (p : Prologue) : List Token → Except Halt (Handles × List Token)
  | [] => .error .noToken
  | ⟨.directive (.version major minor), m, _⟩ :: ts =>
      if p.versioned || major ≠ 1 || (minor ≠ 1 && minor ≠ 2) then .error (.at_ m)
      else prologue { p with versioned := true } ts
  | ⟨.directive (.tag handle start), m, _⟩ :: ts =>
      if (startOf? p.handles handle).isSome then .error (.at_ m)
      else prologue { p with handles := p.handles ++ [(handle, start)] } ts
  | t :: ts => .ok (p.handles ++ defaultHandles, t :: ts)

/-- Whether a token begins a document with directives or a mark. -/
def isExplicit (k : TokenKind) : Bool :=
  match k with
  | .directive _ => true
  | .documentStart => true
  | _ => false

/-- Whether a document is empty before this token. -/
def endsContent (k : TokenKind) : Bool :=
  isExplicit k || k = .documentEnd || k = .streamEnd

/-- The events of the content of a document. -/
def contentRow (handles : Handles) (explicit : Bool) : List Token → EventRow
  | [] => ⟨[], .error .noToken⟩
  | t :: ts =>
      if explicit && endsContent t.kind then ⟨[emptyScalar t.start], .ok (t :: ts)⟩
      -- a token takes a few steps at most
      else workOff handles (8 * (ts.length + 2)) [.node true false] (t :: ts)

/-- The events of the first document, unless the stream holds none. -/
def firstRow : List Token → Option EventRow
  | [] => some ⟨[], .error .noToken⟩
  | t :: ts =>
      if t.kind = .streamEnd then none
      else if isExplicit t.kind then
        match prologue ⟨false, []⟩ (t :: ts) with
        | .error halt => some ⟨[], .error halt⟩
        | .ok (_, []) => some ⟨[], .error .noToken⟩
        | .ok (handles, t :: ts) =>
            if t.kind = .documentStart then some (contentRow handles true ts)
            else some ⟨[], .error (.at_ t.start)⟩
      else some (contentRow defaultHandles false (t :: ts))

/-- Whether nothing but marks of its end and the end of the stream follow a document. -/
def endsStream (ts : List Token) : Bool :=
  match ts.dropWhile fun t => t.kind = .documentEnd with
  | t :: _ => t.kind = .streamEnd
  | [] => false

/-- The events of a stream. -/
structure EventStream where
  /-- The events of the first document; none if there is no document. -/
  events : List PlacedEvent
  present : Bool
  /-- The place of the fault with which the events end. -/
  fault : Option Mark
  more : Bool
  deriving Repr

/-- The events of a row whose tokens may end in a fault. -/
def EventStream.ofRow (lexical : Option Mark) (row : EventRow) : EventStream :=
  match row.outcome with
  | .error (.at_ m) => ⟨row.events, true, some m, false⟩
  | .error .noToken => ⟨row.events, true, some (lexical.getD .zero), false⟩
  | .ok [] => ⟨row.events, true, some (lexical.getD .zero), false⟩
  | .ok (t :: ts) => ⟨row.events, true, none, !endsStream (t :: ts)⟩

/-- The events of a stream of characters. -/
def events (cs : List Char) : EventStream :=
  let (ts, lexical) := tokens cs
  match firstRow ts with
  | none => ⟨[], false, none, false⟩
  | some row => .ofRow lexical row

end Yaml

end SecretResolver
