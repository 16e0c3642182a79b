/-
**Anchors, tags and directives.**

An anchor gives a node a name, a tag gives it a type, and directives say how tags are abbreviated.

Main definitions:

* `Yaml.anchorName` — the name of an anchor or alias;
* `Yaml.TagText`, `Yaml.tag` — a tag as a handle and a suffix;
* `Yaml.Directive`, `Yaml.directive`.
-/

import SecretResolver.Yaml.Scalar

set_option relaxedAutoImplicit false
set_option autoImplicit false

namespace SecretResolver

namespace Yaml

/-! ### Anchors -/

/-- The characters that may follow the name of an anchor directly. -/
def endsAnchor (ch : Char) : Bool :=
  isSpace ch || ch == '?' || ch == ':' || ch == ',' || ch == ']' || ch == '\x7d' || ch == '%' ||
    ch == '@' || ch == '\x60'

/-- The name after the indicator of an anchor or alias. -/
def anchorName (c : Cursor) : Scan (List Char) :=
  let (name, c) := c.next.takeWhile Text.isNameChar
  if name.isEmpty || !c.peek.all endsAnchor then .error c.mark else .ok (name, c)

/-! ### Tags -/

/-- A tag: a suffix to what its handle stands for.  Without a handle the suffix is the tag. -/
structure TagText where
  handle : List Char
  suffix : List Char
  deriving Repr, DecidableEq

/-- The characters of a tag besides those of names. -/
def isTagChar (verbatim : Bool) (ch : Char) : Bool :=
  Text.isNameChar ch || ch ∈ ";/?:@&=+$.%!~*\x27()".toList || (verbatim && ch ∈ ",[]".toList)

/-- The number of bytes of a character that begins with this byte. -/
def octetWidth? (n : Nat) : Option Nat :=
  if n < 0x80 then some 1
  else if n / 0x20 = 6 then some 2
  else if n / 0x10 = 14 then some 3
  else if n / 8 = 30 then some 4
  else none

/-- One byte written as a percent sign and two digits. -/
def octet (c : Cursor) : Scan Nat :=
  match c.rest with
  | '%' :: a :: b :: _ =>
      match Text.hexDigit? a, Text.hexDigit? b with
      | some a, some b => .ok (16 * a + b, c.skip 3)
      | _, _ => .error c.mark
  | _ => .error c.mark

/-- The further bytes of a character. -/
def moreOctets : (n : Nat) → Cursor → Scan Bytes
  | 0, c => .ok ([], c)
  | n + 1, c =>
      match octet c with
      | .error m => .error m
      | .ok (b, after) =>
          if b / 0x40 ≠ 2 then .error c.mark
          else
            match moreOctets n after with
            | .error m => .error m
            | .ok (bs, c) => .ok (UInt8.ofNat b :: bs, c)

/-- A character written as bytes with percent signs. -/
def octets (c : Cursor) : Scan (List Char) :=
  match octet c with
  | .error m => .error m
  | .ok (b, after) =>
      match octetWidth? b with
      | none => .error c.mark
      | some n =>
          match moreOctets (n - 1) after with
          | .error m => .error m
          | .ok (bs, c) => .ok ((Utf8.decode (UInt8.ofNat b :: bs)).1, c)

/-- The characters of a tag or of what a handle stands for. -/
def tagChars (verbatim : Bool) : (fuel : Nat) → Cursor → Scan (List Char)
  | 0, c => .ok ([], c)
  | fuel + 1, c =>
      let more (cs : List Char) (c : Cursor) : Scan (List Char) :=
        match tagChars verbatim fuel c with
        | .error m => .error m
        | .ok (ds, c) => .ok (cs ++ ds, c)
      match c.peek with
      | none => .ok ([], c)
      | some ch =>
          if !isTagChar verbatim ch then .ok ([], c)
          else if ch == '%' then
            match octets c with
            | .error m => .error m
            | .ok (cs, c) => more cs c
          else more [ch] c.next

/-- The characters of a tag after those already read; there must be at least one. -/
def tagBody (verbatim : Bool) (before : List Char) (c : Cursor) : Scan (List Char) :=
  match tagChars verbatim (c.rest.length + 1) c with
  | .error m => .error m
  | .ok (cs, after) =>
      if before.isEmpty && after.mark.index == c.mark.index then .error after.mark
      else .ok (before.drop 1 ++ cs, after)

/-- A beginning of a tag that may be its handle. -/
def tagHandle (c : Cursor) : List Char × Cursor :=
  let (name, c) := c.next.takeWhile Text.isNameChar
  if c.sees '!' then ('!' :: name ++ ['!'], c.next) else ('!' :: name, c)

/-- A tag in angle brackets, from its indicator on. -/
def verbatimTag (c : Cursor) : Scan TagText :=
  match tagBody true [] (c.skip 2) with
  | .error m => .error m
  | .ok (suffix, c) => if c.sees '>' then .ok (⟨[], suffix⟩, c.next) else .error c.mark

/-- A tag with a handle, from its indicator on.  What is no handle belongs to the suffix of the
handle with one mark, and a single mark is a tag of its own. -/
def shortTag (c : Cursor) : Scan TagText :=
  let (handle, c) := tagHandle c
  if 2 ≤ handle.length && handle.getLast? == some '!' then
    match tagBody false [] c with
    | .error m => .error m
    | .ok (suffix, c) => .ok (⟨handle, suffix⟩, c)
  else
    match tagBody false handle c with
    | .error m => .error m
    | .ok (suffix, c) =>
        if suffix.isEmpty then .ok (⟨[], ['!']⟩, c) else .ok (⟨['!'], suffix⟩, c)

/-- A tag, from its indicator on; within brackets a comma may follow it directly. -/
def tag (flow : Bool) (c : Cursor) : Scan TagText :=
  match (if c.next.sees '<' then verbatimTag c else shortTag c) with
  | .error m => .error m
  | .ok (t, c) =>
      if c.atSpaceOrEnd || (flow && c.sees ',') then .ok (t, c) else .error c.mark

/-! ### Directives -/

/-- What a directive says. -/
inductive Directive where
  | version (major minor : Nat)
  | tag (handle start : List Char)
  deriving Repr, DecidableEq

/-- The greatest number of digits of a version number. -/
def versionDigits : Nat := 9

/-- A version number. -/
def versionNumber (c : Cursor) : Scan Nat :=
  let (ds, after) := c.takeWhile fun ch => '0' ≤ ch && ch ≤ '9'
  if ds.isEmpty then .error c.mark
  else if versionDigits < ds.length then .error (c.skip versionDigits).mark
  else .ok (ds.foldl (fun n ch => 10 * n + (ch.toNat - 48)) 0, after)

/-- The two numbers of a version. -/
def versionValue (c : Cursor) : Scan Directive :=
  match versionNumber (c.skipWhile Text.isBlank) with
  | .error m => .error m
  | .ok (major, c) =>
      if !c.sees '.' then .error c.mark
      else
        match versionNumber c.next with
        | .error m => .error m
        | .ok (minor, c) => .ok (.version major minor, c)

/-- A handle and what it stands for. -/
def tagValue (c : Cursor) : Scan Directive :=
  let c := c.skipWhile Text.isBlank
  if !c.sees '!' then .error c.mark
  else
    let (handle, c) := tagHandle c
    if handle.getLast? ≠ some '!' || !c.at_ Text.isBlank then .error c.mark
    else
      match tagBody true [] (c.skipWhile Text.isBlank) with
      | .error m => .error m
      | .ok (start, c) => if c.atSpaceOrEnd then .ok (.tag handle start, c) else .error c.mark

/-- The name of a directive. -/
def directiveName (c : Cursor) : Scan (List Char) :=
  let (name, c) := c.takeWhile Text.isNameChar
  if name.isEmpty || !c.atSpaceOrEnd then .error c.mark else .ok (name, c)

/-- A directive with the end of its line, from its indicator on, and the place after its value. -/
def directive (c : Cursor) : Scan (Directive × Mark) :=
  match directiveName c.next with
  | .error m => .error m
  | .ok (name, afterName) =>
      let value :=
        if name = "YAML".toList then versionValue afterName
        else if name = "TAG".toList then tagValue afterName
        else .error afterName.mark
      match value with
      | .error m => .error m
      | .ok (d, after) =>
          match after.lineEnd? with
          | none => .error (after.skipWhile Text.isBlank).mark
          | some c => .ok ((d, after.mark), c)

end Yaml

end SecretResolver
