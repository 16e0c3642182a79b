/-
**Texts for JSON and for YAML.**

Nearly every JSON text is YAML as well.  The grammar here is that of JSON, with what YAML asks for
beyond it: within quotes a character stands for itself only if a stream may hold it and it ends no
line; no character is written as a pair of escapes; a name ends on the line on which it begins,
and with its colon at most so many characters later; outside of all brackets a tab stands only on
the line on which the value ends; and no object has a name twice.  All numbers are integers of 64
bits.

Main definitions:

* `Interchange.Stands` — what may stand for a character within quotes;
* `Interchange.Denotes`, `Interchange.Items`, `Interchange.Members` — the texts of values and of
  what stands within brackets;
* `Interchange.Whole` — complete texts.
-/

import SecretResolver.Document.Decoding
import SecretResolver.Proofs.Text.Spelled
import SecretResolver.Yaml.Node

set_option relaxedAutoImplicit false
set_option autoImplicit false

namespace SecretResolver

namespace Interchange

open Json (Value)

/-! ### Within quotes -/

/-- The characters that stand for themselves. -/
def isOrdinary (c : Char) : Bool :=
  32 ≤ c.toNat && Yaml.isAllowed c && !Yaml.isBreak c && c != '"' && c != '\\'

/-- The letters of escapes, each with the character that it stands for. -/
def escapes : List (Char × Char) :=
  [('"', '"'), ('\\', '\\'), ('/', '/'), ('b', '\x08'), ('f', '\x0c'), ('n', '\n'), ('r', '\r'),
    ('t', '\t')]

/-- What may stand for a character. -/
inductive Stands : Char → List Char → Prop
  | ordinary {c : Char} (h : isOrdinary c = true) : Stands c [c]
  | letter {l c : Char} (h : (l, c) ∈ escapes) : Stands c ['\\', l]
  /-- Four hexadecimal digits that denote the number of the character. -/
  | number {c : Char} {ds : List Char} (hlength : ds.length = 4)
      (h : Yaml.hexNumber? ds = some c.toNat) : Stands c ('\\' :: 'u' :: ds)

/-- What stands between quotes, with the quotes. -/
def quotation (body : List Char) : List Char := '"' :: body ++ ['"']

/-! ### Blanks -/

/-- Blanks between what belongs together. -/
def Blanks (ws : List Char) : Prop := ∀ c ∈ ws, c = ' ' ∨ c = '\t' ∨ c = '\n' ∨ c = '\r'

instance (ws : List Char) : Decidable (Blanks ws) :=
  List.decidableBAll (fun c => c = ' ' ∨ c = '\t' ∨ c = '\n' ∨ c = '\r') ws

/-- Blanks before a colon. -/
def Inline (ws : List Char) : Prop := ∀ c ∈ ws, c = ' ' ∨ c = '\t'

instance (ws : List Char) : Decidable (Inline ws) :=
  List.decidableBAll (fun c => c = ' ' ∨ c = '\t') ws

/-- Blanks before a value that stands in no brackets. -/
def Untabbed (ws : List Char) : Prop := ∀ c ∈ ws, c = ' ' ∨ c = '\n' ∨ c = '\r'

instance (ws : List Char) : Decidable (Untabbed ws) :=
  List.decidableBAll (fun c => c = ' ' ∨ c = '\n' ∨ c = '\r') ws

/-- Blanks after a value that stands in no brackets: tabs stand on the line on which it ends. -/
def Trailing (ws : List Char) : Prop := Blanks ws ∧ '\t' ∉ ws.dropWhile Text.isBlank

instance (ws : List Char) : Decidable (Trailing ws) :=
  inferInstanceAs (Decidable (Blanks ws ∧ '\t' ∉ ws.dropWhile Text.isBlank))

theorem Inline.blanks {ws : List Char} (h : Inline ws) : Blanks ws := by
  intro c hc
  rcases h c hc with rfl | rfl
  · exact .inl rfl
  · exact .inr (.inl rfl)

theorem Untabbed.blanks {ws : List Char} (h : Untabbed ws) : Blanks ws := by
  intro c hc
  rcases h c hc with rfl | hc
  · exact .inl rfl
  · exact .inr (.inr hc)

theorem Blanks.append {ws ws' : List Char} (h : Blanks ws) (h' : Blanks ws') :
    Blanks (ws ++ ws') := by
  intro c hc
  rcases List.mem_append.1 hc with hc | hc
  · exact h c hc
  · exact h' c hc

/-! ### Values -/

/-- What stands before an item or a member: nothing before the first one, else a comma. -/
inductive Lead : Bool → List Char → Prop
  | first : Lead true []
  | comma {ws : List Char} (hws : Blanks ws) : Lead false (',' :: ws)

mutual

/-- The texts of a value whose arrays and objects are nested at most `depth` deep. -/
inductive Denotes : Nat → Value → List Char → Prop
  | null (depth : Nat) : Denotes depth .null "null".toList
  | flag (depth : Nat) (b : Bool) : Denotes depth (.flag b) (Document.flagText b).toList
  | integer (depth : Nat) {n : Int} (hn : Yaml.isWord n = true) :
      Denotes depth (.number (.integer n)) (toString n).toList
  | text (depth : Nat) {s : String} {body : List Char} (h : Text.Spelled Stands s.toList body) :
      Denotes depth (.text s) (quotation body)
  | array {depth : Nat} {ws body : List Char} {vs : List Value} (hws : Blanks ws)
      (h : Items depth true vs body) :
      Denotes (depth + 1) (.array vs) ('[' :: (ws ++ body ++ [']']))
  | object {depth : Nat} {ws body : List Char} {ms : List (String × Value)} (hws : Blanks ws)
      (h : Members depth true ms body) (hnames : (ms.map Prod.fst).Nodup) :
      Denotes (depth + 1) (.object ms) ('\x7b' :: (ws ++ body ++ ['\x7d']))

/-- The items of an array, up to its closing bracket. -/
inductive Items : Nat → Bool → List Value → List Char → Prop
  | done (depth : Nat) (first : Bool) : Items depth first [] []
  | more {depth : Nat} {first : Bool} {v : Value} {vs : List Value} {lead cs ws body : List Char}
      (hlead : Lead first lead) (hv : Denotes depth v cs) (hws : Blanks ws)
      (h : Items depth false vs body) : Items depth first (v :: vs) (lead ++ (cs ++ (ws ++ body)))

/-- The members of an object, up to its closing brace. -/
inductive Members : Nat → Bool → List (String × Value) → List Char → Prop
  | done (depth : Nat) (first : Bool) : Members depth first [] []
  | more {depth : Nat} {first : Bool} {name : String} {v : Value} {ms : List (String × Value)}
      {lead spelled gap before cs ws body : List Char} (hlead : Lead first lead)
      (hname : Text.Spelled Stands name.toList spelled) (hgap : Inline gap)
      (hlength : (quotation spelled ++ gap).length ≤ Yaml.keyLength) (hbefore : Blanks before)
      (hv : Denotes depth v cs) (hws : Blanks ws) (h : Members depth false ms body) :
      Members depth first ((name, v) :: ms)
        (lead ++ (quotation spelled ++ (gap ++ ':' :: (before ++ (cs ++ (ws ++ body))))))

end

/-- The complete texts of a value. -/
inductive Whole : Value → List Char → Prop
  | mk {v : Value} {before cs after : List Char} (hbefore : Untabbed before)
      (h : Denotes Json.maxDepth v cs) (hafter : Trailing after) :
      Whole v (before ++ (cs ++ after))

end Interchange

end SecretResolver
