/-
**Texts for JSON and for YAML: the tokens of YAML.**

What a text is lexed to depends on its value alone: every bracket, comma and scalar is one token,
and a name with its colon is three, since the token that begins a key goes in before it.

Main definitions:

* `Yaml.kinds` — the kinds of the tokens of a value;
* `Lexer.Lexes` — what the lexer makes of a text up to what comes after it.

Main results:

* `Lexer.lexes_name`, `Lexer.lexes_text`, `Lexer.lexes_bare` — names and scalars;
* `Lexer.lexes_denotes` — **the tokens of a value**;
* `tokens_whole` — **the tokens of a complete text**.
-/

import SecretResolver.Proofs.Interchange.Flow

set_option relaxedAutoImplicit false
set_option autoImplicit false

namespace SecretResolver

namespace Yaml

open Json (Value)
open Interchange (Blanks Inline Lead Denotes Items Members Whole quotation)

variable {m : Mark} {cs w ws rest : List Char} {d : Nat}

/-! ### Kinds of tokens -/

/-- The token before an item or a member. -/
def leadKinds (first : Bool) : List TokenKind := if first then [] else [.flowEntry]

mutual

/-- The tokens of a value. -/
def kinds : Value → List TokenKind
  | .null => [.scalar "null".toList .plain]
  | .flag b => [.scalar (Document.flagText b).toList .plain]
  | .number n => [.scalar n.text.toList .plain]
  | .text s => [.scalar s.toList .marked]
  | .array vs => .flowSequenceStart :: (itemKinds true vs ++ [.flowSequenceEnd])
  | .object ms => .flowMappingStart :: (memberKinds true ms ++ [.flowMappingEnd])

/-- The tokens of the items of an array. -/
def itemKinds (first : Bool) : List Value → List TokenKind
  | [] => []
  | v :: vs => leadKinds first ++ (kinds v ++ itemKinds false vs)

/-- The tokens of the members of an object. -/
def memberKinds (first : Bool) : List (String × Value) → List TokenKind
  | [] => []
  | (name, v) :: ms =>
      leadKinds first ++ ([.key, .scalar name.toList .marked, .value] ++
        (kinds v ++ memberKinds false ms))

end

namespace Lexer

variable {l : Lexer} {held : List Token} {allowed : Bool} {p : Option PendingKey}
  {o : List (Option PendingKey)} {a b : Bool} {d' : Nat} {ch : Char} {kind : TokenKind}

/-! ### Tokens -/

/-- What may turn out to be a key when a token begins here. -/
def keyHere (m : Mark) (held : List Token) (allowed : Bool) (p : Option PendingKey) :
    Option PendingKey :=
  if allowed then some ⟨false, held.length, m⟩ else p

theorem Lax.keyHere (h : Lax p o) (m : Mark) (held : List Token) (allowed : Bool) :
    Lax (keyHere m held allowed p) o := by
  cases allowed with
  | true => exact ⟨rfl, h.2⟩
  | false => exact h

theorem dropKey_flow (h : Optional p) (c : Cursor) :
    (flow c held allowed p o).dropKey = .ok (flow c held allowed none o) := by
  cases p with
  | none => rfl
  | some k =>
      have hk : k.required = false := by simpa [Optional] using h
      simp [dropKey, flow, hk]

/-- No key has to begin here. -/
theorem saveKey_flow (h : Optional p) (c : Cursor) :
    (flow c held allowed p o).saveKey =
      .ok (flow c held allowed (keyHere c.mark held allowed p) o) := by
  cases allowed with
  | false => rfl
  | true =>
      have hindent : ((-1 : Int) == (c.mark.column : Int)) = false := by
        rw [beq_eq_false_iff_ne]
        omega
      have hallowed : (flow c held true p o).keyAllowed = true := rfl
      rw [saveKey, if_pos hallowed, dropKey_flow h]
      simp [flow, keyHere, mark, hindent]

theorem fetchOpening_flow (h : Optional p) (c : Cursor) (kind : TokenKind) :
    (flow c held allowed p o).fetchOpening kind =
      .ok (flow (c.skip 1) (held ++ [⟨kind, c.mark, (c.skip 1).mark⟩]) true none
        (keyHere c.mark held allowed p :: o)) := by
  rw [fetchOpening, saveKey_flow h]
  rfl

theorem fetchQuoted_flow {q : Quote} {c c' : Cursor} {text : List Char} (h : Optional p)
    (hread : quoted q c = .ok (text, c')) :
    (flow c held allowed p o).fetchQuoted q =
      .ok (flow c' (held ++ [⟨.scalar text .marked, c.mark, c'.mark⟩]) false
        (keyHere c.mark held allowed p) o) := by
  have hquoted : quoted q (flow c held allowed (keyHere c.mark held allowed p) o).cursor =
      .ok (text, c') := hread
  simp only [fetchQuoted, fetchNode, saveKey_flow h, hquoted, upTo]
  rfl

theorem fetchPlain_flow {c c' : Cursor} {r : Plain} (h : Optional p)
    (hread : plain (o.length != 0) 0 c = .ok (r, c')) :
    (flow c held allowed p o).fetchPlain =
      .ok (flow c' (held ++ [⟨.scalar r.text .plain, c.mark, r.stop⟩]) r.broken
        (keyHere c.mark held allowed p) o) := by
  have hflow : (flow c held allowed (keyHere c.mark held allowed p) o).inFlow =
      (o.length != 0) := by
    cases o <;> rfl
  have hindent : (flow c held allowed (keyHere c.mark held allowed p) o).indent + 1 = 0 := rfl
  have hcursor : (flow c held allowed (keyHere c.mark held allowed p) o).cursor = c := rfl
  simp only [fetchPlain, saveKey_flow h, hflow, hindent, hcursor, hread]
  rfl

theorem fetchClosing_flow {k : Option PendingKey} (h : Optional p) (c : Cursor)
    (kind : TokenKind) :
    (flow c held allowed p (k :: o)).fetchClosing kind =
      .ok (flow (c.skip 1) (held ++ [⟨kind, c.mark, (c.skip 1).mark⟩]) false k o) := by
  rw [fetchClosing, dropKey_flow h]
  rfl

theorem fetchFlowEntry_flow (h : Optional p) (c : Cursor) :
    (flow c held allowed p o).fetchFlowEntry =
      .ok (flow (c.skip 1) (held ++ [⟨.flowEntry, c.mark, (c.skip 1).mark⟩]) true none o) := by
  rw [fetchFlowEntry, dropKey_flow h]
  rfl

/-- What the lexer makes of a text up to what comes after it. -/
structure Lexes (d : Nat) (a : Bool) (text : List Char) (d' : Nat) (b : Bool) (rest : List Char)
    (ks : List TokenKind) : Prop where
  length : ks.length ≤ text.length
  fetches : ∀ {held : List Token} {l : Lexer}, Before d a held (text ++ rest) l →
    ∃ n ts l', n ≤ ts.length ∧ ts.map Token.kind = ks ∧ fetchTimes n l = .ok l' ∧
      Before d' b (held ++ ts) rest l'

variable {text text' : List Char} {ks ks' : List TokenKind}

theorem Lexes.trans {d'' : Nat} {e : Bool} (h : Lexes d a text d' b (text' ++ rest) ks)
    (h' : Lexes d' b text' d'' e rest ks') : Lexes d a (text ++ text') d'' e rest (ks ++ ks') := by
  refine ⟨?_, fun {held l} hl => ?_⟩
  · have hlength := h.length
    have hlength' := h'.length
    rw [List.length_append, List.length_append]
    omega
  · rw [List.append_assoc] at hl
    obtain ⟨n, ts, l₁, hn, hts, hfetch, hl₁⟩ := h.fetches hl
    obtain ⟨k, us, l₂, hk, hus, hfetch', hl₂⟩ := h'.fetches hl₁
    refine ⟨n + k, ts ++ us, l₂, ?_, ?_, fetchTimes_trans hfetch hfetch', ?_⟩
    · rw [List.length_append]
      omega
    · rw [List.map_append, hts, hus]
    · rwa [← List.append_assoc]

/-- A key need not begin. -/
theorem Lexes.mono (h : Lexes d false text d' b rest ks) (a : Bool) :
    Lexes d a text d' b rest ks :=
  ⟨h.length, fun hl => h.fetches hl.mono⟩

/-- Blanks are no token. -/
theorem lexes_gaps (hws : Gaps d true ws) (a : Bool) (rest : List Char) :
    Lexes d a ws d a rest [] :=
  ⟨Nat.zero_le _, fun {held l} hl =>
    ⟨0, [], l, Nat.le_refl _, rfl, rfl, by rw [List.append_nil]; exact hl.gaps hws⟩⟩

/-- One token. -/
theorem lexes_one (hpos : 0 < text.length)
    (h : ∀ {held : List Token} {l : Lexer}, Before d a held (text ++ rest) l →
      ∃ m m' l', l.fetch = .ok l' ∧ Before d' b (held ++ [⟨kind, m, m'⟩]) rest l') :
    Lexes d a text d' b rest [kind] := by
  refine ⟨hpos, fun {held l} hl => ?_⟩
  obtain ⟨m, m', l', hfetch, hl'⟩ := h hl
  exact ⟨1, [⟨kind, m, m'⟩], l', Nat.le_refl _, rfl, fetchTimes_one hfetch, hl'⟩

/-- **An opening bracket.** -/
theorem lexes_opening (hch : ch ∈ marks) (hat : ∀ l : Lexer, l.fetchAt ch = l.fetchOpening kind)
    (d : Nat) (rest : List Char) : Lexes d false [ch] (d + 1) true rest [kind] := by
  refine lexes_one (Nat.succ_pos _) fun {held l} hl => ?_
  obtain ⟨m, allowed, p, o, hfetch, rfl, hlax, -⟩ := hl.fetch_mark hch
  rw [hat, fetchOpening_flow hlax.1] at hfetch
  have hkey := hlax.keyHere m held allowed
  have houter : Lax none (keyHere m held allowed p :: o) := by
    refine ⟨rfl, fun k hk => ?_⟩
    rcases List.mem_cons.1 hk with rfl | hk
    · exact hkey.1
    · exact hkey.2 k hk
  exact ⟨_, _, _, hfetch, before_key rfl houter rest _⟩

/-- **A closing bracket** with the blanks after it. -/
theorem lexes_closing (hch : ch ∈ marks) (hat : ∀ l : Lexer, l.fetchAt ch = l.fetchClosing kind)
    (hws : Gaps d false ws) (rest : List Char) :
    Lexes (d + 1) false (ch :: ws) d false rest [kind] := by
  refine lexes_one (Nat.succ_pos _) fun {held l} hl => ?_
  obtain ⟨m, allowed, p, o, hfetch, ho, hlax, -⟩ := hl.fetch_mark hch
  obtain ⟨k, o, rfl⟩ : ∃ k ks, o = k :: ks := List.exists_cons_of_length_eq_add_one ho
  rw [hat, fetchClosing_flow hlax.1] at hfetch
  have houter : Lax k o := ⟨hlax.2 k (by simp), fun k hk => hlax.2 k (by simp [hk])⟩
  exact ⟨_, _, _, hfetch, before_flow hws (Nat.succ.inj ho) houter rest _⟩

/-- **A comma.** -/
theorem lexes_comma (d : Nat) (rest : List Char) :
    Lexes d false [','] d true rest [.flowEntry] := by
  refine lexes_one (Nat.succ_pos _) fun {held l} hl => ?_
  obtain ⟨m, allowed, p, o, hfetch, ho, hlax, -⟩ := hl.fetch_mark (by decide)
  have hat (l : Lexer) : l.fetchAt ',' = l.fetchFlowEntry := rfl
  rw [hat, fetchFlowEntry_flow hlax.1] at hfetch
  have houter : Lax none o := ⟨rfl, hlax.2⟩
  exact ⟨_, _, _, hfetch, before_key ho houter rest _⟩

/-! ### Scalars -/

/-- **A text in quotes.**  If a key may begin, one does. -/
theorem fetch_quotation (hw : Text.Spelled Interchange.Stands cs w)
    (hl : Before d a held (quotation w ++ rest) l) :
    ∃ m p o, l.fetch = .ok (flow ⟨rest, m.after (quotation w)⟩
        (held ++ [⟨.scalar cs .marked, m, m.after (quotation w)⟩]) false p o) ∧
      o.length = d ∧ Lax p o ∧ (a = true → p = some ⟨false, held.length, m⟩) := by
  have hquotation : quotation w ++ rest = '"' :: (w ++ ['"'] ++ rest) := rfl
  rw [hquotation] at hl
  obtain ⟨m, allowed, p, o, hfetch, ho, hlax, ha⟩ := hl.fetch_mark (by decide)
  have hat (l : Lexer) : l.fetchAt '"' = l.fetchQuoted .double := rfl
  rw [hat, ← hquotation, fetchQuoted_flow hlax.1 (quoted_quotation hw rest m)] at hfetch
  refine ⟨m, keyHere m held allowed p, o, hfetch, ho, hlax.keyHere m held allowed, fun h => ?_⟩
  rw [keyHere, if_pos (ha h)]

theorem lexes_text (hw : Text.Spelled Interchange.Stands cs w) (hws : Gaps d false ws)
    (rest : List Char) :
    Lexes d false (quotation w ++ ws) d false rest [.scalar cs .marked] := by
  refine lexes_one (by simp [quotation]) fun {held l} hl => ?_
  rw [List.append_assoc] at hl
  obtain ⟨m, p, o, hfetch, ho, hlax, -⟩ := fetch_quotation hw hl
  exact ⟨_, _, _, hfetch, before_flow hws ho hlax rest _⟩

/-- What indicates nothing begins a plain scalar. -/
theorem fetchAt_of_not_isIndicator (h : isIndicator ch = false) (hs : isSpace ch = false)
    (l : Lexer) : l.fetchAt ch = l.fetchPlain := by
  have hne := h
  simp [isIndicator] at hne
  simp [fetchAt, beginsPlain, hne, h, hs]

/-- A dash begins a plain scalar if no blank follows. -/
theorem fetchAt_dash {c : Char} (hc : isSpace c = false) (rest : List Char) (m : Mark) :
    (flow ⟨'-' :: c :: rest, m⟩ held allowed p o).fetchAt '-' =
      (flow ⟨'-' :: c :: rest, m⟩ held allowed p o).fetchPlain := by
  have hblank : Text.isBlank c = false := (Bool.or_eq_false_iff.1 hc).1
  simp [fetchAt, beginsPlain, flow, Cursor.next, Cursor.atSpaceOrEnd, Cursor.at_, Cursor.peek, hc,
    hblank]

/-- A word begins a plain scalar. -/
theorem fetchAt_bare (hw : Bare (ch :: w)) (rest : List Char) (m : Mark) :
    (flow ⟨ch :: w ++ rest, m⟩ held allowed p o).fetchAt ch =
      (flow ⟨ch :: w ++ rest, m⟩ held allowed p o).fetchPlain := by
  obtain ⟨c, cs, hc, hcons⟩ := hw.begins
  have hbare : Yaml.isBare c = true := by simp [Yaml.isBare, hc]
  rcases hcons with hcons | hcons
  · obtain ⟨rfl, rfl⟩ := List.cons.inj hcons
    have hindicators : ∀ d ∈ "-?:,[]\x7b\x7d#&*!|>\x27\"%@\x60".toList,
        Text.isAlphanumeric d = false := List.forall_iff_forall_mem.1 (by decide)
    have hindicator : isIndicator ch = false := by
      rw [isIndicator, decide_eq_false_iff_not]
      intro hmem
      rw [hindicators ch hmem] at hc
      exact absurd hc Bool.false_ne_true
    exact fetchAt_of_not_isIndicator hindicator (isSpace_of_isBare hbare) _
  · obtain ⟨rfl, rfl⟩ := List.cons.inj hcons
    exact fetchAt_dash (isSpace_of_isBare hbare) (cs ++ rest) m

theorem starts_bare (hw : Bare (ch :: w)) (rest : List Char) : Starts (ch :: rest) := by
  have hbare := hw.isBare ch (by simp)
  rintro d ⟨⟩
  exact ⟨isShown_of_isBare hbare, isSpace_of_isBare hbare, ne_of_isBare hbare rfl⟩

/-- **A word** with the blanks after it. -/
theorem lexes_bare (hw : Bare w) (hws : Blanks ws) (hrest : Stops (d != 0) rest) :
    Lexes d false (w ++ ws) d false rest [.scalar w .plain] := by
  obtain ⟨ch, w, rfl⟩ : ∃ ch cs, w = ch :: cs := by
    obtain ⟨c, cs, -, rfl | rfl⟩ := hw.begins <;> exact ⟨_, _, rfl⟩
  refine lexes_one (by simp) fun {held l} hl => ?_
  rw [List.append_assoc] at hl
  have hpercent : ch ≠ '%' := ne_of_isBare (hw.isBare ch (by simp)) rfl
  obtain ⟨m, allowed, p, o, hfetch, rfl, hlax, -⟩ := hl.fetch (starts_bare hw (ws ++ rest)) hpercent
    fun m => (hw.not_atDocumentMark (ws ++ rest) m).1
  obtain ⟨stop, broken, m', hread⟩ := plain_bare hw hws hrest m
  have hplain := hfetch.trans ((fetchAt_bare hw (ws ++ rest) m).trans
    (fetchPlain_flow hlax.1 hread))
  exact ⟨_, _, _, hplain, before_flow (gaps_nil _ _) rfl (hlax.keyHere m held allowed) rest _⟩

/-- A colon makes a key of what is pending. -/
theorem fetchValue_flow {m₀ : Mark} {k : Option PendingKey} (c : Cursor) (t : Token) :
    (flow c (held ++ [t]) allowed (some ⟨false, held.length, m₀⟩) (k :: o)).fetchValue =
      .ok (flow (c.skip 1)
        (held ++ [⟨.key, m₀, m₀⟩, t, ⟨.value, c.mark, (c.skip 1).mark⟩]) false none (k :: o)) := by
  simp [fetchValue, flow, insert, openBlock, inFlow, emitHere, mark]

/-- The colon of a key comes soon enough for the key to be still pending. -/
theorem fetch_pendingColon {gap : List Char} {d : Nat} (hline : ∀ c ∈ w, isBreak c = false)
    (hgap : Inline gap) (hlength : (w ++ gap).length ≤ keyLength) (ho : o.length = d + 1)
    (hlax : Lax none o) (t : Token) (m : Mark) (rest : List Char) :
    ∃ m₁ m₂ l', (flow ⟨gap ++ ':' :: rest, m.after w⟩ (held ++ [t]) false
        (some ⟨false, held.length, m⟩) o).fetch = .ok l' ∧
      Before (d + 1) false (held ++ [⟨.key, m, m⟩, t, ⟨.value, m₁, m₂⟩]) rest l' := by
  obtain ⟨k, o, rfl⟩ : ∃ k ks, o = k :: ks := List.exists_cons_of_length_eq_add_one ho
  have hgaps : Gaps (k :: o).length false gap := gaps_of_blanks hgap.blanks _
  have hpending : Lax (some ⟨false, held.length, m⟩) (k :: o) := ⟨rfl, hlax.2⟩
  obtain ⟨m', allowed, -, hinline, hready⟩ := ready_gaps hgaps
    (starts_mark (by decide : ':' ∈ marks) rest) hpending (m.after w) (held ++ [t])
  have hfresh : fresh? m' (some ⟨false, held.length, m⟩) = some ⟨false, held.length, m⟩ := by
    have hgapline : ∀ c ∈ w ++ gap, isBreak c = false := by
      intro c hc
      rcases List.mem_append.1 hc with hc | hc
      · exact hline c hc
      · rcases hgap c hc with rfl | rfl <;> rfl
    have hmark : m' = ⟨m.index + (w ++ gap).length, m.line, m.column + (w ++ gap).length⟩ := by
      rw [hinline hgap, ← Mark.after_append, Mark.after_of_line hgapline]
    have hstale : PendingKey.isStale ⟨false, held.length, m⟩ m' = false := by
      simp only [PendingKey.isStale, hmark, Bool.or_eq_false_iff, decide_eq_false_iff_not]
      omega
    simp [fresh?, hstale]
  rw [hfresh] at hready
  have hcolon := (fetch_of_ready hready).trans (fetchReady_of_unindent (unindent_flow _ _) rfl
    (fun _ => by decide) ((not_rule_of_mark (by decide : ':' ∈ marks) rest).2 m'))
  have houter : Lax none ((k :: o).map (fresh? m')) := hlax.fresh m'
  exact ⟨_, _, _, hcolon.trans (fetchValue_flow ⟨':' :: rest, m'⟩ t),
    before_flow (gaps_nil _ _) ((List.length_map _).trans ho) houter rest _⟩

/-- **A name** with its colon. -/
theorem lexes_name {gap : List Char} (hw : Text.Spelled Interchange.Stands cs w)
    (hgap : Inline gap) (hlength : (quotation w ++ gap).length ≤ keyLength) (d : Nat)
    (rest : List Char) :
    Lexes (d + 1) true (quotation w ++ (gap ++ [':'])) (d + 1) false rest
      [.key, .scalar cs .marked, .value] := by
  have hthree : 3 ≤ (quotation w ++ (gap ++ [':'])).length := by
    simp only [quotation, List.length_append, List.length_cons, List.length_nil]
    omega
  refine ⟨hthree, fun {held l} hl => ?_⟩
  rw [List.append_assoc, List.append_assoc] at hl
  obtain ⟨m, p, o, hname, ho, hlax, hp⟩ := fetch_quotation hw hl
  obtain rfl := hp rfl
  have hline : ∀ c ∈ quotation w, isBreak c = false := fun c hc => (line_of_quotation hw c hc).1
  obtain ⟨m₁, m₂, l', hcolon, hl'⟩ := fetch_pendingColon hline hgap hlength ho ⟨rfl, hlax.2⟩
    ⟨.scalar cs .marked, m, m.after (quotation w)⟩ m rest
  exact ⟨2, [⟨.key, m, m⟩, ⟨.scalar cs .marked, m, m.after (quotation w)⟩, ⟨.value, m₁, m₂⟩], l',
    Nat.le_succ 2, rfl, fetchTimes_trans (fetchTimes_one hname) (fetchTimes_one hcolon), hl'⟩

/-! ### Values -/

theorem lexes_lead {first : Bool} {lead : List Char} (h : Lead first lead) (d : Nat)
    (rest : List Char) : Lexes (d + 1) first lead (d + 1) true rest (leadKinds first) := by
  cases h with
  | first => exact lexes_gaps (gaps_nil _ _) true rest
  | comma hws =>
      exact (lexes_comma (d + 1) _).trans (lexes_gaps (gaps_of_blanks hws d) true rest)

/-- After an item comes a comma or a closing bracket. -/
theorem stops_items {depth : Nat} {vs : List Value} {body : List Char}
    (h : Items depth false vs body) (d : Nat) (rest : List Char) :
    Stops (d + 1 != 0) (body ++ ']' :: rest) := by
  cases h with
  | done => exact ⟨fun _ => ⟨']', rest, rfl, .inr (.inl rfl)⟩, fun h => nomatch h⟩
  | more hlead =>
      cases hlead with
      | comma => exact ⟨fun _ => ⟨',', _, rfl, .inl rfl⟩, fun h => nomatch h⟩

theorem stops_members {depth : Nat} {ms : List (String × Value)} {body : List Char}
    (h : Members depth false ms body) (d : Nat) (rest : List Char) :
    Stops (d + 1 != 0) (body ++ '\x7d' :: rest) := by
  cases h with
  | done => exact ⟨fun _ => ⟨'\x7d', rest, rfl, .inr (.inr rfl)⟩, fun h => nomatch h⟩
  | more hlead =>
      cases hlead with
      | comma => exact ⟨fun _ => ⟨',', _, rfl, .inl rfl⟩, fun h => nomatch h⟩

/-- What stands within brackets, with the brackets and the blanks after them. -/
theorem lexes_brackets {op cl : Char} {first last : TokenKind} {before body : List Char}
    (hop : op ∈ marks) (hfirst : ∀ l : Lexer, l.fetchAt op = l.fetchOpening first)
    (hcl : cl ∈ marks) (hlast : ∀ l : Lexer, l.fetchAt cl = l.fetchClosing last)
    (hbefore : Blanks before) (hws : Gaps d false ws)
    (h : Lexes (d + 1) true body (d + 1) false (cl :: (ws ++ rest)) ks) :
    Lexes d false (op :: (before ++ body ++ [cl]) ++ ws) d false rest
      (first :: (ks ++ [last])) := by
  have hbody : Lexes (d + 1) true (before ++ (body ++ cl :: ws)) d false rest (ks ++ [last]) :=
    (lexes_gaps (gaps_of_blanks hbefore d) true _).trans (h.trans (lexes_closing hcl hlast hws rest))
  have htext : op :: (before ++ body ++ [cl]) ++ ws = [op] ++ (before ++ (body ++ cl :: ws)) := by
    simp only [List.append_assoc, List.cons_append, List.nil_append]
  rw [htext]
  exact (lexes_opening hop hfirst d _).trans hbody

mutual

/-- **The tokens of a value**, with the blanks after it. -/
theorem lexes_denotes {depth : Nat} {v : Value} {cs : List Char} :
    Denotes depth v cs → ∀ {d : Nat} {ws rest : List Char}, Gaps d false ws → Stops (d != 0) rest →
      Lexes d false (cs ++ ws) d false rest (kinds v)
  | .null _, _, _, _, hws, hrest => lexes_bare bare_null hws.1 hrest
  | .flag _ b, _, _, _, hws, hrest => lexes_bare (bare_flagText b) hws.1 hrest
  | .integer _ _, _, _, _, hws, hrest => lexes_bare (bare_toString _) hws.1 hrest
  | .text _ h, _, _, rest, hws, _ => lexes_text h hws rest
  | .array hbefore h, d, _, _, hws, _ =>
      lexes_brackets (by decide) (fun _ => rfl) (by decide) (fun _ => rfl) hbefore hws
        (lexes_items h d _)
  | .object hbefore h _, d, _, _, hws, _ =>
      lexes_brackets (by decide) (fun _ => rfl) (by decide) (fun _ => rfl) hbefore hws
        (lexes_members h d _)

theorem lexes_items {depth : Nat} {first : Bool} {vs : List Value} {body : List Char} :
    Items depth first vs body → ∀ (d : Nat) (rest : List Char),
      Lexes (d + 1) first body (d + 1) false (']' :: rest) (itemKinds first vs)
  | .done _ first, d, rest => (lexes_gaps (gaps_nil _ _) false _).mono first
  | @Items.more depth first v vs lead cs ws body hlead hv hws h, d, rest => by
      have hitem := (lexes_denotes hv (gaps_of_blanks hws d) (stops_items h d rest)).mono true
      rw [← List.append_assoc cs, itemKinds]
      exact (lexes_lead hlead d _).trans (hitem.trans (lexes_items h d rest))

theorem lexes_members {depth : Nat} {first : Bool} {ms : List (String × Value)}
    {body : List Char} :
    Members depth first ms body → ∀ (d : Nat) (rest : List Char),
      Lexes (d + 1) first body (d + 1) false ('\x7d' :: rest) (memberKinds first ms)
  | .done _ first, d, rest => (lexes_gaps (gaps_nil _ _) false _).mono first
  | @Members.more depth first name v ms lead spelled gap before cs ws body hlead hname hgap
      hlength hbefore hv hws h, d, rest => by
      have hitem := lexes_denotes hv (gaps_of_blanks hws d) (stops_members h d rest)
      have hvalue := (lexes_gaps (gaps_of_blanks hbefore d) false _).trans
        (hitem.trans (lexes_members h d rest))
      have htext : quotation spelled ++ (gap ++ ':' :: (before ++ (cs ++ (ws ++ body)))) =
          quotation spelled ++ (gap ++ [':']) ++ (before ++ (cs ++ ws ++ body)) := by
        simp only [List.append_assoc, List.cons_append, List.nil_append]
      rw [htext, memberKinds]
      exact (lexes_lead hlead d _).trans ((lexes_name hname hgap hlength d _).trans hvalue)

end

/-! ### The end of the stream -/

/-- At the end of the stream the stream is over. -/
theorem Before.fetch_end (h : Before 0 a held [] l) (hheld : ∀ t ∈ held, t.kind ≠ .streamEnd) :
    ∃ l' m, l.fetch = .ok l' ∧ l'.held = held ++ [⟨.streamEnd, m, m⟩] ∧ l'.Done := by
  obtain ⟨m, allowed, p, o, hready, ho, hlax, -⟩ := h.ready starts_nil
  obtain rfl := List.eq_nil_of_length_eq_zero ho
  have hfetch : l.fetch = (flow ⟨[], m⟩ held allowed p []).fetchEnd := fetch_of_ready hready
  obtain ⟨m', hend⟩ : ∃ m', (flow ⟨[], m⟩ held allowed p []).fetchEnd =
      .ok ({ flow ⟨[], m'⟩ held allowed none [] with keyAllowed := false }.emit
        ⟨.streamEnd, m', m'⟩) := by
    have hdrop (m' : Mark) : ((flow ⟨[], m'⟩ held allowed p []).unindent (-1)).dropKey =
        .ok (flow ⟨[], m'⟩ held allowed none []) := by
      rw [unindent_flow, dropKey_flow hlax.1]
    refine ⟨if m.column = 0 then m else ⟨m.index, m.line + 1, 0⟩, ?_⟩
    unfold fetchEnd
    dsimp only
    split
    · rename_i heq
      cases heq.symm.trans (hdrop _)
    · rename_i heq
      obtain rfl := Except.ok.inj (heq.symm.trans (hdrop _))
      rfl
  exact ⟨_, m', hfetch.trans hend, rfl, rfl, rfl, held, ⟨.streamEnd, m', m'⟩, rfl, rfl, hheld⟩

end Lexer

mutual

/-- No value is the end of the stream. -/
theorem streamEnd_not_mem_kinds : ∀ v : Value, TokenKind.streamEnd ∉ kinds v
  | .null => by simp [kinds]
  | .flag _ => by simp [kinds]
  | .number _ => by simp [kinds]
  | .text _ => by simp [kinds]
  | .array vs => by simp [kinds, streamEnd_not_mem_itemKinds true vs]
  | .object ms => by simp [kinds, streamEnd_not_mem_memberKinds true ms]

theorem streamEnd_not_mem_itemKinds (first : Bool) :
    ∀ vs : List Value, TokenKind.streamEnd ∉ itemKinds first vs
  | [] => by simp [itemKinds]
  | v :: vs => by
      cases first <;> simp [itemKinds, leadKinds, streamEnd_not_mem_kinds v,
        streamEnd_not_mem_itemKinds false vs]

theorem streamEnd_not_mem_memberKinds (first : Bool) :
    ∀ ms : List (String × Value), TokenKind.streamEnd ∉ memberKinds first ms
  | [] => by simp [memberKinds]
  | (_, v) :: ms => by
      cases first <;> simp [memberKinds, leadKinds, streamEnd_not_mem_kinds v,
        streamEnd_not_mem_memberKinds false ms]

end

/-- **The tokens of a complete text.** -/
theorem tokens_whole {v : Value} (h : Whole v cs) :
    ∃ ts m, ts.map Token.kind = kinds v ∧ tokens cs = (ts ++ [⟨.streamEnd, m, m⟩], none) := by
  obtain ⟨hbefore, h, hafter⟩ := h
  rename_i before cs after
  have hlax : Lexer.Lax none [] := ⟨rfl, fun k hk => nomatch hk⟩
  have hstart : Lexer.Before 0 false [] (before ++ (cs ++ after))
      (.start (before ++ (cs ++ after))) := Lexer.before_flow (Lexer.gaps_nil 0 true) rfl hlax _ .zero
  have hvalue : Lexer.Lexes 0 false (cs ++ after) 0 false [] (kinds v) :=
    Lexer.lexes_denotes h (Lexer.gaps_of_trailing hafter 0) ⟨(fun h => nomatch h), fun _ => rfl⟩
  have hlexes : Lexer.Lexes 0 false (before ++ (cs ++ after)) 0 false [] (kinds v) :=
    (Lexer.lexes_gaps (Lexer.gaps_of_untabbed hbefore 0) false _).trans hvalue
  obtain ⟨n, ts, l, hn, hts, hfetch, hl⟩ := hlexes.fetches (by rwa [List.append_nil])
  have hkinds : ∀ t ∈ [] ++ ts, t.kind ≠ .streamEnd := by
    intro t ht heq
    refine streamEnd_not_mem_kinds v ?_
    rw [← hts, ← heq]
    exact List.mem_map_of_mem ht
  obtain ⟨l', m, hend, hheld, hdone⟩ := hl.fetch_end hkinds
  have hlength : ts.length ≤ (before ++ (cs ++ after)).length := by
    rw [← List.length_map Token.kind, hts]
    exact hlexes.length
  have hfuel : n + 1 + l'.held.length ≤ 8 * (before ++ (cs ++ after)).length + 8 := by
    rw [hheld, List.length_append, List.nil_append, List.length_singleton]
    omega
  refine ⟨ts, m, hts, ?_⟩
  rw [tokens_of_fetchTimes (Lexer.fetchTimes_trans hfetch (Lexer.fetchTimes_one hend)) hdone hfuel,
    hheld, List.nil_append]

end Yaml

end SecretResolver
