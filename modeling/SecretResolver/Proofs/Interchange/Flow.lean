/-
**Texts for JSON and for YAML: the lexer where no block is open.**

In such a text no block is ever open and no key has to come: stale keys are given up without a
fault, and no token depends on the column at which it stands.  Within brackets blanks of any kind
stand between tokens; outside of them no tab stands where a key may begin.

Main definitions:

* `Lexer.flow`, `Lexer.Before` — the states of the lexer before some text;
* `Lexer.Gaps` — the blanks that may stand between tokens.

Main results:

* `Lexer.skipSpace_gaps` — **blanks are passed over**;
* `Lexer.Before.fetch` — **the next token is decided by its first character**.
-/

import SecretResolver.Proofs.Interchange.Scalars
import SecretResolver.Proofs.Yaml.Within

set_option relaxedAutoImplicit false
set_option autoImplicit false

namespace SecretResolver

namespace Yaml

open Interchange (Blanks Inline Untabbed Trailing)

variable {m : Mark} {cs ws rest : List Char} {d : Nat}

namespace Lexer

/-! ### States -/

/-- The lexer where no block is open. -/
def flow (c : Cursor) (held : List Token) (allowed : Bool) (p : Option PendingKey)
    (o : List (Option PendingKey)) : Lexer := ⟨c, held, 0, -1, [], allowed, p, o⟩

/-- Nothing has to be a key. -/
def Optional (k : Option PendingKey) : Prop := k.all (fun k => !k.required) = true

theorem Optional.overdue {k : Option PendingKey} (h : Optional k) (m : Mark) :
    overdue m k = false := by
  cases k with
  | none => rfl
  | some k =>
      have hk : k.required = false := by simpa [Optional] using h
      simp [Lexer.overdue, hk]

theorem Optional.fresh {k : Option PendingKey} (h : Optional k) (m : Mark) :
    Optional (fresh? m k) := by
  unfold fresh?
  split
  · rfl
  · exact h

/-- The blanks that may stand where so many brackets are open.  Outside of all brackets a tab may
stand only on the line on which a token ended, and not where a key may begin. -/
def Gaps (d : Nat) (allowed : Bool) (ws : List Char) : Prop :=
  Blanks ws ∧ (d = 0 → '\t' ∉ ws.dropWhile Text.isBlank ∧ (allowed = true → '\t' ∉ ws))

theorem gaps_of_not_mem {allowed : Bool} (h : Blanks ws) (htab : d = 0 → '\t' ∉ ws) :
    Gaps d allowed ws :=
  ⟨h, fun hd => ⟨fun hmem => htab hd (List.dropWhile_subset _ hmem), fun _ => htab hd⟩⟩

theorem gaps_nil (d : Nat) (allowed : Bool) : Gaps d allowed [] :=
  gaps_of_not_mem (by decide) (by simp)

theorem gaps_of_blanks {allowed : Bool} (h : Blanks ws) (d : Nat) : Gaps (d + 1) allowed ws :=
  gaps_of_not_mem h (fun hd => absurd hd (Nat.succ_ne_zero d))

theorem gaps_of_untabbed {allowed : Bool} (h : Untabbed ws) (d : Nat) : Gaps d allowed ws := by
  refine gaps_of_not_mem h.blanks (fun _ hmem => ?_)
  rcases h '\t' hmem with h | h | h <;> exact nomatch h

theorem gaps_of_trailing (h : Trailing ws) (d : Nat) : Gaps d false ws :=
  ⟨h.1, fun _ => ⟨h.2, fun h => nomatch h⟩⟩

/-- Blanks that may stand anywhere may follow others. -/
theorem Gaps.append {ws ws' : List Char} {allowed : Bool} (h : Gaps d allowed ws)
    (h' : Gaps d true ws') : Gaps d allowed (ws ++ ws') := by
  refine ⟨h.1.append h'.1, fun hd => ⟨?_, fun ha hmem => ?_⟩⟩
  · have htab := (h'.2 hd).2 rfl
    rw [List.dropWhile_append]
    split
    · exact (h'.2 hd).1
    · intro hmem
      rcases List.mem_append.1 hmem with hmem | hmem
      · exact (h.2 hd).1 hmem
      · exact htab hmem
  · rcases List.mem_append.1 hmem with hmem | hmem
    · exact (h.2 hd).2 ha hmem
    · exact (h'.2 hd).2 rfl hmem

variable {l : Lexer} {held : List Token} {allowed : Bool} {p : Option PendingKey}
  {o : List (Option PendingKey)}

/-! ### Blanks -/

theorem skipSpace_blank {ch : Char} (hch : ch = ' ' ∨ ch = '\t' ∧ (o = [] → allowed = false))
    (hcs : ∀ c ∈ cs.head?, c ≠ byteOrderMark) (fuel : Nat) :
    skipSpace (fuel + 1) (flow ⟨ch :: cs, m⟩ held allowed p o) =
      skipSpace (fuel + 1) (flow ⟨cs, m.step ch⟩ held allowed p o) := by
  have hline : isBreak ch = false := by
    rcases hch with rfl | ⟨rfl, -⟩ <;> rfl
  have hmark : (⟨ch :: cs, m⟩ : Cursor).sees byteOrderMark = false := by
    rcases hch with rfl | ⟨rfl, -⟩ <;> rfl
  have hmark' : (⟨cs, m.step ch⟩ : Cursor).sees byteOrderMark = false := by
    cases cs with
    | nil => rfl
    | cons c cs => simpa [Cursor.sees] using hcs c rfl
  have hskip : (ch == ' ' || (((flow ⟨cs, m⟩ held allowed p o).inFlow || !allowed) && ch == '\t')) =
      true := by
    rcases hch with rfl | ⟨rfl, ho⟩
    · rfl
    · cases o with
      | nil => simp [inFlow, flow, ho rfl]
      | cons => rfl
  have hstep := Cursor.skipWhile_step
    (p := fun ch =>
      ch == ' ' || (((flow ⟨cs, m⟩ held allowed p o).inFlow || !allowed) && ch == '\t'))
    hskip hline cs m
  simp only [flow, inFlow] at hstep
  simp only [skipSpace, flow, inFlow, hmark, hmark', Bool.and_false, Bool.false_eq_true, if_false,
    hstep]

theorem skipSpace_break {ch x : Char} {c : Cursor} (hch : ch = '\n' ∨ ch = '\r')
    (hread : (⟨ch :: cs, m⟩ : Cursor).lineBreak? = some (x, c)) (fuel : Nat) :
    skipSpace (fuel + 1) (flow ⟨ch :: cs, m⟩ held allowed p o) =
      skipSpace fuel (flow c held (allowed || o.isEmpty) p o) := by
  have hmark : (⟨ch :: cs, m⟩ : Cursor).sees byteOrderMark = false := by
    rcases hch with rfl | rfl <;> rfl
  have hhash : (⟨ch :: cs, m⟩ : Cursor).sees '#' = false := by
    rcases hch with rfl | rfl <;> rfl
  have hblank (tabs : Bool) :
      (⟨ch :: cs, m⟩ : Cursor).skipWhile (fun ch => ch == ' ' || (tabs && ch == '\t')) =
        ⟨ch :: cs, m⟩ := by
    refine Cursor.skipWhile_of_head ?_ m
    rcases hch with rfl | rfl
    all_goals
      rintro c ⟨⟩
      cases tabs <;> rfl
  simp only [skipSpace, flow, inFlow, hmark, Bool.and_false, Bool.false_eq_true, if_false, hblank,
    hhash, hread, Bool.not_not]

theorem not_byteOrderMark_of_gaps (hws : Blanks ws) (hrest : Starts rest) :
    ∀ c ∈ (ws ++ rest).head?, c ≠ byteOrderMark := by
  cases ws with
  | nil => exact fun c hc => not_byteOrderMark (hrest c hc).1
  | cons c ws =>
      rintro d ⟨⟩
      rcases hws c (by simp) with rfl | rfl | rfl | rfl <;> decide

/-- After the first one of some blanks the others may stand as well. -/
theorem Gaps.tail {ch : Char} (hline : Text.isBlank ch = true) (h : Gaps d allowed (ch :: ws)) :
    Gaps d allowed ws := by
  refine ⟨fun c hc => h.1 c (by simp [hc]), fun hd => ⟨?_, fun ha hmem => ?_⟩⟩
  · have htab := (h.2 hd).1
    rwa [List.dropWhile_cons_of_pos hline] at htab
  · exact (h.2 hd).2 ha (by simp [hmem])

/-- After a line break blanks may stand that may stand anywhere. -/
theorem Gaps.break_tail {ch : Char} {ws' : List Char} (hbreak : Text.isBlank ch = false)
    (h : Gaps d allowed (ch :: ws)) (hsuffix : ws' <:+ ws) (allowed' : Bool) :
    Gaps d allowed' ws' := by
  refine gaps_of_not_mem (fun c hc => h.1 c (by simp [hsuffix.subset hc])) (fun hd hmem => ?_)
  have htab := (h.2 hd).1
  rw [List.dropWhile_cons_of_neg (by simp [hbreak])] at htab
  exact htab (List.mem_cons_of_mem _ (hsuffix.subset hmem))

/-- **Blanks are passed over.**  Outside of brackets a key may begin after a line has ended. -/
theorem skipSpace_gaps {allowed : Bool} (hws : Gaps o.length allowed ws) (hrest : Starts rest)
    {fuel : Nat} (hfuel : ws.length < fuel) (m : Mark) (held : List Token)
    (p : Option PendingKey) :
    ∃ m' allowed', (allowed = true → allowed' = true) ∧ (Inline ws → m' = m.after ws) ∧
      skipSpace fuel (flow ⟨ws ++ rest, m⟩ held allowed p o) =
        flow ⟨rest, m'⟩ held allowed' p o := by
  induction hn : ws.length using Nat.strong_induction_on generalizing ws m allowed fuel with
  | _ n ih =>
      subst hn
      obtain ⟨fuel, rfl⟩ : ∃ n, fuel = n + 1 := ⟨fuel - 1, by omega⟩
      cases ws with
      | nil => exact ⟨m, allowed, id, fun _ => rfl, skipSpace_starts hrest fuel⟩
      | cons c ws =>
          rw [List.length_cons] at hfuel
          have hcase : (Text.isBlank c = true ∧ (c = ' ' ∨ c = '\t' ∧ (o = [] → allowed = false))) ∨
              Text.isBlank c = false ∧ (c = '\n' ∨ c = '\r') := by
            rcases hws.1 c (by simp) with rfl | rfl | hc
            · exact .inl ⟨rfl, .inl rfl⟩
            · refine .inl ⟨rfl, .inr ⟨rfl, ?_⟩⟩
              rintro rfl
              exact Bool.eq_false_iff.2 fun ha => (hws.2 rfl).2 ha (by simp)
            · refine .inr ⟨?_, hc⟩
              rcases hc with rfl | rfl <;> rfl
          rcases hcase with ⟨hline, hblank⟩ | ⟨hline, hbreak⟩
          · have hgaps := hws.tail hline
            have hnot := not_byteOrderMark_of_gaps hgaps.1 hrest
            have hlt : ws.length < fuel + 1 := by omega
            obtain ⟨m', allowed', hallowed, hinline, hskip⟩ :=
              ih ws.length (by simp) hgaps hlt (m.step c) rfl
            refine ⟨m', allowed', hallowed, fun h => hinline fun d hd => h d (by simp [hd]), ?_⟩
            exact (skipSpace_blank hblank hnot fuel).trans hskip
          · obtain ⟨x, ws', m₁, hsuffix, hread⟩ := lineBreak?_blanks ws hbreak
              (fun d hd => (hrest d hd).2.1) m
            have hlength := hsuffix.length_le
            have hlt : ws'.length < fuel := by omega
            obtain ⟨m', allowed', hallowed, -, hskip⟩ := ih ws'.length
              (by rw [List.length_cons]; omega)
              (hws.break_tail hline hsuffix (allowed || o.isEmpty)) hlt m₁ rfl
            refine ⟨m', allowed', fun h => hallowed (by simp [h]), ?_, ?_⟩
            · intro h
              have hc := h c (by simp)
              rcases hbreak with rfl | rfl
              · exact absurd hc (by decide)
              · exact absurd hc (by decide)
            · exact (skipSpace_break hbreak hread fuel).trans hskip

/-! ### Up to the next token -/

/-- No key that is pending has to come. -/
def Lax (p : Option PendingKey) (o : List (Option PendingKey)) : Prop :=
  Optional p ∧ ∀ k ∈ o, Optional k

theorem Lax.fresh (h : Lax p o) (m : Mark) : Lax (fresh? m p) (o.map (fresh? m)) := by
  refine ⟨h.1.fresh m, fun k hk => ?_⟩
  obtain ⟨k', hk', rfl⟩ := List.mem_map.1 hk
  exact (h.2 k' hk').fresh m

theorem dropStale_flow (h : Lax p o) (c : Cursor) :
    (flow c held allowed p o).dropStale =
      .ok (flow c held allowed (fresh? c.mark p) (o.map (fresh? c.mark))) := by
  have hany : o.any (overdue c.mark) = false :=
    List.any_eq_false.2 fun k hk => by simp [(h.2 k hk).overdue]
  rw [flow, dropStale_mk, hany, h.1.overdue]
  rfl

theorem ready_gaps {allowed : Bool} (hws : Gaps o.length allowed ws) (hrest : Starts rest)
    (h : Lax p o) (m : Mark) (held : List Token) :
    ∃ m' allowed', (allowed = true → allowed' = true) ∧ (Inline ws → m' = m.after ws) ∧
      (flow ⟨ws ++ rest, m⟩ held allowed p o).ready =
        .ok (flow ⟨rest, m'⟩ held allowed' (fresh? m' p) (o.map (fresh? m'))) := by
  have hlt : ws.length < (ws ++ rest).length + 1 := by
    rw [List.length_append]
    omega
  obtain ⟨m', allowed', hallowed, hinline, hskip⟩ :=
    skipSpace_gaps hws hrest hlt m held p
  exact ⟨m', allowed', hallowed, hinline, (congrArg dropStale hskip).trans (dropStale_flow h _)⟩

/-- The lexer before a text and perhaps blanks, where so many brackets are open; `a` says that a key
may begin. -/
def Before (d : Nat) (a : Bool) (held : List Token) (rest : List Char) (l : Lexer) : Prop :=
  ∃ ws m allowed p o, l = flow ⟨ws ++ rest, m⟩ held allowed p o ∧ Gaps d allowed ws ∧
    o.length = d ∧ Lax p o ∧ (a = true → allowed = true)

variable {a : Bool} {ch : Char}

theorem before_flow {allowed : Bool} (hws : Gaps d allowed ws) (ho : o.length = d) (h : Lax p o)
    (rest : List Char) (m : Mark) :
    Before d false held rest (flow ⟨ws ++ rest, m⟩ held allowed p o) :=
  ⟨ws, m, allowed, p, o, rfl, hws, ho, h, fun h => nomatch h⟩

/-- Where a key may begin. -/
theorem before_key (ho : o.length = d) (h : Lax p o) (rest : List Char) (m : Mark) :
    Before d true held rest (flow ⟨rest, m⟩ held true p o) :=
  ⟨[], m, true, p, o, rfl, gaps_nil _ _, ho, h, id⟩

theorem Before.mono (h : Before d a held rest l) : Before d false held rest l := by
  obtain ⟨ws, m, allowed, p, o, hl, hws, ho, hlax, -⟩ := h
  exact ⟨ws, m, allowed, p, o, hl, hws, ho, hlax, fun h => nomatch h⟩

theorem Before.gaps (h : Before d a held (ws ++ rest) l) (hws : Gaps d true ws) :
    Before d a held rest l := by
  obtain ⟨ws', m, allowed, p, o, rfl, hws', ho, hlax, ha⟩ := h
  exact ⟨ws' ++ ws, m, allowed, p, o, by rw [List.append_assoc], hws'.append hws, ho, hlax, ha⟩

theorem Before.ready (h : Before d a held rest l) (hrest : Starts rest) :
    ∃ m allowed p o, l.ready = .ok (flow ⟨rest, m⟩ held allowed p o) ∧ o.length = d ∧ Lax p o ∧
      (a = true → allowed = true) := by
  obtain ⟨ws, m, allowed, p, o, rfl, hws, rfl, hlax, ha⟩ := h
  obtain ⟨m', allowed', hallowed, -, hready⟩ := ready_gaps hws hrest hlax m held
  exact ⟨m', allowed', _, _, hready, List.length_map _, hlax.fresh m', fun h => hallowed (ha h)⟩

/-- Where no block is open none is closed. -/
theorem unindent_flow (c : Cursor) (column : Int) :
    (flow c held allowed p o).unindent column = flow c held allowed p o := by
  rw [unindent]
  split <;> rfl

/-- **The next token is decided by its first character.** -/
theorem Before.fetch (h : Before d a held (ch :: rest) l) (hstarts : Starts (ch :: rest))
    (hpercent : ch ≠ '%') (hdoc : ∀ m, (⟨ch :: rest, m⟩ : Cursor).atDocumentMark = false) :
    ∃ m allowed p o, l.fetch = (flow ⟨ch :: rest, m⟩ held allowed p o).fetchAt ch ∧ o.length = d ∧
      Lax p o ∧ (a = true → allowed = true) := by
  obtain ⟨m, allowed, p, o, hready, ho, hlax, ha⟩ := h.ready hstarts
  refine ⟨m, allowed, p, o, ?_, ho, hlax, ha⟩
  rw [fetch_of_ready hready]
  exact fetchReady_of_unindent (unindent_flow _ _) rfl (fun _ => hpercent) (hdoc m)

/-- The characters with which tokens begin, except those of words. -/
def marks : List Char := ['[', ']', '\x7b', '\x7d', ',', ':', '"']

theorem starts_mark (h : ch ∈ marks) (rest : List Char) : Starts (ch :: rest) := by
  have hmarks : ∀ ch ∈ marks, isShown ch = true ∧ isSpace ch = false ∧ ch ≠ '#' :=
    List.forall_iff_forall_mem.1 (by decide)
  rintro c ⟨⟩
  exact hmarks ch h

theorem not_rule_of_mark (h : ch ∈ marks) (rest : List Char) :
    ch ≠ '%' ∧ ∀ m, (⟨ch :: rest, m⟩ : Cursor).atDocumentMark = false := by
  have hmarks : ∀ ch ∈ marks, ch ≠ '%' ∧ ch ≠ '-' ∧ ch ≠ '.' :=
    List.forall_iff_forall_mem.1 (by decide)
  obtain ⟨hpercent, hdash, hdot⟩ := hmarks ch h
  exact ⟨hpercent, fun m => not_atDocumentMark hdash hdot rest m⟩

theorem Before.fetch_mark (h : Before d a held (ch :: rest) l) (hch : ch ∈ marks) :
    ∃ m allowed p o, l.fetch = (flow ⟨ch :: rest, m⟩ held allowed p o).fetchAt ch ∧ o.length = d ∧
      Lax p o ∧ (a = true → allowed = true) :=
  h.fetch (starts_mark hch rest) (not_rule_of_mark hch rest).1 (not_rule_of_mark hch rest).2

end Lexer

end Yaml

end SecretResolver
