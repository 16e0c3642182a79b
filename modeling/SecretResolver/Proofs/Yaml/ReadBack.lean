/-
**Texts that are written as YAML are read back.**

Whatever characters a text holds, only such as are shown are written, so the bytes make a stream.
With what the lexer makes of it, and with the node that its tokens give, one text and a mapping of
texts both come back from their bytes.

Main results:

* `allShown_writeMapping`, `allShown_writeLines` — what is written is shown;
* `read_writeMapping`, `read_writeDocument` — **what is written is read back**.
-/

import SecretResolver.Proofs.Yaml.Structure

set_option relaxedAutoImplicit false
set_option autoImplicit false

namespace SecretResolver

namespace Yaml

/-! ### What is shown -/

/-- A text all of whose characters are shown. -/
def AllShown (cs : List Char) : Prop := ∀ c ∈ cs, isShown c = true

theorem AllShown.of_all {cs : List Char} (h : cs.all isShown = true) : AllShown cs :=
  List.all_eq_true.1 h

theorem AllShown.append {cs ds : List Char} (h : AllShown cs) (h' : AllShown ds) :
    AllShown (cs ++ ds) := by
  intro c hc
  rcases List.mem_append.1 hc with hc | hc
  · exact h c hc
  · exact h' c hc

theorem AllShown.cons {c : Char} {cs : List Char} (hc : isShown c = true) (h : AllShown cs) :
    AllShown (c :: cs) := by
  intro d hd
  rcases List.mem_cons.1 hd with rfl | hd
  · exact hc
  · exact h d hd

theorem AllShown.flatMap {α : Type} {xs : List α} {f : α → List Char}
    (h : ∀ x ∈ xs, AllShown (f x)) : AllShown (xs.flatMap f) := by
  intro c hc
  obtain ⟨x, hx, hc⟩ := List.mem_flatMap.1 hc
  exact h x hx c hc

theorem AllShown.indentLines {cs : List Char} (h : AllShown cs) (fresh : Bool) :
    AllShown (indentLines fresh cs) := by
  induction cs generalizing fresh with
  | nil => exact fun c hc => nomatch hc
  | cons c cs ih =>
      have hc : isShown c = true := h c (by simp)
      have hcs : AllShown cs := fun d hd => h d (by simp [hd])
      rw [Yaml.indentLines]
      split
      · exact .cons hc (ih hcs true)
      · refine .append ?_ (.cons hc (ih hcs false))
        cases fresh <;> exact .of_all rfl

theorem allShown_spell (q : Quote) {c : Char} (h : q = .single → isShown c = true) :
    AllShown (q.spell c) := by
  intro d hd
  rw [Quote.spell.eq_def] at hd
  cases q with
  | single =>
      dsimp only at hd
      obtain rfl : d = c := by
        split at hd <;> simpa using hd
      exact h rfl
  | double =>
      dsimp only at hd
      split at hd
      · exact (line_of_mem_writeEscape hd).2
      · rename_i hc
        simp only [Bool.or_eq_true, Bool.not_eq_true', not_or, Bool.not_eq_false] at hc
        rw [List.mem_singleton.1 hd]
        exact hc.1.1.1

/-- Every scalar is shown. -/
theorem allShown_writeScalar (s : String) : AllShown (writeScalar s) := by
  cases h : formOf s with
  | plain =>
      rw [writeScalar, h]
      exact (formOf_plain h).2.shown
  | single =>
      rw [writeScalar, h, writeAs, writeSingle_eq, singleBody]
      have hall := (formOf_single h).all
      refine .append (.cons rfl (.append (.indentLines ?_ false) ?_)) (.of_all rfl)
      · exact .flatMap fun c hc => allShown_spell .single fun _ => hall c hc
      · split <;> exact .of_all rfl
  | double =>
      rw [writeScalar, h]
      refine .append (.cons rfl ?_) (.of_all rfl)
      exact .flatMap fun c _ => allShown_spell .double Quote.noConfusion
  | literal =>
      rw [writeScalar, h, writeAs, writeLiteral]
      have hall : AllShown s.toList := (formOf_literal h).all
      exact .append (.cons rfl (blockHeader_blockHints s.toList [] .zero).2)
        (.cons rfl (hall.indentLines true))

theorem allShown_writeLines (s : String) : AllShown (writeLines s) := by
  refine (allShown_writeScalar s).append ?_
  rw [lineFeedAfter]
  split <;> exact .of_all rfl

/-- A mapping is shown. -/
theorem allShown_writeMapping (es : List (String × String)) : AllShown (writeMapping es) := by
  cases es with
  | nil => exact .of_all rfl
  | cons e es =>
      refine .flatMap fun e _ => ?_
      rw [writeEntry]
      split
      · exact .append (.append (allShown_writeScalar e.1) (.of_all rfl)) (allShown_writeLines e.2)
      · exact .append (.append (.append (.of_all rfl) (allShown_writeLines e.1)) (.of_all rfl))
          (allShown_writeLines e.2)

/-! ### Reading -/

/-- What is shown makes a stream. -/
theorem characters_of_allShown {cs : List Char} (h : AllShown cs) :
    characters (Utf8.encode cs) = some cs := by
  have hallowed : cs.all isAllowed = true := by
    rw [List.all_eq_true]
    exact fun c hc => isAllowed_of_shown (h c hc)
  simp only [characters, Utf8.decode_encode, hallowed, if_true]

/-- **A mapping of texts is read back.** -/
theorem read_writeMapping {es : List (String × String)} (h : (es.map Prod.fst).Nodup) :
    read (Utf8.encode (writeMapping es)) = .ok (.mapping (textEntries es)) := by
  simp only [read, characters_of_allShown (allShown_writeMapping es)]
  by_cases hes : es = []
  · subst hes
    rfl
  · exact ofEvents_writeMapping hes h

/-- **A text is read back.** -/
theorem read_writeDocument (s : String) :
    read (Utf8.encode (writeDocument s)) = .ok (textNode s) := by
  simp only [read, characters_of_allShown (allShown_writeLines s), writeDocument]
  exact ofEvents_writeDocument s

end Yaml

end SecretResolver
