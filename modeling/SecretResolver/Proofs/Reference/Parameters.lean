/-
**Which segments are parameters.**

A segment is read as a name and a value just when it is written so and both are legal, and a list of
segments as a table just when they are the segments of its entries in their order.  That no name
comes twice is a property of all tables.

Main definitions:

* `Parameters.Legal` — a name and a value that a grammar allows.

Main results:

* `Parameters.segment_eq_ok_iff` — one segment;
* `Parameters.read_eq_ok_iff` — **segments are read as the table that is written so**.
-/

import SecretResolver.Reference.Parameters

set_option relaxedAutoImplicit false
set_option autoImplicit false

namespace SecretResolver

namespace Parameters

/-- A grammar allows a name and a value: the name is a word of letters and digits and not reserved,
and the value is not empty. -/
structure Legal (g : Grammar) (e : String × String) : Prop where
  /-- The name is a word of letters and digits. -/
  name : isName e.1.toList = true
  /-- The name is not reserved. -/
  free : e.1 ∉ g.reserved
  /-- The value is not empty. -/
  value : e.2 ≠ ""

variable {g : Grammar} {e : String × String}

/-- A name holds letters and digits only. -/
theorem Legal.not_mem_name (h : Legal g e) {c : Char} (hc : Text.isAlphanumeric c = false) :
    c ∉ e.1.toList := by
  intro hm
  have hname := h.name
  rw [isName, Bool.and_eq_true, List.all_eq_true] at hname
  exact absurd (hname.2 c hm) (by simp [hc])

/-- A segment holds a character that is neither of a name nor the delimiter just when its value holds
it. -/
theorem Legal.not_mem_writeSegment (h : Legal g e) {c : Char}
    (hc : Text.isAlphanumeric c = false) (hd : c ≠ g.delimiter) :
    c ∉ writeSegment g e ↔ c ∉ e.2.toList := by
  have hname : c ∉ e.1.toList := h.not_mem_name hc
  simp [writeSegment, hname, hd]

/-- A legal segment is cut between its name and its value. -/
theorem Legal.splitFirst_writeSegment (h : Legal g e)
    (hd : Text.isAlphanumeric g.delimiter = false) :
    Text.splitFirst g.delimiter (writeSegment g e) = some (e.1.toList, e.2.toList) :=
  Text.splitFirst_eq_some_iff.2 ⟨rfl, h.not_mem_name hd⟩

/-- **A segment is read as the name and the value that it is written with.** -/
theorem segment_eq_ok_iff (hd : Text.isAlphanumeric g.delimiter = false) {cs : List Char} :
    segment g cs = .ok e ↔ cs = writeSegment g e ∧ Legal g e := by
  obtain ⟨name, value⟩ := e
  constructor
  · intro h
    cases hs : Text.splitFirst g.delimiter cs with
    | none => simp [segment, hs] at h
    | some p =>
        obtain ⟨a, b⟩ := p
        obtain ⟨rfl, -⟩ := Text.splitFirst_eq_some_iff.1 hs
        simp only [segment, hs] at h
        split at h
        · exact absurd h (by simp)
        · rename_i hname
          split at h
          · exact absurd h (by simp)
          · rename_i hvalue
            obtain ⟨rfl, rfl⟩ := Prod.mk.inj (Except.ok.inj h)
            simp only [Bool.or_eq_true, Bool.not_eq_true', decide_eq_true_eq, not_or,
              Bool.not_eq_false] at hname
            refine ⟨by simp [writeSegment], ⟨by simpa using hname.1, hname.2, ?_⟩⟩
            intro hempty
            exact hvalue (by simpa using congrArg String.toList hempty)
  · rintro ⟨rfl, hlegal⟩
    have hsplit := hlegal.splitFirst_writeSegment hd
    have hname : isName name.toList = true := hlegal.name
    have hfree : name ∉ g.reserved := hlegal.free
    have hvalue : value ≠ "" := hlegal.value
    simp [segment, hsplit, hname, hfree, hvalue]

/-- Segments are read as the entries that they add to a table. -/
theorem readInto_eq_ok_iff (hd : Text.isAlphanumeric g.delimiter = false) {t t' : Table String}
    {segments : List (List Char)} : readInto g t segments = .ok t' ↔
      ∃ es, segments = es.map (writeSegment g) ∧ (∀ e ∈ es, Legal g e) ∧
        t'.entries = t.entries ++ es := by
  induction segments generalizing t with
  | nil =>
      simp only [readInto, Except.ok.injEq]
      constructor
      · rintro rfl
        exact ⟨[], by simp⟩
      · rintro ⟨es, hes, -, heq⟩
        obtain rfl := List.map_eq_nil_iff.1 hes.symm
        exact Table.ext_entries (by simp [heq])
  | cons s segments ih =>
      constructor
      · intro h
        cases hs : segment g s with
        | error fault => simp [readInto, hs] at h
        | ok e =>
            obtain ⟨rfl, hlegal⟩ := (segment_eq_ok_iff hd).1 hs
            cases ha : t.add? e.1 e.2 with
            | none => simp [readInto, hs, ha] at h
            | some t₁ =>
                simp only [readInto, hs, ha] at h
                obtain ⟨es, rfl, hes, heq⟩ := ih.1 h
                refine ⟨e :: es, rfl, ?_, ?_⟩
                · intro e' he'
                  rcases List.mem_cons.1 he' with rfl | he'
                  · exact hlegal
                  · exact hes e' he'
                · rw [heq, Table.add?_eq_some_iff.1 ha, List.append_assoc, List.singleton_append]
      · rintro ⟨es, hes, hlegal, heq⟩
        cases es with
        | nil => exact absurd hes (by simp)
        | cons e es =>
            obtain ⟨rfl, rfl⟩ := List.cons.inj hes
            have hs := (segment_eq_ok_iff hd).2 ⟨rfl, hlegal e (List.mem_cons_self ..)⟩
            have hdistinct := t'.distinct
            rw [heq, ← List.singleton_append, ← List.append_assoc, Entries.names_append,
              List.nodup_append] at hdistinct
            have ha : t.add? e.1 e.2 = some ⟨t.entries ++ [e], hdistinct.1⟩ :=
              Table.add?_eq_some_iff.2 rfl
            simp only [readInto, hs, ha]
            refine ih.2 ⟨es, rfl, fun e' he' => hlegal e' (List.mem_cons_of_mem _ he'), ?_⟩
            rw [heq, List.append_assoc, List.singleton_append]

/-- **Segments are read as the table that is written so.** -/
theorem read_eq_ok_iff (hd : Text.isAlphanumeric g.delimiter = false) {t : Table String}
    {segments : List (List Char)} : read g segments = .ok t ↔
      segments = write g t ∧ ∀ e ∈ t.entries, Legal g e := by
  rw [read, readInto_eq_ok_iff hd]
  constructor
  · rintro ⟨es, rfl, hlegal, heq⟩
    obtain rfl : t.entries = es := heq
    exact ⟨rfl, hlegal⟩
  · rintro ⟨rfl, hlegal⟩
    exact ⟨t.entries, rfl, hlegal, rfl⟩

end Parameters

end SecretResolver
