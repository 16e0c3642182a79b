/-
**JSON with more bytes behind it.**

Words, texts, arrays and objects end with a byte of their own, so a reader makes of one what it
makes of it whatever follows.  A number ends where no further digit follows, so it stays the same
only if something is left after it.  Within an array or an object something always is: the bracket
or the brace that closes it at the least.

Main definitions:

* `Json.Stable` — readers whose result, if something is left, does not depend on what follows;
* `Json.Value.IsClosed` — values that end with a byte of their own;
* `Json.LeadsTo` — what stands in front of an item or of a member.

Main results:

* `Json.text_append`, `Json.stable_number` — scalars;
* `Json.items_cases`, `Json.memberName?_cases`, `Json.members_cases` — the inside of arrays and
  objects, step by step;
* `Json.items_append`, `Json.members_append` — the inside of arrays and objects as a whole;
* `Json.valueAt_append` — **values**, by induction on how deep they are nested;
* `Json.append_of_valueAt` — **no value but a number is read from less than all of its bytes**.
-/

import SecretResolver.Proofs.Json.Written

set_option relaxedAutoImplicit false
set_option autoImplicit false

namespace SecretResolver

namespace Json

variable {α : Type}

/-- What a reader makes of some bytes it makes of them whatever follows, if it left bytes over. -/
def Stable (r : Reader α) : Prop :=
  ∀ bs x rest, r bs = .ok (x, rest) → rest ≠ [] → ∀ more, r (bs ++ more) = .ok (x, rest ++ more)

theorem result_append {x y : α} {bs rest : Bytes}
    (h : (.ok (x, bs) : Except Fault (α × Bytes)) = .ok (y, rest)) (more : Bytes) :
    (.ok (x, bs ++ more) : Except Fault (α × Bytes)) = .ok (y, rest ++ more) := by
  obtain ⟨rfl, rfl⟩ := Prod.mk.inj (Except.ok.inj h)
  rfl

theorem mapResult_eq_ok_iff {β : Type} {f : α → β} {r : Except Fault (α × Bytes)} {rest : Bytes}
    {y : β} : mapResult f r = .ok (y, rest) ↔ ∃ x, r = .ok (x, rest) ∧ f x = y := by
  cases r with
  | error fault => simp [mapResult]
  | ok p => simp [mapResult, Prod.ext_iff, and_comm]

theorem word_append {value x : α} {expected bs rest : Bytes}
    (h : word value expected bs = .ok (x, rest)) (more : Bytes) :
    word value expected (bs ++ more) = .ok (x, rest ++ more) := by
  induction expected generalizing bs with
  | nil => exact result_append h more
  | cons e es ih =>
      cases bs with
      | nil => cases h
      | cons b bs =>
          rw [List.cons_append]
          simp only [word] at h ⊢
          split at h
          · rename_i he
            rw [if_pos he]
            exact ih h
          · cases h

/-! ### Texts -/

theorem hexUnit_append {bs rest : Bytes} {n : Nat} (h : hexUnit bs = .ok (n, rest))
    (more : Bytes) : hexUnit (bs ++ more) = .ok (n, rest ++ more) := by
  unfold hexUnit at h
  split at h
  · rename_i a b c d bs
    simp only [List.cons_append, hexUnit]
    split at h
    · exact result_append h more
    · cases h
  · cases h

theorem trailingUnit_append {leading : Nat} {bs rest : Bytes} {c : Char}
    (h : trailingUnit leading bs = .ok (c, rest)) (more : Bytes) :
    trailingUnit leading (bs ++ more) = .ok (c, rest ++ more) := by
  unfold trailingUnit at h
  split at h
  · cases h
  · cases h
  · rename_i bs
    simp only [List.cons_append, trailingUnit]
    split at h
    · cases h
    · rename_i hunit
      rw [hexUnit_append hunit more]
      dsimp only
      split at h
      · rename_i hn
        rw [if_pos hn]
        exact result_append h more
      · cases h
  · cases h
  · cases h

theorem numericEscape_append {bs rest : Bytes} {c : Char}
    (h : numericEscape bs = .ok (c, rest)) (more : Bytes) :
    numericEscape (bs ++ more) = .ok (c, rest ++ more) := by
  unfold numericEscape at h ⊢
  split at h
  · cases h
  · rename_i hunit
    rw [hexUnit_append hunit more]
    dsimp only
    split at h
    · cases h
    · rename_i htrailing
      rw [if_neg htrailing]
      split at h
      · rename_i hleading
        rw [if_pos hleading]
        exact trailingUnit_append h more
      · rename_i hleading
        rw [if_neg hleading]
        exact result_append h more

theorem escape_append {bs rest : Bytes} {c : Char} (h : escape bs = .ok (c, rest))
    (more : Bytes) : escape (bs ++ more) = .ok (c, rest ++ more) := by
  unfold escape at h
  split at h
  · cases h
  · exact numericEscape_append h more
  · rename_i b bs hb
    rw [List.cons_append, escape]
    · split at h
      · exact result_append h more
      · cases h
    · exact hb

theorem quoted_append_of {fuel fuel' : Nat} {bs inner rest : Bytes}
    (h : quoted fuel bs = .ok (inner, rest)) (hfuel : fuel ≤ fuel') (more : Bytes) :
    quoted fuel' (bs ++ more) = .ok (inner, rest ++ more) := by
  induction fuel generalizing fuel' bs inner rest with
  | zero => cases h
  | succ fuel ih =>
      obtain ⟨fuel', rfl⟩ : ∃ f, fuel' = f + 1 := ⟨fuel' - 1, by omega⟩
      unfold quoted at h
      split at h
      · cases h
      · cases h
      · exact result_append h more
      · rename_i f after hf
        obtain rfl : f = fuel := by omega
        rw [List.cons_append, quoted]
        split at h
        · cases h
        · rename_i hescape
          rw [escape_append hescape more]
          dsimp only
          split at h
          · cases h
          · rename_i hquoted
            rw [ih hquoted (by omega)]
            exact result_append h more
      · rename_i f b after hquote hslash hf
        obtain rfl : f = fuel := by omega
        rw [List.cons_append, quoted]
        · split at h
          · cases h
          · rename_i hb
            rw [if_neg hb]
            split at h
            · cases h
            · rename_i hquoted
              rw [ih hquoted (by omega)]
              exact result_append h more
        · exact hquote
        · exact hslash

theorem text_append {bs rest : Bytes} {s : String} (h : text bs = .ok (s, rest)) (more : Bytes) :
    text (bs ++ more) = .ok (s, rest ++ more) := by
  unfold text at h ⊢
  split at h
  · cases h
  · rename_i inner rest' hquoted
    rw [quoted_append_of hquoted (by rw [List.length_append]; omega) more]
    dsimp only
    split at h
    · exact result_append h more
    · cases h

/-! ### Numbers -/

theorem takeWhile_append_of_dropWhile {p : UInt8 → Bool} {bs : Bytes}
    (h : bs.dropWhile p ≠ []) (more : Bytes) : (bs ++ more).takeWhile p = bs.takeWhile p := by
  induction bs with
  | nil => exact absurd rfl h
  | cons b bs ih =>
      by_cases hb : p b
      · rw [List.dropWhile_cons_of_pos hb] at h
        rw [List.cons_append, List.takeWhile_cons_of_pos hb, List.takeWhile_cons_of_pos hb, ih h]
      · rw [List.cons_append, List.takeWhile_cons_of_neg hb, List.takeWhile_cons_of_neg hb]

theorem dropWhile_append_of_dropWhile {p : UInt8 → Bool} {bs : Bytes}
    (h : bs.dropWhile p ≠ []) (more : Bytes) :
    (bs ++ more).dropWhile p = bs.dropWhile p ++ more := by
  rw [List.dropWhile_append, if_neg (by simpa using h)]

theorem digits_append {bs : Bytes} (h : (digits bs).2 ≠ []) (more : Bytes) :
    digits (bs ++ more) = ((digits bs).1, (digits bs).2 ++ more) := by
  simp only [digits] at h ⊢
  rw [takeWhile_append_of_dropWhile h, dropWhile_append_of_dropWhile h]

theorem real_append {negative : Bool} {significand : Nat} {e : Int} {bs rest : Bytes} {x : Number}
    (h : real negative significand e bs = .ok (x, rest)) (more : Bytes) :
    real negative significand e (bs ++ more) = .ok (x, rest ++ more) := by
  unfold real at h ⊢
  split at h
  · exact result_append h more
  · cases h

theorem rest_of_real {negative : Bool} {significand : Nat} {e : Int} {bs rest : Bytes} {x : Number}
    (h : real negative significand e bs = .ok (x, rest)) : bs = rest := by
  unfold real at h
  split at h
  · exact (Prod.mk.inj (Except.ok.inj h)).2
  · cases h

variable {negative : Bool} {significand : Nat} {e : Int} {bs rest more : Bytes} {x : Number}

theorem exponentTail_append {plus : Bool}
    (h : exponentTail negative significand e plus bs = .ok (x, rest)) (hrest : rest ≠ [])
    (more : Bytes) :
    exponentTail negative significand e plus (bs ++ more) = .ok (x, rest ++ more) := by
  cases bs with
  | nil => cases h
  | cons b bs =>
      rw [List.cons_append]
      simp only [exponentTail] at h ⊢
      split at h
      · cases h
      · rename_i hb
        rw [if_neg hb]
        split at h
        · rename_i n hn
          obtain rfl := rest_of_real h
          rw [digits_append hrest, hn]
          exact real_append h more
        · rename_i left hleft
          split at h
          · cases h
          · rename_i hgreat
            have hdigits : (digits bs).2 = rest := (Prod.mk.inj (Except.ok.inj h)).2
            rw [digits_append (hdigits ▸ hrest), hleft]
            dsimp only
            rw [if_neg hgreat]
            exact result_append h more

theorem exponent_append (h : exponent negative significand e bs = .ok (x, rest)) (hrest : rest ≠ [])
    (more : Bytes) : exponent negative significand e (bs ++ more) = .ok (x, rest ++ more) := by
  unfold exponent at h
  split at h
  · exact exponentTail_append h hrest more
  · exact exponentTail_append h hrest more
  · rename_i hplus hminus
    cases bs with
    | nil => cases h
    | cons b bs =>
        rw [List.cons_append, exponent]
        · exact exponentTail_append h hrest more
        · rintro bs' ⟨⟩
          exact hplus _ rfl
        · rintro bs' ⟨⟩
          exact hminus _ rfl

theorem optionalExponent_append (h : optionalExponent negative significand e bs = .ok (x, rest))
    (hrest : rest ≠ []) (more : Bytes) :
    optionalExponent negative significand e (bs ++ more) = .ok (x, rest ++ more) := by
  unfold optionalExponent at h
  split at h
  · exact exponent_append h hrest more
  · exact exponent_append h hrest more
  · rename_i hlower hupper
    cases bs with
    | nil => exact absurd (rest_of_real h).symm hrest
    | cons b bs =>
        rw [List.cons_append, optionalExponent]
        · exact real_append h more
        · rintro bs' ⟨⟩
          exact hlower _ rfl
        · rintro bs' ⟨⟩
          exact hupper _ rfl

theorem fraction_append (h : fraction negative significand e bs = .ok (x, rest))
    (hrest : rest ≠ []) (more : Bytes) :
    fraction negative significand e (bs ++ more) = .ok (x, rest ++ more) := by
  have hleft : (digits bs).2 ≠ [] := by
    intro hnil
    unfold fraction at h
    split at h
    · cases h
    · cases h
    · rename_i ds after _ _ hdigits
      obtain rfl : after = [] := by
        rw [hdigits] at hnil
        exact hnil
      exact hrest (rest_of_real h).symm
  unfold fraction at h ⊢
  rw [digits_append hleft]
  split at h
  · cases h
  · cases h
  · rename_i ds after hnone hempty hdigits
    rw [hdigits]
    cases ds with
    | nil => exact (hempty rfl).elim
    | cons d ds => exact optionalExponent_append h hrest more

theorem numberTail_append {dropped : Nat}
    (h : numberTail negative significand dropped bs = .ok (x, rest)) (hrest : rest ≠ [])
    (more : Bytes) :
    numberTail negative significand dropped (bs ++ more) = .ok (x, rest ++ more) := by
  unfold numberTail at h
  split at h
  · exact fraction_append h hrest more
  · exact exponent_append h hrest more
  · exact exponent_append h hrest more
  · rename_i hpoint hlower hupper
    have hbs : bs = rest := by
      split at h
      · exact (Prod.mk.inj (Except.ok.inj h)).2
      · exact rest_of_real h
    cases bs with
    | nil => exact absurd hbs.symm hrest
    | cons b bs =>
        rw [List.cons_append, numberTail]
        · split at h
          · rename_i hdropped
            rw [if_pos hdropped]
            exact result_append h more
          · rename_i hdropped
            rw [if_neg hdropped]
            exact real_append h more
        · rintro bs' ⟨⟩
          exact hpoint _ rfl
        · rintro bs' ⟨⟩
          exact hlower _ rfl
        · rintro bs' ⟨⟩
          exact hupper _ rfl

theorem rest_of_numberTail_nil {dropped : Nat}
    (h : numberTail negative significand dropped [] = .ok (x, rest)) : rest = [] := by
  rw [numberTail] at h
  · split at h
    · exact (Prod.mk.inj (Except.ok.inj h)).2.symm
    · exact (rest_of_real h).symm
  all_goals simp

theorem stable_number (negative : Bool) : Stable (number negative) := by
  intro bs x rest h hrest more
  unfold number at h
  split at h
  · cases h
  · split at h
    · rename_i b bs
      rw [List.cons_append, List.cons_append, number]
      split at h
      · cases h
      · rename_i hb
        rw [if_neg hb]
        exact numberTail_append h hrest more
    · exact absurd (rest_of_numberTail_nil h) hrest
  · rename_i b bs hzero
    rw [List.cons_append, number]
    · split at h
      · cases h
      · rename_i hb
        rw [if_neg hb]
        obtain ⟨ds, after, hdigits⟩ : ∃ ds after, digits bs = (ds, after) := ⟨_, _, rfl⟩
        rw [hdigits] at h
        have hleft : after ≠ [] := by
          rintro rfl
          exact hrest (rest_of_numberTail_nil h)
        rw [digits_append (by rwa [hdigits]), hdigits]
        exact numberTail_append h hrest more
    · exact hzero

/-! ### Arrays and objects -/

theorem skipBlanks_append (h : skipBlanks bs ≠ []) (more : Bytes) :
    skipBlanks (bs ++ more) = skipBlanks bs ++ more :=
  dropWhile_append_of_dropWhile h more

theorem skipBlanks_append_cons {b : UInt8} {after : Bytes} (h : skipBlanks bs = b :: after)
    (more : Bytes) : skipBlanks (bs ++ more) = b :: (after ++ more) := by
  rw [skipBlanks_append (by simp [h]), h]
  rfl

/-- What stands in front of an element: blanks and, unless the element is the first, a comma. -/
def LeadsTo (first : Bool) (bs start : Bytes) : Prop :=
  if first then skipBlanks bs = start
  else ∃ after, skipBlanks bs = 44 :: after ∧ skipBlanks after = start

theorem LeadsTo.append {first : Bool} {b : UInt8} {after : Bytes}
    (h : LeadsTo first bs (b :: after)) (more : Bytes) :
    LeadsTo first (bs ++ more) (b :: (after ++ more)) := by
  cases first with
  | true => exact skipBlanks_append_cons h more
  | false =>
      obtain ⟨tail, hcomma, hstart⟩ := h
      exact ⟨tail ++ more, skipBlanks_append_cons hcomma more,
        skipBlanks_append_cons hstart more⟩

/-- An item with the items after it. -/
theorem items_of_parts {item : Reader α} {first : Bool} {b : UInt8} {start after : Bytes}
    {fuel : Nat} {x : α} {xs : List α} (hlead : LeadsTo first bs (b :: start)) (hb : b ≠ 93)
    (hx : item (b :: start) = .ok (x, after))
    (hxs : items item fuel false after = .ok (xs, rest)) :
    items item (fuel + 1) first bs = .ok (x :: xs, rest) := by
  cases first with
  | true =>
      have hskip : skipBlanks bs = b :: start := hlead
      simp [items, hskip, hx, hxs]
  | false =>
      obtain ⟨before, hcomma, hskip⟩ := hlead
      simp [items, hcomma, hskip, hb, hx, hxs]

/-- What an array goes on with: its end, or an item with the items after it. -/
theorem items_cases {item : Reader α} {first : Bool} {fuel : Nat} {xs : List α}
    (h : items item (fuel + 1) first bs = .ok (xs, rest)) :
    skipBlanks bs = 93 :: rest ∧ xs = [] ∨
      ∃ b start x after ys, LeadsTo first bs (b :: start) ∧ b ≠ 93 ∧
        item (b :: start) = .ok (x, after) ∧ items item fuel false after = .ok (ys, rest) ∧
        xs = x :: ys := by
  have hnext {b : UInt8} {start : Bytes} (hlead : LeadsTo first bs (b :: start)) (hb : b ≠ 93)
      (h : (match item (b :: start) with
        | .error fault => .error fault
        | .ok (x, bs) =>
            match items item fuel false bs with
            | .error fault => .error fault
            | .ok (xs, bs) => .ok (x :: xs, bs) : Except Fault (List α × Bytes)) = .ok (xs, rest)) :
      ∃ b start x after ys, LeadsTo first bs (b :: start) ∧ b ≠ 93 ∧
        item (b :: start) = .ok (x, after) ∧ items item fuel false after = .ok (ys, rest) ∧
        xs = x :: ys := by
    split at h
    · cases h
    · rename_i x after hx
      split at h
      · cases h
      · rename_i ys rest' hys
        obtain ⟨rfl, rfl⟩ := Prod.mk.inj (Except.ok.inj h)
        exact ⟨b, start, x, after, ys, hlead, hb, hx, hys, rfl⟩
  simp only [items] at h
  split at h
  · cases h
  · rename_i after hskip
    obtain ⟨rfl, rfl⟩ := Prod.mk.inj (Except.ok.inj h)
    exact .inl ⟨hskip, rfl⟩
  · rename_i b after hb hskip
    split at h
    · rename_i hfirst
      exact .inr (hnext (by rwa [LeadsTo, if_pos hfirst]) hb h)
    · rename_i hfirst
      split at h
      · rename_i hcomma
        obtain rfl : b = 44 := by simpa using hcomma
        split at h
        · cases h
        · cases h
        · rename_i hnil hclose
          obtain ⟨c, start, hstart⟩ := List.exists_cons_of_ne_nil hnil
          rw [hstart] at h
          refine .inr (hnext ?_ ?_ h)
          · rw [LeadsTo, if_neg hfirst]
            exact ⟨after, hskip, hstart⟩
          · rintro rfl
            exact hclose start hstart
      · cases h

theorem items_nil {item : Reader α} {fuel : Nat} {first : Bool} {p : List α × Bytes} :
    items item fuel first [] ≠ .ok p := by
  cases fuel <;> exact nofun

theorem items_append {item : Reader α} (hitem : Stable item)
    {fuel fuel' : Nat} {first : Bool} {xs : List α}
    (h : items item fuel first bs = .ok (xs, rest)) (hfuel : fuel ≤ fuel') (more : Bytes) :
    items item fuel' first (bs ++ more) = .ok (xs, rest ++ more) := by
  induction fuel generalizing fuel' bs first xs rest with
  | zero => cases h
  | succ fuel ih =>
      obtain ⟨fuel', rfl⟩ : ∃ f, fuel' = f + 1 := ⟨fuel' - 1, by omega⟩
      obtain ⟨hclose, rfl⟩ | ⟨b, start, x, after, ys, hlead, hb, hx, hys, rfl⟩ := items_cases h
      · simp only [items, skipBlanks_append_cons hclose more]
      · -- something follows the item, if only the bracket that closes the array
        have hafter : after ≠ [] := by
          rintro rfl
          exact items_nil hys
        exact items_of_parts (hlead.append more) hb (hitem _ _ _ hx hafter more)
          (ih hys (by omega))

theorem colon_append (h : colon bs = .ok rest) (more : Bytes) :
    colon (bs ++ more) = .ok (rest ++ more) := by
  unfold colon at h
  split at h
  · cases h
  · rename_i after hskip
    obtain rfl := Except.ok.inj h
    simp only [colon, skipBlanks_append_cons hskip more]
  · cases h

/-- What `memberName?` finds: the closing brace, or a quote that a name follows. -/
theorem memberName?_cases {first : Bool} {name : Option String}
    (h : memberName? first bs = .ok (name, rest)) :
    skipBlanks bs = 125 :: rest ∧ name = none ∨
      ∃ after s, LeadsTo first bs (34 :: after) ∧ text after = .ok (s, rest) ∧ name = some s := by
  simp only [memberName?] at h
  split at h
  · cases h
  · rename_i after hskip
    obtain ⟨rfl, rfl⟩ := Prod.mk.inj (Except.ok.inj h)
    exact .inl ⟨hskip, rfl⟩
  · rename_i b after _ hskip
    split at h
    · rename_i hfirst
      split at h
      · rename_i hquote
        obtain rfl : b = 34 := by simpa using hquote
        split at h
        · cases h
        · rename_i s rest' hs
          obtain ⟨rfl, rfl⟩ := Prod.mk.inj (Except.ok.inj h)
          exact .inr ⟨after, s, by rwa [LeadsTo, if_pos hfirst], hs, rfl⟩
      · cases h
    · rename_i hfirst
      split at h
      · rename_i hcomma
        obtain rfl : b = 44 := by simpa using hcomma
        split at h
        · cases h
        · rename_i after' hquote
          split at h
          · cases h
          · rename_i s rest' hs
            obtain ⟨rfl, rfl⟩ := Prod.mk.inj (Except.ok.inj h)
            refine .inr ⟨after', s, ?_, hs, rfl⟩
            rw [LeadsTo, if_neg hfirst]
            exact ⟨after, hskip, hquote⟩
        · cases h
      · cases h

theorem memberName?_append {first : Bool} {name : Option String}
    (h : memberName? first bs = .ok (name, rest)) (more : Bytes) :
    memberName? first (bs ++ more) = .ok (name, rest ++ more) := by
  obtain ⟨hclose, rfl⟩ | ⟨after, s, hlead, hs, rfl⟩ := memberName?_cases h
  · simp only [memberName?, skipBlanks_append_cons hclose more]
  · have hs := text_append hs more
    have hlead := hlead.append more
    cases first with
    | true =>
        have hquote : skipBlanks (bs ++ more) = 34 :: (after ++ more) := hlead
        simp [memberName?, hquote, hs]
    | false =>
        obtain ⟨before, hcomma, hquote⟩ := hlead
        simp [memberName?, hcomma, hquote, hs]

/-- What an object goes on with: its end, or a member with the members after it. -/
theorem members_cases {item : Reader α} {first : Bool} {fuel : Nat} {es : List (String × α)}
    (h : members item (fuel + 1) first bs = .ok (es, rest)) :
    memberName? first bs = .ok (none, rest) ∧ es = [] ∨
      ∃ name afterName afterColon x after fs,
        memberName? first bs = .ok (some name, afterName) ∧ colon afterName = .ok afterColon ∧
        item afterColon = .ok (x, after) ∧ members item fuel false after = .ok (fs, rest) ∧
        es = (name, x) :: fs := by
  simp only [members] at h
  split at h
  · cases h
  · rename_i after hname
    obtain ⟨rfl, rfl⟩ := Prod.mk.inj (Except.ok.inj h)
    exact .inl ⟨hname, rfl⟩
  · rename_i name afterName hname
    split at h
    · cases h
    · rename_i afterColon hcolon
      split at h
      · cases h
      · rename_i x after hx
        split at h
        · cases h
        · rename_i fs rest' hfs
          obtain ⟨rfl, rfl⟩ := Prod.mk.inj (Except.ok.inj h)
          exact .inr ⟨name, afterName, afterColon, x, after, fs, hname, hcolon, hx, hfs, rfl⟩

theorem members_nil {item : Reader α} {fuel : Nat} {first : Bool}
    {p : List (String × α) × Bytes} :
    members item fuel first [] ≠ .ok p := by
  cases fuel <;> exact nofun

theorem members_append {item : Reader α} (hitem : Stable item)
    {fuel fuel' : Nat} {first : Bool} {es : List (String × α)}
    (h : members item fuel first bs = .ok (es, rest)) (hfuel : fuel ≤ fuel') (more : Bytes) :
    members item fuel' first (bs ++ more) = .ok (es, rest ++ more) := by
  induction fuel generalizing fuel' bs first es rest with
  | zero => cases h
  | succ fuel ih =>
      obtain ⟨fuel', rfl⟩ : ∃ f, fuel' = f + 1 := ⟨fuel' - 1, by omega⟩
      obtain ⟨hname, rfl⟩ | ⟨name, _, _, x, after, fs, hname, hcolon, hx, hfs, rfl⟩ :=
        members_cases h
      · simp only [members, memberName?_append hname more]
      · have hafter : after ≠ [] := by
          rintro rfl
          exact members_nil hfs
        rw [members_of_parts (memberName?_append hname more) (colon_append hcolon more)
          (hitem _ _ _ hx hafter more), ih hfs (by omega)]
        rfl

/-! ### Values -/

/-- A value that is no number: its last byte tells that it is complete. -/
def Value.IsClosed (v : Value) : Prop := ∀ x, v ≠ .number x

/-- The bytes that numbers begin with. -/
def beginsNumber (b : UInt8) : Bool := b == 45 || isDigit b

theorem mapResult_number_append {number : Reader Number} (hnumber : Stable number) {v : Value}
    (h : mapResult .number (number bs) = .ok (v, rest)) (hv : v.IsClosed ∨ rest ≠ [])
    (more : Bytes) : mapResult .number (number (bs ++ more)) = .ok (v, rest ++ more) := by
  obtain ⟨x, hx, rfl⟩ := mapResult_eq_ok_iff.1 h
  have hrest : rest ≠ [] := hv.resolve_left fun hclosed => hclosed x rfl
  exact mapResult_eq_ok_iff.2 ⟨x, hnumber _ _ _ hx hrest more, rfl⟩

theorem scalarAfter?_append {b : UInt8} {v : Value}
    (h : scalarAfter? b bs = some (.ok (v, rest))) (hv : v.IsClosed ∨ rest ≠ []) (more : Bytes) :
    scalarAfter? b (bs ++ more) = some (.ok (v, rest ++ more)) := by
  unfold scalarAfter? at h ⊢
  split at h
  · exact congrArg some (word_append (Option.some.inj h) more)
  · exact congrArg some (word_append (Option.some.inj h) more)
  · exact congrArg some (word_append (Option.some.inj h) more)
  · obtain ⟨s, hs, rfl⟩ := mapResult_eq_ok_iff.1 (Option.some.inj h)
    exact congrArg some (mapResult_eq_ok_iff.2 ⟨s, text_append hs more, rfl⟩)
  · exact congrArg some (mapResult_number_append (stable_number true) (Option.some.inj h) hv more)
  · split at h
    · rename_i hb
      rw [if_pos hb]
      exact congrArg some
        (mapResult_number_append (stable_number false) (Option.some.inj h) hv more)
    · cases h

theorem scalarAfter?_of_getD {b : UInt8} {p : Value × Bytes} {fault : FaultKind} {bytes : Bytes}
    (h : (scalarAfter? b bs).getD (faultAt fault bytes) = .ok p) :
    scalarAfter? b bs = some (.ok p) := by
  cases hscalar : scalarAfter? b bs with
  | none => exact nomatch hscalar ▸ h
  | some r =>
      rw [hscalar] at h
      exact congrArg some h

theorem value_of_word {value : α} {expected : Bytes} {x : α}
    (h : word value expected bs = .ok (x, rest)) : x = value := by
  induction expected generalizing bs with
  | nil => exact (Prod.mk.inj (Except.ok.inj h)).1.symm
  | cons e es ih =>
      cases bs with
      | nil => cases h
      | cons b bs =>
          rw [word] at h
          split at h
          · exact ih h
          · cases h

/-- Whether a scalar is a number shows in its first byte. -/
theorem beginsNumber_iff_scalar {b : UInt8} {v : Value}
    (h : scalarAfter? b bs = some (.ok (v, rest))) :
    beginsNumber b = true ↔ ∃ x, v = .number x := by
  unfold scalarAfter? at h
  split at h
  · obtain rfl := value_of_word (Option.some.inj h)
    simp [beginsNumber, isDigit]
  · obtain rfl := value_of_word (Option.some.inj h)
    simp [beginsNumber, isDigit]
  · obtain rfl := value_of_word (Option.some.inj h)
    simp [beginsNumber, isDigit]
  · obtain ⟨s, -, rfl⟩ := mapResult_eq_ok_iff.1 (Option.some.inj h)
    simp [beginsNumber, isDigit]
  · obtain ⟨x, -, rfl⟩ := mapResult_eq_ok_iff.1 (Option.some.inj h)
    simp [beginsNumber]
  · split at h
    · rename_i hb
      obtain ⟨x, -, rfl⟩ := mapResult_eq_ok_iff.1 (Option.some.inj h)
      simp [beginsNumber, hb]
    · cases h

theorem valueAt_scalar {b : UInt8} {after : Bytes} (depth : Nat)
    (hskip : skipBlanks bs = b :: after) (hbracket : b ≠ 91) (hbrace : b ≠ 123) :
    valueAt depth bs = (scalarAfter? b after).getD (faultAt .grammar (b :: after)) := by
  cases depth with
  | zero => rw [valueAt, hskip]
  | succ depth => simp [valueAt, hskip]

/-- Whether a value is a number shows in its first byte. -/
theorem beginsNumber_iff {depth : Nat} {b : UInt8} {after : Bytes} {v : Value}
    (h : valueAt depth bs = .ok (v, rest)) (hskip : skipBlanks bs = b :: after) :
    beginsNumber b = true ↔ ∃ x, v = .number x := by
  have hscalar (h : (scalarAfter? b after).getD (faultAt .grammar (b :: after)) =
      .ok (v, rest)) : beginsNumber b = true ↔ ∃ x, v = .number x :=
    beginsNumber_iff_scalar (scalarAfter?_of_getD h)
  cases depth with
  | zero =>
      rw [valueAt, hskip] at h
      exact hscalar h
  | succ depth =>
      rw [valueAt, hskip] at h
      split at h
      · cases h
      · rename_i hb
        obtain ⟨rfl, rfl⟩ := List.cons_eq_cons.1 hb
        obtain ⟨xs, -, rfl⟩ := mapResult_eq_ok_iff.1 h
        simp [beginsNumber, isDigit]
      · rename_i hb
        obtain ⟨rfl, rfl⟩ := List.cons_eq_cons.1 hb
        obtain ⟨xs, -, rfl⟩ := mapResult_eq_ok_iff.1 h
        simp [beginsNumber, isDigit]
      · rename_i hb
        obtain ⟨rfl, rfl⟩ := List.cons_eq_cons.1 hb
        exact hscalar h

/-- **What is read as a value stays that value**, whatever follows. -/
theorem valueAt_append {depth : Nat} {v : Value} (h : valueAt depth bs = .ok (v, rest))
    (hv : v.IsClosed ∨ rest ≠ []) (more : Bytes) :
    valueAt depth (bs ++ more) = .ok (v, rest ++ more) := by
  induction depth generalizing bs v rest more with
  | zero =>
      rw [valueAt] at h ⊢
      split at h
      · cases h
      · rename_i b after hskip
        rw [skipBlanks_append_cons hskip more]
        dsimp only
        rw [scalarAfter?_append (scalarAfter?_of_getD h) hv more]
        rfl
  | succ depth ih =>
      have hstable : Stable (valueAt depth) := fun _ _ _ h hrest more => ih h (.inr hrest) more
      rw [valueAt] at h
      split at h
      · cases h
      · rename_i after hskip
        rw [valueAt, skipBlanks_append_cons hskip more]
        obtain ⟨xs, hxs, rfl⟩ := mapResult_eq_ok_iff.1 h
        refine mapResult_eq_ok_iff.2 ⟨xs, items_append hstable hxs ?_ more, rfl⟩
        rw [List.length_append]
        omega
      · rename_i after hskip
        rw [valueAt, skipBlanks_append_cons hskip more]
        obtain ⟨es, hes, rfl⟩ := mapResult_eq_ok_iff.1 h
        refine mapResult_eq_ok_iff.2 ⟨es, members_append hstable hes ?_ more, rfl⟩
        rw [List.length_append]
        omega
      · rename_i b after hbracket hbrace hskip
        rw [valueAt_scalar _ (skipBlanks_append_cons hskip more) hbracket hbrace,
          scalarAfter?_append (scalarAfter?_of_getD h) hv more]
        rfl

/-! ### Values that are cut off -/

theorem exists_skipBlanks_of_valueAt {depth : Nat} {v : Value}
    (h : valueAt depth bs = .ok (v, rest)) :
    ∃ b after, skipBlanks bs = b :: after := by
  cases hskip : skipBlanks bs with
  | nil => cases depth <;> simp [valueAt, hskip, faultAt] at h
  | cons b after => exact ⟨b, after, rfl⟩

/-- **No beginning of a complete value is one itself**, numbers apart: their digits may always go
on. -/
theorem append_of_valueAt {depth : Nat} {v w : Value} {more : Bytes}
    (h : valueAt depth (bs ++ more) = .ok (v, [])) (hv : v.IsClosed)
    (hbs : valueAt depth bs = .ok (w, rest)) : more = [] := by
  obtain ⟨b, after, hskip⟩ := exists_skipBlanks_of_valueAt hbs
  have hw : w.IsClosed := by
    rintro x rfl
    have hb := (beginsNumber_iff hbs hskip).2 ⟨x, rfl⟩
    obtain ⟨y, hy⟩ := (beginsNumber_iff h (skipBlanks_append_cons hskip more)).1 hb
    exact hv y hy
  have hmore := valueAt_append hbs (.inl hw) more
  rw [h] at hmore
  have hrest := (Prod.mk.inj (Except.ok.inj hmore)).2
  exact (List.append_eq_nil_iff.1 hrest.symm).2

/-- What is left of a complete value after some bytes are cut off its end is refused. -/
theorem read_of_cut {v : Value} (h : valueAt maxDepth (bs ++ more) = .ok (v, []))
    (hv : v.IsClosed) (hmore : more ≠ []) : ∃ fault, read bs = .error fault := by
  cases hbs : valueAt maxDepth bs with
  | ok p => exact absurd (append_of_valueAt h hv hbs) hmore
  | error fault => exact ⟨fault, by rw [read, whole, hbs]⟩

end Json

end SecretResolver
