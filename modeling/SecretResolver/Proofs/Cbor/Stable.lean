/-
**CBOR with more bytes behind it.**

Heads say how much belongs to an item, and an open length goes up to its stop.  So a reader makes of
some bytes what it makes of them whatever follows, and leaves that over.  The fuel of a reader is a
bound on its bytes, so more bytes come with more fuel.  An item that is cut off can therefore not be
read: what was cut off would be left over.

Main definitions:

* `Cbor.Stable` — readers whose result does not depend on what follows.

Main results:

* `Cbor.stable_head` — heads;
* `Cbor.chunks_append`, `Cbor.segments_append` — texts and strings of bytes;
* `Cbor.stable_itemAfter` — **items**, by induction on how deep they are nested;
* `Cbor.append_of_item` — **an item is not read from less than all of its bytes**.
-/

import SecretResolver.Cbor.Reader

set_option relaxedAutoImplicit false
set_option autoImplicit false

namespace SecretResolver

namespace Cbor

variable {α : Type}

/-- What a reader makes of some bytes it makes of them whatever follows, and that is left over. -/
def Stable (r : Reader α) : Prop :=
  ∀ bs x rest, r bs = .ok (x, rest) → ∀ more, r (bs ++ more) = .ok (x, rest ++ more)

/-- A result that takes no bytes. -/
theorem stable_result (r : Except Stop α) : Stable fun bs => r.map fun x => (x, bs) := by
  intro bs x rest h more
  cases r with
  | error stop => exact nomatch h
  | ok y =>
      obtain ⟨rfl, rfl⟩ := Prod.mk.inj (Except.ok.inj h)
      rfl

theorem stable_pure (x : α) : Stable fun bs => .ok (x, bs) :=
  stable_result (.ok x)

theorem stable_error (stop : Stop) : Stable (fun _ => .error stop : Reader α) :=
  stable_result (.error stop)

theorem Stable.mapResult {r : Reader α} (hr : Stable r) {β : Type} (f : α → β) :
    Stable fun bs => Cbor.mapResult f (r bs) := by
  intro bs y rest h more
  simp only at h ⊢
  cases hx : r bs with
  | error stop => exact nomatch hx ▸ h
  | ok p =>
      obtain ⟨x, rest'⟩ := p
      rw [hx] at h
      obtain ⟨rfl, rfl⟩ := Prod.mk.inj (Except.ok.inj h)
      rw [hr bs x rest' hx more]
      rfl

/-! ### Heads -/

theorem stable_takeBytes (n : Nat) : Stable (takeBytes n) := by
  intro bs x rest h more
  unfold takeBytes at h ⊢
  split at h
  · exact nomatch h
  · rename_i hn
    obtain ⟨rfl, rfl⟩ := Prod.mk.inj (Except.ok.inj h)
    have hn' : ¬ (bs ++ more).length < n := by
      rw [List.length_append]
      omega
    rw [if_neg hn', List.take_append_of_le_length (by omega),
      List.drop_append_of_le_length (by omega)]

/-- Where a head lies matters for its faults only. -/
theorem argument_append {low left : Nat} {bs rest : Bytes} {a : Option Argument}
    (h : argument low left bs = .ok (a, rest)) (left' : Nat) (more : Bytes) :
    argument low left' (bs ++ more) = .ok (a, rest ++ more) := by
  unfold argument at h ⊢
  split at h
  · rename_i hlow
    rw [if_pos hlow]
    exact stable_pure _ _ _ _ h more
  · rename_i hlow
    rw [if_neg hlow]
    split at h
    · rename_i hopen
      rw [if_pos hopen]
      exact stable_pure _ _ _ _ h more
    · rename_i hopen
      rw [if_neg hopen]
      cases hw : widthOf? low with
      | none =>
          rw [hw] at h
          exact nomatch h
      | some width =>
          rw [hw] at h
          dsimp only at h ⊢
          split at h
          · exact nomatch h
          · rename_i number rest' htake
            obtain ⟨rfl, rfl⟩ := Prod.mk.inj (Except.ok.inj h)
            rw [stable_takeBytes width _ _ _ htake more]

theorem stable_head : Stable head := by
  intro bs h' rest h more
  cases bs with
  | nil => exact nomatch h
  | cons b bs =>
      rw [List.cons_append]
      simp only [head] at h ⊢
      split at h
      · exact nomatch h
      · rename_i a rest' hargument
        rw [argument_append hargument]
        dsimp only
        cases hh : headOf? (b.toNat / 32) a with
        | none =>
            rw [hh] at h
            exact nomatch h
        | some kind =>
            rw [hh] at h
            exact stable_pure _ _ _ _ h more

/-! ### Texts and bytes -/

theorem chunks_append {left fuel fuel' n : Nat} {cut bs rest : Bytes} {cs : List Char}
    (h : chunks left fuel cut n bs = .ok (cs, rest)) (hfuel : fuel ≤ fuel') (left' : Nat)
    (more : Bytes) : chunks left' fuel' cut n (bs ++ more) = .ok (cs, rest ++ more) := by
  induction fuel generalizing fuel' cut n bs cs rest with
  | zero => exact nomatch h
  | succ fuel ih =>
      obtain ⟨fuel', rfl⟩ : ∃ f, fuel' = f + 1 := ⟨fuel' - 1, by omega⟩
      simp only [chunks] at h ⊢
      split at h
      · rename_i hn
        rw [if_pos hn]
        split at h
        · rename_i hcut
          rw [if_pos hcut]
          exact stable_pure _ _ _ _ h more
        · exact nomatch h
      · rename_i hn
        rw [if_neg hn]
        split at h
        · exact nomatch h
        · rename_i chunk bs' htake
          rw [stable_takeBytes _ _ _ _ htake more]
          dsimp only
          split at h
          · exact nomatch h
          · rename_i hvalid
            rw [if_neg hvalid]
            split at h
            · exact nomatch h
            · rename_i cs' rest' hmore
              obtain ⟨rfl, rfl⟩ := Prod.mk.inj (Except.ok.inj h)
              rw [ih hmore (by omega)]

/-- A reader of the contents of a text or of a string of bytes is stable, wherever they lie. -/
def StableChunk (chunk : Nat → Nat → Reader (List α)) : Prop :=
  ∀ left n bs x rest, chunk left n bs = .ok (x, rest) →
    ∀ left' more, chunk left' n (bs ++ more) = .ok (x, rest ++ more)

theorem stableChunk_text : StableChunk textChunk := by
  intro left n bs x rest h left' more
  refine chunks_append h ?_ left' more
  rw [List.length_append]
  omega

theorem stableChunk_bytes : StableChunk bytesChunk := by
  intro left n bs x rest h left' more
  exact stable_takeBytes n bs x rest h more

theorem segments_append {lengthOf : Head → Option (Option Nat)}
    {chunk : Nat → Nat → Reader (List α)} (hchunk : StableChunk chunk)
    {fuel fuel' nested : Nat} {bs rest : Bytes} {xs : List α}
    (h : segments lengthOf chunk fuel nested bs = .ok (xs, rest)) (hfuel : fuel ≤ fuel')
    (more : Bytes) :
    segments lengthOf chunk fuel' nested (bs ++ more) = .ok (xs, rest ++ more) := by
  induction fuel generalizing fuel' nested bs xs rest with
  | zero => exact nomatch h
  | succ fuel ih =>
      obtain ⟨fuel', rfl⟩ : ∃ f, fuel' = f + 1 := ⟨fuel' - 1, by omega⟩
      simp only [segments] at h ⊢
      split at h
      · exact nomatch h
      · rename_i rest' hhead
        rw [stable_head _ _ _ hhead more]
        dsimp only
        split at h
        · rename_i hnested
          rw [if_pos hnested]
          exact stable_pure _ _ _ _ h more
        · rename_i hnested
          rw [if_neg hnested]
          exact ih h (by omega)
      · rename_i kind after hstop hhead
        rw [stable_head _ _ _ hhead more]
        cases kind with
        | stop => exact absurd rfl hstop
        | _ =>
            dsimp only at h ⊢
            split at h
            · exact nomatch h
            · exact ih h (by omega)
            · split at h
              · exact nomatch h
              · rename_i hx
                rw [hchunk _ _ _ _ _ hx]
                dsimp only
                split at h
                · exact nomatch h
                · rename_i hy
                  rw [ih hy (by omega)]
                  exact stable_pure _ _ _ _ h more

theorem stable_textOf (length : Option Nat) : Stable (textOf length) := by
  intro bs x rest h more
  cases length with
  | some n => exact stableChunk_text _ n bs x rest h _ more
  | none =>
      refine segments_append stableChunk_text h ?_ more
      rw [List.length_append]
      omega

theorem stable_bytesOf (length : Option Nat) : Stable (bytesOf length) := by
  intro bs x rest h more
  cases length with
  | some n => exact stable_takeBytes n bs x rest h more
  | none =>
      refine segments_append stableChunk_bytes h ?_ more
      rw [List.length_append]
      omega

/-! ### Items -/

theorem stable_exactly {element : Head → Reader α} (he : ∀ h, Stable (element h)) (n : Nat) :
    Stable (exactly element n) := by
  induction n with
  | zero => exact stable_pure []
  | succ n ih =>
      intro bs xs rest h more
      simp only [exactly] at h ⊢
      split at h
      · exact nomatch h
      · rename_i kind afterHead hhead
        rw [stable_head _ _ _ hhead more]
        dsimp only
        split at h
        · exact nomatch h
        · rename_i x afterItem hx
          rw [he kind _ _ _ hx more]
          dsimp only
          split at h
          · exact nomatch h
          · rename_i hxs
            rw [ih _ _ _ hxs more]
            exact stable_pure _ _ _ _ h more

theorem untilStop_append {element : Head → Reader α} (he : ∀ h, Stable (element h))
    {fuel fuel' : Nat} {bs rest : Bytes} {xs : List α}
    (h : untilStop element fuel bs = .ok (xs, rest)) (hfuel : fuel ≤ fuel') (more : Bytes) :
    untilStop element fuel' (bs ++ more) = .ok (xs, rest ++ more) := by
  induction fuel generalizing fuel' bs xs rest with
  | zero => exact nomatch h
  | succ fuel ih =>
      obtain ⟨fuel', rfl⟩ : ∃ f, fuel' = f + 1 := ⟨fuel' - 1, by omega⟩
      simp only [untilStop] at h ⊢
      split at h
      · exact nomatch h
      · rename_i hhead
        rw [stable_head _ _ _ hhead more]
        exact stable_pure _ _ _ _ h more
      · rename_i kind after hstop hhead
        rw [stable_head _ _ _ hhead more]
        cases kind with
        | stop => exact absurd rfl hstop
        | _ =>
            dsimp only at h ⊢
            split at h
            · exact nomatch h
            · rename_i hx
              rw [he _ _ _ _ hx more]
              dsimp only
              split at h
              · exact nomatch h
              · rename_i hxs
                rw [ih hxs (by omega)]
                exact stable_pure _ _ _ _ h more

theorem stable_elements {element : Head → Reader α} (he : ∀ h, Stable (element h))
    (length : Option Nat) : Stable (elements length element) := by
  intro bs xs rest h more
  cases length with
  | some n => exact stable_exactly he n bs xs rest h more
  | none =>
      refine untilStop_append he h ?_ more
      rw [List.length_append]
      omega

theorem stable_itemBy {after : Head → Reader Value} (ha : ∀ h, Stable (after h)) :
    Stable (itemBy after) := by
  intro bs v rest h more
  simp only [itemBy] at h ⊢
  split at h
  · exact nomatch h
  · rename_i kind afterHead hhead
    rw [stable_head _ _ _ hhead more]
    exact ha kind _ _ _ h more

theorem stable_entryBy {after : Head → Reader Value} (ha : ∀ h, Stable (after h)) (h : Head) :
    Stable (entryBy after h) := by
  intro bs e rest he more
  simp only [entryBy] at he ⊢
  split at he
  · exact nomatch he
  · rename_i hk
    rw [ha h _ _ _ hk more]
    dsimp only
    split at he
    · exact nomatch he
    · rename_i hv
      rw [stable_itemBy ha _ _ _ hv more]
      exact stable_pure _ _ _ _ he more

/-- A tagged string of bytes that makes an integer makes it whatever follows. -/
theorem integerLength?_append {tag n : Nat} {bs rest : Bytes}
    (h : integerLength? tag bs = some (n, rest)) (more : Bytes) :
    integerLength? tag (bs ++ more) = some (n, rest ++ more) := by
  unfold integerLength? at h ⊢
  split at h
  · rename_i htag
    rw [if_pos htag]
    split at h
    · rename_i hhead
      rw [stable_head _ _ _ hhead more]
      dsimp only
      split at h
      · rename_i hn
        obtain ⟨rfl, rfl⟩ := Prod.mk.inj (Option.some.inj h)
        rw [if_pos hn]
      · exact nomatch h
    · exact nomatch h
  · exact nomatch h

/-- Whether it makes one is decided by the head that follows the tag. -/
theorem integerLength?_append_none {tag : Nat} {bs rest : Bytes} {kind : Head}
    (h : integerLength? tag bs = none) (hhead : head bs = .ok (kind, rest)) (more : Bytes) :
    integerLength? tag (bs ++ more) = none := by
  unfold integerLength? at h ⊢
  split at h
  · rename_i htag
    rw [if_pos htag, stable_head _ _ _ hhead more]
    rw [hhead] at h
    cases kind with
    | bytes length =>
        cases length with
        | none => rfl
        | some n =>
            dsimp only at h ⊢
            split at h
            · exact nomatch h
            · rename_i hn
              rw [if_neg hn]
    | _ => rfl
  · rename_i htag
    rw [if_neg htag]

/-- The bytes of a tagged integer. -/
theorem tagged_append {tag n : Nat} {bs rest : Bytes} {v : Value}
    (h : (match takeBytes n bs with
      | .error stop => .error stop
      | .ok (number, rest) => (largeInteger tag number).map fun v => (v, rest) :
        Except Stop (Value × Bytes)) = .ok (v, rest)) (more : Bytes) :
    (match takeBytes n (bs ++ more) with
      | .error stop => .error stop
      | .ok (number, rest) => (largeInteger tag number).map fun v => (v, rest) :
        Except Stop (Value × Bytes)) = .ok (v, rest ++ more) := by
  split at h
  · exact nomatch h
  · rename_i htake
    rw [stable_takeBytes _ _ _ _ htake more]
    exact stable_result _ _ _ _ h more

theorem stable_itemAfter (depth : Nat) (h : Head) : Stable (itemAfter depth h) := by
  induction depth generalizing h with
  | zero =>
      cases h with
      | positive n => exact stable_pure _
      | negative n => exact stable_pure _
      | bytes length => exact (stable_bytesOf length).mapResult _
      | text length => exact (stable_textOf length).mapResult _
      | array length => exact stable_error _
      | map length => exact stable_error _
      | tag tag =>
          intro bs v rest h more
          simp only [itemAfter] at h ⊢
          split at h
          · exact nomatch h
          · rename_i hlength
            rw [integerLength?_append hlength more]
            exact tagged_append h more
      | simple n => exact stable_result (simpleValue n)
      | real x => exact stable_pure _
      | stop => exact stable_error _
  | succ depth ih =>
      cases h with
      | positive n => exact stable_pure _
      | negative n => exact stable_pure _
      | bytes length => exact (stable_bytesOf length).mapResult _
      | text length => exact (stable_textOf length).mapResult _
      | array length => exact (stable_elements ih length).mapResult _
      | map length => exact (stable_elements (stable_entryBy ih) length).mapResult _
      | tag tag =>
          intro bs v rest h more
          simp only [itemAfter] at h ⊢
          split at h
          · rename_i hlength
            -- an item follows, so its head is there
            cases hhead : head bs with
            | error stop =>
                rw [itemBy, hhead] at h
                exact nomatch h
            | ok p =>
                rw [integerLength?_append_none hlength hhead more]
                exact (stable_itemBy ih).mapResult _ _ _ _ h more
          · rename_i hlength
            rw [integerLength?_append hlength more]
            exact tagged_append h more
      | simple n => exact stable_result (simpleValue n)
      | real x => exact stable_pure _
      | stop => exact stable_error _

/-! ### Items that are cut off -/

variable {bs rest more : Bytes}

/-- **An item is not read from less than all of its bytes.** -/
theorem append_of_item {depth : Nat} {v w : Value}
    (h : itemBy (itemAfter depth) (bs ++ more) = .ok (v, []))
    (hbs : itemBy (itemAfter depth) bs = .ok (w, rest)) : more = [] := by
  have hmore := stable_itemBy (stable_itemAfter depth) _ _ _ hbs more
  rw [h] at hmore
  have hrest := (Prod.mk.inj (Except.ok.inj hmore)).2
  exact (List.append_eq_nil_iff.1 hrest.symm).2

/-- What is left of a complete item after some bytes are cut off its end is refused. -/
theorem read_of_cut {v : Value} (h : itemBy (itemAfter maxDepth) (bs ++ more) = .ok (v, []))
    (hmore : more ≠ []) : ∃ fault, read bs = .error fault := by
  cases hbs : itemBy (itemAfter maxDepth) bs with
  | ok p => exact absurd (append_of_item h hbs) hmore
  | error stop =>
      cases stop with
      | other => exact ⟨.other, by rw [read, hbs]⟩
      | grammar left => exact ⟨.grammar (bs.length - left), by rw [read, hbs]⟩

end Cbor

end SecretResolver
