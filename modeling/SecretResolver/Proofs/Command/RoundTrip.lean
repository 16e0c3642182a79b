/-
**Values that go through the command line.**

A reference is made of a text by one command and resolved by another.  The text comes back unless it
holds separators in such a way that it is a value followed by further parameters: then a reference is
made of it all the same, and only the value comes back.

Main definitions:

* `Embedded.Prints` — what the two commands print;
* `Embedded.RoundTrips` — a text comes back.

Main results:

* `Command.run_resolve_embedded` — resolving a reference prints the value that it holds;
* `Embedded.roundTrips_iff` — **which texts come back**, and what comes of the others.
-/

import SecretResolver.Command.Run
import SecretResolver.Proofs.Reference.Embedding
import SecretResolver.Proofs.Text.Utf8

set_option relaxedAutoImplicit false
set_option autoImplicit false

namespace SecretResolver

/-! ### The commands -/

/-- The resolver of the command line has the engine whose references hold their values. -/
theorem Resolver.engineOf_ofFiles (s : Settings) (root : String) (read : ReadFile) :
    (Resolver.ofFiles s root read).engineOf Embedded.identifier = .ok .embedded := rfl

/-- An encrypted reference is no user secret reference. -/
theorem EncryptedRef.isReference_text (r : EncryptedRef) :
    UserRef.isReference r.text = false := by
  have hscheme : Text.dropStart secretScheme.toList r.text.toList = none := by
    rw [EncryptedRef.toList_text]
    rfl
  simp [UserRef.isReference, hscheme]

/-- Making a reference prints its text. -/
theorem Command.run_encrypt_embedded {s : Resolver} {p : String} {r : EncryptedRef}
    (he : s.engineOf Embedded.identifier = .ok .embedded) (hr : Embedded.encrypt p = .ok r) :
    ((Command.encrypt p).run s).1 = .ok (printed r.text) := by
  have hencrypted : Command.encrypted s p = .ok r.text := by
    simp [Command.encrypted, he, Engine.encrypt, hr, Except.map]
  simp only [Command.run, Action.bind_apply, Action.get_apply, hencrypted]
  rfl

/-- An embedded reference is resolved at once. -/
theorem Resolver.startDecrypt_embedded {s : Resolver} {r : EncryptedRef} {bs : Bytes}
    (he : s.engineOf r.engine = .ok .embedded) (hbs : Embedded.bytes r = .ok bs) :
    Resolver.startDecrypt r s =
      (.done (.ok bs), { s with log := .decrypting Embedded.identifier :: s.log }) := by
  have hvalid : Engine.embedded.validate r = .ok () := by
    simp [Engine.validate, hbs, Except.map]
  simp [Resolver.startDecrypt, he, hvalid, Resolver.startEngine, hbs, Engine.identifier]

/-- **Resolving a reference prints the value that it holds.** -/
theorem Command.run_resolve_embedded {s : Resolver} {r : EncryptedRef} {value : String}
    (resource : String) (he : s.engineOf r.engine = .ok .embedded)
    (hr : EncryptedRef.parse r.text = .ok r)
    (hv : Embedded.bytes r = .ok (Utf8.ofString value)) :
    ((Command.resolve r.text resource).run s).1 = .ok (printed value) := by
  have href : Resolver.encryptedRef r.text = .ok r := by
    rw [Resolver.encryptedRef, hr]
    rfl
  have hbytes : textOfBytes (Utf8.ofString value) = .ok value := by
    simp [textOfBytes, Utf8.text?_ofString]
  have hstart : (Resolver.startText resource r.text s).1 = .done (.ok value) := by
    simp [Resolver.startText, r.isReference_text, href, Resolver.startExternal,
      Resolver.startDecrypt_embedded he hv, Resolver.textOfResult, hbytes]
  have hresolve : (Resolver.resolveText resource r.text s).1 = .ok value := by
    simp [Resolver.resolveText, hstart, Resolver.await]
  simp only [Command.run, Action.bind_apply, hresolve]
  rfl

/-! ### Texts that come back -/

namespace Embedded

/-- What the commands print that make a reference of a text and resolve it: the text of the
reference, and a value. -/
def Prints (p : String) (r : EncryptedRef) (value : String) : Prop :=
  ∀ (settings : Settings) (root : String) (read : ReadFile) (resource : String),
    ((Command.encrypt p).run (Resolver.ofFiles settings root read)).1 =
        .ok (Command.printed r.text) ∧
      ((Command.resolve r.text resource).run (Resolver.ofFiles settings root read)).1 =
        .ok (Command.printed value)

/-- A text comes back: a reference is made of it just when it is not empty and holds no separator,
and the reference passes its check, holds the text, is read back from its own text, and prints the
text when it is resolved. -/
structure RoundTrips (p : String) : Prop where
  /-- A reference is made of the text just when it is not empty and holds no separator. -/
  made : (∃ r, encrypt p = .ok r) ↔ p ≠ "" ∧ '!' ∉ p.toList
  /-- It passes its check. -/
  valid : ∀ r, encrypt p = .ok r → Engine.embedded.validate r = .ok ()
  /-- It holds the text. -/
  held : ∀ r, encrypt p = .ok r → bytes r = .ok (Utf8.ofString p)
  /-- It is read back from its own text, and then holds the text too. -/
  read : ∀ r, encrypt p = .ok r → ∃ r', EncryptedRef.parse r.text = .ok r' ∧
    bytes r' = .ok (Utf8.ofString p)
  /-- It prints the text when it is resolved. -/
  prints : ∀ r, encrypt p = .ok r → Prints p r p

variable {p value : String} {further : List (String × String)}

theorem Embeds.prints (h : Embeds p value further) : Prints p h.reference value := by
  intro settings root read resource
  have he := Resolver.engineOf_ofFiles settings root read
  exact ⟨Command.run_encrypt_embedded he h.encrypt_eq,
    Command.run_resolve_embedded resource he h.parse_text h.bytes_eq⟩

/-- A text of which no reference comes other than one that holds the text itself comes back. -/
theorem roundTrips_of_forall (h : ∀ value further, Embeds p value further → further = []) :
    RoundTrips p := by
  have hself : ∀ r, encrypt p = .ok r → ∃ he : Embeds p p [], r = he.reference := by
    intro r hr
    obtain ⟨value, further, he, rfl⟩ := encrypt_eq_ok_iff.1 hr
    obtain rfl := h value further he
    obtain ⟨rfl, -⟩ := he.eq_of_not_mem (he.further_eq_nil_iff.1 rfl)
    exact ⟨he, rfl⟩
  refine ⟨⟨?_, ?_⟩, ?_, ?_, ?_, ?_⟩
  · rintro ⟨r, hr⟩
    obtain ⟨he, -⟩ := hself r hr
    exact ⟨he.ne_empty, he.further_eq_nil_iff.1 rfl⟩
  · rintro ⟨hne, hp⟩
    exact ⟨_, (embeds_self hne hp).encrypt_eq⟩
  all_goals
    intro r hr
    obtain ⟨he, rfl⟩ := hself r hr
  · exact he.validate_eq
  · exact he.bytes_eq
  · exact ⟨he.reference, he.parse_text, he.bytes_eq⟩
  · exact he.prints

/-- **Which texts come back**: all but those that are a value followed by further parameters.  Of
such a text a reference is made that passes its check, is read back from its own text, and holds and
prints the value alone.  A text of neither kind is refused. -/
theorem roundTrips_iff (p : String) :
    (RoundTrips p ↔ ¬ ∃ value further, further ≠ [] ∧ Embeds p value further) ∧
      (∀ value further, Embeds p value further → ∃ r, encrypt p = .ok r ∧
        Engine.embedded.validate r = .ok () ∧ EncryptedRef.parse r.text = .ok r ∧
        bytes r = .ok (Utf8.ofString value) ∧ Prints p r value ∧
        (further ≠ [] → bytes r ≠ .ok (Utf8.ofString p))) ∧
      ((¬ ∃ value further, Embeds p value further) →
        encrypt p = .error (.invalidFormat .notEmbeddable)) := by
  refine ⟨⟨?_, ?_⟩, ?_, ?_⟩
  · rintro h ⟨value, further, hne, he⟩
    exact hne (he.further_eq_nil_iff.2 (h.made.1 ⟨_, he.encrypt_eq⟩).2)
  · intro h
    refine roundTrips_of_forall fun value further he => ?_
    by_cases hnil : further = []
    · exact hnil
    · exact absurd ⟨value, further, hnil, he⟩ h
  · intro value further he
    refine ⟨he.reference, he.encrypt_eq, he.validate_eq, he.parse_text, he.bytes_eq, he.prints, ?_⟩
    intro hne hbytes
    have heq : value = p :=
      Utf8.ofString_injective (Except.ok.inj (he.bytes_eq.symm.trans hbytes))
    exact hne (he.further_eq_nil_iff.2 fun hp => he.value_ne hp heq)
  · intro h
    exact encrypt_eq_error fun value further he => h ⟨value, further, he⟩

/-- A text with a separator of which a reference is made: only what stands before the separator comes
back. -/
theorem not_roundTrips_xyz : ¬ RoundTrips "x!y:z" := by
  intro h
  have hmade : encrypt "x!y:z" =
      .ok ⟨"noop", ⟨[("v", "x"), ("y", "z")], by decide⟩⟩ := rfl
  exact absurd (h.made.1 ⟨_, hmade⟩).2 (by decide)

end Embedded

end SecretResolver
