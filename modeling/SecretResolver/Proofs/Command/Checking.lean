/-
**Checking and resolving agree.**

A reference is checked by resolving it and throwing the result away, and resolved to be printed.  The
two take different ways through parsing, engines and fields.  From the same state a reference that can
be resolved passes its check, and one that does not pass it cannot be resolved, for the very reason
that the check gives.  In between are references that get something out of their engine of which no
text can be printed.

Main definitions:

* `Command.Succeeds` — a command succeeds;
* `Resolver.Unprintable` — a reference gets something that is no text;
* `Command.Agree` — what checking and resolving a text have in common.

Main results:

* `Resolver.resolveText_user`, `Resolver.validateText_user`, `Resolver.resolveText_encrypted`,
  `Resolver.validateText_encrypted` — what both do with each kind of reference;
* `Command.agree` — **checking and resolving agree**.
-/

import SecretResolver.Command.Run
import SecretResolver.Proofs.Command.RoundTrip
import SecretResolver.Proofs.Reference.Grammar
import SecretResolver.Proofs.Resolver.Unlogged

set_option relaxedAutoImplicit false
set_option autoImplicit false

namespace SecretResolver

/-! ### Texts that are references -/

theorem UserRef.isReference_iff {text : String} :
    UserRef.isReference text = true ↔ ∃ r, UserRef.parse text = .ok r := by
  rw [UserRef.isReference_eq]
  cases UserRef.parse text <;> simp [Except.toOption]

theorem EncryptedRef.isReference_iff {text : String} :
    EncryptedRef.isReference text = true ↔ ∃ r, EncryptedRef.parse text = .ok r := by
  rw [EncryptedRef.isReference_eq]
  cases EncryptedRef.parse text <;> simp [Except.toOption]

/-- A text that is an encrypted reference is no user secret reference. -/
theorem EncryptedRef.isReference_of_parse {text : String} {r : EncryptedRef}
    (h : EncryptedRef.parse text = .ok r) : UserRef.isReference text = false := by
  obtain ⟨rfl, -⟩ := EncryptedRef.parse_eq_ok_iff.1 h
  exact r.isReference_text

namespace Resolver

variable {text resource : String} {s : Resolver}

/-! ### User secret references -/

theorem giveField_result (resource : String) (r : UserRef)
    (result : Except SecretError UserSecret) (s : Resolver) :
    (giveField resource r result s).1 = result >>= fieldOf r := by
  cases result with
  | error e => rfl
  | ok secret =>
      change _ = fieldOf r secret
      cases hfield : fieldOf r secret <;> simp [giveField, hfield]

/-- A user secret reference resolves to the field of its user secret. -/
theorem resolveText_user {r : UserRef} (h : UserRef.parse text = .ok r) :
    (resolveText resource text s).1 = (userSecret r s).1 >>= fieldOf r := by
  have href : userRef text = .ok r := by
    rw [userRef, h]
    rfl
  have hkind : UserRef.isReference text = true := UserRef.isReference_iff.2 ⟨r, h⟩
  simp only [resolveText, startText, hkind, if_true, href, startField, userSecret,
    Action.bind_apply]
  cases hstart : (startSecret r s).1 with
  | done result => simp [await, giveField_result]
  | waits w =>
      have hreference := reference_of_startSecret hstart
      simp [await, finishText, giveField_result, hreference, TextWait.readyAt]

/-- The check of a user secret reference asks for its user secret and for the field that it names. -/
theorem validateText_user {r : UserRef} (h : UserRef.parse text = .ok r) :
    (validateText text s).1 =
      match (userSecret r s).1 with
      | .error e => some e
      | .ok secret => fieldFault r secret := by
  have href : userRef text = .ok r := by
    rw [userRef, h]
    rfl
  have hkind : UserRef.isReference text = true := UserRef.isReference_iff.2 ⟨r, h⟩
  have hsecret := (unlogged_userSecret r).result_eq s (.validatingUser r.engine :: s.log)
  have hfault : (userFault text s).1 =
      match (userSecret r s).1 with
      | .error e => some e
      | .ok secret => fieldFault r secret := by
    simp only [userFault, href, Action.bind_apply, note_apply, hsecret]
    cases (userSecret r s).1 <;> rfl
  rw [← hfault]
  simp only [validateText, hkind, if_true, validateUser, Action.bind_apply]
  cases (userFault text s).1 <;> rfl

/-! ### Encrypted references -/

/-- An encrypted reference resolves to the text that its bytes are. -/
theorem resolveText_encrypted {r : EncryptedRef} (h : EncryptedRef.parse text = .ok r) :
    (resolveText resource text s).1 = textOfResult (decrypt r s).1 := by
  have href : encryptedRef text = .ok r := by
    rw [encryptedRef, h]
    rfl
  have hkind := EncryptedRef.isReference_of_parse h
  simp only [resolveText, startText, hkind, Bool.false_eq_true, if_false, href, startExternal,
    decrypt, Action.bind_apply]
  cases (startDecrypt r s).1 with
  | done result => rfl
  | waits w => simp [await, finishText, TextWait.readyAt]

/-- The check of an encrypted reference asks for its bytes. -/
theorem validateText_encrypted {r : EncryptedRef} (h : EncryptedRef.parse text = .ok r) :
    (validateText text s).1 =
      match (decrypt r s).1 with
      | .error e => some e
      | .ok _ => none := by
  have href : encryptedRef text = .ok r := by
    rw [encryptedRef, h]
    rfl
  have hkind : EncryptedRef.isReference text = true := EncryptedRef.isReference_iff.2 ⟨r, h⟩
  have hbytes := (unlogged_decrypt r).result_eq s (.validatingExternal r.engine :: s.log)
  have hfault : (externalFault text s).1 =
      match (decrypt r s).1 with
      | .error e => some e
      | .ok _ => none := by
    simp only [externalFault, href, Action.bind_apply, note_apply, hbytes]
    cases (decrypt r s).1 <;> rfl
  rw [← hfault]
  simp only [validateText, EncryptedRef.isReference_of_parse h, Bool.false_eq_true, if_false,
    hkind, if_true, validateExternal, Action.bind_apply]
  cases (externalFault text s).1 <;> rfl

/-! ### Both kinds -/

/-- A field that the check misses cannot be given. -/
theorem fieldOf_of_fieldFault {r : UserRef} {secret : UserSecret} {e : SecretError}
    (h : fieldFault r secret = some e) : fieldOf r secret = .error e := by
  cases hname : r.field? with
  | none => simp [fieldFault, hname] at h
  | some name =>
      cases hvalue : secret.get? name with
      | some value => simp [fieldFault, hname, hvalue] at h
      | none =>
          simp only [fieldFault, hname, hvalue] at h
          simp only [fieldOf, hname, Option.getD_some, hvalue]
          rw [Option.some.inj h]

/-- A field that the check does not miss and that cannot be given is none that is named. -/
theorem unnamed_of_fieldFault {r : UserRef} {secret : UserSecret} {e : SecretError}
    (h : fieldFault r secret = none) (he : fieldOf r secret = .error e) :
    r.field? = none ∧ ∃ values, secret.payload = .named values ∧ e = .noSuchField r.origin "" := by
  cases hname : r.field? with
  | some name => cases hvalue : secret.get? name <;> simp_all [fieldFault, fieldOf]
  | none =>
      cases hvalue : secret.get? "" with
      | some value => simp [fieldOf, hname, hvalue] at he
      | none =>
          simp only [fieldOf, hname, Option.getD_none, hvalue] at he
          cases hpayload : secret.payload with
          | single value => simp [UserSecret.get?, Payload.get?, hpayload] at hvalue
          | named values => exact ⟨rfl, values, rfl, (Except.error.inj he).symm⟩

/-- Bytes that are no text are not in UTF-8. -/
theorem textOfBytes_eq_error {bs : Bytes} {e : SecretError} (h : textOfBytes bs = .error e) :
    Utf8.text? bs = none ∧ e = .decryption .notText := by
  cases hbs : Utf8.text? bs with
  | some t => simp [textOfBytes, hbs] at h
  | none =>
      simp only [textOfBytes, hbs] at h
      exact ⟨rfl, (Except.error.inj h).symm⟩

/-- A reference gets something out of its engine of which no text can be printed, and why. -/
inductive Unprintable (text : String) (s : Resolver) : SecretError → Prop where
  /-- A user secret reference names no field, and its user secret has only fields with names. -/
  | unnamed (r : UserRef) (secret : UserSecret) (values : Table String)
      (h : UserRef.parse text = .ok r) (hfield : r.field? = none)
      (hsecret : (userSecret r s).1 = .ok secret) (hvalues : secret.payload = .named values) :
      Unprintable text s (.noSuchField r.origin "")
  /-- The bytes of an encrypted reference are not in UTF-8. -/
  | unreadable (r : EncryptedRef) (bs : Bytes) (h : EncryptedRef.parse text = .ok r)
      (hbytes : (decrypt r s).1 = .ok bs) (hbs : Utf8.text? bs = none) :
      Unprintable text s (.decryption .notText)

/-- What is resolved is a reference. -/
theorem isReference_of_resolveText {value : String}
    (h : (resolveText resource text s).1 = .ok value) :
    UserRef.isReference text = true ∨ EncryptedRef.isReference text = true := by
  cases huser : UserRef.isReference text with
  | true => exact .inl rfl
  | false =>
      cases hparse : EncryptedRef.parse text with
      | ok r => exact .inr (EncryptedRef.isReference_iff.2 ⟨r, hparse⟩)
      | error fault =>
          have href : encryptedRef text = .error (.invalidFormat (.encrypted fault)) := by
            rw [encryptedRef, hparse]
            rfl
          simp [resolveText, startText, huser, href, await] at h

/-- Only in a reference can there be something wrong. -/
theorem isReference_of_validateText {e : SecretError} (h : (validateText text s).1 = some e) :
    UserRef.isReference text = true ∨ EncryptedRef.isReference text = true := by
  cases huser : UserRef.isReference text with
  | true => exact .inl rfl
  | false =>
      cases hencrypted : EncryptedRef.isReference text with
      | true => exact .inr rfl
      | false => simp [validateText, huser, hencrypted] at h

/-- What the check finds wrong with a text is why it cannot be resolved. -/
theorem resolveText_of_validateText {e : SecretError} (h : (validateText text s).1 = some e) :
    (resolveText resource text s).1 = .error e := by
  rcases isReference_of_validateText h with huser | hencrypted
  · obtain ⟨r, hr⟩ := UserRef.isReference_iff.1 huser
    rw [validateText_user hr] at h
    rw [resolveText_user hr]
    cases hsecret : (userSecret r s).1 with
    | error e' =>
        rw [hsecret] at h
        rw [Option.some.inj h]
        rfl
    | ok secret =>
        rw [hsecret] at h
        exact fieldOf_of_fieldFault h
  · obtain ⟨r, hr⟩ := EncryptedRef.isReference_iff.1 hencrypted
    rw [validateText_encrypted hr] at h
    rw [resolveText_encrypted hr]
    cases hbytes : (decrypt r s).1 with
    | ok bs =>
        rw [hbytes] at h
        exact nomatch h
    | error e' =>
        rw [hbytes] at h
        rw [Option.some.inj h]
        rfl

/-- A reference in which the check finds nothing wrong is resolved, or is not printable. -/
theorem unprintable_of_validateText {e : SecretError}
    (href : UserRef.isReference text = true ∨ EncryptedRef.isReference text = true)
    (h : (validateText text s).1 = none) (he : (resolveText resource text s).1 = .error e) :
    Unprintable text s e := by
  rcases href with huser | hencrypted
  · obtain ⟨r, hr⟩ := UserRef.isReference_iff.1 huser
    rw [validateText_user hr] at h
    rw [resolveText_user hr] at he
    cases hsecret : (userSecret r s).1 with
    | error e' =>
        rw [hsecret] at h
        exact nomatch h
    | ok secret =>
        rw [hsecret] at h he
        obtain ⟨hfield, values, hvalues, rfl⟩ := unnamed_of_fieldFault h he
        exact .unnamed r secret values hr hfield hsecret hvalues
  · obtain ⟨r, hr⟩ := EncryptedRef.isReference_iff.1 hencrypted
    rw [validateText_encrypted hr] at h
    rw [resolveText_encrypted hr] at he
    cases hbytes : (decrypt r s).1 with
    | error e' =>
        rw [hbytes] at h
        exact nomatch h
    | ok bs =>
        rw [hbytes] at he
        obtain ⟨hbs, rfl⟩ := textOfBytes_eq_error he
        exact .unreadable r bs hr hbytes hbs

end Resolver

/-! ### Commands -/

namespace Command

variable {text resource : String} {s : Resolver}

/-- A command succeeds if it exits with zero. -/
def Succeeds (c : Command) (s : Resolver) : Prop := (Outcome.ofResult (c.run s).1).code = 0

theorem succeeds_iff {c : Command} : c.Succeeds s ↔ ∃ out, (c.run s).1 = .ok out := by
  unfold Succeeds
  cases (c.run s).1 <;> simp [Outcome.ofResult]

theorem run_resolve (text resource : String) (s : Resolver) :
    ((Command.resolve text resource).run s).1 =
      plainly ((Resolver.resolveText resource text s).1.map printed) := rfl

theorem succeeds_resolve_iff : (Command.resolve text resource).Succeeds s ↔
    ∃ value, (Resolver.resolveText resource text s).1 = .ok value := by
  rw [succeeds_iff, run_resolve]
  cases (Resolver.resolveText resource text s).1 with
  | error e =>
      have hplain : plainly ((Except.error e : Except SecretError String).map printed) =
          .error (.plain e) := rfl
      simp [hplain]
  | ok value =>
      have hplain : plainly ((Except.ok value : Except SecretError String).map printed) =
          .ok (printed value) := rfl
      simp [hplain]

theorem run_check_of_reference
    (h : UserRef.isReference text = true ∨ EncryptedRef.isReference text = true) :
    ((Command.check text).run s).1 =
      match (Resolver.validateText text s).1 with
      | none => .ok (printed "OK")
      | some e => .error ⟨"Reference failed validation", some e.message⟩ := by
  have hkind : (!UserRef.isReference text && !EncryptedRef.isReference text) = false := by
    rcases h with h | h <;> simp [h]
  simp only [run, checked, hkind, Bool.false_eq_true, if_false, Action.bind_apply]
  cases (Resolver.validateText text s).1 <;> rfl

theorem run_check_of_not_reference (huser : UserRef.isReference text = false)
    (hencrypted : EncryptedRef.isReference text = false) :
    ((Command.check text).run s).1 = .error ⟨"Not a secret reference", none⟩ := by
  simp [run, checked, huser, hencrypted]

/-- A check succeeds for a reference in which nothing is wrong. -/
theorem succeeds_check_iff : (Command.check text).Succeeds s ↔
    (UserRef.isReference text = true ∨ EncryptedRef.isReference text = true) ∧
      (Resolver.validateText text s).1 = none := by
  rw [succeeds_iff]
  by_cases href : UserRef.isReference text = true ∨ EncryptedRef.isReference text = true
  · rw [run_check_of_reference href]
    cases (Resolver.validateText text s).1 <;> simp [href]
  · obtain ⟨huser, hencrypted⟩ := not_or.1 href
    simp only [Bool.not_eq_true] at huser hencrypted
    rw [run_check_of_not_reference huser hencrypted]
    simp [huser, hencrypted]

/-- What checking a text and resolving it for a resource have in common, from one state. -/
structure Agree (text resource : String) (s : Resolver) : Prop where
  /-- What can be resolved passes its check. -/
  passes : (Command.resolve text resource).Succeeds s → (Command.check text).Succeeds s
  /-- What the check finds wrong is told by it, and is why the text cannot be resolved. -/
  reported : ∀ e, (Resolver.validateText text s).1 = some e →
    ((Command.check text).run s).1 = .error ⟨"Reference failed validation", some e.message⟩ ∧
      (Resolver.resolveText resource text s).1 = .error e ∧
      ((Command.resolve text resource).run s).1 = .error (.plain e)
  /-- What passes its check and cannot be resolved is no text. -/
  apart : (Command.check text).Succeeds s → ¬ (Command.resolve text resource).Succeeds s →
    ∃ e, (Resolver.resolveText resource text s).1 = .error e ∧ Resolver.Unprintable text s e
  /-- What is no reference fails both. -/
  neither : UserRef.isReference text = false → EncryptedRef.isReference text = false →
    ¬ (Command.check text).Succeeds s ∧ ¬ (Command.resolve text resource).Succeeds s

/-- **Checking and resolving agree**, for every text and from every state. -/
theorem agree (text resource : String) (s : Resolver) : Agree text resource s where
  passes h := by
    obtain ⟨value, hvalue⟩ := succeeds_resolve_iff.1 h
    refine succeeds_check_iff.2 ⟨?_, ?_⟩
    · exact Resolver.isReference_of_resolveText hvalue
    · cases hfault : (Resolver.validateText text s).1 with
      | none => rfl
      | some e =>
          have he : (Resolver.resolveText resource text s).1 = .error e :=
            Resolver.resolveText_of_validateText hfault
          rw [hvalue] at he
          exact nomatch he
  reported e he := by
    have hresolve : (Resolver.resolveText resource text s).1 = .error e :=
      Resolver.resolveText_of_validateText he
    refine ⟨?_, hresolve, ?_⟩
    · rw [run_check_of_reference (Resolver.isReference_of_validateText he), he]
    · rw [run_resolve, hresolve]
      rfl
  apart hcheck hresolve := by
    obtain ⟨href, hfault⟩ := succeeds_check_iff.1 hcheck
    cases he : (Resolver.resolveText resource text s).1 with
    | ok value => exact absurd (succeeds_resolve_iff.2 ⟨value, he⟩) hresolve
    | error e => exact ⟨e, rfl, Resolver.unprintable_of_validateText href hfault he⟩
  neither huser hencrypted := by
    constructor
    · intro h
      simp [succeeds_check_iff, huser, hencrypted] at h
    · intro h
      obtain ⟨value, hvalue⟩ := succeeds_resolve_iff.1 h
      have href := Resolver.isReference_of_resolveText hvalue
      simp [huser, hencrypted] at href

end Command

end SecretResolver
