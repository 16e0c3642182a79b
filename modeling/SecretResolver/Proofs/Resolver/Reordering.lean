/-
**The order of parameters makes no difference.**

References that are the same lead to the same everywhere: what is looked up in them, how they are
hashed, which entry of the cache and of the ledger is theirs, and what engines make of them.  Only an
engine that answers with the text of a reference shows in which order its parameters were written, and
the payload of an embedded secret has its names in the order of the reference.

Main definitions:

* `UserSecret.SameData`, `Resolver.SameOutcome` — user secrets, and what comes of resolving one, up to
  the order of names;
* `Resolver.SameBegun` — two calls that have begun, each for its reference, from one state;
* `UserRef.Interchangeable`, `EncryptedRef.Interchangeable` — references that lead to the same.

Main results:

* `Resolver.startSecret_sameBegun` — **user secrets are cached regardless of the order**;
* `Resolver.ledger_track_track` — **and so they are tracked**;
* `Resolver.decrypt_eq_of_sameAs` — **encrypted references are resolved regardless of it**;
* `order_immaterial` — texts that differ in the order of their parameters.
-/

import SecretResolver.Proofs.Reference.Reordering
import SecretResolver.Proofs.Resolver.Files
import SecretResolver.Resolver.Resolve

set_option relaxedAutoImplicit false
set_option autoImplicit false

namespace SecretResolver

/-- An entry that is there is put where it is. -/
theorem Entries.put_of_find? {κ β : Type} [DecidableEq κ] {k : κ} {v : β} {es : List (κ × β)}
    (h : find? k es = some v) : put k v es = es := by
  induction es with
  | nil => exact nomatch h
  | cons e es ih =>
      rw [find?_cons] at h
      split at h
      · rename_i hk
        obtain rfl := Option.some.inj h
        rw [put, if_pos hk, ← hk]
      · rename_i hk
        rw [put, if_neg hk, ih h]

/-! ### User secrets -/

/-- Two user secrets have the same description and the same texts. -/
def UserSecret.SameData (s s' : UserSecret) : Prop :=
  s.description = s'.description ∧ s.payload.sameAs s'.payload = true

namespace Resolver

/-- What has come of resolving two references: the same failure, or the same data. -/
inductive SameOutcome : Except SecretError UserSecret → Except SecretError UserSecret → Prop where
  | error (e : SecretError) : SameOutcome (.error e) (.error e)
  | ok {secret secret' : UserSecret} (h : secret.SameData secret') :
      SameOutcome (.ok secret) (.ok secret')

end Resolver

namespace Resolver

variable {r r' : UserRef}

theorem sameOutcome_refl (result : Except SecretError UserSecret) : SameOutcome result result := by
  cases result with
  | error e => exact .error e
  | ok secret => exact .ok ⟨rfl, secret.payload.sameAs_refl⟩

/-- The texts of a reference that holds its values are the same in whatever order they come. -/
theorem sameData_secret (h : r.sameAs r' = true) :
    (Embedded.secret r).SameData (Embedded.secret r') :=
  ⟨rfl, Table.sameAs_of_perm (Table.erase_perm (UserRef.sameAs_iff.1 h).2 fieldParameter)⟩

theorem validateUser_eq_of_sameAs (h : r.sameAs r' = true) (e : Engine) :
    e.validateUser r = e.validateUser r' := by
  have hget := UserRef.get?_eq_of_sameAs h
  cases e with
  | embedded => simp only [Engine.validateUser, hget]
  | storage id files => rfl
  | vault id => simp only [Engine.validateUser, hget]
  | echo id => rfl

/-- Two computations are ready at the same time and come to the same. -/
def SameComputation (c c' : Computation SecretError UserSecret) : Prop :=
  c.readyAt = c'.readyAt ∧ SameOutcome c.result c'.result

/-- An engine that checks a reference makes the same of either. -/
theorem computeChecked_sameAs (h : r.sameAs r' = true) (e : Engine) (s : Resolver) :
    SameComputation (computeChecked e r s).1 (computeChecked e r' s).1 ∧
      (computeChecked e r s).2 = (computeChecked e r' s).2 := by
  unfold computeChecked
  rw [validateUser_eq_of_sameAs h e]
  cases e.validateUser r' with
  | error fault => exact ⟨⟨rfl, .error fault⟩, rfl⟩
  | ok _ =>
      cases e with
      | embedded => exact ⟨⟨rfl, .ok (sameData_secret h)⟩, rfl⟩
      | storage id files => exact ⟨⟨rfl, sameOutcome_refl _⟩, rfl⟩
      | vault id =>
          have hopen : openVault r = openVault r' := by
            unfold openVault
            rw [UserRef.get?_eq_of_sameAs h]
          change SameComputation (openVault r s).1 (openVault r' s).1 ∧
            (openVault r s).2 = (openVault r' s).2
          rw [hopen]
          exact ⟨⟨rfl, sameOutcome_refl _⟩, rfl⟩
      | echo id => exact ⟨⟨rfl, sameOutcome_refl _⟩, rfl⟩

/-! ### The cache of user secrets -/

/-- Two calls that have begun, each for its reference: both have returned the same, or both wait for
the same computation. -/
inductive SameCall (r r' : UserRef) : Call SecretWait UserSecret → Call SecretWait UserSecret → Prop
    where
  | done (result : Except SecretError UserSecret) : SameCall r r' (.done result) (.done result)
  | waits (flight : Nat) : SameCall r r' (.waits ⟨r, flight⟩) (.waits ⟨r', flight⟩)

/-- Two calls have begun from one state: they are the same, they have used, joined or started the
same, and a computation that was started comes to the same. -/
structure SameBegun (r r' : UserRef) (a b : Call SecretWait UserSecret × Resolver) : Prop where
  call : SameCall r r' a.1 b.1
  cache : a.2.secrets.cache = b.2.secrets.cache
  computations : List.Forall₂ (fun c c' => c.1 = c'.1 ∧ SameComputation c.2 c'.2)
    a.2.secrets.computations b.2.secrets.computations
  /-- Nothing else is touched. -/
  others : b.2 = { a.2 with secrets := b.2.secrets }

theorem sameBegun_of_eq {a b : Call SecretWait UserSecret × Resolver} (hcall : SameCall r r' a.1 b.1)
    (h : a.2 = b.2) : SameBegun r r' a b where
  call := hcall
  cache := by rw [h]
  computations := by
    rw [h]
    exact List.forall₂_same.2 fun c _ => ⟨rfl, rfl, sameOutcome_refl _⟩
  others := by rw [h]

/-- **User secrets are cached regardless of the order**: a call for either reference finds what one
for the other finds, and joins what one for the other has started. -/
theorem startSecret_sameBegun (h : r.sameAs r' = true) (s : Resolver) :
    SameBegun r r' (startSecret r s) (startSecret r' s) := by
  have hengine : r.engine = r'.engine := (UserRef.sameAs_iff.1 h).1
  have hidentity : r.identity = r'.identity := UserRef.identity_eq_iff.2 h
  simp only [startSecret, Action.bind_apply, Action.get_apply, hengine, hidentity]
  cases s.engineOf r'.engine with
  | error e => exact sameBegun_of_eq (.done (.error e)) rfl
  | ok engine =>
      rcases s.secrets.request s.now r'.identity with ⟨request, secrets⟩
      cases request with
      | hit secret => exact sameBegun_of_eq (.done (.ok secret)) rfl
      | joined flight => exact sameBegun_of_eq (.waits flight) rfl
      | started flight expired =>
          simp only [Action.bind_apply, Action.modify_apply]
          -- the computations may differ in the order of names, and nothing else may
          generalize (noteRequest _ _ : Unit × Resolver).2 = s'
          obtain ⟨hsame, hstate⟩ := computeChecked_sameAs h engine s'
          rw [hstate]
          exact {
            call := .waits flight
            cache := rfl
            computations :=
              .cons ⟨rfl, hsame⟩ (List.forall₂_same.2 fun c _ => ⟨rfl, rfl, sameOutcome_refl _⟩)
            others := rfl }

/-- A call that has waited gets the result of its computation whichever reference it began with. -/
theorem finishSecret_eq_of_sameAs (h : r.sameAs r' = true) (flight : Nat) :
    finishSecret ⟨r, flight⟩ = finishSecret ⟨r', flight⟩ := by
  have hengine : r.engine = r'.engine := (UserRef.sameAs_iff.1 h).1
  have hidentity : r.identity = r'.identity := UserRef.identity_eq_iff.2 h
  simp only [finishSecret, hengine, hidentity]

/-! ### The ledger -/

/-- A reference that is the same as one that is there does not come in again. -/
theorem insertRef_insertRef (h : r.sameAs r' = true) (rs : List UserRef) :
    insertRef r' (insertRef r rs) = insertRef r rs := by
  have hany : (insertRef r rs).any (fun r'' => r''.sameAs r') = true := by
    unfold insertRef
    split
    · rename_i hthere
      obtain ⟨r'', hr'', hsame⟩ := List.any_eq_true.1 hthere
      exact List.any_eq_true.2 ⟨r'', hr'', UserRef.sameAs_trans hsame h⟩
    · exact List.any_eq_true.2 ⟨r, by simp, h⟩
  rw [insertRef, if_pos hany]

/-- **User secrets are tracked regardless of the order**: a reference that is the same as one that is
tracked leaves the ledger as it is. -/
theorem ledger_track_track (h : r.sameAs r' = true) (resource : String) (s : Resolver) :
    (track resource r' (track resource r s).2).2.ledger = (track resource r s).2.ledger := by
  have hledger : ∀ (r : UserRef) (s : Resolver), (track resource r s).2.ledger =
      Entries.put resource (insertRef r (s.tracked resource)) s.ledger := fun _ _ => rfl
  have htracked : (track resource r s).2.tracked resource = insertRef r (s.tracked resource) := by
    rw [tracked, hledger, Entries.find?_put_self]
    rfl
  rw [hledger, htracked, insertRef_insertRef h, hledger]
  exact Entries.put_of_find? (Entries.find?_put_self _ _ _)

end Resolver

/-! ### Encrypted references -/

namespace EncryptedRef

variable {r r' : EncryptedRef}

theorem alike_of_sameAs (h : r.sameAs r' = true) : r.Alike r' := by
  refine ⟨?_, fun name _ => get?_eq_of_sameAs h name⟩
  rw [sameAs, Bool.and_eq_true, beq_iff_eq] at h
  exact h.1

/-- Either reference wants the same out of a file. -/
theorem part_eq_of_sameAs (h : r.sameAs r' = true) : Location.part r = Location.part r' := by
  funext contents
  unfold Location.part
  rw [get?_eq_of_sameAs h]

end EncryptedRef

namespace Resolver

variable {r r' : EncryptedRef}

/-- An engine that answers with the text of a reference. -/
def Echoes (e : Engine) : Prop := ∃ id, e = .echo id

/-- A call as it is when it is made with another reference. -/
def Call.forRef (r : EncryptedRef) : Call FileWait Bytes → Call FileWait Bytes
  | .done result => .done result
  | .waits w => .waits { w with reference := r }

/-- An engine begins with either reference in the same way. -/
theorem startEngine_of_sameAs (h : r.sameAs r' = true) {e : Engine} (he : ¬ Echoes e)
    (s : Resolver) :
    startEngine e r' s = ((startEngine e r s).1.forRef r', (startEngine e r s).2) := by
  have hget := EncryptedRef.get?_eq_of_sameAs h
  cases e with
  | embedded =>
      have hbytes : Embedded.bytes r' = Embedded.bytes r := by
        unfold Embedded.bytes
        rw [hget]
      simp only [startEngine, hbytes]
      rfl
  | vault id => rfl
  | echo id => exact absurd ⟨id, rfl⟩ he
  | storage id files =>
      have hkey := (EncryptedRef.alike_of_sameAs h).key_eq
      have hpart := EncryptedRef.part_eq_of_sameAs h
      simp only [startEngine, hkey, hpart]
      cases Location.key r' with
      | error fault => rfl
      | ok k =>
          simp only [Action.bind_apply]
          rcases requestFile id files k s with ⟨contents | flight, s'⟩ <;> rfl

/-- A call that has waited for a file gets the same out of it with either reference. -/
theorem finishDecrypt_eq_of_sameAs (h : r.sameAs r' = true) (w : FileWait) :
    finishDecrypt { w with reference := r' } = finishDecrypt { w with reference := r } := by
  have hcollect : collectFile { w with reference := r' } = collectFile { w with reference := r } :=
    rfl
  simp only [finishDecrypt, hcollect, EncryptedRef.part_eq_of_sameAs h]

/-- An engine resolves either reference to the same, with the same effect. -/
theorem await_of_sameAs (h : r.sameAs r' = true) {c : Call FileWait Bytes}
    (hc : ∀ w, c = .waits w → w.reference = r) :
    await FileWait.readyAt finishDecrypt (c.forRef r') =
      await FileWait.readyAt finishDecrypt c := by
  cases c with
  | done result => rfl
  | waits w =>
      obtain rfl := hc w rfl
      have hready : FileWait.readyAt { w with reference := r' } = FileWait.readyAt w := rfl
      simp only [Call.forRef, await, hready, finishDecrypt_eq_of_sameAs h w]

theorem decryptWith_eq_of_sameAs (h : r.sameAs r' = true) {e : Engine} (he : ¬ Echoes e)
    (s : Resolver) : decryptWith e r s = decryptWith e r' s := by
  simp only [decryptWith, Action.bind_apply, startEngine_of_sameAs h he]
  rw [await_of_sameAs h fun w => reference_of_startEngine]

/-- **Encrypted references are resolved regardless of the order**, with the same effect on caches,
downloads and everything else. -/
theorem decrypt_eq_of_sameAs (h : r.sameAs r' = true) (s : Resolver)
    (he : ∀ e, s.engines.get? r.engine = some e → ¬ Echoes e) : decrypt r s = decrypt r' s := by
  have hengine : r.engine = r'.engine := (EncryptedRef.alike_of_sameAs h).1
  rw [hengine] at he
  simp only [decrypt, startDecrypt, Action.bind_apply, Action.get_apply, hengine]
  cases hget : s.engineOf r'.engine with
  | error fault => rfl
  | ok e =>
      have hsome : s.engines.get? r'.engine = some e := by
        unfold engineOf at hget
        split at hget
        · rename_i heq
          rw [heq, Except.ok.inj hget]
        · cases hget
      simp only [(EncryptedRef.alike_of_sameAs h).validate_eq e]
      cases e.validate r' with
      | error fault => rfl
      | ok _ => exact decryptWith_eq_of_sameAs h (he e hsome) _

end Resolver

/-! ### References that are the same -/

open Resolver

/-- Two user secret references lead to the same. -/
structure UserRef.Interchangeable (r r' : UserRef) : Prop where
  parameter : ∀ name, r.get? name = r'.get? name
  field : r.field? = r'.field?
  /-- A hasher is fed with the same sequence, and a cache knows them by the same key. -/
  hashed : r.hashed = r'.hashed
  identity : r.identity = r'.identity
  /-- From any state calls for them find, join or start the same. -/
  begun : ∀ s, SameBegun r r' (startSecret r s) (startSecret r' s)
  finished : ∀ flight, finishSecret ⟨r, flight⟩ = finishSecret ⟨r', flight⟩
  /-- Where one is in the ledger the other does not come in. -/
  tracked : ∀ resource s,
    (track resource r' (track resource r s).2).2.ledger = (track resource r s).2.ledger
  validated : ∀ e : Engine, e.validateUser r = e.validateUser r'
  embedded : (Embedded.secret r).SameData (Embedded.secret r')

/-- Two encrypted references lead to the same. -/
structure EncryptedRef.Interchangeable (r r' : EncryptedRef) : Prop where
  parameter : ∀ name, r.get? name = r'.get? name
  has : ∀ name, r.has name = r'.has name
  validated : ∀ e : Engine, e.validate r = e.validate r'
  /-- An engine begins in the same way, and goes on to the same when a file is there. -/
  begun : ∀ e s, ¬ Echoes e →
    startEngine e r' s = ((startEngine e r s).1.forRef r', (startEngine e r s).2)
  finished : ∀ w : FileWait,
    finishDecrypt { w with reference := r' } = finishDecrypt { w with reference := r }
  /-- An engine resolves them to the same, and leaves the same state. -/
  resolved : ∀ e s, ¬ Echoes e → decryptWith e r s = decryptWith e r' s
  /-- And so does a resolver with the engine that they name. -/
  decrypted : ∀ s, (∀ e, s.engines.get? r.engine = some e → ¬ Echoes e) → decrypt r s = decrypt r' s

theorem UserRef.interchangeable {r r' : UserRef} (h : r.sameAs r' = true) :
    r.Interchangeable r' where
  parameter := UserRef.get?_eq_of_sameAs h
  field := UserRef.get?_eq_of_sameAs h fieldParameter
  hashed := UserRef.hashed_eq_iff.2 h
  identity := UserRef.identity_eq_iff.2 h
  begun := startSecret_sameBegun h
  finished := finishSecret_eq_of_sameAs h
  tracked := ledger_track_track h
  validated := validateUser_eq_of_sameAs h
  embedded := sameData_secret h

theorem EncryptedRef.interchangeable {r r' : EncryptedRef} (h : r.sameAs r' = true) :
    r.Interchangeable r' where
  parameter := EncryptedRef.get?_eq_of_sameAs h
  has name := by
    have hget := EncryptedRef.get?_eq_of_sameAs h name
    unfold EncryptedRef.get? at hget
    rw [EncryptedRef.has, EncryptedRef.has, Table.contains, Table.contains, hget]
  validated := (EncryptedRef.alike_of_sameAs h).validate_eq
  begun _ s he := startEngine_of_sameAs h he s
  finished := finishDecrypt_eq_of_sameAs h
  resolved _ s he := decryptWith_eq_of_sameAs h he s
  decrypted := decrypt_eq_of_sameAs h

/-- **The order of parameters makes no difference.**  Two texts are read as the same reference just
when they name the same engine and the segments of one are a permutation of those of the other, and
references that are the same lead to the same. -/
theorem order_immaterial (a b : String) :
    (∀ r r', UserRef.parse a = .ok r → UserRef.parse b = .ok r' →
      (r.sameAs r' = true ↔
        r.engine = r'.engine ∧ (UserRef.segmentsOf a).Perm (UserRef.segmentsOf b)) ∧
      (r.hashed = r'.hashed ↔ r.sameAs r' = true) ∧
      (r.sameAs r' = true → r.Interchangeable r')) ∧
    (∀ r r', EncryptedRef.parse a = .ok r → EncryptedRef.parse b = .ok r' →
      (r.sameAs r' = true ↔
        r.engine = r'.engine ∧ (EncryptedRef.segmentsOf a).Perm (EncryptedRef.segmentsOf b)) ∧
      (r.sameAs r' = true → r.Interchangeable r')) := by
  constructor
  · intro r r' ha hb
    exact ⟨UserRef.sameAs_iff_segmentsOf ha hb, UserRef.hashed_eq_iff, UserRef.interchangeable⟩
  · intro r r' ha hb
    exact ⟨EncryptedRef.sameAs_iff_segmentsOf ha hb, EncryptedRef.interchangeable⟩

/-- Two texts of one reference, in which a value holds a delimiter and the field is named first or
last. -/
theorem order_immaterial_fieldFirst :
    ∃ r r', UserRef.parse "secret://noop?v=a=b&w=c&k=w" = .ok r ∧
      UserRef.parse "secret://noop?k=w&v=a=b&w=c" = .ok r' ∧ r ≠ r' ∧ r.Interchangeable r' := by
  refine ⟨⟨"noop", ⟨[("v", "a=b"), ("w", "c"), ("k", "w")], by decide⟩⟩,
    ⟨"noop", ⟨[("k", "w"), ("v", "a=b"), ("w", "c")], by decide⟩⟩, rfl, rfl, by decide, ?_⟩
  obtain ⟨hsame, -⟩ :=
    order_immaterial "secret://noop?v=a=b&w=c&k=w" "secret://noop?k=w&v=a=b&w=c"
  exact (hsame _ _ rfl rfl).2.2 (by decide)

end SecretResolver
