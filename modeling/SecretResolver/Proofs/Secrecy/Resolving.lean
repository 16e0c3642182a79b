/-
**Resolving does not depend on secret texts.**

Two resolvers are alike if what their engines read and what their caches hold differs in secret texts
only: the texts of documents, and those of payloads.  Whatever is asked of both they do alike: they
fail both or not, with the same failure, they wait for the same computations, they write the same into
their logs and their ledgers, and they are alike afterwards.  This is said of each step of a call, and
composed along the call.

Main definitions:

* `AlikeFiles`, `Store.Alike`, `Engine.Alike` — files that differ in secret texts only;
* `Resolver.Alike` — resolvers that do;
* `Action.Alike` — actions that do the same to alike resolvers, but for secret texts.

Main results:

* `Action.Alike.bind`, `Action.Alike.get_bind` — how actions are composed;
* `Resolver.alike_startSecret`, `Resolver.alike_finishSecret` — **user secrets**;
* `Resolver.alike_startDecrypt`, `Resolver.alike_finishDecrypt` — **encrypted references**;
* `Resolver.alike_clearSecrets`, `Resolver.alike_clearEngines` — caches.
-/

import SecretResolver.Proofs.Resolver.Files
import SecretResolver.Proofs.Secrecy.Caches
import SecretResolver.Proofs.Text.Utf8

set_option relaxedAutoImplicit false
set_option autoImplicit false

namespace SecretResolver

/-! ### Files -/

/-- Bytes of which both are a text, or none. -/
def BothTexts (bs bs' : Bytes) : Prop := (Utf8.text? bs).isSome = (Utf8.text? bs').isSome

/-- Contents of files that are documents of the same shape, or no documents for one cause. -/
structure AlikeFiles (bs bs' : Bytes) : Prop where
  document : AlikeResults Document.SameShape (Document.decodeYaml bs) (Document.decodeYaml bs')
  texts : BothTexts bs bs'

/-- User secrets with the same fields. -/
def AlikeSecrets (u u' : UserSecret) : Prop := u.payload.SameFields u'.payload

/-- Stores whose files differ in secret texts only. -/
def Store.Alike (st st' : Store) : Prop :=
  ∀ k, (st.download k).path = (st'.download k).path ∧
    (st.download k).delay = (st'.download k).delay ∧
    AlikeResults AlikeFiles (st.download k).result (st'.download k).result

theorem Store.alike_self (st : Store) : st.Alike st := fun _ =>
  ⟨rfl, rfl, .refl (fun _ => ⟨.refl Document.sameShape_self _, rfl⟩) _⟩

/-- Engines whose caches differ in secret texts only. -/
inductive Engine.Alike : Engine → Engine → Prop
  | embedded : Engine.Alike .embedded .embedded
  | vault (id : String) : Engine.Alike (.vault id) (.vault id)
  | echo (id : String) : Engine.Alike (.echo id) (.echo id)
  | storage (id : String) {files files' : Shared ObjectKey SecretError Bytes}
      (h : Shared.Related AlikeFiles files files') :
      Engine.Alike (.storage id files) (.storage id files')

namespace Engine.Alike

variable {e e' : Engine}

theorem identifier_eq (h : e.Alike e') : e.identifier = e'.identifier := by
  cases h <;> rfl

theorem validate_eq (h : e.Alike e') (r : EncryptedRef) : e.validate r = e'.validate r := by
  cases h <;> rfl

theorem validateUser_eq (h : e.Alike e') (r : UserRef) : e.validateUser r = e'.validateUser r := by
  cases h <;> rfl

end Engine.Alike

/-- What a reference asks for is there in both files, or fails in both with one failure. -/
theorem AlikeFiles.part {bs bs' : Bytes} (h : AlikeFiles bs bs') (r : EncryptedRef) :
    AlikeResults BothTexts (Location.part r bs) (Location.part r bs') := by
  unfold Location.part
  split
  · exact .ok h.texts
  · rename_i path _
    rcases h.document.ok_or_error with ⟨d, e, hd, he, hshape⟩ | ⟨cause, hd, he⟩
    · simp only [hd, he]
      rcases (hshape.extract path).ok_or_error with ⟨s, t, hs, ht, -⟩ | ⟨cause, hs, ht⟩
      · simp only [hs, ht]
        exact .ok (by simp [BothTexts, Utf8.text?_ofString])
      · simp only [hs, ht]
        exact .error _
    · simp only [hd, he]
      exact .error _

/-- Bytes are both a text, or fail to be one. -/
theorem BothTexts.textOfBytes {bs bs' : Bytes} (h : BothTexts bs bs') :
    SameFailure (SecretResolver.textOfBytes bs) (SecretResolver.textOfBytes bs') := by
  rcases none_or_some_of_isSome_eq h with ⟨hbs, hbs'⟩ | ⟨s, s', hbs, hbs'⟩
  · simpa only [SecretResolver.textOfBytes, hbs, hbs'] using .error _
  · simpa only [SecretResolver.textOfBytes, hbs, hbs'] using .ok trivial

/-! ### Resolvers -/

namespace Resolver

/-- Resolvers that differ in secret texts only. -/
structure Alike (s t : Resolver) : Prop where
  now : s.now = t.now
  engines : Entries.Related Engine.Alike s.engines.entries t.engines.entries
  store : s.store.Alike t.store
  vault : Entries.Related VaultSecret.Alike s.vault t.vault
  secrets : Shared.Related AlikeSecrets s.secrets t.secrets
  ledger : s.ledger = t.ledger
  downloads : s.downloads = t.downloads
  lookups : s.lookups = t.lookups
  log : s.log = t.log

/-- Calls that are done with alike results, or wait for the same. -/
inductive Call.Related {ω α β : Type} (R : α → β → Prop) : Call ω α → Call ω β → Prop
  | done {x : Except SecretError α} {y : Except SecretError β} (h : AlikeResults R x y) :
      Call.Related R (.done x) (.done y)
  | waits (w : ω) : Call.Related R (.waits w) (.waits w)

variable {s t : Resolver}

/-- An engine is registered in both resolvers, or in none. -/
theorem Alike.engineOf (h : s.Alike t) (id : String) :
    AlikeResults Engine.Alike (s.engineOf id) (t.engineOf id) := by
  rcases h.engines.find?_cases id with ⟨hs, ht⟩ | ⟨e, e', hs, ht, he⟩
  · simpa only [Resolver.engineOf, Table.get?, hs, ht] using .error _
  · simpa only [Resolver.engineOf, Table.get?, hs, ht] using .ok he

/-- A storage engine is registered in both resolvers, or in none. -/
theorem Alike.filesOf? (h : s.Alike t) (id : String) :
    (s.filesOf? id = none ∧ t.filesOf? id = none) ∨
      ∃ files files', s.filesOf? id = some files ∧ t.filesOf? id = some files' ∧
        Shared.Related AlikeFiles files files' := by
  rcases h.engines.find?_cases id with ⟨hs, ht⟩ | ⟨e, e', hs, ht, he⟩
  · exact .inl ⟨by simp [Resolver.filesOf?, Table.get?, hs],
      by simp [Resolver.filesOf?, Table.get?, ht]⟩
  · cases he with
    | storage id files =>
        exact .inr ⟨_, _, by simp [Resolver.filesOf?, Table.get?, hs],
          by simp [Resolver.filesOf?, Table.get?, ht], files⟩
    | _ => exact .inl ⟨by simp [Resolver.filesOf?, Table.get?, hs],
          by simp [Resolver.filesOf?, Table.get?, ht]⟩

end Resolver

/-! ### Actions -/

namespace Action

variable {α β γ δ : Type}

/-- Actions that do the same to alike resolvers, but for secret texts, with results that are
related. -/
def Alike (R : α → β → Prop) (x : Action α) (y : Action β) : Prop :=
  ∀ s t, s.Alike t → R (x s).1 (y t).1 ∧ (x s).2.Alike (y t).2

namespace Alike

variable {R : α → β → Prop} {S : γ → δ → Prop}

theorem pure {a : α} {b : β} (h : R a b) : Alike R (pure a) (pure b) := fun _ _ hst => ⟨h, hst⟩

theorem bind {x : Action α} {y : Action β} {f : α → Action γ} {g : β → Action δ}
    (hxy : Alike R x y) (hfg : ∀ a b, R a b → Alike S (f a) (g b)) :
    Alike S (x >>= f) (y >>= g) := fun s t hst =>
  hfg _ _ (hxy s t hst).1 _ _ (hxy s t hst).2

/-- What goes on from alike states goes on alike. -/
theorem get_bind {f : Resolver → Action γ} {g : Resolver → Action δ}
    (hfg : ∀ s t, s.Alike t → Alike S (f s) (g t)) :
    Alike S (get >>= f : Action γ) (get >>= g : Action δ) := fun s t hst => hfg s t hst s t hst

theorem modify {f g : Resolver → Resolver} (hfg : ∀ s t, s.Alike t → (f s).Alike (g t)) :
    Alike Eq (modify f : Action Unit) (modify g : Action Unit) := fun s t hst =>
  ⟨rfl, hfg s t hst⟩

theorem note (e : LogEvent) : Alike Eq (Resolver.note e) (Resolver.note e) :=
  .modify fun _ _ h => { h with log := congrArg (e :: ·) h.log }

end Alike

end Action

namespace Resolver

/-! ### Notes and engines -/

theorem alike_replace {e e' : Engine} (h : e.Alike e') : Action.Alike Eq (replace e) (replace e') :=
  .modify fun s t hst => { hst with
    engines := by
      rw [h.identifier_eq]
      exact hst.engines.put e'.identifier h }

theorem alike_noteRequest {β γ : Type} {R : β → γ → Prop} {q : Cache.Request β}
    {q' : Cache.Request γ} (h : Cache.Request.Related R q q') :
    Action.Alike Eq (noteRequest q) (noteRequest q') := by
  cases h with
  | hit h => exact .note _
  | joined flight => exact .note _
  | started flight expired =>
      cases expired with
      | false => exact .note _
      | true => exact .bind (.note _) fun _ _ _ => .note _

theorem alike_noteCompletion {κ β γ : Type} {R : β → γ → Prop} {x : Except SecretError β}
    {y : Except SecretError γ} (h : AlikeResults R x y) (completion : Cache.Completion κ) :
    Action.Alike Eq (noteCompletion x completion) (noteCompletion y completion) := by
  cases completion with
  | stale => exact .pure rfl
  | stored displaced =>
      cases displaced with
      | none => exact .pure rfl
      | some k => exact .note _
  | failed =>
      cases h with
      | ok h => exact .pure rfl
      | error e => exact .note _

/-! ### User secrets -/

theorem alike_openVault (r : UserRef) :
    Action.Alike (Shared.AlikeComputations AlikeSecrets) (openVault r) (openVault r) := by
  refine .bind (R := Eq) (.modify fun s t h => { h with lookups := congrArg (· + 1) h.lookups })
    fun _ _ _ => .get_bind fun s t h => ?_
  rcases h.vault.find?_cases ((r.get? VaultSecret.nameParameter).getD "") with
    ⟨hs, ht⟩ | ⟨v, v', hs, ht, hv⟩
  · simp only [hs, ht]
    exact .pure ⟨h.now, .error _⟩
  · simp only [hs, ht]
    exact .pure ⟨by simp [h.now, hv.delay], hv.open_⟩

theorem alike_computeSecret {e e' : Engine} (h : e.Alike e') (r : UserRef) :
    Action.Alike (Shared.AlikeComputations AlikeSecrets) (computeSecret e r)
      (computeSecret e' r) := by
  cases h with
  | embedded =>
      exact .get_bind fun s t h => .pure ⟨h.now, .ok (Payload.sameFields_self _)⟩
  | vault id => exact alike_openVault r
  | echo id => exact .get_bind fun s t h => .pure ⟨h.now, .error _⟩
  | storage id files => exact .get_bind fun s t h => .pure ⟨h.now, .error _⟩

theorem alike_computeChecked {e e' : Engine} (h : e.Alike e') (r : UserRef) :
    Action.Alike (Shared.AlikeComputations AlikeSecrets) (computeChecked e r)
      (computeChecked e' r) := by
  unfold computeChecked
  rw [← h.validateUser_eq]
  split
  · exact .get_bind fun s t h => .pure ⟨h.now, .error _⟩
  · exact alike_computeSecret h r

/-- **A reference is started alike.** -/
theorem alike_startSecret (r : UserRef) :
    Action.Alike (Call.Related AlikeSecrets) (startSecret r) (startSecret r) := by
  refine .get_bind fun s t h => ?_
  rcases (h.engineOf r.engine).ok_or_error with ⟨e, e', hs, ht, he⟩ | ⟨error, hs, ht⟩
  · simp only [hs, ht]
    obtain ⟨q, q', secrets, secrets', hs, ht, hrequest, hsecrets⟩ :=
      h.secrets.request s.now r.identity
    simp only [← h.now, hs, ht]
    refine .bind (R := Eq) (.modify fun s t h => { h with secrets := hsecrets }) fun _ _ _ =>
      .bind (alike_noteRequest hrequest) fun _ _ _ => ?_
    rcases hrequest with hsecret | flight | ⟨flight, expired⟩
    · exact .pure (.done (.ok hsecret))
    · exact .pure (.waits _)
    · refine .bind (alike_computeChecked he r) fun c c' hc => ?_
      exact .bind (R := Eq) (.modify fun s t h => { h with secrets := h.secrets.begin_ flight hc })
        fun _ _ _ => .pure (.waits _)
  · simp only [hs, ht]
    exact .pure (.done (.error _))

/-- **What is waited for comes alike.** -/
theorem alike_finishSecret (w : SecretWait) :
    Action.Alike (AlikeResults AlikeSecrets) (finishSecret w) (finishSecret w) := by
  refine .get_bind fun s t h => ?_
  rw [← h.now]
  rcases h.secrets.collect s.now w.reference.identity w.flight with
    ⟨hs, ht⟩ | ⟨x, y, completion, secrets, secrets', hs, ht, hxy, hsecrets⟩
  · rw [hs, ht]
    exact .pure (.error _)
  · rw [hs, ht]
    refine .bind (R := Eq) (.modify fun s t h => { h with secrets := hsecrets }) fun _ _ _ => ?_
    exact .bind (alike_noteCompletion hxy completion) fun _ _ _ => .pure hxy

theorem alike_track (resource : String) (r : UserRef) :
    Action.Alike Eq (track resource r) (track resource r) :=
  .bind (R := Eq) (.modify fun s t h => { h with
    ledger := by simp only [tracked, h.ledger] }) fun _ _ _ => .note _

/-- **A field is given to a resource alike.** -/
theorem alike_giveField (resource : String) (r : UserRef) {x y : Except SecretError UserSecret}
    (h : AlikeResults AlikeSecrets x y) :
    Action.Alike SameFailure (giveField resource r x) (giveField resource r y) := by
  cases h with
  | error e => exact .pure (.error e)
  | @ok u u' hu =>
      rcases (Payload.SameFields.fieldOf hu r).ok_or_error with ⟨s, t, hs, ht, -⟩ | ⟨e, hs, ht⟩
      · simp only [giveField, hs, ht]
        exact .bind (alike_track resource r) fun _ _ _ => .pure (.ok trivial)
      · simp only [giveField, hs, ht]
        exact .pure (.error e)

/-! ### Encrypted references -/

theorem alike_startDownload (k : ObjectKey) :
    Action.Alike (Shared.AlikeComputations AlikeFiles) (startDownload k) (startDownload k) := by
  refine .bind (.note _) fun _ _ _ => .get_bind fun s t h => ?_
  obtain ⟨hpath, hdelay, hresult⟩ := h.store k
  have hdownloads : Action.Alike Eq
      (modify fun s => { s with downloads := k :: s.downloads })
      (modify fun s => { s with downloads := k :: s.downloads }) :=
    .modify fun s t h => { h with downloads := congrArg (k :: ·) h.downloads }
  have hready : s.now + (s.store.download k).delay = t.now + (t.store.download k).delay := by
    rw [h.now, hdelay]
  dsimp only
  rw [hpath]
  split
  · exact .bind (.note _) fun _ _ _ => .bind hdownloads fun _ _ _ => .pure ⟨hready, hresult⟩
  · exact .bind hdownloads fun _ _ _ => .pure ⟨hready, hresult⟩

/-- What is found of a file: contents that are alike, or the same download to wait for. -/
inductive AlikeFound : Bytes ⊕ Nat → Bytes ⊕ Nat → Prop
  | here {bs bs' : Bytes} (h : AlikeFiles bs bs') : AlikeFound (.inl bs) (.inl bs')
  | under (flight : Nat) : AlikeFound (.inr flight) (.inr flight)

theorem alike_requestFile (id : String) {files files' : Shared ObjectKey SecretError Bytes}
    (h : Shared.Related AlikeFiles files files') (k : ObjectKey) :
    Action.Alike AlikeFound (requestFile id files k) (requestFile id files' k) := by
  refine .get_bind fun s t hst => ?_
  obtain ⟨q, q', files, files', hs, ht, hrequest, hfiles⟩ := h.request s.now k
  simp only [← hst.now, hs, ht]
  refine .bind (alike_noteRequest hrequest) fun _ _ _ => ?_
  rcases hrequest with hcontents | flight | ⟨flight, expired⟩
  · exact .bind (alike_replace (.storage id hfiles)) fun _ _ _ => .pure (.here hcontents)
  · exact .bind (alike_replace (.storage id hfiles)) fun _ _ _ => .pure (.under flight)
  · refine .bind (alike_startDownload k) fun c c' hc => ?_
    exact .bind (alike_replace (.storage id (hfiles.begin_ flight hc))) fun _ _ _ =>
      .pure (.under flight)

theorem alike_startEngine {e e' : Engine} (h : e.Alike e') (r : EncryptedRef) :
    Action.Alike (Call.Related BothTexts) (startEngine e r) (startEngine e' r) := by
  have hsame (x : Except SecretError Bytes) : AlikeResults BothTexts x x :=
    .refl (R := BothTexts) (fun _ => rfl) x
  cases h with
  | embedded => exact .pure (.done (hsame _))
  | vault id => exact .pure (.done (.error _))
  | echo id => exact .pure (.done (hsame _))
  | storage id files =>
      simp only [startEngine]
      split
      · exact .pure (.done (.error _))
      · refine .bind (alike_requestFile id files _) fun found found' hfound => ?_
        cases hfound with
        | here hcontents => exact .pure (.done (hcontents.part r))
        | under flight => exact .pure (.waits _)

/-- **A reference is started alike.** -/
theorem alike_startDecrypt (r : EncryptedRef) :
    Action.Alike (Call.Related BothTexts) (startDecrypt r) (startDecrypt r) := by
  refine .get_bind fun s t h => ?_
  rcases (h.engineOf r.engine).ok_or_error with ⟨e, e', hs, ht, he⟩ | ⟨error, hs, ht⟩
  · simp only [hs, ht, ← he.validate_eq, ← he.identifier_eq]
    split
    · exact .pure (.done (.error _))
    · exact .bind (.note _) fun _ _ _ => alike_startEngine he r
  · simp only [hs, ht]
    exact .pure (.done (.error _))

theorem alike_noteDownload (k : ObjectKey) {x y : Except SecretError Bytes}
    (h : AlikeResults AlikeFiles x y) (completion : Cache.Completion ObjectKey) :
    Action.Alike Eq (noteDownload k x completion) (noteDownload k y completion) := by
  cases h with
  | ok h => exact .pure rfl
  | error e =>
      cases completion with
      | failed => exact .note _
      | stale => exact .pure rfl
      | stored displaced => exact .pure rfl

theorem alike_collectFile (w : FileWait) :
    Action.Alike (AlikeResults AlikeFiles) (collectFile w) (collectFile w) := by
  refine .get_bind fun s t h => ?_
  rcases h.filesOf? w.engine with ⟨hs, ht⟩ | ⟨files, files', hs, ht, hfiles⟩
  · simp only [hs, ht]
    exact .pure (.error _)
  · simp only [hs, ht, ← h.now]
    rcases hfiles.collect s.now w.key w.flight with
      ⟨hc, hc'⟩ | ⟨x, y, completion, _, _, hc, hc', hxy, hcollected⟩
    · rw [hc, hc']
      exact .pure (.error _)
    · rw [hc, hc']
      refine .bind (alike_replace (.storage w.engine hcollected)) fun _ _ _ =>
        .bind (alike_noteDownload w.key hxy completion) fun _ _ _ => ?_
      exact .bind (alike_noteCompletion hxy completion) fun _ _ _ => .pure hxy

/-- **What is waited for comes alike.** -/
theorem alike_finishDecrypt (w : FileWait) :
    Action.Alike (AlikeResults BothTexts) (finishDecrypt w) (finishDecrypt w) := by
  refine .bind (alike_collectFile w) fun x y hxy => ?_
  cases hxy with
  | ok hcontents => exact .pure (hcontents.part w.reference)
  | error e => exact .pure (.error e)

/-! ### Caches and resources -/

theorem alike_clearSecrets : Action.Alike Eq clearSecrets clearSecrets := by
  refine .get_bind fun s t h => ?_
  dsimp only
  rw [h.secrets.cache.size_eq]
  exact .bind (R := Eq) (.modify fun _ _ h' => { h' with secrets := h.secrets.clear })
    fun _ _ _ => .note _

theorem alike_clearEngine {e e' : Engine} (h : e.Alike e') :
    Action.Alike Eq (clearEngine e) (clearEngine e') := by
  cases h with
  | storage id files =>
      unfold clearEngine
      dsimp only
      rw [files.cache.size_eq]
      exact .bind (.note _) fun _ _ _ => .bind (alike_replace (.storage id files.clear))
        fun _ _ _ => .note _
  | _ => exact .pure rfl

theorem alike_clearEach {es es' : List (String × Engine)} (h : Entries.Related Engine.Alike es es')
    {s t : Resolver} (hst : s.Alike t) :
    Alike (es.foldl (fun s e => (clearEngine e.2 s).2) s)
      (es'.foldl (fun s e => (clearEngine e.2 s).2) t) := by
  induction h generalizing s t with
  | nil => exact hst
  | cons he _ ih => exact ih (alike_clearEngine he.2 s t hst).2

theorem alike_clearEngines : Action.Alike Eq clearEngines clearEngines := by
  intro s t h
  have hclear (s : Resolver) : (clearEngines s).2 =
      (note (.enginesCleared s.engines.size)
        (s.engines.entries.foldl (fun s e => (clearEngine e.2 s).2) s)).2 := by
    simp [clearEngines, clearEach_eq]
  refine ⟨rfl, ?_⟩
  rw [hclear, hclear, Table.size, Table.size, h.engines.length_eq]
  exact (Action.Alike.note _ _ _ (alike_clearEach h.engines h)).2

theorem alike_stopTracking (resource : String) :
    Action.Alike Eq (stopTracking resource) (stopTracking resource) := by
  refine .get_bind fun s t h => ?_
  have hknown : s.isTracking resource = t.isTracking resource := by
    rw [isTracking, isTracking, h.ledger]
  have hdrop : Action.Alike Eq
      (modify fun s => { s with ledger := Entries.drop resource s.ledger })
      (modify fun s => { s with ledger := Entries.drop resource s.ledger }) :=
    .modify fun s t h => { h with ledger := congrArg (Entries.drop resource) h.ledger }
  rw [hknown]
  cases t.isTracking resource with
  | false => exact .pure rfl
  | true => exact .bind hdrop fun _ _ _ => .bind (.note _) fun _ _ _ => .pure rfl

end Resolver

end SecretResolver
