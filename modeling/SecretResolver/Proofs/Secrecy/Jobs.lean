/-
**What fails does not tell secrets.**

Two resolvers that differ in secret texts only are asked for the same, in the same order, by any
number of callers at once, while stores and vaults are changed to ones that differ in secret texts
only.  Then each call returns in both at the same turn, it fails in both or in none, and the failures
are equal; so are the references that are handed over, what a check finds wrong, the log, and the
ledger.  No failure, and no message of one, tells anything of a secret text.

Main definitions:

* `Phase.Alike`, `Ongoing.Alike`, `Answer.Alike` — calls and answers that differ in secret texts only;
* `Jobs.Alike`, `Jobs.Move.Alike`, `Jobs.Happening.Alike`.

Main results:

* `Jobs.alike_move` — **every move keeps two resolvers alike, and the same happens**;
* `Jobs.alike_history` — so it is in all histories;
* `Resolver.alike_userSecret`, `Resolver.alike_decrypt` — and when references are resolved at once;
* `failures_blind` — documents, user secrets and resolvers fail alike whatever their texts are.
-/

import SecretResolver.Proofs.Resolver.Unlogged
import SecretResolver.Proofs.Secrecy.Resolving
import SecretResolver.Resolver.Jobs

set_option relaxedAutoImplicit false
set_option autoImplicit false

namespace SecretResolver

open Resolver

/-! ### Waiting -/

namespace Resolver

variable {s t : Resolver}

theorem Alike.readyAt_secret (h : s.Alike t) (w : SecretWait) : w.readyAt s = w.readyAt t :=
  h.secrets.readyAt?_eq w.flight

theorem Alike.readyAt_file (h : s.Alike t) (w : FileWait) : w.readyAt s = w.readyAt t := by
  rcases h.filesOf? w.engine with ⟨hs, ht⟩ | ⟨files, files', hs, ht, hfiles⟩
  · simp [FileWait.readyAt, hs, ht]
  · simp [FileWait.readyAt, hs, ht, hfiles.readyAt?_eq]

theorem Alike.timeOf_eq (h : s.Alike t) (readyAt : Option Nat) :
    timeOf readyAt s = timeOf readyAt t := by
  rw [timeOf, timeOf, h.now]

/-- What is waited for comes alike, after the same time. -/
theorem alike_await {ω α β : Type} {R : α → β → Prop} {readyAt : ω → Resolver → Option Nat}
    {finish : ω → Action (Except SecretError α)} {finish' : ω → Action (Except SecretError β)}
    (hready : ∀ w (s t : Resolver), s.Alike t → readyAt w s = readyAt w t)
    (hfinish : ∀ w, Action.Alike (AlikeResults R) (finish w) (finish' w)) {c : Call ω α}
    {c' : Call ω β} (hc : Call.Related R c c') :
    Action.Alike (AlikeResults R) (await readyAt finish c) (await readyAt finish' c') := by
  cases hc with
  | done h => exact .pure h
  | waits w =>
      refine .get_bind fun s t h => .get_bind fun s' t' h' => ?_
      rw [hready w s t h, h'.timeOf_eq]
      exact .bind (R := Eq) (.modify fun _ _ h => { h with now := by rw [h.now] })
        fun _ _ _ => hfinish w

/-- **Resolving a user secret reference fails alike**, or comes to the same fields. -/
theorem alike_userSecret (r : UserRef) :
    Action.Alike (AlikeResults AlikeSecrets) (userSecret r) (userSecret r) :=
  .bind (alike_startSecret r) fun _ _ hc =>
    alike_await (fun w _ _ h => h.readyAt_secret w) alike_finishSecret hc

/-- **Resolving an encrypted reference fails alike.** -/
theorem alike_decrypt (r : EncryptedRef) :
    Action.Alike (AlikeResults BothTexts) (decrypt r) (decrypt r) :=
  .bind (alike_startDecrypt r) fun _ _ hc =>
    alike_await (fun w _ _ h => h.readyAt_file w) alike_finishDecrypt hc

theorem alike_textOfResult {x y : Except SecretError Bytes} (h : AlikeResults BothTexts x y) :
    SameFailure (textOfResult x) (textOfResult y) := by
  cases h with
  | ok h => exact h.textOfBytes
  | error e => exact .error e

theorem alike_startText (resource written : String) :
    Action.Alike (Call.Related fun _ _ => True) (startText resource written)
      (startText resource written) := by
  unfold startText
  split
  · split
    · exact .pure (.done (.error _))
    · rename_i r _
      refine .bind (alike_startSecret r) fun c c' hc => ?_
      cases hc with
      | done hxy => exact .bind (alike_giveField resource r hxy) fun _ _ hfield => .pure (.done hfield)
      | waits w => exact .pure (.waits _)
  · split
    · exact .pure (.done (.error _))
    · rename_i r _
      refine .bind (alike_startDecrypt r) fun c c' hc => ?_
      cases hc with
      | done hxy => exact .pure (.done (alike_textOfResult hxy))
      | waits w => exact .pure (.waits _)

theorem alike_finishText (w : TextWait) :
    Action.Alike SameFailure (finishText w) (finishText w) := by
  cases w with
  | file w => exact .bind (alike_finishDecrypt w) fun _ _ hxy => .pure (alike_textOfResult hxy)
  | secret resource w =>
      exact .bind (alike_finishSecret w) fun _ _ hxy => alike_giveField resource w.reference hxy

/-- **Resolving any text fails alike.** -/
theorem alike_resolveText (resource written : String) :
    Action.Alike SameFailure (resolveText resource written) (resolveText resource written) := by
  refine .bind (alike_startText resource written) fun _ _ hc => ?_
  refine alike_await (fun w s t h => ?_) alike_finishText hc
  cases w with
  | file w => exact h.readyAt_file w
  | secret resource w => exact h.readyAt_secret w

/-- A resource fails to get a field of one user secret just when it fails to get it of another one
with the same fields, with the same failure. -/
theorem sameFailure_fieldFor {r : UserRef} {u u' : UserSecret} {s t : Resolver}
    (h : u.payload.SameFields u'.payload) (hs : (userSecret r s).1 = .ok u)
    (ht : (userSecret r t).1 = .ok u') (resource : String) :
    SameFailure (fieldFor resource r s).1 (fieldFor resource r t).1 := by
  simp only [fieldFor, Action.bind_apply, hs, ht, giveField]
  rcases (h.fieldOf r).ok_or_error with ⟨a, b, ha, hb, -⟩ | ⟨e, ha, hb⟩
  · simp only [ha, hb]
    exact .ok trivial
  · simp only [ha, hb]
    exact .error e

/-- What a check finds is what is wrong with the field that is named. -/
theorem validateUser_of_userSecret {written : String} {r : UserRef} {u : UserSecret} {s : Resolver}
    (hr : userRef written = .ok r) (hs : (userSecret r s).1 = .ok u) :
    (validateUser written s).1 = fieldFault r u := by
  -- the note that comes first makes no difference
  have hnoted := (unlogged_userSecret r).result_eq s (.validatingUser r.engine :: s.log)
  have hsecret : (userSecret r { s with log := .validatingUser r.engine :: s.log }).1 = .ok u :=
    hnoted.trans hs
  have hfault : (userFault written s).1 = fieldFault r u := by
    simp only [userFault, hr, Action.bind_apply, note_apply, hsecret, Action.pure_apply]
  simp only [validateUser, Action.bind_apply, hfault]
  cases fieldFault r u <;> rfl

end Resolver

/-! ### Calls -/

/-- Two lists of user secrets that were handed over for the same references. -/
def AlikeHanded : List (UserRef × UserSecret) → List (UserRef × UserSecret) → Prop :=
  Entries.Related AlikeSecrets

/-- Calls that have come equally far and differ in secret texts only. -/
inductive Phase.Alike : Phase → Phase → Prop
  | asks (r : UserRef) : Phase.Alike (.asks r) (.asks r)
  | awaits (w : SecretWait) : Phase.Alike (.awaits w) (.awaits w)
  | has (r : UserRef) {x y : Except SecretError UserSecret} (h : AlikeResults AlikeSecrets x y) :
      Phase.Alike (.has r x) (.has r y)
  | awaitsFile (w : FileWait) : Phase.Alike (.awaitsFile w) (.awaitsFile w)
  | hasFile {x y : Except SecretError Bytes} (h : AlikeResults BothTexts x y) :
      Phase.Alike (.hasFile x) (.hasFile y)

/-- Calls of the same job that differ in secret texts only. -/
structure Ongoing.Alike (o o' : Ongoing) : Prop where
  job : o.job = o'.job
  phase : o.phase.Alike o'.phase
  handed : AlikeHanded o.handed o'.handed
  further : o.further = o'.further

/-- Answers that fail for the same reason or differ in secret texts only. -/
inductive Answer.Alike : Answer → Answer → Prop
  | field {x y : Except SecretError String} (h : SameFailure x y) : Answer.Alike (.field x) (.field y)
  | secret {x y : Except SecretError UserSecret} (h : AlikeResults AlikeSecrets x y) :
      Answer.Alike (.secret x) (.secret y)
  | handed {us us' : List (UserRef × UserSecret)} (h : AlikeHanded us us')
      (failure : Option SecretError) : Answer.Alike (.handed us failure) (.handed us' failure)
  | checked (fault : Option SecretError) : Answer.Alike (.checked fault) (.checked fault)
  | bytes {x y : Except SecretError Bytes} (h : SameFailure x y) : Answer.Alike (.bytes x) (.bytes y)
  | text {x y : Except SecretError String} (h : SameFailure x y) : Answer.Alike (.text x) (.text y)

/-- Steps that lead equally far. -/
inductive Stage.Alike : Stage → Stage → Prop
  | ongoing {o o' : Ongoing} (h : o.Alike o') : Stage.Alike (.ongoing o) (.ongoing o')
  | done {a a' : Answer} (h : a.Alike a') : Stage.Alike (.done a) (.done a')

namespace Job

theorem alike_at (job : Job) {p p' : Phase} (h : p.Alike p') :
    Stage.Alike (.ongoing (job.at_ p)) (.ongoing (job.at_ p')) := .ongoing ⟨rfl, h, .nil, rfl⟩

theorem alike_next (job : Job) {us us' : List (UserRef × UserSecret)} (h : AlikeHanded us us')
    (rs : List UserRef) : Stage.Alike (job.next us rs) (job.next us' rs) := by
  cases rs with
  | nil => exact .done (.handed h none)
  | cons r rs => exact .ongoing ⟨rfl, .asks r, h, rfl⟩

theorem alike_beginFile (job : Job) (r : EncryptedRef) :
    Action.Alike Stage.Alike (job.beginFile r) (job.beginFile r) := by
  refine .bind (alike_startDecrypt r) fun c c' hc => ?_
  cases hc with
  | done h => exact .pure (job.alike_at (.hasFile h))
  | waits w => exact .pure (job.alike_at (.awaitsFile w))

theorem alike_faulty (invalid : SecretError → LogEvent) (fault : Option SecretError) :
    Action.Alike Stage.Alike (faulty invalid fault) (faulty invalid fault) := by
  cases fault with
  | none => exact .pure (.done (.checked none))
  | some e => exact .bind (.note _) fun _ _ _ => .pure (.done (.checked _))

theorem alike_beginCheckUser (job : Job) (written : String) :
    Action.Alike Stage.Alike (job.beginCheckUser written) (job.beginCheckUser written) := by
  unfold beginCheckUser
  split
  · exact alike_faulty _ _
  · rename_i r _
    exact .bind (.note _) fun _ _ _ => .pure (job.alike_at (.asks r))

theorem alike_beginCheckExternal (job : Job) (written : String) :
    Action.Alike Stage.Alike (job.beginCheckExternal written) (job.beginCheckExternal written) := by
  unfold beginCheckExternal
  split
  · exact alike_faulty _ _
  · exact .bind (.note _) fun _ _ _ => job.alike_beginFile _

/-- **A call begins alike.** -/
theorem alike_begin (job : Job) : Action.Alike Stage.Alike job.begin_ job.begin_ := by
  cases job with
  | field resource r => exact .pure (alike_at _ (.asks r))
  | secret r => exact .pure (alike_at _ (.asks r))
  | each resource order =>
      refine .get_bind fun s t h => ?_
      rw [tracked, h.ledger]
      exact .pure (alike_next _ .nil _)
  | check written =>
      simp only [begin_]
      split
      · exact alike_beginCheckUser _ written
      · split
        · exact alike_beginCheckExternal _ written
        · exact .pure (.done (.checked none))
  | checkUser written => exact alike_beginCheckUser _ written
  | checkExternal written => exact alike_beginCheckExternal _ written
  | bytes r => exact alike_beginFile _ r
  | text r => exact alike_beginFile _ r

theorem secretFault_eq (r : UserRef) {x y : Except SecretError UserSecret}
    (h : AlikeResults AlikeSecrets x y) : secretFault r x = secretFault r y := by
  cases h with
  | ok hu => exact Payload.SameFields.fieldFault hu r
  | error e => rfl

theorem bytesFault_eq {x y : Except SecretError Bytes} (h : AlikeResults BothTexts x y) :
    bytesFault x = bytesFault y := by
  cases h <;> rfl

end Job

namespace Ongoing

variable {o o' : Ongoing}

/-- What was asked for is done alike with user secrets that have the same fields. -/
theorem alike_conclude (h : o.Alike o') (r : UserRef) {x y : Except SecretError UserSecret}
    (hxy : AlikeResults AlikeSecrets x y) :
    Action.Alike Stage.Alike (o.conclude r x) (o'.conclude r y) := by
  unfold conclude
  rw [← h.job]
  cases hjob : o.job with
  | field resource r =>
      exact .bind (alike_giveField resource r hxy) fun _ _ hfield => .pure (.done (.field hfield))
  | each resource order =>
      cases hxy with
      | error e => exact .pure (.done (.handed h.handed _))
      | @ok u u' hu =>
          have hhanded : AlikeHanded (o.handed ++ [(r, u)]) (o'.handed ++ [(r, u')]) :=
            List.rel_append h.handed (.cons ⟨rfl, hu⟩ .nil)
          rw [← h.further]
          exact .pure (Job.alike_next _ hhanded _)
  | check written =>
      dsimp only
      rw [Job.secretFault_eq r hxy]
      exact Job.alike_faulty _ _
  | checkUser written =>
      dsimp only
      rw [Job.secretFault_eq r hxy]
      exact Job.alike_faulty _ _
  | _ => exact .pure (.done (.secret hxy))

theorem alike_concludeFile (h : o.Alike o') {x y : Except SecretError Bytes}
    (hxy : AlikeResults BothTexts x y) :
    Action.Alike Stage.Alike (o.concludeFile x) (o'.concludeFile y) := by
  unfold concludeFile
  rw [← h.job]
  cases hjob : o.job with
  | text r => exact .pure (.done (.text (alike_textOfResult hxy)))
  | check written =>
      dsimp only
      rw [Job.bytesFault_eq hxy]
      exact Job.alike_faulty _ _
  | checkExternal written =>
      dsimp only
      rw [Job.bytesFault_eq hxy]
      exact Job.alike_faulty _ _
  | _ => exact .pure (.done (.bytes hxy.sameFailure))

/-- **A call goes on alike.** -/
theorem alike_go (h : o.Alike o') : Action.Alike Stage.Alike o.go o'.go := by
  have hphase := h.phase
  unfold go
  revert hphase
  generalize o.phase = p
  generalize o'.phase = p'
  intro hphase
  cases hphase with
  | asks r =>
      refine .bind (alike_startSecret r) fun c c' hc => ?_
      cases hc with
      | done hxy => exact .pure (.ongoing { h with phase := .has r hxy })
      | waits w => exact .pure (.ongoing { h with phase := .awaits w })
  | awaits w =>
      refine .get_bind fun s t hst => ?_
      rw [hst.readyAt_secret, hst.timeOf_eq, hst.now]
      split
      · exact .bind (alike_finishSecret w) fun _ _ hxy =>
          .pure (.ongoing { h with phase := .has w.reference hxy })
      · exact .pure (.ongoing h)
  | has r hxy => exact alike_conclude h r hxy
  | awaitsFile w =>
      refine .get_bind fun s t hst => ?_
      rw [hst.readyAt_file, hst.timeOf_eq, hst.now]
      split
      · exact .bind (alike_finishDecrypt w) fun _ _ hxy =>
          .pure (.ongoing { h with phase := .hasFile hxy })
      · exact .pure (.ongoing h)
  | hasFile hxy => exact alike_concludeFile h hxy

end Ongoing

/-! ### Moves -/

namespace Jobs

/-- Resolvers with calls that differ in secret texts only. -/
structure Alike (s t : Jobs) : Prop where
  resolver : s.resolver.Alike t.resolver
  ongoing : Entries.Related Ongoing.Alike s.ongoing t.ongoing
  nextCall : s.nextCall = t.nextCall

/-- The same moves, with stores and vaults that differ in secret texts only. -/
inductive Move.Alike : Move → Move → Prop
  | same (m : Move) : Move.Alike m m
  | restock {store store' : Store} (h : store.Alike store') :
      Move.Alike (.restock store) (.restock store')
  | refill {vault vault' : List (String × VaultSecret)}
      (h : Entries.Related VaultSecret.Alike vault vault') :
      Move.Alike (.refill vault) (.refill vault')

/-- The same happens, but for secret texts in answers. -/
inductive Happening.Alike : Happening → Happening → Prop
  | same (e : Happening) : Happening.Alike e e
  | began (call : Nat) (job : Job) {a a' : Answer} (h : a.Alike a') :
      Happening.Alike (.began call job (some a)) (.began call job (some a'))
  | went (call : Nat) (job : Job) {a a' : Answer} (h : a.Alike a') :
      Happening.Alike (.went call job (some a)) (.went call job (some a'))

variable {s t : Jobs}

theorem alike_begin_ (h : s.Alike t) (job : Job) :
    (s.begin_ job).1.Alike (t.begin_ job).1 ∧ (s.begin_ job).2.Alike (t.begin_ job).2 := by
  obtain ⟨hstage, hresolver⟩ := job.alike_begin _ _ h.resolver
  unfold begin_
  rcases hs : job.begin_ s.resolver with ⟨stage, resolver⟩
  rcases ht : job.begin_ t.resolver with ⟨stage', resolver'⟩
  rw [hs, ht] at hstage hresolver
  rcases hstage with ho | ha
  · dsimp only
    rw [h.nextCall]
    exact ⟨.same _, hresolver, h.ongoing.put _ ho, rfl⟩
  · dsimp only
    rw [h.nextCall]
    exact ⟨.began _ job ha, hresolver, h.ongoing, rfl⟩

theorem alike_go (h : s.Alike t) (call : Nat) :
    (s.go call).1.Alike (t.go call).1 ∧ (s.go call).2.Alike (t.go call).2 := by
  unfold go
  rcases h.ongoing.find?_cases call with ⟨hs, ht⟩ | ⟨o, o', hs, ht, ho⟩
  · rw [hs, ht]
    exact ⟨.same _, h⟩
  · rw [hs, ht]
    obtain ⟨hstage, hresolver⟩ := Ongoing.alike_go ho _ _ h.resolver
    rcases hgo : o.go s.resolver with ⟨stage, resolver⟩
    rcases hgo' : o'.go t.resolver with ⟨stage', resolver'⟩
    rw [hgo, hgo'] at hstage hresolver
    dsimp only
    rw [hgo, hgo', ← ho.job]
    rcases hstage with hnext | ha
    · exact ⟨.same _, hresolver, h.ongoing.put call hnext, h.nextCall⟩
    · exact ⟨.went call o.job ha, hresolver, h.ongoing.drop call, h.nextCall⟩

/-- **Alike moves keep resolvers alike, and the same happens.** -/
theorem alike_move (h : s.Alike t) {m m' : Move} (hm : m.Alike m') :
    (s.move m).1.Alike (t.move m').1 ∧ (s.move m).2.Alike (t.move m').2 := by
  have hact {x : Action Unit} (hx : Action.Alike Eq x x) : (s.act x).Alike (t.act x) :=
    { h with resolver := (hx _ _ h.resolver).2 }
  cases hm with
  | restock hstore =>
      exact ⟨.same _, { h with resolver := { h.resolver with store := hstore } }⟩
  | refill hvault =>
      exact ⟨.same _, { h with resolver := { h.resolver with vault := hvault } }⟩
  | same m =>
      cases m with
      | begin_ job => exact alike_begin_ h job
      | go call => exact alike_go h call
      | abort call => exact ⟨.same _, { h with ongoing := h.ongoing.drop call }⟩
      | stop resource =>
          obtain ⟨hknown, hresolver⟩ := alike_stopTracking resource _ _ h.resolver
          rw [move_stop, move_stop, hknown]
          exact ⟨.same _, { h with resolver := hresolver }⟩
      | clearSecrets => exact ⟨.same _, hact alike_clearSecrets⟩
      | clearEngines => exact ⟨.same _, hact alike_clearEngines⟩
      | pass ms =>
          exact ⟨.same _, hact (.modify fun _ _ h => { h with now := congrArg (· + ms) h.now })⟩
      | restock store =>
          exact ⟨.same _, { h with resolver := { h.resolver with store := store.alike_self } }⟩
      | refill vault =>
          exact ⟨.same _, { h with resolver := { h.resolver with
            vault := .refl VaultSecret.alike_self vault } }⟩

/-- **Alike resolvers have alike histories**, and stay alike. -/
theorem alike_history {s₀ t₀ : Resolver} (h : s₀.Alike t₀) {ms ms' : List Move}
    (hms : List.Forall₂ Move.Alike ms ms') :
    (after s₀ ms).Alike (after t₀ ms') ∧
      List.Forall₂ Happening.Alike (history s₀ ms) (history t₀ ms') := by
  induction hms with
  | nil => exact ⟨⟨h, .nil, rfl⟩, .nil⟩
  | cons hm _ ih =>
      obtain ⟨hhappening, hnext⟩ := alike_move ih.1 hm
      exact ⟨hnext, .cons hhappening ih.2⟩

end Jobs

/-! ### Failures -/

/-- **Failures do not depend on secret texts**, and so no message of one tells anything of them.

Documents of the same shape fail along every path, as a mapping of texts and as a single text, with the
same failure or not at all.  If two user secrets with the same fields are what a reference leads to,
then both have the field that it names or fail with the same failure, and a check finds the same wrong
with both.  And resolvers that differ in secret texts only, in what their engines read and in what their
caches hold, fail alike whatever text they resolve and whatever is asked of them in whatever order, and
write the same logs. -/
theorem failures_blind :
    (∀ d e : Document, d.SameShape e →
      (∀ path, SameFailure (d.extract path) (e.extract path)) ∧
        SameFailure d.namedTexts e.namedTexts ∧ SameFailure d.singleText e.singleText) ∧
    (∀ (u u' : UserSecret) (r : UserRef) (s t : Resolver), u.payload.SameFields u'.payload →
      (userSecret r s).1 = .ok u → (userSecret r t).1 = .ok u' →
        (∀ resource, SameFailure (fieldFor resource r s).1 (fieldFor resource r t).1) ∧
        ∀ written, userRef written = .ok r →
          (validateUser written s).1 = (validateUser written t).1) ∧
    ∀ s t : Resolver, s.Alike t →
      (∀ resource written,
        SameFailure (resolveText resource written s).1 (resolveText resource written t).1) ∧
      ∀ ms ms', List.Forall₂ Jobs.Move.Alike ms ms' →
        List.Forall₂ Jobs.Happening.Alike (Jobs.history s ms) (Jobs.history t ms') ∧
        (Jobs.after s ms).resolver.log = (Jobs.after t ms').resolver.log := by
  refine ⟨fun d e h => ⟨h.extract, h.namedTexts.sameFailure, h.singleText⟩, ?_, ?_⟩
  · intro u u' r s t h hs ht
    refine ⟨sameFailure_fieldFor h hs ht, fun written hr => ?_⟩
    rw [validateUser_of_userSecret hr hs, validateUser_of_userSecret hr ht, h.fieldFault]
  · intro s t h
    refine ⟨fun resource written => (alike_resolveText resource written s t h).1, ?_⟩
    intro ms ms' hms
    obtain ⟨hafter, hhistory⟩ := Jobs.alike_history h hms
    exact ⟨hhistory, hafter.resolver.log⟩

/-- A user secret with a password. -/
def passwordSecret (password : String) : UserSecret :=
  ⟨⟨"opaque", "", []⟩, .named ⟨[("password", password)], by simp⟩⟩

/-- A resolver with a vault that holds such a secret. -/
def passwordResolver (password : String) : Resolver :=
  { Resolver.empty .userSecrets (.objects []) with
    engines := ⟨[("vault", .vault "vault")], List.pairwise_singleton _ _⟩
    vault := [("db", ⟨(passwordSecret password).description,
      .inl (passwordSecret password).payload, 0⟩)] }

theorem passwordResolver_alike (p q : String) : (passwordResolver p).Alike (passwordResolver q) where
  now := rfl
  engines := .cons ⟨rfl, .vault "vault"⟩ .nil
  store := Store.alike_self _
  vault := .cons ⟨rfl, rfl, .opened (Payload.sameFields_of_names rfl), rfl⟩ .nil
  secrets := ⟨⟨rfl, .nil, rfl, rfl⟩, .nil⟩
  ledger := rfl
  downloads := rfl
  lookups := rfl
  log := rfl

/-- Two passwords: a document with either one has no field for the user, a reference to the user
fails alike with both, and so does a call that asks for it. -/
theorem failures_blind_passwords :
    SameFailure ((Document.mapping [("password", .scalar "a")]).extract "user")
      ((Document.mapping [("password", .scalar "b")]).extract "user") ∧
    ∃ r, userRef "secret://vault?s=db&k=user" = .ok r ∧
      (userSecret r (passwordResolver "a")).1 = .ok (passwordSecret "a") ∧
      (userSecret r (passwordResolver "b")).1 = .ok (passwordSecret "b") ∧
      (validateUser "secret://vault?s=db&k=user" (passwordResolver "a")).1 =
        (validateUser "secret://vault?s=db&k=user" (passwordResolver "b")).1 ∧
      List.Forall₂ Jobs.Happening.Alike
        (Jobs.history (passwordResolver "a") [.go 0, .go 0, .go 0, .begin_ (.field "web" r)])
        (Jobs.history (passwordResolver "b") [.go 0, .go 0, .go 0, .begin_ (.field "web" r)]) := by
  have hshape : Document.SameShape (.mapping [("password", .scalar "a")])
      (.mapping [("password", .scalar "b")]) := .mapping rfl (.cons (.scalar "a" "b") .nil)
  have hfields : (passwordSecret "a").payload.SameFields (passwordSecret "b").payload :=
    Payload.sameFields_of_names rfl
  have hr : userRef "secret://vault?s=db&k=user" =
      .ok ⟨"vault", ⟨[("s", "db"), ("k", "user")], by decide⟩⟩ := rfl
  refine ⟨(failures_blind.1 _ _ hshape).1 "user", _, hr, rfl, rfl, ?_, ?_⟩
  · exact (failures_blind.2.1 _ _ _ _ _ hfields rfl rfl).2 _ hr
  · exact ((failures_blind.2.2 _ _ (passwordResolver_alike "a" "b")).2 _ _
      (List.forall₂_same.2 fun m _ => .same m)).1

end SecretResolver
