/-
**The computations of user secrets.**

Asking for a user secret either finds it in the cache, or joins a computation for the same reference,
or launches one: the engine that is registered under the reference's identifier checks the reference
and then decrypts it.  An engine that is not registered is not asked, and then nothing is looked up.

Whatever else a resolver does is done aside from this: it changes neither the cache of user secrets nor
which engines are registered.

Main definitions:

* `Launch`, `Launch.result` — a computation of a user secret, and what it comes to;
* `Launch.Yields` — a computation checked a reference and decrypted it;
* `Resolver.launch?` — what asking for a reference launches;
* `Resolver.Aside`, `Action.Aside` — something is done aside from user secrets.

Main results:

* `Resolver.startSecret_cases` — **what asking for a user secret comes to**;
* `Resolver.finishSecret_eq` — what waiting for it comes to;
* `Launch.yields_of_result` — a computation that succeeds has checked its reference;
* `Resolver.aside_startDecrypt`, `Resolver.aside_finishDecrypt`, `Resolver.aside_clearEngines` —
  encrypted references are resolved aside from user secrets.
-/

import SecretResolver.Proofs.Cache.Launched
import SecretResolver.Proofs.Reference.Reordering
import SecretResolver.Proofs.Resolver.Files
import SecretResolver.Resolver.Secrets

set_option relaxedAutoImplicit false
set_option autoImplicit false

namespace SecretResolver

open Resolver

/-! ### Launches -/

/-- A computation of a user secret: by an engine, for a reference, with a resolver in some state. -/
structure Launch where
  reference : UserRef
  engine : Engine
  resolver : Resolver

namespace Launch

/-- What a computation comes to. -/
def result (l : Launch) : Except SecretError UserSecret :=
  (computeChecked l.engine l.reference l.resolver).1.result

/-- A computation was for a reference that is the same but for the order of its parameters, by the
engine that is registered under its identifier; that engine found the reference in order and then
decrypted it. -/
structure Yields (l : Launch) (r : UserRef) (secret : UserSecret) : Prop where
  same : l.reference.sameAs r = true
  registered : l.resolver.engines.get? r.engine = some l.engine
  validated : l.engine.validateUser l.reference = .ok ()
  decrypted : (computeSecret l.engine l.reference l.resolver).1.result = .ok secret

/-- A computation that succeeds has checked its reference. -/
theorem yields_of_result {l : Launch} {r : UserRef} {secret : UserSecret}
    (hsame : l.reference.sameAs r = true)
    (hregistered : l.resolver.engines.get? l.reference.engine = some l.engine)
    (h : l.result = .ok secret) : l.Yields r secret := by
  have hengine : l.reference.engine = r.engine := by
    simp only [UserRef.sameAs, Bool.and_eq_true, beq_iff_eq] at hsame
    exact hsame.1
  unfold result computeChecked at h
  cases hv : l.engine.validateUser l.reference with
  | error e =>
      rw [hv] at h
      cases h
  | ok _ =>
      rw [hv] at h
      exact ⟨hsame, hengine ▸ hregistered, hv, h⟩

end Launch

namespace Resolver

variable {s s' : Resolver}

/-- What asking for a reference launches, with its number. -/
def launch? (s : Resolver) (r : UserRef) : Option (Nat × Launch) :=
  match s.engines.get? r.engine, (s.secrets.request s.now r.identity).1 with
  | some e, .started flight _ => some (flight, ⟨r, e, s⟩)
  | _, _ => none

/-- A computation does not look at the cache of user secrets, nor at the log. -/
theorem computeChecked_eq (e : Engine) (r : UserRef) (s : Resolver)
    (secrets : Shared UserRef.Identity SecretError UserSecret) (log : List LogEvent) :
    ∃ lookups, computeChecked e r { s with secrets := secrets, log := log } =
      ((computeChecked e r s).1,
        { s with secrets := secrets, log := log, lookups := lookups }) := by
  unfold computeChecked
  cases e.validateUser r with
  | error error => exact ⟨s.lookups, rfl⟩
  | ok _ =>
      cases e with
      | embedded => exact ⟨s.lookups, rfl⟩
      | storage id files => exact ⟨s.lookups, rfl⟩
      | echo id => exact ⟨s.lookups, rfl⟩
      | vault id =>
          refine ⟨s.lookups + 1, ?_⟩
          simp only [computeSecret, openVault, Action.bind_apply, Action.modify_apply,
            Action.get_apply]
          cases Entries.find? ((r.get? VaultSecret.nameParameter).getD "") s.vault <;> rfl

/-- **What asking for a user secret comes to.**  If its engine is not registered, it fails and
nothing is touched.  Otherwise it is in the cache, or is being computed, or a computation is
launched for it. -/
theorem startSecret_cases (r : UserRef) (s : Resolver) :
    (s.engines.get? r.engine = none ∧ s.launch? r = none ∧
      startSecret r s = (.done (.error (.noSuchEngine r.engine)), s)) ∨
    ∃ e, s.engines.get? r.engine = some e ∧
      ((∃ entry log, Entries.find? r.identity s.secrets.cache.entries = some entry ∧
          s.launch? r = none ∧
          startSecret r s = (.done (.ok entry.value),
            { s with secrets := s.secrets.used s.now r.identity entry, log := log })) ∨
        (∃ flight log, Entries.find? r.identity s.secrets.cache.inFlight = some flight ∧
          s.launch? r = none ∧
          startSecret r s = (.waits ⟨r, flight⟩,
            { s with secrets := s.secrets.missed r.identity, log := log })) ∨
        ∃ c lookups log, s.launch? r = some (s.secrets.cache.nextFlight, ⟨r, e, s⟩) ∧
          c.result = Launch.result ⟨r, e, s⟩ ∧
          startSecret r s = (.waits ⟨r, s.secrets.cache.nextFlight⟩,
            { s with
              secrets := s.secrets.begun r.identity c
              lookups := lookups
              log := log })) := by
  cases he : s.engines.get? r.engine with
  | none => exact .inl ⟨rfl, by simp [launch?, he], by simp [startSecret, engineOf, he]⟩
  | some e =>
      refine .inr ⟨e, rfl, ?_⟩
      rcases s.secrets.request_cases s.now r.identity with
        ⟨entry, hf, -, heq⟩ | ⟨-, ⟨flight, hf, heq⟩ | ⟨-, expired, secrets, heq, hbegin⟩⟩
      · obtain ⟨log, hlog⟩ := noteRequest_eq (.hit entry.value)
          { s with secrets := s.secrets.used s.now r.identity entry }
        refine .inl ⟨entry, log, hf, by simp [launch?, he, heq], ?_⟩
        simp [startSecret, engineOf, he, heq, hlog]
      · obtain ⟨log, hlog⟩ := noteRequest_eq (.joined flight : Cache.Request UserSecret)
          { s with secrets := s.secrets.missed r.identity }
        refine .inr (.inl ⟨flight, log, hf, by simp [launch?, he, heq], ?_⟩)
        simp [startSecret, engineOf, he, heq, hlog]
      · obtain ⟨log, hlog⟩ := noteRequest_eq
          (.started s.secrets.cache.nextFlight expired : Cache.Request UserSecret)
          { s with secrets := secrets }
        obtain ⟨lookups, hcompute⟩ := computeChecked_eq e r s secrets log
        refine .inr (.inr ⟨(computeChecked e r s).1, lookups, log, by simp [launch?, he, heq], rfl, ?_⟩)
        simp [startSecret, engineOf, he, heq, hlog, hcompute, hbegin]

/-- What is launched is a computation for the reference that is asked for, with a new number, by the
engine that is registered. -/
theorem launch?_eq_some {r : UserRef} {flight : Nat} {l : Launch}
    (h : s.launch? r = some (flight, l)) :
    flight = s.secrets.cache.nextFlight ∧ l.reference = r ∧ l.resolver = s ∧
      s.engines.get? r.engine = some l.engine := by
  rcases startSecret_cases r s with
    ⟨-, hno, -⟩ | ⟨e, he, ⟨-, -, -, hno, -⟩ | ⟨-, -, -, hno, -⟩ | ⟨-, -, -, hlaunch, -⟩⟩
  · exact nomatch hno.symm.trans h
  · exact nomatch hno.symm.trans h
  · exact nomatch hno.symm.trans h
  · obtain ⟨rfl, rfl⟩ := Prod.mk.inj (Option.some.inj (hlaunch.symm.trans h))
    exact ⟨rfl, rfl, rfl, he⟩

/-- **What waiting for a user secret comes to** is what its computation has come to. -/
theorem finishSecret_eq {w : SecretWait} {c : Computation SecretError UserSecret}
    (hc : s.secrets.computation? w.flight = some c) :
    ∃ log, finishSecret w s = (c.result,
      { s with
        secrets := s.secrets.retired s.now w.reference.identity w.flight c.result
        log := log }) := by
  obtain ⟨completion, hcollect⟩ := Shared.collect_eq hc s.now w.reference.identity
  obtain ⟨log, hlog⟩ := noteCompletion_eq c.result completion
    { s with secrets := s.secrets.retired s.now w.reference.identity w.flight c.result }
  exact ⟨log, by simp [finishSecret, hcollect, hlog]⟩

end Resolver

/-! ### Aside from user secrets -/

/-- An engine without what is in its cache. -/
def Engine.bare : Engine → Engine
  | .storage id _ => .storage id (.empty .standard)
  | e => e

theorem Engine.identifier_bare (e : Engine) : e.bare.identifier = e.identifier := by
  cases e <;> rfl

namespace Resolver

variable {s s' s'' : Resolver}

/-- Something was done aside from user secrets: their cache is as it was, and so are the engines,
but for their own caches. -/
structure Aside (s s' : Resolver) : Prop where
  secrets : s'.secrets = s.secrets
  engines : ∀ id, (s'.engines.get? id).map Engine.bare = (s.engines.get? id).map Engine.bare

theorem Aside.refl (s : Resolver) : s.Aside s := ⟨rfl, fun _ => rfl⟩

theorem Aside.trans (h : s.Aside s') (h' : s'.Aside s'') : s.Aside s'' :=
  ⟨h'.secrets.trans h.secrets, fun id => (h'.engines id).trans (h.engines id)⟩

theorem known_of_engines (hs : s.Known)
    (h : ∀ id, (s'.engines.get? id).map Engine.bare = (s.engines.get? id).map Engine.bare) :
    s'.Known := by
  intro id e he
  have hid := h id
  rw [he, Option.map_some, eq_comm, Option.map_eq_some_iff] at hid
  obtain ⟨e', he', hbare⟩ := hid
  rw [← e.identifier_bare, ← hbare, Engine.identifier_bare]
  exact hs id e' he'

theorem Aside.known (h : s.Aside s') (hs : s.Known) : s'.Known := known_of_engines hs h.engines

/-- The cache of an engine may change. -/
theorem aside_withFiles {id : String} (hid : s.filesOf? id ≠ none) (hs : s.Known)
    (files : Shared ObjectKey SecretError Bytes) (log : List LogEvent) :
    s.Aside (s.withFiles id files log) where
  secrets := rfl
  engines id' := by
    obtain ⟨files', hfiles⟩ := Option.ne_none_iff_exists'.1 hid
    have hregistered := (filesOf?_eq_some_iff hs).1 hfiles
    rw [withFiles, Table.get?_put]
    split
    · rename_i heq
      obtain rfl := heq
      rw [hregistered]
      rfl
    · rfl

/-- An encrypted reference is asked for aside from user secrets. -/
theorem aside_startDecrypt (hs : s.Known) (r : EncryptedRef) : s.Aside (startDecrypt r s).2 := by
  rcases startDecrypt_cases hs r with
    ⟨files, k, log, hfiles, -, heq⟩ | ⟨-, answer, log, heq⟩
  · have hrequest : s.Aside (requestFile r.engine files k { s with log := log }).2 := by
      have hid : s.filesOf? r.engine ≠ none := by simp [hfiles]
      rcases requestFile_cases r.engine files k { s with log := log } with
        ⟨e, log', -, -, hq⟩ | ⟨-, ⟨flight, log', -, hq⟩ | ⟨-, log', hq⟩⟩
      · rw [hq]
        exact ⟨rfl, (aside_withFiles hid hs _ log').engines⟩
      · rw [hq]
        exact ⟨rfl, (aside_withFiles hid hs _ log').engines⟩
      · rw [hq]
        exact ⟨rfl, (aside_withFiles hid hs _ log').engines⟩
    rw [heq]
    rcases hq : requestFile r.engine files k { s with log := log } with ⟨contents | flight, s'⟩
    · rw [hq] at hrequest
      exact hrequest
    · rw [hq] at hrequest
      exact hrequest
  · rw [heq]
    exact ⟨rfl, fun _ => rfl⟩

/-- So is it waited for. -/
theorem aside_finishDecrypt (hs : s.Known) (w : FileWait) : s.Aside (finishDecrypt w s).2 := by
  cases hfiles : s.filesOf? w.engine with
  | none =>
      have heq : (finishDecrypt w s).2 = s := by simp [finishDecrypt, collectFile, hfiles]
      rw [heq]
      exact .refl s
  | some files =>
      cases hc : files.computation? w.flight with
      | none =>
          have heq : (finishDecrypt w s).2 = s := by
            simp [finishDecrypt, collectFile, hfiles, Shared.collect, hc]
          rw [heq]
          exact .refl s
      | some c =>
          obtain ⟨log, heq⟩ := finishDecrypt_eq hfiles hc
          rw [heq]
          exact aside_withFiles (by simp [hfiles]) hs _ log

theorem aside_clearEach {es : List (String × Engine)} {s : Resolver} (hs : s.Known)
    (hes : ∀ e ∈ es, (s.engines.get? e.1).map Engine.bare = some e.2.bare) :
    s.Aside (es.foldl (fun s e => (clearEngine e.2 s).2) s) := by
  induction es generalizing s with
  | nil => exact .refl s
  | cons e es ih =>
      have hclear : s.Aside (clearEngine e.2 s).2 := by
        obtain ⟨name, e⟩ := e
        cases e with
        | storage id files =>
            obtain ⟨log, hlog⟩ := clearEngine_storage id files s
            have hname := hes (name, .storage id files) (List.mem_cons_self ..)
            obtain ⟨e', he', hbare⟩ := Option.map_eq_some_iff.1 hname
            obtain ⟨files', rfl⟩ : ∃ files', e' = .storage id files' := by
              cases e' with
              | storage id' files' => exact ⟨files', by simpa [Engine.bare] using hbare⟩
              | _ => exact nomatch hbare
            obtain rfl : id = name := hs name _ he'
            rw [hlog]
            exact aside_withFiles (by simp [(filesOf?_eq_some_iff hs).2 he']) hs _ log
        | _ => exact .refl s
      refine hclear.trans (ih (hclear.known hs) fun e' he' => ?_)
      rw [hclear.engines]
      exact hes e' (List.mem_cons_of_mem e he')

/-- The caches of engines are cleared aside from user secrets. -/
theorem aside_clearEngines (hs : s.Known) : s.Aside (clearEngines s).2 := by
  have hclear : (clearEngines s).2 =
      (note (.enginesCleared s.engines.size)
        (s.engines.entries.foldl (fun s e => (clearEngine e.2 s).2) s)).2 := by
    simp [clearEngines, clearEach_eq]
  have heach : s.Aside (s.engines.entries.foldl (fun s e => (clearEngine e.2 s).2) s) := by
    refine aside_clearEach hs fun e he => ?_
    have hget : s.engines.get? e.1 = some e.2 := Table.mem_entries_iff.1 he
    rw [hget, Option.map_some]
  rw [hclear]
  exact ⟨heach.secrets, heach.engines⟩

end Resolver

/-! ### Actions -/

namespace Action

variable {α β : Type}

/-- An action is done aside from user secrets, with a result of which something is true. -/
def Aside (P : α → Prop) (x : Action α) : Prop :=
  ∀ s : Resolver, s.Known → s.Aside (x s).2 ∧ P (x s).1

namespace Aside

variable {P : α → Prop} {Q : β → Prop}

theorem pure {a : α} (h : P a) : Aside P (pure a) := fun s _ => ⟨.refl s, h⟩

theorem bind {x : Action α} {f : α → Action β} (hx : x.Aside P) (hf : ∀ a, P a → (f a).Aside Q) :
    (x >>= f).Aside Q := by
  intro s hs
  obtain ⟨hfirst, ha⟩ := hx s hs
  obtain ⟨hrest, hb⟩ := hf _ ha _ (hfirst.known hs)
  exact ⟨hfirst.trans hrest, hb⟩

theorem get_bind {f : Resolver → Action β} (hf : ∀ s, (f s).Aside Q) :
    (get >>= f : Action β).Aside Q := fun s hs => hf s s hs

theorem modify {f : Resolver → Resolver} (hf : ∀ s : Resolver, s.Aside (f s)) :
    Aside (fun _ => True) (modify f : Action Unit) := fun s _ => ⟨hf s, trivial⟩

theorem note (e : LogEvent) : Aside (fun _ => True) (Resolver.note e) :=
  .modify fun _ => ⟨rfl, fun _ => rfl⟩

theorem startDecrypt (r : EncryptedRef) : Aside (fun _ => True) (Resolver.startDecrypt r) :=
  fun _ hs => ⟨aside_startDecrypt hs r, trivial⟩

theorem finishDecrypt (w : FileWait) : Aside (fun _ => True) (Resolver.finishDecrypt w) :=
  fun _ hs => ⟨aside_finishDecrypt hs w, trivial⟩

theorem giveField (resource : String) (r : UserRef) (result : Except SecretError UserSecret) :
    Aside (fun _ => True) (Resolver.giveField resource r result) := by
  cases result with
  | error e => exact .pure trivial
  | ok secret =>
      unfold Resolver.giveField
      dsimp only
      split
      · exact .pure trivial
      · refine .bind (P := fun _ => True) ?_ fun _ _ => .pure trivial
        exact .bind (.modify fun _ => ⟨rfl, fun _ => rfl⟩) fun _ _ => .note _

theorem stopTracking (resource : String) :
    Aside (fun _ => True) (Resolver.stopTracking resource) := by
  refine .get_bind fun s => ?_
  dsimp only
  split
  · refine .bind (.modify fun _ => ⟨rfl, fun _ => rfl⟩) fun _ _ => ?_
    exact .bind (.note _) fun _ _ => .pure trivial
  · exact .pure trivial

end Aside

end Action

end SecretResolver
