/-
**Why references into files are refused, and what else they fail with.**

The parameters of a file are looked at twice: the check goes through the list of those that are
required, and the way to the file takes one after the other.  Both stop at the same parameter.  A
reference that the check refuses leaves a resolver as it was.  One that passes fails only if a
download has failed, with the error of that download, or if what it wants cannot be taken out of its
file.

Main definitions:

* `Resolver.Coherent` — engines under their own identifiers, and nothing in flight out of nowhere;
* `Resolver.Supplies` — what the file of a reference comes to in some state of a resolver;
* `Resolver.FailsOnly` — what a reference that passes the check may fail with;
* `EncryptedRef.Checked` — all of this for one reference.

Main results:

* `Location.validate_eq_error_iff_key` — **both checks agree**;
* `Location.validate_eq_error_iff` — a reference is refused for the first parameter that it lacks;
* `Resolver.decrypt_of_refused`, `Decryptions.call_of_refused` — **a refusal changes nothing**;
* `Resolver.decrypt_of_leads` — what comes of a reference that passes, in any state;
* `EncryptedRef.checked` — **checking and resolving agree** on every reference.
-/

import SecretResolver.Proofs.Resolver.Downloads

set_option relaxedAutoImplicit false
set_option autoImplicit false

namespace SecretResolver

/-! ### The parameters of a file -/

namespace Location

variable {r : EncryptedRef} {e : SecretError}

/-- A reference is refused for the first of the required parameters that it lacks. -/
theorem validate_eq_error_iff : validate r = .error e ↔
    ∃ before name what after, required = before ++ (name, what) :: after ∧
      (∀ p ∈ before, r.has p.1 = true) ∧ r.has name = false ∧
      e = .invalidFormat (.missingParameter what name) := by
  unfold validate
  constructor
  · intro h
    split at h
    · rename_i name what hfind
      obtain ⟨hname, before, after, hrequired, hbefore⟩ := List.find?_eq_some_iff_append.1 hfind
      exact ⟨before, name, what, after, hrequired, by simpa using hbefore, by simpa using hname,
        (Except.error.inj h).symm⟩
    · exact nomatch h
  · rintro ⟨before, name, what, after, hrequired, hbefore, hname, rfl⟩
    have hfind : required.find? (fun p => !r.has p.1) = some (name, what) :=
      List.find?_eq_some_iff_append.2
        ⟨by simp [hname], before, after, hrequired, by simpa using hbefore⟩
    rw [hfind]

/-- **Both checks agree** on what is missing. -/
theorem validate_eq_map_key (r : EncryptedRef) : validate r = (key r).map fun _ => () := by
  have hhas (name : String) : r.has name = (r.get? name).isSome := rfl
  simp only [validate, required, List.find?_cons, List.find?_nil, hhas, key, parameter]
  cases r.get? "b" with
  | none => rfl
  | some bucket =>
      cases r.get? "r" with
      | none => rfl
      | some region => cases r.get? "f" <;> rfl

theorem validate_eq_error_iff_key : validate r = .error e ↔ key r = .error e := by
  rw [validate_eq_map_key]
  cases key r <;> simp [Except.map]

theorem validate_eq_ok_iff_key : validate r = .ok () ↔ ∃ k, key r = .ok k := by
  rw [validate_eq_map_key]
  cases key r <;> simp [Except.map]

/-- What is wanted out of a file cannot be taken out of it only if decryption fails. -/
theorem cause_of_part {contents : Bytes} (h : part r contents = .error e) :
    ∃ cause, e = .decryption cause := by
  have hanswers := answers_part r contents
  rw [h] at hanswers
  cases hanswers with
  | missing => exact ⟨_, rfl⟩
  | undecodable => exact ⟨_, rfl⟩

end Location

/-! ### Refusals -/

namespace Resolver

variable {s : Resolver} {r : EncryptedRef} {e : SecretError} {id : String}
  {files : Shared ObjectKey SecretError Bytes}

theorem startDecrypt_of_refused (hengine : s.engineOf r.engine = .ok (.storage id files))
    (h : Location.validate r = .error e) : startDecrypt r s = (.done (.error e), s) := by
  simp only [startDecrypt, Action.bind_apply, Action.get_apply, hengine, Engine.validate, h]
  rfl

/-- **A refusal changes nothing**, neither a cache nor what is counted or logged. -/
theorem decrypt_of_refused (hengine : s.engineOf r.engine = .ok (.storage id files))
    (h : Location.validate r = .error e) : decrypt r s = (.error e, s) := by
  simp only [decrypt, Action.bind_apply, startDecrypt_of_refused hengine h]
  rfl

end Resolver

/-- A call that is refused returns at once, and nothing but the number of calls has changed. -/
theorem Decryptions.call_of_refused {s : Decryptions} {r : EncryptedRef} {e : SecretError}
    {id : String} {files : Shared ObjectKey SecretError Bytes}
    (hengine : s.resolver.engineOf r.engine = .ok (.storage id files))
    (h : Location.validate r = .error e) :
    s.move (.call r) =
      (.answered s.nextCall r (.error e), { s with nextCall := s.nextCall + 1 }) := by
  simp only [Decryptions.move, Decryptions.call, Resolver.startDecrypt_of_refused hengine h]

/-! ### References that pass -/

namespace Resolver

/-- Engines are known by their own identifiers, and what is in flight has been started. -/
structure Coherent (s : Resolver) : Prop where
  known : s.Known
  flying : ∀ id files, s.filesOf? id = some files → ∀ k flight,
    Entries.find? k files.cache.inFlight = some flight →
      ∃ c, files.computation? flight = some c

/-- What the file of a reference comes to in some state of a resolver: the value that is held for
it, or else what the download in flight comes to, or else what a download from the store comes
to. -/
inductive Supplies (s : Resolver) (files : Shared ObjectKey SecretError Bytes) (k : ObjectKey) :
    Except SecretError Bytes → Prop where
  | held (e : Cache.Entry Bytes) (h : Entries.find? k files.cache.entries = some e) :
      Supplies s files k (.ok e.value)
  | flying (flight : Nat) (c : Computation SecretError Bytes)
      (h : Entries.find? k files.cache.inFlight = some flight)
      (hc : files.computation? flight = some c) : Supplies s files k c.result
  | fetched : Supplies s files k (s.store.download k).result

/-- What a reference that passes the check may fail with, where `reported` are the errors of
downloads: it has a wrong form or may be tried again only if a download has said so, and else
decryption has failed. -/
structure FailsOnly (reported : SecretError → Prop) (e : SecretError) : Prop where
  format : ∀ cause, e = .invalidFormat cause → reported e
  retryable : e.isRetryable = true → reported e
  decryption : ¬ reported e → ∃ cause, e = .decryption cause

variable {s : Resolver} {r : EncryptedRef} {e : SecretError} {k : ObjectKey}
  {files : Shared ObjectKey SecretError Bytes} {reported : SecretError → Prop}

theorem failsOnly_of_reported (h : reported e) : FailsOnly reported e where
  format _ _ := h
  retryable _ := h
  decryption hno := absurd h hno

theorem failsOnly_of_decryption (reported : SecretError → Prop) (cause : DecryptionCause) :
    FailsOnly reported (.decryption cause) where
  format _ h := nomatch h
  retryable h := nomatch h
  decryption _ := ⟨cause, rfl⟩

/-- What a reference makes of what a download came to fails as the download did, or because what is
wanted cannot be taken out of the file. -/
theorem failsOnly_of_answers {result answer : Except SecretError Bytes}
    (h : Location.Answers r result answer) (he : answer = .error e)
    (hreported : ∀ e, result = .error e → reported e) : FailsOnly reported e := by
  cases h with
  | failed e' =>
      obtain rfl := Except.error.inj he
      exact failsOnly_of_reported (hreported e' rfl)
  | whole contents hk => exact nomatch he
  | scalar contents path d text hk hd ht => exact nomatch he
  | missing contents path d cause hk hd ht =>
      obtain rfl := Except.error.inj he
      exact failsOnly_of_decryption reported cause
  | undecodable contents path cause hk hd =>
      obtain rfl := Except.error.inj he
      exact failsOnly_of_decryption reported cause

/-- A call that waits gets what its reference makes of the download that it waits for. -/
theorem decrypt_of_waits {w : FileWait} {s' : Resolver} {c : Computation SecretError Bytes}
    (hstart : startDecrypt r s = (.waits w, s')) (hfiles : s'.filesOf? w.engine = some files)
    (hc : files.computation? w.flight = some c) :
    (decrypt r s).1 = c.result >>= Location.part w.reference := by
  obtain ⟨log, hfinish⟩ := finishDecrypt_eq
    (s := { s' with now := max s'.now (timeOf (w.readyAt s') s') }) hfiles hc
  simp only [decrypt, Action.bind_apply, hstart, await, Action.get_apply, passTo,
    Action.modify_apply, hfinish]

/-- **What comes of a reference that passes**, in any state: what it wants out of what its file
comes to. -/
theorem decrypt_of_leads (hs : s.Coherent) (hfiles : s.filesOf? r.engine = some files)
    (hk : Location.key r = .ok k) :
    ∃ result, Supplies s files k result ∧ (decrypt r s).1 = result >>= Location.part r := by
  obtain ⟨files', k', log, hfiles', hk', hstart⟩ | ⟨hnone, -⟩ := startDecrypt_cases hs.known r
  · obtain rfl := Option.some.inj (hfiles.symm.trans hfiles')
    obtain rfl := Except.ok.inj (hk.symm.trans hk')
    rcases requestFile_cases r.engine files k { s with log := log } with
      ⟨e, log', he, -, hrequest⟩ |
        ⟨-, ⟨flight, log', hflight, hrequest⟩ | ⟨-, log', hrequest⟩⟩
    · rw [hrequest] at hstart
      refine ⟨.ok e.value, .held e he, ?_⟩
      simp only [decrypt, Action.bind_apply, hstart]
      rfl
    · rw [hrequest] at hstart
      obtain ⟨c, hc⟩ := hs.flying r.engine files hfiles k flight hflight
      have hmissed : (s.withFiles r.engine (files.missed k) log').filesOf? r.engine =
          some (files.missed k) := by
        rw [filesOf?_withFiles, if_pos rfl]
      exact ⟨c.result, .flying flight c hflight hc, decrypt_of_waits hstart hmissed hc⟩
    · rw [hrequest] at hstart
      let c : Computation SecretError Bytes :=
        ⟨s.now + (s.store.download k).delay, (s.store.download k).result⟩
      have hbegun : ({ s with downloads := k :: s.downloads }.withFiles r.engine
          (files.begun k c) log').filesOf? r.engine = some (files.begun k c) := by
        rw [filesOf?_withFiles, if_pos rfl]
      exact ⟨c.result, .fetched,
        decrypt_of_waits hstart hbegun (files.computation?_begun_self k c)⟩
  · exact absurd hk (hnone files k hfiles)

/-- A reference that passes fails as `FailsOnly` says. -/
theorem failsOnly_of_leads (hs : s.Coherent) (hfiles : s.filesOf? r.engine = some files)
    (hk : Location.key r = .ok k) (he : (decrypt r s).1 = .error e) :
    FailsOnly (fun e => Supplies s files k (.error e)) e := by
  obtain ⟨result, hsupplies, hresult⟩ := decrypt_of_leads hs hfiles hk
  refine failsOnly_of_answers (Location.answers_bind r result) (hresult ▸ he) ?_
  rintro e rfl
  exact hsupplies

end Resolver

/-- Whatever calls have done with a fresh resolver, it is coherent. -/
theorem Decryptions.coherent_after {s₀ : Resolver} (h : s₀.Fresh) (ms : List Move) :
    (after s₀ ms).resolver.Coherent where
  known := (sound_after h ms).known
  flying id files hfiles k flight hf := by
    obtain ⟨c, hc, -⟩ := ((sound_after h ms).sourced id files hfiles).flying k flight hf
    exact ⟨c, hc⟩

/-- What a call returns in a run, if it fails, is as `FailsOnly` says. -/
theorem Decryptions.failsOnly_of_answered {s₀ : Resolver} (h : s₀.Fresh) {ms : List Move}
    {x b : Happening} (hx : x ∈ history s₀ ms) (hb : b ∈ history s₀ ms) {call : Nat}
    {e : SecretError} (hanswer : x.answers? = some (call, .error e)) {r : EncryptedRef}
    (hr : b.begins? = some (call, r)) {k : ObjectKey} (hleads : s₀.Leads r k) :
    Resolver.FailsOnly (fun e => Downloaded (history s₀ ms) r.engine k (.error e)) e := by
  obtain ⟨since, m, before, rfl, rfl⟩ := Machine.exists_moves_of_mem hx
  have hsub : ∀ y ∈ history s₀ (m :: before), y ∈ history s₀ (since ++ m :: before) :=
    (machine s₀).mem_history_append since (m :: before)
  obtain ⟨r', ⟨b', hb', hr'⟩, hanswers⟩ := (sound_after h before).answered hanswer
  obtain rfl : r' = r := (sound_after h _).unique b' (hsub b' hb') b hb call r' r hr' hr
  obtain ⟨result, hdown, hanswers⟩ := hanswers k hleads
  refine Resolver.failsOnly_of_answers hanswers rfl ?_
  rintro e rfl
  exact hdown.mono fun y hy => hsub y (List.mem_cons_of_mem _ hy)

namespace EncryptedRef

/-- How checking a reference into a file and resolving it go together. -/
structure Checked (r : EncryptedRef) : Prop where
  /-- What the check refuses leads to no file, for the same reason. -/
  agree : ∀ e, Location.validate r = .error e ↔ Location.key r = .error e
  /-- What passes the check leads to a file. -/
  passes : Location.validate r = .ok () ↔ ∃ k, Location.key r = .ok k
  /-- The reason is the first of the required parameters that is missing. -/
  first : ∀ e, Location.validate r = .error e →
    ∃ before name what after, Location.required = before ++ (name, what) :: after ∧
      (∀ p ∈ before, r.has p.1 = true) ∧ r.has name = false ∧
      e = .invalidFormat (.missingParameter what name)
  /-- What is refused leaves a resolver as it was, whatever it holds. -/
  refused : ∀ (s : Resolver) id files e, s.engineOf r.engine = .ok (.storage id files) →
    Location.validate r = .error e → Resolver.decrypt r s = (.error e, s)
  /-- So it does between other calls. -/
  refusedAmid : ∀ (s : Decryptions) id files e,
    s.resolver.engineOf r.engine = .ok (.storage id files) → Location.validate r = .error e →
    s.move (.call r) =
      (.answered s.nextCall r (.error e), { s with nextCall := s.nextCall + 1 })
  /-- What passes fails as its download does, or because decryption fails, whatever a resolver
  holds. -/
  fails : ∀ s : Resolver, s.Coherent → ∀ files, s.filesOf? r.engine = some files →
    ∀ k, Location.key r = .ok k → ∀ e, (Resolver.decrypt r s).1 = .error e →
      Resolver.FailsOnly (fun e => Resolver.Supplies s files k (.error e)) e
  /-- Calls leave a resolver such that this holds of it. -/
  coherent : ∀ s₀ : Resolver, s₀.Fresh → ∀ ms, (Decryptions.after s₀ ms).resolver.Coherent
  /-- So it does between other calls. -/
  failsAmid : ∀ s₀ : Resolver, s₀.Fresh → ∀ ms, ∀ x ∈ Decryptions.history s₀ ms,
    ∀ b ∈ Decryptions.history s₀ ms, ∀ call e, x.answers? = some (call, .error e) →
    b.begins? = some (call, r) → ∀ k, s₀.Leads r k →
      Resolver.FailsOnly
        (fun e => Decryptions.Downloaded (Decryptions.history s₀ ms) r.engine k (.error e)) e
  /-- What cannot be taken out of a file is not worth another try. -/
  untaken : ∀ contents e, Location.part r contents = .error e →
    (∃ cause, e = .decryption cause) ∧ e.isRetryable = false

/-- **Checking and resolving agree** on every reference. -/
theorem checked (r : EncryptedRef) : Checked r where
  agree _ := Location.validate_eq_error_iff_key
  passes := Location.validate_eq_ok_iff_key
  first _ := Location.validate_eq_error_iff.1
  refused _ _ _ _ hengine := Resolver.decrypt_of_refused hengine
  refusedAmid _ _ _ _ hengine := Decryptions.call_of_refused hengine
  fails _ hs _ hfiles _ hk _ := Resolver.failsOnly_of_leads hs hfiles hk
  coherent _ h := Decryptions.coherent_after h
  failsAmid _ h _ _ hx _ hb _ _ hanswer hr _ := Decryptions.failsOnly_of_answered h hx hb hanswer hr
  untaken contents e he := by
    obtain ⟨cause, rfl⟩ := Location.cause_of_part he
    exact ⟨⟨cause, rfl⟩, rfl⟩

end EncryptedRef

end SecretResolver
