/-
**User secrets do not cross references.**

Whatever a call gets for a reference, in any run, was computed for a reference that is the same but for
the order of its parameters: by the engine that is registered under its identifier, which checked the
reference first.  An engine that is not registered is never asked.  And a computation whose failure
somebody has got answers nobody who asks later.

Main definitions:

* `Jobs.Fetched` — in a run a computation was launched that yields a user secret for a reference;
* `Jobs.Over` — a computation answers nobody who comes later;
* `Jobs.Apart` — user secrets do not cross references.

Main results:

* `Jobs.traced_after` — calls are traced in every run;
* `Jobs.gone_after` — what is gone stays gone;
* `Jobs.over_of_has` — what has failed is over;
* `Jobs.apart_after` — **user secrets do not cross references**, in any run.
-/

import SecretResolver.Proofs.Resolver.Turns

set_option relaxedAutoImplicit false
set_option autoImplicit false

namespace SecretResolver

open Resolver

namespace Jobs

/-! ### Runs -/

variable {s₀ : Resolver} {launches : Launches} {s : Jobs} {call : Nat} {o : Ongoing}
  {ms : List Move} {limits : CacheLimits}

/-- **Calls are traced in every run** that begins with an empty cache of user secrets. -/
theorem traced_after (h₀ : s₀.secrets = .empty limits) (hs : s₀.Known) (ms : List Move) :
    Traced s₀ (launched s₀ ms) (after s₀ ms) := by
  induction ms with
  | nil => exact ⟨fun _ => rfl, h₀ ▸ Shared.launched_empty limits, fun _ _ ho => nomatch ho⟩
  | cons m ms ih =>
      rw [launched, Jobs.launches, List.map_append]
      exact ih.move hs m

/-- What was launched in a run was launched by some move. -/
theorem mem_launches {l : Nat × Launch} (h : l ∈ Jobs.launches s₀ ms) :
    ∃ since m before, ms = since ++ m :: before ∧ (after s₀ before).launch? m = some l := by
  induction ms with
  | nil => exact nomatch h
  | cons m ms ih =>
      rcases List.mem_append.1 h with h | h
      · exact ⟨[], m, ms, rfl, Option.mem_toList.1 h⟩
      · obtain ⟨since, m', before, rfl, hlaunch⟩ := ih h
        exact ⟨m :: since, m', before, rfl, hlaunch⟩

/-- Whatever is launched later, what was launched is found under its number. -/
theorem find?_launched (h₀ : s₀.secrets = .empty limits) (hs : s₀.Known) {flight : Nat}
    {launch : UserRef.Identity × Except SecretError UserSecret}
    (hf : Entries.find? flight (launched s₀ ms) = some launch) (later : List Move) :
    Entries.find? flight (launched s₀ (later ++ ms)) = some launch := by
  induction later with
  | nil => exact hf
  | cons m later ih =>
      have htraced := traced_after h₀ hs (later ++ ms)
      rw [List.cons_append, launched, Jobs.launches, List.map_append]
      cases hlaunch : (after s₀ (later ++ ms)).launch? m with
      | none => exact ih
      | some l =>
          obtain ⟨r, -, hr⟩ := Option.bind_eq_some_iff.1 hlaunch
          obtain ⟨hnumber, -⟩ := launch?_eq_some hr
          obtain ⟨flight', l⟩ := l
          obtain rfl : flight' = _ := hnumber
          exact htraced.secrets.find?_begun ih

/-! ### What calls get -/

/-- In a run a computation was launched that yields a user secret for a reference. -/
def Fetched (s₀ : Resolver) (ms : List Move) (flight : Nat) (r : UserRef) (secret : UserSecret) :
    Prop :=
  ∃ since m before l, ms = since ++ m :: before ∧
    (after s₀ before).launch? m = some (flight, l) ∧ l.Yields r secret

/-- A success was computed for a reference that is the same, which was checked. -/
theorem fetched_of_find? {flight : Nat} {r : UserRef} {secret : UserSecret}
    (hf : Entries.find? flight (launched s₀ ms) = some (r.identity, .ok secret)) :
    Fetched s₀ ms flight r secret := by
  obtain ⟨⟨flight', l⟩, hl, heq⟩ := List.mem_map.1 (Entries.mem_of_find? hf)
  obtain ⟨rfl, hlaunched⟩ := Prod.mk.inj heq
  obtain ⟨hidentity, hresult⟩ := Prod.mk.inj hlaunched
  obtain ⟨since, m, before, hms, hlaunch⟩ := mem_launches hl
  refine ⟨since, m, before, l, hms, hlaunch, ?_⟩
  obtain ⟨r', -, hr'⟩ := Option.bind_eq_some_iff.1 hlaunch
  obtain ⟨-, hreference, hresolver, hregistered⟩ := launch?_eq_some hr'
  refine Launch.yields_of_result (UserRef.identity_eq_iff.1 hidentity) ?_ hresult
  rw [hresolver, hreference, hregistered]

theorem fetched_of_traced {r : UserRef} {secret : UserSecret}
    (h : (Phase.has r (.ok secret)).Traced s₀ (launched s₀ ms)) :
    ∃ flight, Fetched s₀ ms flight r secret := by
  rcases h with ⟨-, hno⟩ | ⟨-, flight, hf⟩
  · exact nomatch hno
  · exact ⟨flight, fetched_of_find? hf⟩

/-! ### What has failed -/

/-- **What is gone stays gone**, whatever is done later. -/
theorem gone_after (h₀ : s₀.secrets = .empty limits) (hs : s₀.Known) {flight : Nat}
    (hgone : (after s₀ ms).resolver.secrets.Gone flight) (later : List Move) :
    (after s₀ (later ++ ms)).resolver.secrets.Gone flight ∧
      ∀ call o w, Entries.find? call (after s₀ (later ++ ms)).ongoing = some o →
        o.phase = .awaits w → w.flight = flight →
          Entries.find? call (after s₀ ms).ongoing = some o := by
  induction later with
  | nil => exact ⟨hgone, fun _ _ _ ho _ _ => ho⟩
  | cons m later ih =>
      obtain ⟨hlater, hwaiting⟩ := ih
      obtain ⟨hnext, hbefore⟩ := (traced_after h₀ hs (later ++ ms)).gone hs hlater m
      refine ⟨hnext, fun call o w ho hp hw => ?_⟩
      exact hwaiting call o w (hbefore call o w ho hp hw) hp hw

/-- A call that asks and has not to wait is told that there is no such engine, or gets a user secret
that was launched for its reference. -/
theorem Traced.found_of_asks (h : Traced s₀ launches s) {r : UserRef}
    {result : Except SecretError UserSecret} (ho : Entries.find? call s.ongoing = some o)
    (hp : o.phase = .asks r)
    (hnext : Entries.find? call (s.go call).2.ongoing = some { o with phase := .has r result }) :
    result = .error (.noSuchEngine r.engine) ∨
      ∃ secret flight, result = .ok secret ∧
        Entries.find? flight launches = some (r.identity, .ok secret) := by
  rw [go_of_asks ho hp, Entries.find?_put_self] at hnext
  have hphase := congrArg Ongoing.phase (Option.some.inj hnext)
  rcases startSecret_cases r s.resolver with
    ⟨-, -, heq⟩ | ⟨e, -, ⟨entry, log, hf, -, heq⟩ | ⟨flight, log, -, -, heq⟩ |
      ⟨c, lookups, log, -, -, heq⟩⟩
  · rw [heq] at hphase
    obtain ⟨-, rfl⟩ := Phase.has.inj hphase
    exact .inl rfl
  · rw [heq] at hphase
    obtain ⟨-, rfl⟩ := Phase.has.inj hphase
    obtain ⟨flight, hflight⟩ := h.secrets.sourced.held _ _ hf
    exact .inr ⟨entry.value, flight, rfl, hflight⟩
  · rw [heq] at hphase
    exact nomatch hphase
  · rw [heq] at hphase
    exact nomatch hphase

/-- A computation answers nobody who was not waiting for it when some moves had been made. -/
structure Over (s₀ : Resolver) (ms earlier : List Move) (flight : Nat) : Prop where
  /-- Whoever waits for it was waiting for it then. -/
  waiting : ∀ call o w, Entries.find? call (after s₀ ms).ongoing = some o → o.phase = .awaits w →
    w.flight = flight → Entries.find? call (after s₀ earlier).ongoing = some o
  /-- So no call waits for it that begins later. -/
  begun : ∀ call o w, Entries.find? call (after s₀ ms).ongoing = some o → o.phase = .awaits w →
    (after s₀ earlier).nextCall ≤ call → w.flight ≠ flight
  /-- Whoever asks and has not to wait is told that there is no such engine, or gets a user secret of
  another computation. -/
  asking : ∀ call o r result, Entries.find? call (after s₀ ms).ongoing = some o →
    o.phase = .asks r →
      Entries.find? call (after s₀ (.go call :: ms)).ongoing =
          some { o with phase := .has r result } →
        result = .error (.noSuchEngine r.engine) ∨
          ∃ secret flight', result = .ok secret ∧ flight' ≠ flight ∧
            Fetched s₀ ms flight' r secret

/-- **What has failed is over**, once a call that has waited for it has got the failure. -/
theorem over_of_has (h₀ : s₀.secrets = .empty limits) (hs : s₀.Known) {earlier : List Move}
    {w : SecretWait} {o' : Ongoing} {r : UserRef} {e : SecretError} (later : List Move)
    (ho : Entries.find? call (after s₀ earlier).ongoing = some o) (hp : o.phase = .awaits w)
    (ho' : Entries.find? call (after s₀ (.go call :: earlier)).ongoing = some o')
    (hp' : o'.phase = .has r (.error e)) :
    Over s₀ (later ++ .go call :: earlier) earlier w.flight := by
  obtain ⟨hlaunched, hgone, hbefore⟩ := (traced_after h₀ hs earlier).gone_of_has ho hp ho' hp'
  have hover : (after s₀ (.go call :: earlier)).resolver.secrets.Gone w.flight := hgone
  obtain ⟨-, hwaited⟩ := gone_after h₀ hs hover later
  have hwaiting (call' : Nat) (o' : Ongoing) (w' : SecretWait)
      (ho' : Entries.find? call' (after s₀ (later ++ .go call :: earlier)).ongoing = some o')
      (hp' : o'.phase = .awaits w') (hw : w'.flight = w.flight) :
      Entries.find? call' (after s₀ earlier).ongoing = some o' :=
    hbefore call' o' w' (hwaited call' o' w' ho' hp' hw) hp' hw
  refine ⟨hwaiting, fun call' o' w' ho' hp' hlater hw => ?_, ?_⟩
  · have hlt := lt_nextCall_after s₀ earlier (hwaiting call' o' w' ho' hp' hw)
    omega
  · intro call' o' r' result ho' hp' hnext
    have htraced := traced_after h₀ hs (later ++ .go call :: earlier)
    refine (htraced.found_of_asks ho' hp' hnext).imp id ?_
    rintro ⟨secret, flight, rfl, hflight⟩
    refine ⟨secret, flight, rfl, ?_, fetched_of_find? hflight⟩
    -- what has failed has no user secret
    rintro rfl
    have hfailed := find?_launched h₀ hs (find?_launched h₀ hs hlaunched [.go call]) later
    exact nomatch congrArg Prod.snd (Option.some.inj (hflight.symm.trans hfailed))

/-! ### All together -/

/-- What a call for a user secret has returned in a run was launched for its reference, or says that
there is no such engine. -/
theorem traced_of_returned (h₀ : s₀.secrets = .empty limits) (hs : s₀.Known) {e : Happening}
    (he : e ∈ history s₀ ms) {r : UserRef} {answer : Answer}
    (ha : e.returned? = some (.secret r, answer)) :
    ∃ result, answer = .secret result ∧ (Phase.has r result).Traced s₀ (launched s₀ ms) := by
  induction ms with
  | nil => exact nomatch he
  | cons m ms ih =>
      have hstep : ∃ result, answer = .secret result ∧
          (Phase.has r result).Traced s₀ (launched s₀ ms) := by
        rcases List.mem_cons.1 he with rfl | he
        · exact (traced_after h₀ hs ms).returned hs m ha
        · exact ih he
      obtain ⟨result, rfl, htraced⟩ := hstep
      refine ⟨result, rfl, htraced.imp id ?_⟩
      rintro ⟨hregistered, flight, hf⟩
      exact ⟨hregistered, flight, find?_launched h₀ hs hf [m]⟩

/-- User secrets do not cross references. -/
structure Apart (s₀ : Resolver) (ms : List Move) : Prop where
  /-- Every user secret that a call has got for a reference was computed for it. -/
  got : ∀ call o r secret, Entries.find? call (after s₀ ms).ongoing = some o →
    o.phase = .has r (.ok secret) → ∃ flight, Fetched s₀ ms flight r secret
  /-- So was every one that was returned. -/
  returned : ∀ e ∈ history s₀ ms, ∀ r secret,
    e.returned? = some (.secret r, .secret (.ok secret)) → ∃ flight, Fetched s₀ ms flight r secret
  /-- A call that asks for a reference to an engine that is not registered is told so, and the
  resolver stays as it is. -/
  refused : ∀ call o r, Entries.find? call (after s₀ ms).ongoing = some o → o.phase = .asks r →
    s₀.engines.get? r.engine = none →
      (after s₀ (.go call :: ms)).resolver = (after s₀ ms).resolver ∧
      Entries.find? call (after s₀ (.go call :: ms)).ongoing =
        some { o with phase := .has r (.error (.noSuchEngine r.engine)) }
  /-- Nothing else was ever returned for it. -/
  unregistered : ∀ e ∈ history s₀ ms, ∀ r answer, s₀.engines.get? r.engine = none →
    e.returned? = some (.secret r, answer) → answer = .secret (.error (.noSuchEngine r.engine))
  /-- Once a call has got a failure that it has waited for, what has failed is over. -/
  failed : ∀ later earlier call o w o' r e, ms = later ++ .go call :: earlier →
    Entries.find? call (after s₀ earlier).ongoing = some o → o.phase = .awaits w →
      Entries.find? call (after s₀ (.go call :: earlier)).ongoing = some o' →
        o'.phase = .has r (.error e) → Over s₀ ms earlier w.flight

/-- **User secrets do not cross references**, in any run that begins with an empty cache of user
secrets. -/
theorem apart_after (h₀ : s₀.secrets = .empty limits) (hs : s₀.Known) (ms : List Move) :
    Apart s₀ ms := by
  have htraced := traced_after h₀ hs ms
  constructor
  case got =>
    intro call o r secret ho hp
    exact fetched_of_traced (hp ▸ (htraced.calls call o ho).phase)
  case returned =>
    intro e he r secret ha
    obtain ⟨result, hresult, hfound⟩ := traced_of_returned h₀ hs he ha
    obtain rfl := Answer.secret.inj hresult
    exact fetched_of_traced hfound
  case refused =>
    intro call o r ho hp hno
    rcases startSecret_cases r (after s₀ ms).resolver with ⟨-, -, heq⟩ | ⟨e, he, -⟩
    · have hgo := go_of_asks ho hp
      rw [heq] at hgo
      change ((after s₀ ms).go call).2.resolver = _ ∧
        Entries.find? call ((after s₀ ms).go call).2.ongoing = _
      rw [hgo]
      exact ⟨rfl, by rw [Entries.find?_put_self]; rfl⟩
    · rw [(htraced.registered_iff r.engine).2 hno] at he
      exact nomatch he
  case unregistered =>
    intro e he r answer hno ha
    obtain ⟨result, rfl, hfound⟩ := traced_of_returned h₀ hs he ha
    rcases hfound with ⟨-, rfl⟩ | ⟨hregistered, -⟩
    · rfl
    · exact absurd hno hregistered
  case failed =>
    rintro later earlier call o w o' r e rfl ho hp ho' hp'
    exact over_of_has h₀ hs later ho hp ho' hp'

/-- A resolver with a vault that holds a secret. -/
def vaultOf (secret : UserSecret) : Resolver :=
  { Resolver.empty .userSecrets (.objects []) with
    engines := ⟨[("safe", .vault "safe")], List.pairwise_singleton _ _⟩
    vault := [("db", ⟨secret.description, .inl secret.payload, 5⟩)] }

theorem vaultOf_known (secret : UserSecret) : (vaultOf secret).Known := by
  intro id e he
  have hget : (vaultOf secret).engines.get? id =
      if "safe" = id then some (.vault "safe") else none := Entries.find?_cons ..
  rw [hget] at he
  split at he
  · rename_i hid
    obtain rfl := Option.some.inj he
    exact hid
  · exact nomatch he

/-- A call asks a vault for a secret, which takes a while, and returns what was computed for it. -/
theorem apart_after_vault :
    let secret : UserSecret := ⟨⟨"opaque", "", []⟩, .named ⟨[("password", "p")], by simp⟩⟩
    let r : UserRef := ⟨"safe", ⟨[("s", "db"), ("k", "password")], by decide⟩⟩
    let ms : List Move := [.go 0, .go 0, .pass 5, .go 0, .begin_ (.secret r)]
    (vaultOf secret).secrets = .empty .userSecrets ∧ (vaultOf secret).Known ∧
      Apart (vaultOf secret) ms ∧
      .went 0 (.secret r) (some (.secret (.ok secret))) ∈ history (vaultOf secret) ms ∧
      ∃ flight, Fetched (vaultOf secret) ms flight r secret := by
  intro secret r ms
  have hknown : (vaultOf secret).Known := vaultOf_known secret
  have hapart : Apart (vaultOf secret) ms := apart_after rfl hknown ms
  have hreturned : .went 0 (.secret r) (some (.secret (.ok secret))) ∈
      history (vaultOf secret) ms := .head _
  exact ⟨rfl, hknown, hapart, hreturned, hapart.returned _ hreturned r secret rfl⟩

end Jobs

end SecretResolver
