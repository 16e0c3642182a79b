/-
**Where the user secrets of calls come from.**

Any number of calls ask for user secrets, with pauses at every step, while calls are given up, caches
are cleared, entries get over and are displaced, and the vault is changed.  The computations that are
launched are listed with their results, and every call keeps to this list: what it waits for, and what
it has got, was launched for a reference that is the same as its own.  A computation that has answered
a call that waited for it is in flight no more, and never is again.

Main definitions:

* `Jobs.launches` — the computations that are launched in a run;
* `Phase.Traced`, `Jobs.Traced` — what calls wait for and have got was launched for their references;
* `Jobs.Sideline` — a move has nothing to do with user secrets.

Main results:

* `Jobs.go_of_asks`, `Jobs.go_of_computed` — a call asks for a user secret, and gets it;
* `Jobs.Traced.asks`, `Jobs.Traced.awaits` — the turns of calls that ask for user secrets and wait for
  them;
* `Jobs.Traced.move_cases` — what a move has to do with user secrets;
* `Jobs.Traced.move` — **every move keeps calls traced**;
* `Jobs.Traced.gone` — what is gone stays gone.
-/

import SecretResolver.Proofs.Resolver.Ledger
import SecretResolver.Proofs.Resolver.Launches

set_option relaxedAutoImplicit false
set_option autoImplicit false

namespace SecretResolver

open Resolver

/-! ### Calls -/

/-- What was launched: the number of a computation, its key and its result. -/
abbrev Launches := List (Nat × UserRef.Identity × Except SecretError UserSecret)

/-- What a call waits for or has got was launched for its reference, if there is an engine for it;
and if there is none, the call has got a failure that says so. -/
def Phase.Traced (s₀ : Resolver) (launches : Launches) : Phase → Prop
  | .awaits w => s₀.engines.get? w.reference.engine ≠ none ∧
      ∃ result, Entries.find? w.flight launches = some (w.reference.identity, result)
  | .has r result =>
      (s₀.engines.get? r.engine = none ∧ result = .error (.noSuchEngine r.engine)) ∨
      (s₀.engines.get? r.engine ≠ none ∧
        ∃ flight, Entries.find? flight launches = some (r.identity, result))
  | _ => True

/-- A call is for a reference. -/
def Phase.IsFor (r : UserRef) : Phase → Prop
  | .asks r' => r' = r
  | .awaits w => w.reference = r
  | .has r' _ => r' = r
  | _ => False

/-- What a call waits for or has got was launched for its reference, and that is the reference that
it was begun for. -/
structure Ongoing.Traced (s₀ : Resolver) (launches : Launches) (o : Ongoing) : Prop where
  phase : o.phase.Traced s₀ launches
  isFor : ∀ r, o.job = .secret r → o.phase.IsFor r

/-- A step leads to a call of the same job that has launched nothing, or returns; a call for a user
secret returns what it has got. -/
def Stage.Plain (job : Job) (got : Except SecretError UserSecret → Prop) : Stage → Prop
  | .ongoing o => o.job = job ∧ (∀ s₀ launches, o.phase.Traced s₀ launches) ∧
      ∀ r, job = .secret r → o.phase.IsFor r
  | .done answer => ∀ r, job = .secret r → ∃ result, answer = .secret result ∧ got result

namespace Job

variable {job : Job} {got : Except SecretError UserSecret → Prop}

theorem aside_faulty (hjob : ∀ r, job ≠ .secret r) (invalid : SecretError → LogEvent)
    (fault : Option SecretError) : Action.Aside (Stage.Plain job got) (faulty invalid fault) := by
  have hdone : Stage.Plain job got (.done (.checked fault)) := fun r hr => absurd hr (hjob r)
  cases fault with
  | none => exact .pure hdone
  | some e => exact .bind (.note _) fun _ _ => .pure hdone

theorem aside_beginFile (hjob : ∀ r, job ≠ .secret r) (r : EncryptedRef) :
    Action.Aside (Stage.Plain job got) (job.beginFile r) := by
  refine .bind (.startDecrypt r) fun c _ => ?_
  cases c with
  | done result => exact .pure ⟨rfl, fun _ _ => trivial, fun r' hr => absurd hr (hjob r')⟩
  | waits w => exact .pure ⟨rfl, fun _ _ => trivial, fun r' hr => absurd hr (hjob r')⟩

theorem aside_beginCheckUser (hjob : ∀ r, job ≠ .secret r) (written : String) :
    Action.Aside (Stage.Plain job got) (job.beginCheckUser written) := by
  unfold beginCheckUser
  split
  · exact aside_faulty hjob _ _
  · refine .bind (.note _) fun _ _ => .pure ?_
    exact ⟨rfl, fun _ _ => trivial, fun r' hr => absurd hr (hjob r')⟩

theorem aside_beginCheckExternal (hjob : ∀ r, job ≠ .secret r) (written : String) :
    Action.Aside (Stage.Plain job got) (job.beginCheckExternal written) := by
  unfold beginCheckExternal
  split
  · exact aside_faulty hjob _ _
  · exact .bind (.note _) fun _ _ => aside_beginFile hjob _

theorem plain_next {resource : String} {order : List UserRef → List UserRef}
    (handed : List (UserRef × UserSecret)) (rs : List UserRef) :
    Stage.Plain (.each resource order) got ((Job.each resource order).next handed rs) := by
  cases rs with
  | nil => exact nofun
  | cons r rs => exact ⟨rfl, fun _ _ => trivial, nofun⟩

/-- **A call begins aside from user secrets**, and a call for a user secret does not return yet. -/
theorem aside_begin (job : Job) :
    Action.Aside (Stage.Plain job fun _ => False) job.begin_ := by
  cases job with
  | field resource r => exact .pure ⟨rfl, fun _ _ => trivial, nofun⟩
  | secret r =>
      exact .pure ⟨rfl, fun _ _ => trivial, fun r' hr => by injection hr⟩
  | each resource order => exact .get_bind fun s => .pure (plain_next _ _)
  | check written =>
      unfold begin_
      dsimp only
      split
      · exact aside_beginCheckUser (by simp) written
      · split
        · exact aside_beginCheckExternal (by simp) written
        · exact .pure nofun
  | checkUser written => exact aside_beginCheckUser (by simp) written
  | checkExternal written => exact aside_beginCheckExternal (by simp) written
  | bytes r => exact aside_beginFile (by simp) r
  | text r => exact aside_beginFile (by simp) r

end Job

namespace Ongoing

/-- A call that has got what it asked for goes on aside from user secrets, or returns that. -/
theorem aside_conclude (o : Ongoing) (r : UserRef) (result : Except SecretError UserSecret) :
    Action.Aside (Stage.Plain o.job fun got => got = result) (o.conclude r result) := by
  unfold conclude
  cases o.job with
  | field resource r' => exact .bind (.giveField _ _ _) fun _ _ => .pure nofun
  | each resource order =>
      cases result with
      | error e => exact .pure nofun
      | ok secret => exact .pure (Job.plain_next _ _)
  | check written => exact Job.aside_faulty (by simp) _ _
  | checkUser written => exact Job.aside_faulty (by simp) _ _
  | secret r' => exact .pure fun _ _ => ⟨result, rfl, rfl⟩
  | checkExternal written => exact .pure nofun
  | bytes r' => exact .pure nofun
  | text r' => exact .pure nofun

theorem aside_concludeFile {o : Ongoing} (hjob : ∀ r, o.job ≠ .secret r)
    (result : Except SecretError Bytes) :
    Action.Aside (Stage.Plain o.job fun _ => False) (o.concludeFile result) := by
  unfold concludeFile
  revert hjob
  cases o.job with
  | check written => exact fun h => Job.aside_faulty h _ _
  | checkExternal written => exact fun h => Job.aside_faulty h _ _
  | _ => exact fun h => .pure fun r hr => absurd hr (h r)

theorem aside_awaitsFile {o : Ongoing} {w : FileWait} (hp : o.phase = .awaitsFile w)
    (hjob : ∀ r, o.job ≠ .secret r) : Action.Aside (Stage.Plain o.job fun _ => False) o.go := by
  obtain ⟨job, phase, handed, further⟩ := o
  obtain rfl : phase = .awaitsFile w := hp
  refine .get_bind fun s => ?_
  split
  · refine .bind (.finishDecrypt w) fun _ _ => .pure ⟨rfl, fun _ _ => trivial, fun r hr => ?_⟩
    exact absurd hr (hjob r)
  · exact .pure ⟨rfl, fun _ _ => trivial, fun r hr => absurd hr (hjob r)⟩

end Ongoing

namespace Jobs

/-! ### Launches of a run -/

/-- The reference that a move asks the resolver for. -/
def asking? (s : Jobs) : Move → Option UserRef
  | .go call =>
      match (Entries.find? call s.ongoing).map Ongoing.phase with
      | some (.asks r) => some r
      | _ => none
  | _ => none

/-- What a move launches, with its number. -/
def launch? (s : Jobs) (m : Move) : Option (Nat × Launch) :=
  (s.asking? m).bind s.resolver.launch?

/-- The computations of user secrets that some moves launch, the last one first. -/
def launches (s₀ : Resolver) : List Move → List (Nat × Launch)
  | [] => []
  | m :: ms => ((after s₀ ms).launch? m).toList ++ launches s₀ ms

/-- What a launch is known by. -/
def entryOf (l : Nat × Launch) : Nat × UserRef.Identity × Except SecretError UserSecret :=
  (l.1, l.2.reference.identity, l.2.result)

/-- What was launched in a run. -/
def launched (s₀ : Resolver) (ms : List Move) : Launches := (launches s₀ ms).map entryOf

/-! ### One turn -/

/-- Where a call is after it has asked for a reference. -/
def afterAsking (r : UserRef) : Call SecretWait UserSecret → Phase
  | .done result => .has r result
  | .waits w => .awaits w

end Jobs

namespace Ongoing

variable {s : Resolver} {o : Ongoing}

/-- A call asks for a user secret. -/
theorem go_of_asks {r : UserRef} (hp : o.phase = .asks r) :
    o.go s = (.ongoing { o with phase := Jobs.afterAsking r (startSecret r s).1 },
      (startSecret r s).2) := by
  simp only [go, hp, Action.bind_apply]
  cases (startSecret r s).1 <;> rfl

/-- A call gets what it waits for. -/
theorem go_of_ready {w : SecretWait} (hp : o.phase = .awaits w)
    (hready : timeOf (w.readyAt s) s ≤ s.now) :
    o.go s = (.ongoing { o with phase := .has w.reference (finishSecret w s).1 },
      (finishSecret w s).2) := by
  simp [go, hp, hready]

theorem go_of_not_ready {w : SecretWait} (hp : o.phase = .awaits w)
    (hready : ¬timeOf (w.readyAt s) s ≤ s.now) : o.go s = (.ongoing o, s) := by
  simp [go, hp, hready]

theorem go_of_has {r : UserRef} {result : Except SecretError UserSecret}
    (hp : o.phase = .has r result) : o.go s = o.conclude r result s := by
  unfold go
  rw [hp]

end Ongoing

namespace Jobs

variable {s₀ : Resolver} {launches : Launches} {s s' : Jobs} {call : Nat} {o : Ongoing}

/-- The turn of a call that asks for a user secret. -/
theorem go_of_asks {r : UserRef} (ho : Entries.find? call s.ongoing = some o)
    (hp : o.phase = .asks r) :
    s.go call = (.went call o.job none,
      { s with
        resolver := (startSecret r s.resolver).2
        ongoing := Entries.put call
          { o with phase := afterAsking r (startSecret r s.resolver).1 } s.ongoing }) := by
  simp only [go, ho, Ongoing.go_of_asks hp]

/-- The turn in which a call gets the user secret that it waits for. -/
theorem go_of_ready {w : SecretWait} (ho : Entries.find? call s.ongoing = some o)
    (hp : o.phase = .awaits w) (hready : timeOf (w.readyAt s.resolver) s.resolver ≤ s.resolver.now) :
    s.go call = (.went call o.job none,
      { s with
        resolver := (finishSecret w s.resolver).2
        ongoing := Entries.put call
          { o with phase := .has w.reference (finishSecret w s.resolver).1 } s.ongoing }) := by
  simp only [go, ho, Ongoing.go_of_ready hp hready]

/-- What it gets is what its computation has come to. -/
theorem go_of_computed {w : SecretWait} {c : Computation SecretError UserSecret}
    (ho : Entries.find? call s.ongoing = some o) (hp : o.phase = .awaits w)
    (hc : s.resolver.secrets.computation? w.flight = some c)
    (hready : c.readyAt ≤ s.resolver.now) :
    ∃ log, s.go call = (.went call o.job none,
      { s with
        resolver := { s.resolver with
          secrets := s.resolver.secrets.retired s.resolver.now w.reference.identity w.flight c.result
          log := log }
        ongoing := Entries.put call { o with phase := .has w.reference c.result } s.ongoing }) := by
  have hready' : timeOf (w.readyAt s.resolver) s.resolver ≤ s.resolver.now := by
    rw [SecretWait.readyAt, Shared.readyAt?, hc]
    exact Nat.max_le.2 ⟨Nat.le_refl _, hready⟩
  obtain ⟨log, hfinish⟩ := finishSecret_eq hc
  exact ⟨log, by rw [go_of_ready ho hp hready', hfinish]⟩

/-- The turn of a call that waits for a user secret. -/
theorem go_of_awaits {w : SecretWait} (ho : Entries.find? call s.ongoing = some o)
    (hp : o.phase = .awaits w) :
    s.go call = (.went call o.job none,
      { s with
        resolver := (finishSecret w s.resolver).2
        ongoing := Entries.put call
          { o with phase := .has w.reference (finishSecret w s.resolver).1 } s.ongoing }) ∨
    s.go call = (.went call o.job none, { s with ongoing := Entries.put call o s.ongoing }) := by
  by_cases hready : timeOf (w.readyAt s.resolver) s.resolver ≤ s.resolver.now
  · exact .inl (go_of_ready ho hp hready)
  · right
    simp only [go, ho, Ongoing.go_of_not_ready hp hready]

/-! ### What is traced -/

/-- What calls wait for and have got was launched for their references, and so was what the cache of
user secrets holds; and the engines are those that were registered at first. -/
structure Traced (s₀ : Resolver) (launches : Launches) (s : Jobs) : Prop where
  engines : ∀ id,
    (s.resolver.engines.get? id).map Engine.bare = (s₀.engines.get? id).map Engine.bare
  secrets : s.resolver.secrets.Launched launches
  calls : ∀ call o, Entries.find? call s.ongoing = some o → o.Traced s₀ launches

namespace Traced

theorem known (h : Traced s₀ launches s) (hs : s₀.Known) : s.resolver.Known :=
  known_of_engines hs h.engines

/-- An engine is registered just when it was at first. -/
theorem registered_iff (h : Traced s₀ launches s) (id : String) :
    s.resolver.engines.get? id = none ↔ s₀.engines.get? id = none := by
  rw [← Option.map_eq_none_iff (f := Engine.bare), h.engines, Option.map_eq_none_iff]

/-- Something is done aside from user secrets. -/
theorem aside (h : Traced s₀ launches s) (haside : s.resolver.Aside s'.resolver)
    (hcalls : ∀ call o, Entries.find? call s'.ongoing = some o →
      Entries.find? call s.ongoing = some o ∨ o.Traced s₀ launches) : Traced s₀ launches s' where
  engines id := (haside.engines id).trans (h.engines id)
  secrets := haside.secrets.symm ▸ h.secrets
  calls call o ho := (hcalls call o ho).elim (h.calls call o) id

/-- A call goes on from one phase to another. -/
theorem put_phase (h : Traced s₀ launches s) (ho : Entries.find? call s.ongoing = some o)
    (phase : Phase) (hphase : phase.Traced s₀ launches)
    (hisFor : ∀ r, o.phase.IsFor r → phase.IsFor r) {call' : Nat} {o' : Ongoing}
    (ho' : Entries.find? call' (Entries.put call { o with phase := phase } s.ongoing) = some o') :
    o'.Traced s₀ launches := by
  rcases find?_put_of_some ho' with ho' | ⟨-, rfl⟩
  · exact h.calls call' o' ho'
  · exact ⟨hphase, fun r hr => hisFor r ((h.calls call o ho).isFor r hr)⟩

/-- What was traced stays so when another computation is launched. -/
theorem launch (h : Traced s₀ launches s) (launch : UserRef.Identity × Except SecretError UserSecret)
    (ho : o.Traced s₀ launches) :
    o.Traced s₀ ((s.resolver.secrets.cache.nextFlight, launch) :: launches) := by
  refine ⟨?_, ho.isFor⟩
  have hphase := ho.phase
  revert hphase
  cases o.phase with
  | awaits w =>
      rintro ⟨hregistered, result, hf⟩
      exact ⟨hregistered, result, h.secrets.find?_begun hf⟩
  | has r result =>
      rintro (hno | ⟨hregistered, flight, hf⟩)
      · exact .inl hno
      · exact .inr ⟨hregistered, flight, h.secrets.find?_begun hf⟩
  | _ => exact fun _ => trivial

/-- **A call that asks for a user secret** gets one that was launched for its reference, waits for
one, or launches one. -/
theorem asks (h : Traced s₀ launches s) {r : UserRef} (ho : Entries.find? call s.ongoing = some o)
    (hp : o.phase = .asks r) :
    Traced s₀ ((s.resolver.launch? r).toList.map entryOf ++ launches) (s.go call).2 := by
  rw [go_of_asks ho hp]
  have hisFor (phase : Phase) (hphase : phase.IsFor r) (r' : UserRef) (hr' : o.phase.IsFor r') :
      phase.IsFor r' := by
    rw [hp] at hr'
    obtain rfl : r = r' := hr'
    exact hphase
  rcases startSecret_cases r s.resolver with ⟨hno, hlaunch, heq⟩ | ⟨e, he, hcases⟩
  · rw [hlaunch, heq]
    refine ⟨h.engines, h.secrets, fun call' o' ho' => ?_⟩
    have hphase : (Phase.has r (.error (.noSuchEngine r.engine))).Traced s₀ launches :=
      .inl ⟨(h.registered_iff _).1 hno, rfl⟩
    exact h.put_phase ho _ hphase (hisFor (.has r _) rfl) ho'
  · have hregistered : s₀.engines.get? r.engine ≠ none := by
      rw [Ne, ← h.registered_iff, he]
      exact nofun
    rcases hcases with
      ⟨entry, log, hf, hlaunch, heq⟩ | ⟨flight, log, hf, hlaunch, heq⟩ |
        ⟨c, lookups, log, hlaunch, hc, heq⟩
    · rw [hlaunch, heq]
      refine ⟨h.engines, h.secrets.used hf _, fun call' o' ho' => ?_⟩
      have hphase : (Phase.has r (.ok entry.value)).Traced s₀ launches :=
        .inr ⟨hregistered, h.secrets.sourced.held _ _ hf⟩
      exact h.put_phase ho _ hphase (hisFor (.has r _) rfl) ho'
    · rw [hlaunch, heq]
      refine ⟨h.engines, h.secrets.missed _, fun call' o' ho' => ?_⟩
      have hphase : (Phase.awaits ⟨r, flight⟩).Traced s₀ launches :=
        ⟨hregistered, h.secrets.flying _ _ hf⟩
      exact h.put_phase ho _ hphase (hisFor (.awaits ⟨r, flight⟩) rfl) ho'
    · have hbegun := h.secrets.begun r.identity c
      rw [hc] at hbegun
      rw [hlaunch, heq]
      refine ⟨h.engines, hbegun, fun call' o' ho' => ?_⟩
      rcases find?_put_of_some ho' with ho' | ⟨-, rfl⟩
      · exact h.launch _ (h.calls call' o' ho')
      · refine ⟨⟨hregistered, Launch.result ⟨r, e, s.resolver⟩, ?_⟩, fun r' hr' => ?_⟩
        · exact if_pos rfl
        · exact hisFor (.awaits ⟨r, _⟩) rfl r' ((h.calls call o ho).isFor r' hr')

/-- **A call that waits for a user secret** gets what was launched for its reference. -/
theorem awaits (h : Traced s₀ launches s) {w : SecretWait}
    (ho : Entries.find? call s.ongoing = some o) (hp : o.phase = .awaits w) :
    Traced s₀ launches (s.go call).2 := by
  have hphase := (h.calls call o ho).phase
  rw [hp] at hphase
  obtain ⟨hregistered, result, hf⟩ := hphase
  rcases go_of_awaits ho hp with hgo | hgo
  · obtain ⟨c, hc, rfl⟩ := h.secrets.computation?_of_find? hf
    obtain ⟨log, heq⟩ := finishSecret_eq hc
    rw [hgo, heq]
    refine ⟨h.engines, h.secrets.retired hf _, fun call' o' ho' => ?_⟩
    refine h.put_phase ho (.has w.reference _) (.inr ⟨hregistered, w.flight, hf⟩) (fun r hr => ?_) ho'
    rw [hp] at hr
    exact hr
  · rw [hgo]
    refine h.aside (.refl _) fun call' o' ho' => ?_
    rcases find?_put_of_some ho' with ho' | ⟨-, rfl⟩
    · exact .inl ho'
    · exact .inr (h.calls call o ho)

end Traced

/-! ### Other moves -/

/-- A move that neither asks for a user secret nor waits for one, and does not clear their cache, is
made aside from them.  No call waits for a computation because of it, and a call for a user secret
that returns has got what it returns. -/
structure Sideline (s : Jobs) (m : Move) : Prop where
  asking : s.asking? m = none
  aside : s.resolver.Aside (s.move m).2.resolver
  calls : ∀ call o, Entries.find? call (s.move m).2.ongoing = some o →
    Entries.find? call s.ongoing = some o ∨ ∀ s₀ launches, o.Traced s₀ launches
  returned : ∀ r answer, (s.move m).1.returned? = some (.secret r, answer) →
    ∃ call o result, Entries.find? call s.ongoing = some o ∧ o.job = .secret r ∧
      o.phase = .has r result ∧ answer = .secret result

/-- Where a call has gone on without launching anything, every call is as it was or is traced to
whatever is launched. -/
theorem traced_of_plain {es : List (Nat × Ongoing)} {job : Job}
    {got : Except SecretError UserSecret → Prop} {next : Ongoing}
    (hplain : Stage.Plain job got (.ongoing next)) {call' : Nat} {o' : Ongoing}
    (ho' : Entries.find? call' (Entries.put call next es) = some o') :
    Entries.find? call' es = some o' ∨ ∀ s₀ launches, o'.Traced s₀ launches := by
  obtain ⟨hjob, hphase, hisFor⟩ := hplain
  rcases find?_put_of_some ho' with ho' | ⟨-, rfl⟩
  · exact .inl ho'
  · exact .inr fun s₀ launches => ⟨hphase s₀ launches, fun r hr => hisFor r (hjob ▸ hr)⟩

namespace Sideline

/-- A step of a call that neither asks nor waits for a user secret. -/
theorem go (hs : s.resolver.Known) (ho : Entries.find? call s.ongoing = some o)
    (hasked : s.asking? (.go call) = none) {got : Except SecretError UserSecret → Prop}
    (haside : Action.Aside (Stage.Plain o.job got) o.go)
    (hgot : ∀ r result, o.job = .secret r → got result → o.phase = .has r result) :
    s.Sideline (.go call) := by
  obtain ⟨hresolver, hstage⟩ := haside s.resolver hs
  obtain ⟨hno, -⟩ | ⟨o', next, resolver, ho', hgo, heq⟩ | ⟨o', answer, resolver, ho', hgo, heq⟩ :=
    s.go_cases call
  · exact absurd (ho.symm.trans hno) (Option.some_ne_none o)
  · obtain rfl := Option.some.inj (ho.symm.trans ho')
    rw [hgo] at hresolver hstage
    have hmove : s.move (.go call) = _ := heq
    refine ⟨hasked, ?_, fun call' o' ho' => ?_, fun r answer ha => ?_⟩
    · rwa [hmove]
    · rw [hmove] at ho'
      exact traced_of_plain hstage ho'
    · rw [hmove] at ha
      cases ha
  · obtain rfl := Option.some.inj (ho.symm.trans ho')
    rw [hgo] at hresolver hstage
    have hmove : s.move (.go call) = _ := heq
    refine ⟨hasked, ?_, fun call' o' ho' => ?_, fun r answer' ha => ?_⟩
    · rwa [hmove]
    · rw [hmove] at ho'
      exact .inl (find?_drop_of_some ho')
    · rw [hmove] at ha
      obtain ⟨hjob, rfl⟩ := Prod.mk.inj (Option.some.inj ha)
      obtain ⟨result, rfl, hresult⟩ := hstage r hjob
      exact ⟨call, o, result, ho, hjob, hgot r result hjob hresult, rfl⟩

/-- The beginning of a call. -/
theorem begin_ (hs : s.resolver.Known) (job : Job) : s.Sideline (.begin_ job) := by
  obtain ⟨hresolver, hstage⟩ := job.aside_begin s.resolver hs
  obtain ⟨o, resolver, hbegin, heq⟩ | ⟨answer, resolver, hbegin, heq⟩ := s.begin_cases job
  · rw [hbegin] at hresolver hstage
    have hmove : s.move (.begin_ job) = _ := heq
    refine ⟨rfl, ?_, fun call o' ho' => ?_, fun r answer ha => ?_⟩
    · rwa [hmove]
    · rw [hmove] at ho'
      exact traced_of_plain hstage ho'
    · rw [hmove] at ha
      cases ha
  · rw [hbegin] at hresolver hstage
    have hmove : s.move (.begin_ job) = _ := heq
    refine ⟨rfl, ?_, fun call o' ho' => ?_, fun r answer' ha => ?_⟩
    · rwa [hmove]
    · rw [hmove] at ho'
      exact .inl ho'
    · -- a call for a user secret does not return when it begins
      rw [hmove] at ha
      obtain ⟨hjob, rfl⟩ := Prod.mk.inj (Option.some.inj ha)
      obtain ⟨-, -, hno⟩ := hstage r hjob
      exact hno.elim

/-- No call goes on. -/
theorem quiet {m : Move} (hasked : s.asking? m = none)
    (haside : s.resolver.Aside (s.move m).2.resolver)
    (hcalls : ∀ call o, Entries.find? call (s.move m).2.ongoing = some o →
      Entries.find? call s.ongoing = some o)
    (hreturned : (s.move m).1.returned? = none) : s.Sideline m where
  asking := hasked
  aside := haside
  calls call o ho := .inl (hcalls call o ho)
  returned r answer ha := by
    rw [hreturned] at ha
    cases ha

theorem idle (hno : Entries.find? call s.ongoing = none) : s.Sideline (.go call) := by
  have hmove : s.move (.go call) = (.idle call, s) := by simp [move, Jobs.go, hno]
  refine .quiet (by simp [asking?, hno]) ?_ ?_ ?_
  · rw [hmove]
    exact .refl _
  · rw [hmove]
    exact fun _ _ ho => ho
  · rw [hmove]
    rfl

theorem abort (s : Jobs) (call : Nat) : s.Sideline (.abort call) :=
  .quiet rfl (.refl _) (fun _ _ => find?_drop_of_some) rfl

theorem stop (hs : s.resolver.Known) (resource : String) : s.Sideline (.stop resource) := by
  refine .quiet rfl ?_ ?_ ?_
  · rw [move_stop]
    exact (Action.Aside.stopTracking resource s.resolver hs).1
  · rw [move_stop]
    exact fun _ _ ho => ho
  · rw [move_stop]
    rfl

/-- Something is done with the resolver alone. -/
theorem act {m : Move} {x : Action Unit} (hmove : (s.move m).2 = s.act x)
    (hasked : s.asking? m = none) (hreturned : (s.move m).1.returned? = none)
    (haside : s.resolver.Aside (x s.resolver).2) : s.Sideline m := by
  refine .quiet hasked ?_ ?_ hreturned
  · rwa [hmove]
  · rw [hmove]
    exact fun _ _ ho => ho

end Sideline

namespace Traced

/-- **What a move has to do with user secrets**: a call asks for one or waits for one, their cache is
cleared, or the move is made aside from them. -/
theorem move_cases (h : Traced s₀ launches s) (hs : s₀.Known) (m : Move) :
    (∃ call o r, m = .go call ∧ Entries.find? call s.ongoing = some o ∧ o.phase = .asks r) ∨
    (∃ call o w, m = .go call ∧ Entries.find? call s.ongoing = some o ∧ o.phase = .awaits w) ∨
    m = .clearSecrets ∨ s.Sideline m := by
  have hknown := h.known hs
  cases m with
  | begin_ job => exact .inr (.inr (.inr (.begin_ hknown job)))
  | go call =>
      cases ho : Entries.find? call s.ongoing with
      | none => exact .inr (.inr (.inr (.idle ho)))
      | some o =>
          have hisFor := (h.calls call o ho).isFor
          obtain ⟨job, phase, handed, further⟩ := o
          cases phase with
          | asks r => exact .inl ⟨call, _, r, rfl, ho, rfl⟩
          | awaits w => exact .inr (.inl ⟨call, _, w, rfl, ho, rfl⟩)
          | has r result =>
              refine .inr (.inr (.inr (.go hknown ho (by simp [asking?, ho])
                (Ongoing.aside_conclude _ r result) ?_)))
              rintro r' _ hjob rfl
              obtain rfl : r = r' := hisFor r' hjob
              rfl
          | awaitsFile w =>
              have hjob (r : UserRef) : job ≠ .secret r := hisFor r
              refine .inr (.inr (.inr (.go hknown ho (by simp [asking?, ho])
                (Ongoing.aside_awaitsFile rfl hjob) fun r _ hr => absurd hr (hjob r))))
          | hasFile result =>
              have hjob (r : UserRef) : job ≠ .secret r := hisFor r
              refine .inr (.inr (.inr (.go hknown ho (by simp [asking?, ho])
                (Ongoing.aside_concludeFile hjob result) fun r _ hr => absurd hr (hjob r))))
  | abort call => exact .inr (.inr (.inr (.abort s call)))
  | stop resource => exact .inr (.inr (.inr (.stop hknown resource)))
  | clearSecrets => exact .inr (.inr (.inl rfl))
  | clearEngines => exact .inr (.inr (.inr (.act rfl rfl rfl (aside_clearEngines hknown))))
  | pass ms => exact .inr (.inr (.inr (.act rfl rfl rfl ⟨rfl, fun _ => rfl⟩)))
  | restock store => exact .inr (.inr (.inr (.act rfl rfl rfl ⟨rfl, fun _ => rfl⟩)))
  | refill vault => exact .inr (.inr (.inr (.act rfl rfl rfl ⟨rfl, fun _ => rfl⟩)))

/-- **Every move keeps calls traced**, and what it launches is added to what was launched. -/
theorem move (h : Traced s₀ launches s) (hs : s₀.Known) (m : Move) :
    Traced s₀ ((s.launch? m).toList.map entryOf ++ launches) (s.move m).2 := by
  rcases h.move_cases hs m with
    ⟨call, o, r, rfl, ho, hp⟩ | ⟨call, o, w, rfl, ho, hp⟩ | rfl | hside
  · have hlaunch : s.launch? (.go call) = s.resolver.launch? r := by
      simp [Jobs.launch?, asking?, ho, hp]
    rw [hlaunch]
    exact h.asks ho hp
  · have hlaunch : s.launch? (.go call) = none := by simp [Jobs.launch?, asking?, ho, hp]
    rw [hlaunch]
    exact h.awaits ho hp
  · exact ⟨h.engines, h.secrets.clear, h.calls⟩
  · have hlaunch : s.launch? m = none := by rw [Jobs.launch?, hside.asking, Option.bind_none]
    rw [hlaunch]
    refine h.aside hside.aside fun call o ho => ?_
    exact (hside.calls call o ho).imp id fun htraced => htraced s₀ launches

/-- A call for a user secret returns what was launched for its reference, or that its engine is not
registered. -/
theorem returned (h : Traced s₀ launches s) (hs : s₀.Known) (m : Move) {r : UserRef}
    {answer : Answer} (ha : (s.move m).1.returned? = some (.secret r, answer)) :
    ∃ result, answer = .secret result ∧ (Phase.has r result).Traced s₀ launches := by
  rcases h.move_cases hs m with
    ⟨call, o, r', rfl, ho, hp⟩ | ⟨call, o, w, rfl, ho, hp⟩ | rfl | hside
  · rw [move_go, go_of_asks ho hp] at ha
    exact nomatch ha
  · rw [move_go] at ha
    rcases go_of_awaits ho hp with hgo | hgo
    · rw [hgo] at ha
      exact nomatch ha
    · rw [hgo] at ha
      exact nomatch ha
  · exact nomatch ha
  · obtain ⟨call, o, result, ho, -, hp, rfl⟩ := hside.returned r answer ha
    exact ⟨result, rfl, hp ▸ (h.calls call o ho).phase⟩

/-! ### Computations that are gone -/

/-- Only the call whose phase changes may wait for something that it has not waited for before. -/
theorem find?_of_awaits {flight : Nat} {phase : Phase}
    (hother : ∀ w, phase = .awaits w → w.flight ≠ flight) {call' : Nat} {o' : Ongoing} {w : SecretWait}
    (ho' : Entries.find? call' (Entries.put call { o with phase := phase } s.ongoing) = some o')
    (hp' : o'.phase = .awaits w) (hw : w.flight = flight) :
    Entries.find? call' s.ongoing = some o' := by
  rcases find?_put_of_some ho' with ho' | ⟨-, rfl⟩
  · exact ho'
  · exact absurd hw (hother w hp')

/-- The turn that gives a call what it has waited for is the last of the computation. -/
theorem gone_of_has (h : Traced s₀ launches s) {w : SecretWait}
    (ho : Entries.find? call s.ongoing = some o) (hp : o.phase = .awaits w) {r : UserRef}
    {result : Except SecretError UserSecret} {o' : Ongoing}
    (ho' : Entries.find? call (s.move (.go call)).2.ongoing = some o')
    (hp' : o'.phase = .has r result) :
    Entries.find? w.flight launches = some (w.reference.identity, result) ∧
      (s.move (.go call)).2.resolver.secrets.Gone w.flight ∧
      ∀ call' o w', Entries.find? call' (s.move (.go call)).2.ongoing = some o →
        o.phase = .awaits w' → w'.flight = w.flight → Entries.find? call' s.ongoing = some o := by
  have hphase := (h.calls call o ho).phase
  rw [hp] at hphase
  obtain ⟨hregistered, result', hf⟩ := hphase
  obtain ⟨c, hc, rfl⟩ := h.secrets.computation?_of_find? hf
  obtain ⟨log, heq⟩ := finishSecret_eq hc
  rw [move_go] at ho' ⊢
  rcases go_of_awaits ho hp with hgo | hgo
  · rw [hgo, Entries.find?_put_self] at ho'
    obtain rfl := Option.some.inj ho'
    rw [heq] at hp' hgo
    obtain ⟨-, rfl⟩ := Phase.has.inj hp'
    rw [hgo]
    refine ⟨hf, h.secrets.gone_retired hf _, fun _ _ _ => find?_of_awaits ?_⟩
    exact fun _ hp' => nomatch hp'
  · rw [hgo, Entries.find?_put_self] at ho'
    obtain rfl := Option.some.inj ho'
    exact nomatch hp.symm.trans hp'

/-- **What is gone stays gone**: no move brings a computation back, and no call waits for it that
has not waited for it before. -/
theorem gone (h : Traced s₀ launches s) (hs : s₀.Known) {flight : Nat}
    (hgone : s.resolver.secrets.Gone flight) (m : Move) :
    (s.move m).2.resolver.secrets.Gone flight ∧
      ∀ call o w, Entries.find? call (s.move m).2.ongoing = some o → o.phase = .awaits w →
        w.flight = flight → Entries.find? call s.ongoing = some o := by
  rcases h.move_cases hs m with
    ⟨call, o, r, rfl, ho, hp⟩ | ⟨call, o, w, rfl, ho, hp⟩ | rfl | hside
  · rw [move_go, go_of_asks ho hp]
    rcases startSecret_cases r s.resolver with
      ⟨-, -, heq⟩ | ⟨e, -, ⟨entry, log, -, -, heq⟩ | ⟨flight', log, hf, -, heq⟩ |
        ⟨c, lookups, log, -, -, heq⟩⟩
    · rw [heq]
      refine ⟨hgone, fun _ _ _ => find?_of_awaits ?_⟩
      exact fun _ hp' => nomatch hp'
    · rw [heq]
      refine ⟨⟨hgone.notFlying, hgone.taken⟩, fun _ _ _ => find?_of_awaits ?_⟩
      exact fun _ hp' => nomatch hp'
    · -- a computation that is joined is in flight
      rw [heq]
      refine ⟨⟨hgone.notFlying, hgone.taken⟩, fun _ _ _ => find?_of_awaits ?_⟩
      rintro _ ⟨rfl⟩ rfl
      exact hgone.notFlying r.identity hf
    · -- a computation that is launched has a new number
      rw [heq]
      refine ⟨hgone.begun _ _, fun _ _ _ => find?_of_awaits ?_⟩
      rintro _ ⟨rfl⟩
      exact Nat.ne_of_gt hgone.taken
  · obtain ⟨-, result, hf⟩ : (Phase.awaits w).Traced s₀ launches := hp ▸ (h.calls call o ho).phase
    obtain ⟨c, hc, -⟩ := h.secrets.computation?_of_find? hf
    obtain ⟨log, heq⟩ := finishSecret_eq hc
    rw [move_go]
    rcases go_of_awaits ho hp with hgo | hgo
    · rw [hgo, heq]
      refine ⟨hgone.retired _ _ _ _, fun _ _ _ => find?_of_awaits ?_⟩
      exact fun _ hp' => nomatch hp'
    · rw [hgo]
      refine ⟨hgone, fun call' o' w' ho' _ _ => ?_⟩
      rcases find?_put_of_some ho' with ho' | ⟨rfl, rfl⟩
      · exact ho'
      · exact ho
  · exact ⟨hgone.clear, fun _ _ _ ho _ _ => ho⟩
  · refine ⟨hside.aside.secrets.symm ▸ hgone, fun call o w ho hp _ => ?_⟩
    refine (hside.calls call o ho).elim id fun htraced => ?_
    obtain ⟨-, result, hno⟩ := hp ▸ (htraced s₀ []).phase
    exact nomatch hno

end Traced

end Jobs

end SecretResolver
