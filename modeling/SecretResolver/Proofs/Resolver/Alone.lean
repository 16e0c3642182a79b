/-
**Calls that nobody interrupts.**

A call is made in steps, and between them anything may be done with the resolver.  When nothing is,
but time passes while the call waits, then it comes to its end, with the answer that the resolver gives
when it is asked at once, and in the same state.

Main definitions:

* `Resolver.handOver` — some references with their user secrets, up to the first that fails;
* `Job.atOnce` — what a job is for a resolver that is asked at once;
* `Ongoing.advance`, `Stage.Ends` — the steps of a call that nobody interrupts.

Main results:

* `Resolver.secretsOf_eq` — what is kept of references that are handed over;
* `Stage.ends_asks`, `Job.ends_beginFile` — the steps of a user secret and of an encrypted reference;
* `Job.ends_atOnce` — **a call that nobody interrupts** returns what is got at once.
-/

import SecretResolver.Resolver.Jobs

set_option relaxedAutoImplicit false
set_option autoImplicit false

namespace SecretResolver

open Resolver

/-! ### At once -/

/-- Resolves some references one after the other: those before the first that fails, and how it
fails. -/
def Resolver.handOver :
    List UserRef → Action (List (UserRef × UserSecret) × Option SecretError)
  | [] => pure ([], none)
  | r :: rs => do
      match ← userSecret r with
      | .error e => return ([], some e)
      | .ok secret =>
          let (more, failure) ← handOver rs
          return ((r, secret) :: more, failure)

/-- If one fails, what was handed over before is not kept. -/
theorem Resolver.secretsOf_eq (rs : List UserRef) :
    secretsOf rs = (fun handed => match handed.2 with
      | some e => .error e
      | none => .ok handed.1) <$> handOver rs := by
  induction rs with
  | nil => rfl
  | cons r rs ih =>
      funext s
      simp only [secretsOf, handOver, ih, Action.bind_apply, Action.map_apply]
      cases (userSecret r s).1 with
      | error e => rfl
      | ok secret =>
          simp only [Action.bind_apply, Action.map_apply, Action.pure_apply]
          cases (handOver rs (userSecret r s).2).1.2 <;> rfl

/-- What is asked for, got at once. -/
def Job.atOnce : Job → Action Answer
  | .field resource r => do return .field (← fieldFor resource r)
  | .secret r => do return .secret (← userSecret r)
  | .each resource order => do
      let (handed, failure) ← handOver (order ((← get).tracked resource))
      return .handed handed failure
  | .check written => do return .checked (← validateText written)
  | .checkUser written => do return .checked (← validateUser written)
  | .checkExternal written => do return .checked (← validateExternal written)
  | .bytes r => do return .bytes (← decrypt r)
  | .text r => do return .text (← decryptText r)

/-! ### Step by step -/

/-- When a call can go on, if it waits. -/
def Ongoing.readyAt (o : Ongoing) (s : Resolver) : Option Nat :=
  match o.phase with
  | .awaits w => w.readyAt s
  | .awaitsFile w => w.readyAt s
  | _ => none

/-- Lets time pass until a call can go on, and goes one step on with it. -/
def Ongoing.advance (o : Ongoing) : Action Stage := do
  passTo (timeOf (o.readyAt (← get)) (← get))
  o.go

namespace Ongoing

variable {job : Job} {handed : List (UserRef × UserSecret)} {further : List UserRef}
  {s : Resolver}

theorem go_awaits {w : SecretWait} (h : timeOf (w.readyAt s) s ≤ s.now) :
    (⟨job, .awaits w, handed, further⟩ : Ongoing).go s =
      (.ongoing ⟨job, .has w.reference (finishSecret w s).1, handed, further⟩,
        (finishSecret w s).2) := by
  change (if timeOf (w.readyAt s) s ≤ s.now then _ else _ : Action Stage) s = _
  rw [if_pos h]
  rfl

theorem go_awaitsFile {w : FileWait} (h : timeOf (w.readyAt s) s ≤ s.now) :
    (⟨job, .awaitsFile w, handed, further⟩ : Ongoing).go s =
      (.ongoing ⟨job, .hasFile (finishDecrypt w s).1, handed, further⟩, (finishDecrypt w s).2) := by
  change (if timeOf (w.readyAt s) s ≤ s.now then _ else _ : Action Stage) s = _
  rw [if_pos h]
  rfl

end Ongoing

/-- From one stage and state a call that nobody interrupts comes to an answer and another state. -/
inductive Stage.Ends : Stage × Resolver → Answer × Resolver → Prop where
  | done (answer : Answer) (s : Resolver) : Stage.Ends (.done answer, s) (answer, s)
  | step (o : Ongoing) (s : Resolver) (end_ : Answer × Resolver)
      (h : Stage.Ends (o.advance s) end_) : Stage.Ends (.ongoing o, s) end_

theorem Resolver.passTo_now (s : Resolver) : (passTo (timeOf none s) s).2 = s := by
  simp [passTo, timeOf]

/-- After that time what was waited for is there. -/
theorem Resolver.timeOf_passTo_le (readyAt : Option Nat) (s : Resolver) :
    timeOf readyAt (passTo (timeOf readyAt s) s).2 ≤ (passTo (timeOf readyAt s) s).2.now := by
  cases readyAt <;> simp [passTo, timeOf]

namespace Stage

variable {job : Job} {handed : List (UserRef × UserSecret)} {further : List UserRef}
  {end_ : Answer × Resolver} {s : Resolver}

theorem ends_has {r : UserRef} {result : Except SecretError UserSecret}
    (h : Ends ((⟨job, .has r result, handed, further⟩ : Ongoing).conclude r result s) end_) :
    Ends (.ongoing ⟨job, .has r result, handed, further⟩, s) end_ := by
  refine .step _ s end_ ?_
  change Ends (Ongoing.conclude _ r result (passTo (timeOf none s) s).2) end_
  rwa [passTo_now]

theorem ends_awaits {w : SecretWait}
    (h : Ends (.ongoing ⟨job, .has w.reference (await SecretWait.readyAt finishSecret (.waits w) s).1,
      handed, further⟩, (await SecretWait.readyAt finishSecret (.waits w) s).2) end_) :
    Ends (.ongoing ⟨job, .awaits w, handed, further⟩, s) end_ := by
  refine .step _ s end_ ?_
  change Ends (Ongoing.go ⟨job, .awaits w, handed, further⟩ (passTo (timeOf (w.readyAt s) s) s).2) end_
  rw [Ongoing.go_awaits (timeOf_passTo_le (w.readyAt s) s)]
  exact h

theorem ends_hasFile {result : Except SecretError Bytes}
    (h : Ends ((⟨job, .hasFile result, handed, further⟩ : Ongoing).concludeFile result s) end_) :
    Ends (.ongoing ⟨job, .hasFile result, handed, further⟩, s) end_ := by
  refine .step _ s end_ ?_
  change Ends (Ongoing.concludeFile _ result (passTo (timeOf none s) s).2) end_
  rwa [passTo_now]

theorem ends_awaitsFile {w : FileWait}
    (h : Ends (.ongoing ⟨job, .hasFile (await FileWait.readyAt finishDecrypt (.waits w) s).1,
      handed, further⟩, (await FileWait.readyAt finishDecrypt (.waits w) s).2) end_) :
    Ends (.ongoing ⟨job, .awaitsFile w, handed, further⟩, s) end_ := by
  refine .step _ s end_ ?_
  change Ends (Ongoing.go ⟨job, .awaitsFile w, handed, further⟩
    (passTo (timeOf (w.readyAt s) s) s).2) end_
  rw [Ongoing.go_awaitsFile (timeOf_passTo_le (w.readyAt s) s)]
  exact h

/-- **A user secret** is asked for, waited for and there. -/
theorem ends_asks {r : UserRef}
    (h : Ends ((⟨job, .asks r, handed, further⟩ : Ongoing).conclude r (userSecret r s).1
      (userSecret r s).2) end_) :
    Ends (.ongoing ⟨job, .asks r, handed, further⟩, s) end_ := by
  refine .step _ s end_ ?_
  change Ends (Ongoing.go ⟨job, .asks r, handed, further⟩ (passTo (timeOf none s) s).2) end_
  rw [passTo_now]
  simp only [userSecret, Action.bind_apply] at h
  simp only [Ongoing.go, Action.bind_apply]
  cases hstart : (startSecret r s).1 with
  | done result =>
      rw [hstart] at h
      exact ends_has h
  | waits w =>
      have hreference : w.reference = r := reference_of_startSecret hstart
      rw [hstart] at h
      subst hreference
      exact ends_awaits (ends_has h)

end Stage

namespace Job

variable {job : Job} {end_ : Answer × Resolver} {s : Resolver}

/-- **What an encrypted reference leads to** is asked for, waited for and there. -/
theorem ends_beginFile {r : EncryptedRef}
    (h : Stage.Ends ((job.at_ (.hasFile (decrypt r s).1)).concludeFile (decrypt r s).1
      (decrypt r s).2) end_) :
    Stage.Ends (job.beginFile r s) end_ := by
  simp only [decrypt, Action.bind_apply] at h
  simp only [beginFile, Action.bind_apply]
  cases hstart : (startDecrypt r s).1 with
  | done result =>
      rw [hstart] at h
      exact Stage.ends_hasFile h
  | waits w =>
      rw [hstart] at h
      exact Stage.ends_awaitsFile (Stage.ends_hasFile h)

/-- Telling what is wrong is the end of a check. -/
theorem ends_faulty (invalid : SecretError → LogEvent) (fault : Option SecretError)
    (s : Resolver) :
    Stage.Ends (faulty invalid fault s) (.checked fault, (faulty invalid fault s).2) := by
  cases fault <;> exact .done _ _

/-- References of a resource that are handed over one after the other. -/
theorem ends_next {resource : String} {order : List UserRef → List UserRef} (rs : List UserRef)
    (handed : List (UserRef × UserSecret)) (s : Resolver) :
    Stage.Ends ((Job.each resource order).next handed rs, s)
      (.handed (handed ++ (handOver rs s).1.1) (handOver rs s).1.2, (handOver rs s).2) := by
  induction rs generalizing handed s with
  | nil =>
      rw [handOver, Action.pure_apply, List.append_nil]
      exact .done _ s
  | cons r rs ih =>
      refine Stage.ends_asks ?_
      simp only [Ongoing.conclude, handOver, Action.bind_apply]
      cases (userSecret r s).1 with
      | error e =>
          simp only [Action.pure_apply, List.append_nil]
          exact .done _ _
      | ok secret =>
          simp only [Action.pure_apply, Action.bind_apply]
          have hmore := ih (handed ++ [(r, secret)]) (userSecret r s).2
          rwa [List.append_assoc] at hmore

theorem ends_beginCheckUser (written : String) (s : Resolver)
    (hjob : ∀ r result, (job.at_ (.asks r)).conclude r result =
      faulty .userInvalid (secretFault r result)) :
    Stage.Ends (job.beginCheckUser written s)
      (.checked (validateUser written s).1, (validateUser written s).2) := by
  have hvalidate : validateUser written s = ((userFault written s).1,
      (faulty .userInvalid (userFault written s).1 (userFault written s).2).2) := by
    simp only [validateUser, faulty, Action.bind_apply]
    cases (userFault written s).1 <;> rfl
  rw [hvalidate]
  unfold beginCheckUser userFault
  cases userRef written with
  | error e => exact ends_faulty _ (some e) s
  | ok r =>
      change Stage.Ends (.ongoing (job.at_ (.asks r)), (note (.validatingUser r.engine) s).2) _
      simp only [Action.bind_apply]
      generalize (note (.validatingUser r.engine) s).2 = s
      refine Stage.ends_asks ?_
      rw [← at_, hjob]
      generalize userSecret r s = p
      obtain ⟨result, s'⟩ := p
      cases result <;> exact ends_faulty _ _ _

theorem ends_beginCheckExternal (written : String) (s : Resolver)
    (hjob : ∀ result, (job.at_ (.hasFile result)).concludeFile result =
      faulty .externalInvalid (bytesFault result)) :
    Stage.Ends (job.beginCheckExternal written s)
      (.checked (validateExternal written s).1, (validateExternal written s).2) := by
  have hvalidate : validateExternal written s = ((externalFault written s).1,
      (faulty .externalInvalid (externalFault written s).1 (externalFault written s).2).2) := by
    simp only [validateExternal, faulty, Action.bind_apply]
    cases (externalFault written s).1 <;> rfl
  rw [hvalidate]
  unfold beginCheckExternal externalFault
  cases encryptedRef written with
  | error e => exact ends_faulty _ (some e) s
  | ok r =>
      change Stage.Ends (job.beginFile r (note (.validatingExternal r.engine) s).2) _
      simp only [Action.bind_apply]
      generalize (note (.validatingExternal r.engine) s).2 = s
      refine ends_beginFile ?_
      rw [hjob]
      generalize decrypt r s = p
      obtain ⟨result, s'⟩ := p
      cases result <;> exact ends_faulty _ _ _

/-- **A call that nobody interrupts** returns what is got at once. -/
theorem ends_atOnce (job : Job) (s : Resolver) : Stage.Ends (job.begin_ s) (job.atOnce s) := by
  cases job with
  | field resource r => exact Stage.ends_asks (.done _ _)
  | secret r => exact Stage.ends_asks (.done _ _)
  | each resource order => exact ends_next _ [] s
  | check written =>
      unfold begin_ atOnce validateText
      dsimp only
      split
      · exact ends_beginCheckUser written s fun _ _ => rfl
      · split
        · exact ends_beginCheckExternal written s fun _ => rfl
        · exact .done _ _
  | checkUser written => exact ends_beginCheckUser written s fun _ _ => rfl
  | checkExternal written => exact ends_beginCheckExternal written s fun _ => rfl
  | bytes r => exact ends_beginFile (.done _ _)
  | text r =>
      refine ends_beginFile ?_
      simp only [atOnce, decryptText, Action.bind_apply]
      generalize decrypt r s = p
      obtain ⟨result, s'⟩ := p
      cases result <;> exact .done _ _

end Job

end SecretResolver
