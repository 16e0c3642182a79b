/-
**What the turns of a call come to.**

In a run of calls every move leaves a call alone, begins it, or takes it one step on.  A call for user
secrets asks for a reference in one turn; it is given a result there and then, or is told what to wait
for and gets the result of that in a later turn, when it is ready.  Whatever a call has got in this way
it has asked for itself, whatever was done in between.

Main definitions:

* `Job.Begins`, `Ongoing.Steps` — how a call begins and goes on;
* `Jobs.Happening.ended?` — which call has returned, and what;
* `Jobs.asked` — the references that a call has asked for;
* `Jobs.Awaited`, `Jobs.Obtained` — what a call was told to wait for, and what it has got.

Main results:

* `Job.begins_of_begin`, `Ongoing.steps_of_go` — every call begins and goes on like this;
* `Jobs.ongoing_move_cases`, `Jobs.ended_move_cases` — what a move has to do with a call;
* `Jobs.not_ongoing_of_ended` — a call that has returned does not go on;
* `Jobs.procured_after` — **what calls have got, they have asked for**, in every run;
* `Jobs.obtained_of_ended` — a call for one user secret returns what it has got.
-/

import SecretResolver.Proofs.Resolver.Provenance

set_option relaxedAutoImplicit false
set_option autoImplicit false

namespace SecretResolver

open Resolver

/-! ### Steps -/

/-- A call is about an encrypted reference. -/
def Phase.OfFile : Phase → Prop
  | .awaitsFile _ => True
  | .hasFile _ => True
  | _ => False

/-- Such a call is for no user secret. -/
theorem Phase.OfFile.not_isFor {phase : Phase} (h : phase.OfFile) (r : UserRef) :
    ¬phase.IsFor r := by
  cases phase with
  | awaitsFile w => exact id
  | hasFile result => exact id
  | _ => exact h.elim

/-- How a call begins: it asks for a user secret, its own if it is a call for one, or it is about an
encrypted reference. -/
inductive Job.Begins (job : Job) : Ongoing → Prop where
  | asks (r : UserRef) (further : List UserRef) (h : ∀ r', job = .secret r' → r = r') :
      Begins job ⟨job, .asks r, [], further⟩
  | file (hjob : ∀ r, job ≠ .secret r) (phase : Phase) (hp : phase.OfFile) :
      Begins job (job.at_ phase)

/-- How a call goes on. -/
inductive Ongoing.Steps (s : Resolver) (o : Ongoing) : Ongoing → Prop where
  | asks {r : UserRef} (hp : o.phase = .asks r) :
      Steps s o { o with phase := Jobs.afterAsking r (startSecret r s).1 }
  | gets {w : SecretWait} (hp : o.phase = .awaits w) (hready : timeOf (w.readyAt s) s ≤ s.now) :
      Steps s o { o with phase := .has w.reference (finishSecret w s).1 }
  | waits {w : SecretWait} (hp : o.phase = .awaits w) : Steps s o o
  | hands {r next : UserRef} {secret : UserSecret} {rs : List UserRef}
      (hjob : ∀ r, o.job ≠ .secret r) (hp : o.phase = .has r (.ok secret))
      (hf : o.further = next :: rs) :
      Steps s o ⟨o.job, .asks next, o.handed ++ [(r, secret)], rs⟩
  | file (hp : o.phase.OfFile) (phase : Phase) (hphase : phase.OfFile) :
      Steps s o { o with phase := phase }

namespace Job

variable {job : Job} {s : Resolver} {o : Ongoing}

theorem not_ongoing_faulty {invalid : SecretError → LogEvent} {fault : Option SecretError} :
    (faulty invalid fault s).1 ≠ .ongoing o := by
  cases fault <;> exact nofun

theorem begins_of_beginFile (hjob : ∀ r, job ≠ .secret r) {r : EncryptedRef}
    (h : (job.beginFile r s).1 = .ongoing o) : job.Begins o := by
  simp only [beginFile, Action.bind_apply] at h
  cases hstart : (startDecrypt r s).1 with
  | done result =>
      rw [hstart] at h
      rw [← Stage.ongoing.inj h]
      exact .file hjob _ trivial
  | waits w =>
      rw [hstart] at h
      rw [← Stage.ongoing.inj h]
      exact .file hjob _ trivial

theorem begins_of_beginCheckUser (hjob : ∀ r, job ≠ .secret r) {written : String}
    (h : (job.beginCheckUser written s).1 = .ongoing o) : job.Begins o := by
  unfold beginCheckUser at h
  cases href : userRef written with
  | error e =>
      rw [href] at h
      exact absurd h not_ongoing_faulty
  | ok r =>
      rw [href] at h
      rw [← Stage.ongoing.inj h]
      exact .asks r [] fun r' hr' => absurd hr' (hjob r')

theorem begins_of_beginCheckExternal (hjob : ∀ r, job ≠ .secret r) {written : String}
    (h : (job.beginCheckExternal written s).1 = .ongoing o) : job.Begins o := by
  unfold beginCheckExternal at h
  cases href : encryptedRef written with
  | error e =>
      rw [href] at h
      exact absurd h not_ongoing_faulty
  | ok r =>
      rw [href] at h
      exact begins_of_beginFile hjob h

/-- Every call that does not return at once begins like this. -/
theorem begins_of_begin (h : (job.begin_ s).1 = .ongoing o) : job.Begins o := by
  cases job with
  | field resource r =>
      rw [← Stage.ongoing.inj h]
      exact .asks r [] nofun
  | secret r =>
      rw [← Stage.ongoing.inj h]
      refine .asks r [] fun r' hr' => ?_
      exact Job.secret.inj hr'
  | each resource order =>
      change (Job.each resource order).next [] (order (s.tracked resource)) = .ongoing o at h
      cases hrs : order (s.tracked resource) with
      | nil =>
          rw [hrs] at h
          exact nomatch h
      | cons r rs =>
          rw [hrs] at h
          rw [← Stage.ongoing.inj h]
          exact .asks r rs nofun
  | check written =>
      simp only [begin_] at h
      by_cases huser : UserRef.isReference written = true
      · rw [if_pos huser] at h
        exact begins_of_beginCheckUser nofun h
      · rw [if_neg huser] at h
        by_cases hexternal : EncryptedRef.isReference written = true
        · rw [if_pos hexternal] at h
          exact begins_of_beginCheckExternal nofun h
        · rw [if_neg hexternal] at h
          exact nomatch h
  | checkUser written => exact begins_of_beginCheckUser nofun h
  | checkExternal written => exact begins_of_beginCheckExternal nofun h
  | bytes r => exact begins_of_beginFile nofun h
  | text r => exact begins_of_beginFile nofun h

end Job

namespace Ongoing

variable {s : Resolver} {o o' : Ongoing} {answer : Answer}

/-- A call for the user secrets of a resource goes on after it has got one, and no other call does. -/
theorem steps_of_conclude {r : UserRef} {result : Except SecretError UserSecret}
    (hp : o.phase = .has r result) (h : (o.conclude r result s).1 = .ongoing o') :
    o.Steps s o' := by
  unfold conclude at h
  cases hjob : o.job with
  | each resource order =>
      simp only [hjob] at h
      cases result with
      | error e => exact nomatch h
      | ok secret =>
          cases hf : o.further with
          | nil =>
              rw [hf] at h
              exact nomatch h
          | cons next rs =>
              rw [hf] at h
              rw [← Stage.ongoing.inj h, ← hjob]
              exact .hands (by simp [hjob]) hp hf
  | check written =>
      simp only [hjob] at h
      exact absurd h Job.not_ongoing_faulty
  | checkUser written =>
      simp only [hjob] at h
      exact absurd h Job.not_ongoing_faulty
  | _ =>
      simp only [hjob] at h
      exact nomatch h

/-- What comes of a file is the end of a call. -/
theorem not_ongoing_concludeFile {result : Except SecretError Bytes} :
    (o.concludeFile result s).1 ≠ .ongoing o' := by
  intro h
  unfold concludeFile at h
  cases hjob : o.job with
  | check written =>
      simp only [hjob] at h
      exact Job.not_ongoing_faulty h
  | checkExternal written =>
      simp only [hjob] at h
      exact Job.not_ongoing_faulty h
  | _ =>
      simp only [hjob] at h
      exact nomatch h

/-- Every call that does not return goes on like this. -/
theorem steps_of_go (h : (o.go s).1 = .ongoing o') : o.Steps s o' := by
  cases hp : o.phase with
  | asks r =>
      rw [go_of_asks hp] at h
      rw [← Stage.ongoing.inj h]
      exact .asks hp
  | awaits w =>
      by_cases hready : timeOf (w.readyAt s) s ≤ s.now
      · rw [go_of_ready hp hready] at h
        rw [← Stage.ongoing.inj h]
        exact .gets hp hready
      · rw [go_of_not_ready hp hready] at h
        rw [← Stage.ongoing.inj h]
        exact .waits hp
  | has r result =>
      rw [go_of_has hp] at h
      exact steps_of_conclude hp h
  | awaitsFile w =>
      have hfile : o.phase.OfFile := hp ▸ trivial
      by_cases hready : timeOf (w.readyAt s) s ≤ s.now
      · have hgo : (o.go s).1 = .ongoing { o with phase := .hasFile (finishDecrypt w s).1 } := by
          simp [go, hp, hready]
        rw [hgo] at h
        rw [← Stage.ongoing.inj h]
        exact .file hfile _ trivial
      · have hgo : (o.go s).1 = .ongoing o := by
          simp [go, hp, hready]
        rw [hgo] at h
        rw [← Stage.ongoing.inj h]
        exact .file hfile o.phase hfile
  | hasFile result =>
      unfold go at h
      rw [hp] at h
      exact absurd h not_ongoing_concludeFile

/-- A call for user secrets returns when it has got a result. -/
theorem has_of_done {r : UserRef} (hr : o.phase.IsFor r) (h : (o.go s).1 = .done answer) :
    ∃ result, o.phase = .has r result ∧ (o.conclude r result s).1 = .done answer := by
  cases hp : o.phase with
  | asks r' =>
      rw [go_of_asks hp] at h
      exact nomatch h
  | awaits w =>
      by_cases hready : timeOf (w.readyAt s) s ≤ s.now
      · rw [go_of_ready hp hready] at h
        exact nomatch h
      · rw [go_of_not_ready hp hready] at h
        exact nomatch h
  | has r' result =>
      rw [hp] at hr
      obtain rfl : r' = r := hr
      rw [go_of_has hp] at h
      exact ⟨result, rfl, h⟩
  | awaitsFile w =>
      rw [hp] at hr
      exact hr.elim
  | hasFile result =>
      rw [hp] at hr
      exact hr.elim

/-- A call for the user secrets of a resource returns when one of them has failed, or with all. -/
theorem answer_of_each {resource : String} {order : List UserRef → List UserRef}
    (hjob : o.job = .each resource order) {r : UserRef} {result : Except SecretError UserSecret}
    (h : (o.conclude r result s).1 = .done answer) :
    (∃ e, result = .error e ∧ answer = .handed o.handed (some e)) ∨
      ∃ secret, result = .ok secret ∧ o.further = [] ∧
        answer = .handed (o.handed ++ [(r, secret)]) none := by
  simp only [conclude, hjob] at h
  cases result with
  | error e => exact .inl ⟨e, rfl, (Stage.done.inj h).symm⟩
  | ok secret =>
      cases hf : o.further with
      | nil =>
          rw [hf] at h
          exact .inr ⟨secret, rfl, rfl, (Stage.done.inj h).symm⟩
      | cons next rs =>
          rw [hf] at h
          exact nomatch h

theorem answer_of_secret {r' : UserRef} (hjob : o.job = .secret r') {r : UserRef}
    {result : Except SecretError UserSecret} (h : (o.conclude r result s).1 = .done answer) :
    answer = .secret result := by
  simp only [conclude, hjob] at h
  exact (Stage.done.inj h).symm

end Ongoing

namespace Jobs

/-! ### Moves -/

variable {s : Jobs} {m : Move} {call : Nat} {o : Ongoing} {answer : Answer}

/-- **What a move has to do with a call that has not returned**: it leaves it alone, begins it, or takes
it a step on. -/
theorem ongoing_move_cases (ho : Entries.find? call (s.move m).2.ongoing = some o) :
    (Entries.find? call s.ongoing = some o ∧ m ≠ .go call) ∨
    (∃ job, m = .begin_ job ∧ call = s.nextCall ∧ (job.begin_ s.resolver).1 = .ongoing o) ∨
    ∃ o', m = .go call ∧ Entries.find? call s.ongoing = some o' ∧
      (o'.go s.resolver).1 = .ongoing o := by
  cases m with
  | begin_ job =>
      obtain ⟨o', resolver, hbegin, heq⟩ | ⟨answer, resolver, -, heq⟩ := s.begin_cases job
      · rw [move_begin, heq] at ho
        rcases find?_put_of_some ho with ho | ⟨rfl, rfl⟩
        · exact .inl ⟨ho, nofun⟩
        · exact .inr (.inl ⟨job, rfl, rfl, by rw [hbegin]⟩)
      · rw [move_begin, heq] at ho
        exact .inl ⟨ho, nofun⟩
  | go call' =>
      by_cases hcall : call' = call
      · obtain rfl := hcall
        rw [move_go] at ho
        obtain ⟨hno, heq⟩ | ⟨o', next, resolver, ho', hgo, heq⟩ | ⟨o', answer, resolver, -, -, heq⟩ :=
          s.go_cases call'
        · rw [heq, hno] at ho
          exact nomatch ho
        · rw [heq, Entries.find?_put_self] at ho
          obtain rfl := Option.some.inj ho
          exact .inr (.inr ⟨o', rfl, ho', by rw [hgo]⟩)
        · rw [heq, Entries.find?_drop, if_pos rfl] at ho
          exact nomatch ho
      · refine .inl ⟨?_, fun h => hcall (Move.go.inj h)⟩
        rw [move_go] at ho
        obtain ⟨-, heq⟩ | ⟨o', next, resolver, -, -, heq⟩ | ⟨o', answer, resolver, -, -, heq⟩ :=
          s.go_cases call'
        · rwa [heq] at ho
        · rwa [heq, Entries.find?_put, if_neg hcall] at ho
        · rw [heq] at ho
          exact find?_drop_of_some ho
  | abort call' => exact .inl ⟨find?_drop_of_some ho, nofun⟩
  | _ => exact .inl ⟨ho, nofun⟩

/-- Which call has returned, and what. -/
def Happening.ended? : Happening → Option (Nat × Answer)
  | .began call _ (some answer) => some (call, answer)
  | .went call _ (some answer) => some (call, answer)
  | _ => none

/-- **What a move has to do with a call that returns**: the call has just begun, or it was ongoing and is
no more. -/
theorem ended_move_cases (h : (s.move m).1.ended? = some (call, answer)) :
    (∃ job, m = .begin_ job ∧ call = s.nextCall ∧ (job.begin_ s.resolver).1 = .done answer ∧
      (s.move m).1 = .began call job (some answer) ∧ (s.move m).2.ongoing = s.ongoing) ∨
    ∃ o, m = .go call ∧ Entries.find? call s.ongoing = some o ∧
      (o.go s.resolver).1 = .done answer ∧ (s.move m).1 = .went call o.job (some answer) ∧
      Entries.find? call (s.move m).2.ongoing = none := by
  cases m with
  | begin_ job =>
      obtain ⟨o, resolver, -, heq⟩ | ⟨answer', resolver, hbegin, heq⟩ := s.begin_cases job
      · rw [move_begin, heq] at h
        exact nomatch h
      · rw [move_begin, heq] at h
        obtain ⟨rfl, rfl⟩ := Prod.mk.inj (Option.some.inj h)
        refine .inl ⟨job, rfl, rfl, by rw [hbegin], ?_⟩
        rw [move_begin, heq]
        exact ⟨rfl, rfl⟩
  | go call' =>
      rw [move_go] at h
      obtain ⟨-, heq⟩ | ⟨o, next, resolver, -, -, heq⟩ | ⟨o, answer', resolver, ho, hgo, heq⟩ :=
        s.go_cases call'
      · rw [heq] at h
        exact nomatch h
      · rw [heq] at h
        exact nomatch h
      · rw [heq] at h
        obtain ⟨rfl, rfl⟩ := Prod.mk.inj (Option.some.inj h)
        refine .inr ⟨o, rfl, ho, by rw [hgo], by rw [move_go, heq], ?_⟩
        rw [move_go, heq, Entries.find?_drop, if_pos rfl]
  | _ => exact nomatch h

theorem nextCall_le_move (s : Jobs) (m : Move) : s.nextCall ≤ (s.move m).2.nextCall := by
  cases m with
  | begin_ job =>
      obtain ⟨o, resolver, -, heq⟩ | ⟨answer, resolver, -, heq⟩ := s.begin_cases job
      · rw [move_begin, heq]
        exact Nat.le_succ _
      · rw [move_begin, heq]
        exact Nat.le_succ _
  | go call =>
      rw [move_go]
      obtain ⟨-, heq⟩ | ⟨o, next, resolver, -, -, heq⟩ | ⟨o, answer, resolver, -, -, heq⟩ :=
        s.go_cases call
      all_goals exact Nat.le_of_eq (by rw [heq])
  | _ => exact Nat.le_refl _

theorem nextCall_lt_begin (s : Jobs) (job : Job) :
    s.nextCall < (s.move (.begin_ job)).2.nextCall := by
  obtain ⟨o, resolver, -, heq⟩ | ⟨answer, resolver, -, heq⟩ := s.begin_cases job
  all_goals
    rw [move_begin, heq]
    exact Nat.lt_succ_self _

/-! ### Numbers of calls -/

variable {s₀ : Resolver} {ms : List Move} {e : Happening}

theorem nextCall_le_after (later : List Move) :
    (after s₀ ms).nextCall ≤ (after s₀ (later ++ ms)).nextCall := by
  induction later with
  | nil => exact Nat.le_refl _
  | cons m later ih => exact Nat.le_trans ih (nextCall_le_move _ m)

/-- A call that has not returned has the number of one that has begun. -/
theorem lt_nextCall_after (s₀ : Resolver) (ms : List Move) {call : Nat} {o : Ongoing}
    (ho : Entries.find? call (after s₀ ms).ongoing = some o) : call < (after s₀ ms).nextCall := by
  induction ms generalizing o with
  | nil => exact nomatch ho
  | cons m ms ih =>
      have hle := nextCall_le_move (after s₀ ms) m
      obtain ⟨ho, -⟩ | ⟨job, rfl, rfl, -⟩ | ⟨o', -, ho, -⟩ :=
        ongoing_move_cases (s := after s₀ ms) ho
      · exact Nat.lt_of_lt_of_le (ih ho) hle
      · exact nextCall_lt_begin (after s₀ ms) job
      · exact Nat.lt_of_lt_of_le (ih ho) hle

/-- A call that is not there goes on nowhere. -/
theorem not_ongoing_move (hcall : call < s.nextCall) (hno : Entries.find? call s.ongoing = none)
    (m : Move) : Entries.find? call (s.move m).2.ongoing = none := by
  cases ho : Entries.find? call (s.move m).2.ongoing with
  | none => rfl
  | some o =>
      obtain ⟨ho, -⟩ | ⟨job, -, rfl, -⟩ | ⟨o', -, ho, -⟩ := ongoing_move_cases ho
      · exact absurd (hno.symm.trans ho) nofun
      · exact absurd hcall (Nat.lt_irrefl _)
      · exact nomatch hno.symm.trans ho

/-- **A call that has returned** is there no more, and its number is not given to another. -/
theorem not_ongoing_of_ended (he : e ∈ history s₀ ms) (ha : e.ended? = some (call, answer)) :
    call < (after s₀ ms).nextCall ∧ Entries.find? call (after s₀ ms).ongoing = none := by
  induction ms with
  | nil => exact nomatch he
  | cons m ms ih =>
      rcases List.mem_cons.1 he with rfl | he
      · obtain ⟨job, rfl, rfl, -, -, heq⟩ | ⟨o, -, ho, -, -, hno⟩ :=
          ended_move_cases (s := after s₀ ms) ha
        · refine ⟨nextCall_lt_begin (after s₀ ms) job, ?_⟩
          change Entries.find? _ ((after s₀ ms).move (.begin_ job)).2.ongoing = none
          rw [heq]
          cases ho : Entries.find? (after s₀ ms).nextCall (after s₀ ms).ongoing with
          | none => rfl
          | some o => exact absurd (lt_nextCall_after s₀ ms ho) (Nat.lt_irrefl _)
        · exact ⟨Nat.lt_of_lt_of_le (lt_nextCall_after s₀ ms ho) (nextCall_le_move _ m), hno⟩
      · obtain ⟨hcall, hno⟩ := ih he
        exact ⟨Nat.lt_of_lt_of_le hcall (nextCall_le_move _ m), not_ongoing_move hcall hno m⟩

/-! ### What a call has asked for -/

/-- The reference that a move asks for on behalf of a call. -/
def askingFor? (s : Jobs) (call : Nat) : Move → Option UserRef
  | .go call' => if call' = call then s.asking? (.go call') else none
  | _ => none

/-- The references that a call has asked for in some moves, the first one first. -/
def asked (s₀ : Resolver) (call : Nat) : List Move → List UserRef
  | [] => []
  | m :: ms => asked s₀ call ms ++ ((after s₀ ms).askingFor? call m).toList

/-- What a call is about to ask for. -/
def unasked : Phase → List UserRef
  | .asks r => [r]
  | _ => []

theorem asked_of_ne (hm : m ≠ .go call) : asked s₀ call (m :: ms) = asked s₀ call ms := by
  have hno : (after s₀ ms).askingFor? call m = none := by
    cases m with
    | go call' => exact if_neg fun hcall => hm (congrArg Move.go hcall)
    | _ => rfl
  rw [asked, hno, Option.toList_none, List.append_nil]

/-- In its turn a call asks for what it is about to ask for. -/
theorem asked_go (ho : Entries.find? call (after s₀ ms).ongoing = some o) :
    asked s₀ call (.go call :: ms) = asked s₀ call ms ++ unasked o.phase := by
  have hasking : ((after s₀ ms).askingFor? call (.go call)).toList = unasked o.phase := by
    rw [askingFor?, if_pos rfl, asking?, ho, Option.map_some]
    cases o.phase <;> rfl
  rw [asked, hasking]

theorem asked_of_not_ongoing (hno : Entries.find? call (after s₀ ms).ongoing = none) (m : Move) :
    asked s₀ call (m :: ms) = asked s₀ call ms := by
  by_cases hm : m = .go call
  · have hasking : (after s₀ ms).askingFor? call (.go call) = none := by
      rw [askingFor?, if_pos rfl, asking?, hno, Option.map_none]
    rw [hm, asked, hasking, Option.toList_none, List.append_nil]
  · exact asked_of_ne hm

/-- A call that has not begun has asked for nothing. -/
theorem asked_of_nextCall_le (h : (after s₀ ms).nextCall ≤ call) : asked s₀ call ms = [] := by
  induction ms with
  | nil => rfl
  | cons m ms ih =>
      have hle := Nat.le_trans (nextCall_le_move (after s₀ ms) m) h
      rw [asked_of_not_ongoing, ih hle]
      cases ho : Entries.find? call (after s₀ ms).ongoing with
      | none => rfl
      | some o => exact absurd (lt_nextCall_after s₀ ms ho) (Nat.not_lt.2 hle)

/-! ### What a call has got -/

/-- A call has asked for a reference, and was told what to wait for. -/
inductive Awaited (s₀ : Resolver) (call : Nat) (r : UserRef) (w : SecretWait) :
    List Move → Prop where
  | asks {ms : List Move} {o : Ongoing} (ho : Entries.find? call (after s₀ ms).ongoing = some o)
      (hp : o.phase = .asks r) (hstart : (startSecret r (after s₀ ms).resolver).1 = .waits w) :
      Awaited s₀ call r w (.go call :: ms)
  | later {ms : List Move} (m : Move) (h : Awaited s₀ call r w ms) : Awaited s₀ call r w (m :: ms)

/-- A call has got a result for a reference: it has asked for the reference and was given the result at
once, or it has waited for what it was told to wait for until that was ready. -/
inductive Obtained (s₀ : Resolver) (call : Nat) (r : UserRef)
    (result : Except SecretError UserSecret) : List Move → Prop where
  | atOnce {ms : List Move} {o : Ongoing} (ho : Entries.find? call (after s₀ ms).ongoing = some o)
      (hp : o.phase = .asks r) (hstart : (startSecret r (after s₀ ms).resolver).1 = .done result) :
      Obtained s₀ call r result (.go call :: ms)
  | awaited {ms : List Move} {o : Ongoing} {w : SecretWait} (hw : Awaited s₀ call r w ms)
      (ho : Entries.find? call (after s₀ ms).ongoing = some o) (hp : o.phase = .awaits w)
      (hready : timeOf (w.readyAt (after s₀ ms).resolver) (after s₀ ms).resolver ≤
        (after s₀ ms).resolver.now)
      (hfinish : (finishSecret w (after s₀ ms).resolver).1 = result) :
      Obtained s₀ call r result (.go call :: ms)
  | later {ms : List Move} (m : Move) (h : Obtained s₀ call r result ms) :
      Obtained s₀ call r result (m :: ms)

/-- What a call waits for it was told to wait for, and what it has got it has asked for; a call for one
user secret asks for that. -/
structure Procured (s₀ : Resolver) (call : Nat) (ms : List Move) (o : Ongoing) : Prop where
  awaits : ∀ w, o.phase = .awaits w → Awaited s₀ call w.reference w ms
  has : ∀ r result, o.phase = .has r result → Obtained s₀ call r result ms
  isFor : ∀ r, o.job = .secret r → o.phase.IsFor r

namespace Procured

theorem later (h : Procured s₀ call ms o) (m : Move) : Procured s₀ call (m :: ms) o where
  awaits w hp := .later m (h.awaits w hp)
  has r result hp := .later m (h.has r result hp)
  isFor := h.isFor

theorem begins {job : Job} (h : job.Begins o) : Procured s₀ call ms o := by
  cases h with
  | asks r further h => exact ⟨nofun, nofun, h⟩
  | file hjob phase hp =>
      refine ⟨?_, ?_, fun r hr => absurd hr (hjob r)⟩
      · rintro w rfl
        exact hp.elim
      · rintro r result rfl
        exact hp.elim

/-- A step of a call. -/
theorem steps {o' : Ongoing} (h : Procured s₀ call ms o)
    (ho : Entries.find? call (after s₀ ms).ongoing = some o)
    (hsteps : o.Steps (after s₀ ms).resolver o') : Procured s₀ call (.go call :: ms) o' := by
  cases hsteps with
  | @asks r hp =>
      have hfor (phase : Phase) (hphase : phase.IsFor r) (r' : UserRef) (hr' : o.job = .secret r') :
          phase.IsFor r' := by
        have hr := h.isFor r' hr'
        rw [hp] at hr
        obtain rfl : r = r' := hr
        exact hphase
      cases hstart : (startSecret r (after s₀ ms).resolver).1 with
      | done result =>
          refine ⟨nofun, ?_, hfor (.has r result) rfl⟩
          rintro r' result' ⟨⟩
          exact .atOnce ho hp hstart
      | waits w =>
          have hreference : w.reference = r := reference_of_startSecret hstart
          refine ⟨?_, nofun, hfor (.awaits w) hreference⟩
          rintro w' ⟨⟩
          rw [hreference]
          exact .asks ho hp hstart
  | @gets w hp hready =>
      refine ⟨nofun, ?_, ?_⟩
      · rintro r result ⟨⟩
        exact .awaited (h.awaits w hp) ho hp hready rfl
      · intro r hr
        have hfor := h.isFor r hr
        rw [hp] at hfor
        exact hfor
  | waits hp => exact h.later _
  | hands hjob hp hf => exact ⟨nofun, nofun, fun r hr => absurd hr (hjob r)⟩
  | file hp phase hphase =>
      refine ⟨?_, ?_, fun r hr => absurd (h.isFor r hr) (hp.not_isFor r)⟩
      · rintro w rfl
        exact hphase.elim
      · rintro r result rfl
        exact hphase.elim

end Procured

/-- **What calls have got, they have asked for**, in every run. -/
theorem procured_after (s₀ : Resolver) (ms : List Move) {call : Nat} {o : Ongoing}
    (ho : Entries.find? call (after s₀ ms).ongoing = some o) : Procured s₀ call ms o := by
  induction ms generalizing o with
  | nil => exact nomatch ho
  | cons m ms ih =>
      obtain ⟨ho, -⟩ | ⟨job, -, -, hbegin⟩ | ⟨o', rfl, ho', hgo⟩ :=
        ongoing_move_cases (s := after s₀ ms) ho
      · exact (ih ho).later m
      · exact .begins (Job.begins_of_begin hbegin)
      · exact (ih ho').steps ho' (Ongoing.steps_of_go hgo)

/-- **A call for one user secret** returns what it has got. -/
theorem obtained_of_ended {r : UserRef} (he : .went call (.secret r) (some answer) ∈ history s₀ ms) :
    ∃ result, answer = .secret result ∧ Obtained s₀ call r result ms := by
  induction ms with
  | nil => exact nomatch he
  | cons m ms ih =>
      obtain heq | he : _ = ((after s₀ ms).move m).1 ∨ _ ∈ history s₀ ms := List.mem_cons.1 he
      · have ha : ((after s₀ ms).move m).1.ended? = some (call, answer) := by rw [← heq]; rfl
        obtain ⟨job, -, -, -, hbegan, -⟩ | ⟨o, rfl, ho, hgo, hwent, -⟩ := ended_move_cases ha
        · rw [hbegan] at heq
          exact nomatch heq
        · rw [hwent] at heq
          injection heq with _ hjob
          have hprocured := procured_after s₀ ms ho
          obtain ⟨result, hp, hconclude⟩ :=
            Ongoing.has_of_done (hprocured.isFor r hjob.symm) hgo
          exact ⟨result, Ongoing.answer_of_secret hjob.symm hconclude,
            .later _ (hprocured.has r result hp)⟩
      · obtain ⟨result, rfl, h⟩ := ih he
        exact ⟨result, rfl, .later m h⟩

end Jobs

end SecretResolver
