/-
**The ledger tells what was given.**

Calls resolve references for resources, with pauses at every step and with other calls, checks and
clearings in between.  Only when a call returns the field that it was asked for, something is written
down, and only for the resource that it was asked for.  So the ledger of a resource is the history of
what has been given to it since it was last forgotten, and a resource that was given nothing is not in
it.

Main definitions:

* `Jobs.Happening.returned?`, `Jobs.Happening.given?` — what a call returned, and gave to a resource;
* `Jobs.given` — what has been given to a resource since it was last forgotten;
* `Jobs.collected` — references with those left out that are the same as one before;
* `Jobs.Serves` — a step of a call writes down what it gives;
* `Jobs.Orderly` — calls go on for what they have begun for;
* `Jobs.Faithful` — the ledger tells what was given.

Main results:

* `Jobs.serves_go`, `Jobs.serves_begin` — the steps of a call;
* `Jobs.find?_move`, `Jobs.find?_after` — the ledger after one move, and after a run;
* `Jobs.orderly_after` — calls are orderly in every run;
* `Jobs.faithful_after` — **the ledger tells what was given**, after every run.
-/

import SecretResolver.Proofs.Reference.Order
import SecretResolver.Proofs.Resolver.Untouched
import SecretResolver.Resolver.Jobs

set_option relaxedAutoImplicit false
set_option autoImplicit false

namespace SecretResolver

open Resolver

namespace Jobs

/-! ### What was given -/

/-- What a call has returned, with what it was asked for. -/
def Happening.returned? : Happening → Option (Job × Answer)
  | .began _ job (some answer) => some (job, answer)
  | .went _ job (some answer) => some (job, answer)
  | _ => none

/-- The reference of which an answer gives a field to a resource. -/
def given? (resource : String) : Job → Answer → Option UserRef
  | .field resource' r, .field (.ok _) => if resource' = resource then some r else none
  | _, _ => none

/-- The reference of which a field was given to a resource. -/
def Happening.given? (e : Happening) (resource : String) : Option UserRef :=
  e.returned?.bind fun a => Jobs.given? resource a.1 a.2

/-- Whether a resource was forgotten. -/
def Happening.stops (e : Happening) (resource : String) : Bool :=
  match e with
  | .stopped resource' _ => resource' = resource
  | _ => false

/-- The references of which a field has been given to a resource since it was last forgotten, the last
one first. -/
def given (resource : String) : List Happening → List UserRef
  | [] => []
  | e :: past =>
      if e.stops resource then [] else (e.given? resource).toList ++ given resource past

/-- A field was given when a call returned that was asked for it and has not failed. -/
theorem given?_eq_some_iff {e : Happening} {resource : String} {r : UserRef} :
    e.given? resource = some r ↔
      ∃ value, e.returned? = some (.field resource r, .field (.ok value)) := by
  rw [Happening.given?, Option.bind_eq_some_iff]
  constructor
  · rintro ⟨⟨job, answer⟩, hreturned, hgiven⟩
    dsimp only at hgiven
    unfold Jobs.given? at hgiven
    split at hgiven
    · split at hgiven
      · rename_i hresource
        obtain rfl := hresource
        obtain rfl := Option.some.inj hgiven
        exact ⟨_, hreturned⟩
      · exact nomatch hgiven
    · exact nomatch hgiven
  · rintro ⟨value, hreturned⟩
    exact ⟨_, hreturned, by simp [Jobs.given?]⟩

/-! ### References without repetitions -/

/-- References, the last one first, with those left out that are the same as one before. -/
def collected : List UserRef → List UserRef
  | [] => []
  | r :: rs => insertRef r (collected rs)

theorem insertRef_cases (r : UserRef) (rs : List UserRef) :
    ((∃ r' ∈ rs, r'.sameAs r = true) ∧ insertRef r rs = rs) ∨
      ((∀ r' ∈ rs, r'.sameAs r = false) ∧ insertRef r rs = rs ++ [r]) := by
  unfold insertRef
  cases h : rs.any fun r' => r'.sameAs r with
  | true => exact .inl ⟨List.any_eq_true.1 h, rfl⟩
  | false => exact .inr ⟨fun r' hr' => by simpa using List.any_eq_false.1 h r' hr', rfl⟩

theorem mem_of_mem_insertRef {r r' : UserRef} {rs : List UserRef} (h : r' ∈ insertRef r rs) :
    r' ∈ rs ∨ r' = r := by
  rcases insertRef_cases r rs with ⟨-, heq⟩ | ⟨-, heq⟩
  · rw [heq] at h
    exact .inl h
  · rw [heq, List.mem_append, List.mem_singleton] at h
    exact h

theorem insertRef_ne_nil (r : UserRef) (rs : List UserRef) : insertRef r rs ≠ [] := by
  rcases insertRef_cases r rs with ⟨⟨r', hr', -⟩, heq⟩ | ⟨-, heq⟩
  · rw [heq]
    exact List.ne_nil_of_mem hr'
  · rw [heq]
    exact List.append_ne_nil_of_right_ne_nil rs (List.cons_ne_nil r [])

/-- All that is collected is among the references. -/
theorem mem_of_mem_collected {rs : List UserRef} : ∀ r ∈ collected rs, r ∈ rs := by
  induction rs with
  | nil => exact fun r hr => hr
  | cons r rs ih =>
      intro r' hr'
      rcases mem_of_mem_insertRef hr' with hr' | rfl
      · exact List.mem_cons_of_mem r (ih r' hr')
      · exact List.mem_cons_self ..

/-- For every reference one is collected that is the same. -/
theorem exists_mem_collected {rs : List UserRef} :
    ∀ r ∈ rs, ∃ r' ∈ collected rs, r'.sameAs r = true := by
  induction rs with
  | nil => exact fun r hr => nomatch hr
  | cons r rs ih =>
      intro r' hr'
      rw [collected]
      rcases insertRef_cases r (collected rs) with ⟨hsame, heq⟩ | ⟨-, heq⟩
      · rw [heq]
        rcases List.mem_cons.1 hr' with rfl | hr'
        · exact hsame
        · exact ih r' hr'
      · rw [heq]
        rcases List.mem_cons.1 hr' with rfl | hr'
        · exact ⟨r', by simp, r'.sameAs_refl⟩
        · obtain ⟨r'', hr'', hsame⟩ := ih r' hr'
          exact ⟨r'', List.mem_append_left _ hr'', hsame⟩

/-- If no two references are the same, then neither are they with one more. -/
theorem pairwise_insertRef {rs : List UserRef}
    (h : rs.Pairwise fun r r' => r.sameAs r' = false) (r : UserRef) :
    (insertRef r rs).Pairwise fun r r' => r.sameAs r' = false := by
  rcases insertRef_cases r rs with ⟨-, heq⟩ | ⟨hother, heq⟩
  · rwa [heq]
  · rw [heq, List.pairwise_append]
    refine ⟨h, List.pairwise_singleton _ r, ?_⟩
    intro r' hr' r'' hr''
    rw [List.mem_singleton.1 hr'']
    exact hother r' hr'

/-- No two references are collected that are the same. -/
theorem pairwise_collected (rs : List UserRef) :
    (collected rs).Pairwise fun r r' => r.sameAs r' = false := by
  induction rs with
  | nil => exact .nil
  | cons r rs ih => exact pairwise_insertRef ih r

theorem collected_eq_nil_iff {rs : List UserRef} : collected rs = [] ↔ rs = [] := by
  cases rs with
  | nil => exact ⟨fun h => h, fun h => h⟩
  | cons r rs =>
      refine ⟨fun h => ?_, fun h => nomatch h⟩
      exact absurd h (insertRef_ne_nil r (collected rs))

/-! ### One step -/

/-- What a ledger has for a resource after something may have been given to it. -/
def entryAfter (ledger : Ledger) (resource : String) : Option UserRef → Option (List UserRef)
  | none => Entries.find? resource ledger
  | some r => some (insertRef r ((Entries.find? resource ledger).getD []))

/-- The answer of a stage that is the last. -/
def answer? : Stage → Option Answer
  | .ongoing _ => none
  | .done answer => some answer

/-- A step of a call for a job. -/
structure Serves (job : Job) (x : Action Stage) : Prop where
  /-- It writes down for a resource what it gives to that resource. -/
  writes : ∀ s resource, Entries.find? resource (x s).2.ledger =
    entryAfter s.ledger resource ((answer? (x s).1).bind (given? resource job))
  /-- If the call goes on, then for the same job. -/
  job_eq : ∀ s o, (x s).1 = .ongoing o → o.job = job

namespace Serves

variable {α : Type} {job : Job}

theorem ongoing {o : Ongoing} (h : o.job = job) : Serves job (pure (.ongoing o)) where
  writes _ _ := rfl
  job_eq _ _ ho := by rwa [← Stage.ongoing.inj ho]

theorem done {answer : Answer} (h : ∀ resource, given? resource job answer = none) :
    Serves job (pure (.done answer)) where
  writes s resource := by
    rw [Action.pure_apply, answer?, Option.bind_some, h]
    rfl
  job_eq _ _ ho := nomatch ho

theorem bind {x : Action α} {f : α → Action Stage} (hx : x.Keeps untouched)
    (hf : ∀ a, Serves job (f a)) : Serves job (x >>= f) where
  writes s resource := by rw [Action.bind_apply, (hf _).writes, hx.ledger]
  job_eq s o ho := (hf _).job_eq _ o ho

theorem get_bind {f : Resolver → Action Stage} (hf : ∀ s, Serves job (f s)) :
    Serves job (get >>= f) where
  writes s := (hf s).writes s
  job_eq s := (hf s).job_eq s

end Serves

theorem given?_checked (resource : String) (job : Job) (fault : Option SecretError) :
    given? resource job (.checked fault) = none := by
  cases job <;> rfl

theorem serves_faulty (job : Job) (invalid : SecretError → LogEvent) (fault : Option SecretError) :
    Serves job (Job.faulty invalid fault) := by
  cases fault with
  | none => exact .done fun resource => given?_checked resource job none
  | some e =>
      refine .bind (keeps_note (invalid e)) fun _ => .done ?_
      intro resource
      exact given?_checked resource job (some e)

theorem serves_next (job : Job) (handed : List (UserRef × UserSecret)) (rs : List UserRef) :
    Serves job (pure (job.next handed rs)) := by
  cases rs with
  | nil => exact .done fun resource => by cases job <;> rfl
  | cons r rs => exact .ongoing rfl

/-- A field that is handed to a resource is written down for it, and a failure is not. -/
theorem serves_giveField (resource : String) (r : UserRef)
    (result : Except SecretError UserSecret) :
    Serves (.field resource r) (do return .done (.field (← giveField resource r result))) := by
  refine ⟨fun s resource' => ?_, fun s o ho => nomatch ho⟩
  simp only [Action.bind_apply, Action.pure_apply, answer?, Option.bind_some]
  cases result with
  | error e => rfl
  | ok secret =>
      cases hvalue : fieldOf r secret with
      | error e => simp [giveField, hvalue, given?, entryAfter]
      | ok value =>
          have hledger : (track resource r s).2.ledger =
              Entries.put resource (insertRef r (s.tracked resource)) s.ledger := rfl
          simp only [giveField, hvalue, Action.bind_apply, Action.pure_apply, given?, hledger,
            Entries.find?_put]
          split
          · rename_i hresource
            obtain rfl := hresource
            rfl
          · rfl

/-- When a call has what has come of its reference, it writes down the field that it gives. -/
theorem serves_conclude (o : Ongoing) (r : UserRef) (result : Except SecretError UserSecret) :
    Serves o.job (o.conclude r result) := by
  unfold Ongoing.conclude
  cases o.job with
  | field resource r' => exact serves_giveField resource r' result
  | each resource order =>
      cases result with
      | error e => exact .done fun _ => rfl
      | ok secret => exact serves_next _ _ _
  | check text => exact serves_faulty _ _ _
  | checkUser text => exact serves_faulty _ _ _
  | _ => exact .done fun _ => rfl

theorem serves_concludeFile (o : Ongoing) (result : Except SecretError Bytes) :
    Serves o.job (o.concludeFile result) := by
  unfold Ongoing.concludeFile
  cases o.job with
  | check text => exact serves_faulty _ _ _
  | checkExternal text => exact serves_faulty _ _ _
  | _ => exact .done fun _ => rfl

/-- **One step of a call** writes down what it gives. -/
theorem serves_go (o : Ongoing) : Serves o.job o.go := by
  unfold Ongoing.go
  cases o.phase with
  | asks r =>
      refine .bind (keeps_startSecret r) fun c => ?_
      cases c <;> exact .ongoing rfl
  | awaits w =>
      refine .get_bind fun s => ?_
      split
      · exact .bind (keeps_finishSecret w) fun _ => .ongoing rfl
      · exact .ongoing rfl
  | has r result => exact serves_conclude o r result
  | awaitsFile w =>
      refine .get_bind fun s => ?_
      split
      · exact .bind (keeps_finishDecrypt w) fun _ => .ongoing rfl
      · exact .ongoing rfl
  | hasFile result => exact serves_concludeFile o result

theorem serves_beginFile (job : Job) (r : EncryptedRef) : Serves job (job.beginFile r) := by
  refine .bind (keeps_startDecrypt r) fun c => ?_
  cases c <;> exact .ongoing rfl

theorem serves_beginCheckUser (job : Job) (text : String) :
    Serves job (job.beginCheckUser text) := by
  unfold Job.beginCheckUser
  split
  · exact serves_faulty job _ _
  · exact .bind (keeps_note _) fun _ => .ongoing rfl

theorem serves_beginCheckExternal (job : Job) (text : String) :
    Serves job (job.beginCheckExternal text) := by
  unfold Job.beginCheckExternal
  split
  · exact serves_faulty job _ _
  · exact .bind (keeps_note _) fun _ => serves_beginFile job _

/-- **The beginning of a call** writes nothing down, as nothing is given. -/
theorem serves_begin (job : Job) : Serves job job.begin_ := by
  cases job with
  | field resource r => exact .ongoing rfl
  | secret r => exact .ongoing rfl
  | each resource order => exact .get_bind fun s => serves_next _ _ _
  | check text =>
      unfold Job.begin_
      dsimp only
      split
      · exact serves_beginCheckUser _ text
      · split
        · exact serves_beginCheckExternal _ text
        · exact .done fun _ => rfl
  | checkUser text => exact serves_beginCheckUser _ text
  | checkExternal text => exact serves_beginCheckExternal _ text
  | bytes r => exact serves_beginFile _ r
  | text r => exact serves_beginFile _ r

/-! ### One move -/

/-- A resource that is forgotten has no entry any more. -/
theorem find?_stopTracking (s : Resolver) (resource resource' : String) :
    (stopTracking resource s).1 = s.isTracking resource ∧
      Entries.find? resource' (stopTracking resource s).2.ledger =
        if resource = resource' then none else Entries.find? resource' s.ledger := by
  cases hknown : s.isTracking resource with
  | true =>
      have hstop : stopTracking resource s = (true, { s with
          ledger := Entries.drop resource s.ledger
          log := .untracked resource :: s.log }) := by
        simp [stopTracking, hknown]
      rw [hstop]
      exact ⟨rfl, Entries.find?_drop resource resource' s.ledger⟩
  | false =>
      have hstop : stopTracking resource s = (false, s) := by
        simp [stopTracking, hknown]
      rw [hstop]
      refine ⟨rfl, ?_⟩
      split
      · rename_i hresource
        obtain rfl := hresource
        simpa [isTracking] using hknown
      · rfl

/-- What a ledger has for a resource after something has happened: nothing if the resource was
forgotten, and otherwise what was given to it is entered. -/
def Happening.entryAfter (e : Happening) (ledger : Ledger) (resource : String) :
    Option (List UserRef) :=
  if e.stops resource then none else Jobs.entryAfter ledger resource (e.given? resource)

/-- **What one move writes down.** -/
theorem find?_move (s : Jobs) (m : Move) (resource : String) :
    Entries.find? resource (s.move m).2.resolver.ledger =
      (s.move m).1.entryAfter s.resolver.ledger resource := by
  have hact {x : Action Unit} (hx : x.Keeps untouched) :
      Entries.find? resource (s.act x).resolver.ledger =
        Entries.find? resource s.resolver.ledger := by
    rw [act, hx.ledger]
  cases m with
  | begin_ job =>
      have hwrites := (serves_begin job).writes s.resolver resource
      obtain ⟨o, resolver, hbegin, heq⟩ | ⟨answer, resolver, hbegin, heq⟩ := s.begin_cases job
      all_goals
        rw [hbegin] at hwrites
        rw [move, heq]
        exact hwrites
  | go call =>
      obtain ⟨-, heq⟩ | ⟨o, o', resolver, -, hgo, heq⟩ | ⟨o, answer, resolver, -, hgo, heq⟩ :=
        s.go_cases call
      · rw [move, heq]
        rfl
      all_goals
        have hwrites := (serves_go o).writes s.resolver resource
        rw [hgo] at hwrites
        rw [move, heq]
        exact hwrites
  | abort call => rfl
  | stop resource' =>
      refine (find?_stopTracking s.resolver resource' resource).2.trans ?_
      change _ = Happening.entryAfter (.stopped resource' (stopTracking resource' s.resolver).1)
        s.resolver.ledger resource
      by_cases hresource : resource' = resource
      · simp [Happening.entryAfter, Happening.stops, hresource]
      · simp [Happening.entryAfter, Happening.stops, hresource, Happening.given?,
          Happening.returned?, Jobs.entryAfter]
  | clearSecrets => exact hact keeps_clearSecrets
  | clearEngines => exact hact keeps_clearEngines
  | pass ms => rfl
  | restock store => rfl
  | refill vault => rfl

/-- Only the move that says so makes a resource forgotten. -/
theorem eq_stop_of_stops {s : Jobs} {m : Move} {resource : String}
    (h : (s.move m).1.stops resource = true) : m = .stop resource := by
  cases m with
  | begin_ job =>
      obtain ⟨o, resolver, -, heq⟩ | ⟨answer, resolver, -, heq⟩ := s.begin_cases job
      all_goals
        rw [move, heq] at h
        exact nomatch h
  | go call =>
      obtain ⟨-, heq⟩ | ⟨o, o', resolver, -, -, heq⟩ | ⟨o, answer, resolver, -, -, heq⟩ :=
        s.go_cases call
      all_goals
        rw [move, heq] at h
        exact nomatch h
  | stop resource' =>
      have hresource : resource' = resource := of_decide_eq_true h
      rw [hresource]
  | _ => exact nomatch h

/-! ### A whole run -/

/-- What the ledger has for a resource to which some references were given. -/
def entry (rs : List UserRef) : Option (List UserRef) := if rs = [] then none else some (collected rs)

variable {s₀ : Resolver}

theorem getD_entry (rs : List UserRef) : (entry rs).getD [] = collected rs := by
  unfold entry
  split
  · rename_i hnil
    rw [hnil]
    rfl
  · rfl

theorem find?_after_cons (s₀ : Resolver) (m : Move) (ms : List Move) (resource : String) :
    Entries.find? resource (after s₀ (m :: ms)).resolver.ledger =
      ((after s₀ ms).move m).1.entryAfter (after s₀ ms).resolver.ledger resource :=
  find?_move (after s₀ ms) m resource

/-- **The ledger after a run** has what was given. -/
theorem find?_after (h : s₀.ledger = []) (ms : List Move) (resource : String) :
    Entries.find? resource (after s₀ ms).resolver.ledger =
      entry (given resource (history s₀ ms)) := by
  induction ms with
  | nil =>
      have hledger : (after s₀ []).resolver.ledger = [] := h
      rw [hledger]
      rfl
  | cons m ms ih =>
      change _ = entry (given resource (((after s₀ ms).move m).1 :: history s₀ ms))
      rw [find?_after_cons, given, Happening.entryAfter]
      split
      · rfl
      · cases ((after s₀ ms).move m).1.given? resource with
        | none => exact ih
        | some r => rw [Jobs.entryAfter, ih, getD_entry]; rfl

/-- Something was given since a resource was last forgotten just when a call has returned it and the
resource was not forgotten after that. -/
theorem mem_given_iff {resource : String} {r : UserRef} {past : List Happening} :
    r ∈ given resource past ↔ ∃ newer e older, past = newer ++ e :: older ∧
      e.given? resource = some r ∧ e.stops resource = false ∧
      ∀ e' ∈ newer, e'.stops resource = false := by
  induction past with
  | nil => simp [given]
  | cons e past ih =>
      rw [given]
      constructor
      · intro h
        split at h
        · exact nomatch h
        · rename_i hstops
          have hstops : e.stops resource = false := by simpa using hstops
          rcases List.mem_append.1 h with h | h
          · exact ⟨[], e, past, rfl, Option.mem_toList.1 h, hstops, fun e' he' => nomatch he'⟩
          · obtain ⟨newer, e', older, rfl, hgiven, hstops', hnewer⟩ := ih.1 h
            refine ⟨e :: newer, e', older, rfl, hgiven, hstops', ?_⟩
            intro e'' he''
            rcases List.mem_cons.1 he'' with rfl | he''
            · exact hstops
            · exact hnewer e'' he''
      · rintro ⟨newer, e', older, hpast, hgiven, hstops', hnewer⟩
        cases newer with
        | nil =>
            obtain ⟨rfl, rfl⟩ := List.cons.inj hpast
            rw [if_neg (by simp [hstops'])]
            exact List.mem_append_left _ (Option.mem_toList.2 hgiven)
        | cons e'' newer =>
            obtain ⟨rfl, rfl⟩ := List.cons.inj hpast
            have hstops : e.stops resource = false := hnewer e (List.mem_cons_self ..)
            rw [if_neg (by simp [hstops])]
            refine List.mem_append_right _ (ih.2 ⟨newer, e', older, rfl, hgiven, hstops', ?_⟩)
            exact fun x hx => hnewer x (List.mem_cons_of_mem e hx)

/-! ### Calls -/

/-- Calls go on for what they have begun for, and a field is returned only by a call that has begun for
it. -/
structure Orderly (s : Jobs) (past : List Happening) : Prop where
  ongoing : ∀ call o, Entries.find? call s.ongoing = some o → .began call o.job none ∈ past
  returned : ∀ e ∈ past, ∀ resource r answer, e.returned? = some (.field resource r, answer) →
    ∃ call, e = .went call (.field resource r) (some answer) ∧
      .began call (.field resource r) none ∈ past

variable {s s' : Jobs} {past : List Happening} {e : Happening}

theorem Orderly.step (h : Orderly s past)
    (hongoing : ∀ call o, Entries.find? call s'.ongoing = some o →
      Entries.find? call s.ongoing = some o ∨ .began call o.job none ∈ e :: past)
    (hreturned : ∀ resource r answer, e.returned? = some (.field resource r, answer) →
      ∃ call, e = .went call (.field resource r) (some answer) ∧
        .began call (.field resource r) none ∈ past) :
    Orderly s' (e :: past) where
  ongoing call o ho := by
    rcases hongoing call o ho with ho | hbegan
    · exact List.mem_cons_of_mem e (h.ongoing call o ho)
    · exact hbegan
  returned e' he' resource r answer ha := by
    have hbegan : ∃ call, e' = .went call (.field resource r) (some answer) ∧
        .began call (.field resource r) none ∈ past := by
      rcases List.mem_cons.1 he' with rfl | he'
      · exact hreturned resource r answer ha
      · exact h.returned e' he' resource r answer ha
    obtain ⟨call, hwent, hmem⟩ := hbegan
    exact ⟨call, hwent, List.mem_cons_of_mem e hmem⟩

/-- Nothing is returned. -/
theorem Orderly.quiet (h : Orderly s past)
    (hongoing : ∀ call o, Entries.find? call s'.ongoing = some o →
      Entries.find? call s.ongoing = some o ∨ .began call o.job none ∈ e :: past)
    (hquiet : e.returned? = none) : Orderly s' (e :: past) := by
  refine h.step hongoing ?_
  intro resource r answer ha
  rw [hquiet] at ha
  exact nomatch ha

theorem find?_put_of_some {call call' : Nat} {o o' : Ongoing} {es : List (Nat × Ongoing)}
    (h : Entries.find? call' (Entries.put call o es) = some o') :
    Entries.find? call' es = some o' ∨ call = call' ∧ o = o' := by
  rw [Entries.find?_put] at h
  split at h
  · rename_i hcall
    exact .inr ⟨hcall, Option.some.inj h⟩
  · exact .inl h

theorem find?_drop_of_some {call call' : Nat} {o : Ongoing} {es : List (Nat × Ongoing)}
    (h : Entries.find? call' (Entries.drop call es) = some o) : Entries.find? call' es = some o := by
  rw [Entries.find?_drop] at h
  split at h
  · exact absurd h.symm (Option.some_ne_none o)
  · exact h

theorem Orderly.begin_ (h : Orderly s past) (job : Job) :
    Orderly (s.begin_ job).2 ((s.begin_ job).1 :: past) := by
  have hserves := serves_begin job
  obtain ⟨o, resolver, hbegin, heq⟩ | ⟨answer, resolver, hbegin, heq⟩ := s.begin_cases job
  · have hjob : o.job = job := hserves.job_eq s.resolver o (by rw [hbegin])
    rw [heq]
    refine h.quiet ?_ rfl
    intro call o' ho'
    rcases find?_put_of_some ho' with ho' | ⟨rfl, rfl⟩
    · exact .inl ho'
    · rw [hjob]
      exact .inr (List.mem_cons_self ..)
  · rw [heq]
    refine h.step (fun _ _ ho => .inl ho) ?_
    intro resource r answer' ha
    -- a call for a field does not return when it begins
    obtain rfl : job = .field resource r := congrArg Prod.fst (Option.some.inj ha)
    exact nomatch congrArg Prod.fst hbegin

theorem Orderly.go (h : Orderly s past) (call : Nat) :
    Orderly (s.go call).2 ((s.go call).1 :: past) := by
  obtain ⟨-, heq⟩ | ⟨o, o', resolver, ho, hgo, heq⟩ | ⟨o, answer, resolver, ho, -, heq⟩ :=
    s.go_cases call
  · rw [heq]
    exact h.quiet (fun _ _ ho => .inl ho) rfl
  · have hjob : o'.job = o.job := (serves_go o).job_eq s.resolver o' (by rw [hgo])
    rw [heq]
    refine h.quiet ?_ rfl
    intro call' o'' ho''
    rcases find?_put_of_some ho'' with ho'' | ⟨rfl, rfl⟩
    · exact .inl ho''
    · rw [hjob]
      exact .inr (List.mem_cons_of_mem _ (h.ongoing call o ho))
  · have hbegan := h.ongoing call o ho
    rw [heq]
    refine h.step (fun _ _ ho => .inl (find?_drop_of_some ho)) ?_
    intro resource r answer' ha
    obtain ⟨hfor, rfl⟩ := Prod.mk.inj (Option.some.inj ha)
    rw [hfor] at hbegan ⊢
    exact ⟨call, rfl, hbegan⟩

theorem Orderly.move (h : Orderly s past) (m : Move) :
    Orderly (s.move m).2 ((s.move m).1 :: past) := by
  cases m with
  | begin_ job => exact h.begin_ job
  | go call => exact h.go call
  | abort call => exact h.quiet (fun _ _ ho => .inl (find?_drop_of_some ho)) rfl
  | _ => exact h.quiet (fun _ _ ho => .inl ho) rfl

/-- **Calls are orderly** in every run. -/
theorem orderly_after (s₀ : Resolver) (ms : List Move) : Orderly (after s₀ ms) (history s₀ ms) := by
  induction ms with
  | nil => exact ⟨fun _ _ ho => (nomatch ho), fun _ he => nomatch he⟩
  | cons m ms ih => exact ih.move m

/-! ### The ledger -/

/-- The ledger tells what was given to a resource in a run. -/
structure Faithful (s₀ : Resolver) (ms : List Move) (resource : String) : Prop where
  /-- What was given was returned by a call that was asked for it. -/
  asked : ∀ r ∈ given resource (history s₀ ms), ∃ call value,
    .began call (.field resource r) none ∈ history s₀ ms ∧
      .went call (.field resource r) (some (.field (.ok value))) ∈ history s₀ ms
  /-- Those references are tracked that are the same as one of which a field was given. -/
  tracked : ∀ r, (∃ r' ∈ (after s₀ ms).resolver.tracked resource, r'.sameAs r = true) ↔
    ∃ r' ∈ given resource (history s₀ ms), r'.sameAs r = true
  /-- They are tracked as they were written in some such call. -/
  written : ∀ r ∈ (after s₀ ms).resolver.tracked resource, r ∈ given resource (history s₀ ms)
  /-- Each is tracked once. -/
  once : ((after s₀ ms).resolver.tracked resource).Pairwise fun r r' => r.sameAs r' = false
  /-- A resource is known just when something was given to it. -/
  known : (after s₀ ms).resolver.isTracking resource = true ↔
    given resource (history s₀ ms) ≠ []
  /-- No resource is known without a reference that is tracked for it. -/
  filled : (after s₀ ms).resolver.isTracking resource = true ↔
    (after s₀ ms).resolver.tracked resource ≠ []
  /-- Whoever forgets it is told whether it was known. -/
  stopped : ((after s₀ ms).move (.stop resource)).1 =
    .stopped resource (decide (given resource (history s₀ ms) ≠ []))
  /-- Nothing changes what is tracked for it but forgetting it and a call for it that returns a
  field. -/
  unchanged : ∀ m, m ≠ .stop resource →
    (∀ r value, ((after s₀ ms).move m).1.returned? ≠ some (.field resource r, .field (.ok value))) →
      Entries.find? resource (after s₀ (m :: ms)).resolver.ledger =
        Entries.find? resource (after s₀ ms).resolver.ledger

/-- **The ledger tells what was given**, after every run of a resolver whose ledger was empty. -/
theorem faithful_after (h : s₀.ledger = []) (ms : List Move) (resource : String) :
    Faithful s₀ ms resource := by
  have hentry := find?_after h ms resource
  have htracked : (after s₀ ms).resolver.tracked resource =
      collected (given resource (history s₀ ms)) := by
    rw [Resolver.tracked, hentry, getD_entry]
  have hknown : (after s₀ ms).resolver.isTracking resource =
      decide (given resource (history s₀ ms) ≠ []) := by
    rw [isTracking, hentry, entry]
    split
    · rename_i hnil
      simp [hnil]
    · rename_i hsome
      simp [hsome]
  constructor
  case asked =>
    intro r hr
    obtain ⟨newer, e, older, hpast, hgiven, -⟩ := mem_given_iff.1 hr
    obtain ⟨value, hreturned⟩ := given?_eq_some_iff.1 hgiven
    have hmem : e ∈ history s₀ ms := by simp [hpast]
    obtain ⟨call, rfl, hbegan⟩ := (orderly_after s₀ ms).returned e hmem resource r _ hreturned
    exact ⟨call, value, hbegan, hmem⟩
  case tracked =>
    intro r
    rw [htracked]
    constructor
    · rintro ⟨r', hr', hsame⟩
      exact ⟨r', mem_of_mem_collected r' hr', hsame⟩
    · rintro ⟨r', hr', hsame⟩
      obtain ⟨r'', hr'', hsame'⟩ := exists_mem_collected r' hr'
      exact ⟨r'', hr'', UserRef.sameAs_trans hsame' hsame⟩
  case written =>
    rw [htracked]
    exact mem_of_mem_collected
  case once =>
    rw [htracked]
    exact pairwise_collected _
  case known => rw [hknown, decide_eq_true_eq]
  case filled => rw [hknown, decide_eq_true_eq, htracked, Ne, Ne, collected_eq_nil_iff]
  case stopped =>
    have hstop := (find?_stopTracking (after s₀ ms).resolver resource resource).1
    rw [← hknown, ← hstop]
    rfl
  case unchanged =>
    intro m hm hother
    have hstops : ((after s₀ ms).move m).1.stops resource = false := by
      rw [← Bool.not_eq_true]
      exact fun h => hm (eq_stop_of_stops h)
    have hgiven : ((after s₀ ms).move m).1.given? resource = none := by
      cases hg : ((after s₀ ms).move m).1.given? resource with
      | none => rfl
      | some r =>
          obtain ⟨value, hreturned⟩ := given?_eq_some_iff.1 hg
          exact absurd hreturned (hother r value)
    rw [find?_after_cons, Happening.entryAfter, hstops, hgiven]
    rfl

/-- A resource is forgotten when a call for it has got its user secret and has not written anything down
yet: it was given nothing before, and is given the field after. -/
theorem faithful_after_stop :
    let s₀ := (Resolver.register .embedded (.empty .standard (.objects []))).2
    let r : UserRef := ⟨"noop", ⟨[("v", "x"), ("k", "v")], by decide⟩⟩
    let ms : List Move := [.go 0, .stop "a", .go 0, .go 0, .begin_ (.field "a" r)]
    s₀.ledger = [] ∧ Faithful s₀ ms "a" ∧ given "a" (history s₀ ms) = [r] := by
  intro s₀ r ms
  have h : s₀.ledger = [] := rfl
  exact ⟨h, faithful_after h ms "a", rfl⟩

end Jobs

end SecretResolver
