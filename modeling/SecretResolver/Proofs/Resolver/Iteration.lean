/-
**Handing over the user secrets of a resource.**

A call for the user secrets of a resource takes down which references are tracked when it begins, and
goes through them one after the other.  Between any two of its turns other calls may get fields for the
resource, the resource may be forgotten, caches may be cleared, and whatever else.  What is handed over
are the references that were taken down, in their order, each once and with the user secret that was got
for it, up to the first for which none was got; and nothing is asked for after that.

Main definitions:

* `Jobs.Unrepeated` — no two references are the same;
* `Jobs.Walks`, `Jobs.Final` — how far a call has come with the references, and how it ends;
* `Jobs.Undertakes` — it is on its way or has come to its end;
* `Jobs.HandedOver`, `Jobs.HandsOver` — what is handed over, and how it is done.

Main results:

* `Jobs.unrepeated_tracked` — references are tracked once;
* `Jobs.undertakes_begin`, `Jobs.Undertakes.move`, `Jobs.undertakes_after` — a call begins, a move is
  made, a whole run;
* `Jobs.keeps_go_each` — a turn of the call leaves the ledger as it is;
* `Jobs.handsOver_after` — **references are handed over in order, each once, up to the first that
  fails**, in every run.
-/

import SecretResolver.Proofs.Resolver.Apart

set_option relaxedAutoImplicit false
set_option autoImplicit false

namespace SecretResolver

open Resolver

namespace Jobs

variable {s₀ : Resolver} {before ms : List Move} {m : Move} {call : Nat} {resource : String}
  {order : List UserRef → List UserRef} {rs : List UserRef} {o o' : Ongoing} {answer : Answer}

/-! ### References, each once -/

/-- No two references are the same. -/
def Unrepeated (rs : List UserRef) : Prop := rs.Pairwise fun r r' => r.sameAs r' = false

theorem Unrepeated.perm {rs' : List UserRef} (h : Unrepeated rs) (hperm : rs'.Perm rs) :
    Unrepeated rs' := by
  refine (hperm.pairwise_iff fun {r r'} hother => ?_).2 h
  rw [← Bool.not_eq_true] at hother ⊢
  exact fun hsame => hother (UserRef.sameAs_symm hsame)

theorem unrepeated_entryAfter {ledger : Ledger} (given : Option UserRef)
    (h : Unrepeated ((Entries.find? resource ledger).getD [])) :
    Unrepeated ((entryAfter ledger resource given).getD []) := by
  cases given with
  | none => exact h
  | some r => exact pairwise_insertRef h r

/-- **References are tracked once** in every run, if they were so at first. -/
theorem unrepeated_tracked (h : ∀ resource, Unrepeated (s₀.tracked resource)) (ms : List Move)
    (resource : String) : Unrepeated ((after s₀ ms).resolver.tracked resource) := by
  induction ms with
  | nil => exact h resource
  | cons m ms ih =>
      rw [tracked, find?_after_cons, Happening.entryAfter]
      split
      · exact .nil
      · exact unrepeated_entryAfter _ ih

/-! ### How far a call has come -/

/-- A call has come to one of the references, has handed over those before it, and those after it are to
come; it has asked for the references up to this one, or is about to ask for this one. -/
structure Walks (s₀ : Resolver) (call : Nat) (rs : List UserRef) (ms : List Move) (o : Ongoing) :
    Prop where
  isEach : ∃ resource order, o.job = .each resource order
  place : ∃ r, o.phase.IsFor r ∧ o.handed.map Prod.fst ++ r :: o.further = rs ∧
    asked s₀ call ms ++ unasked o.phase = o.handed.map Prod.fst ++ [r]
  handed : ∀ p ∈ o.handed, Obtained s₀ call p.1 (.ok p.2) ms

/-- A call has handed over all references, or those before one for which it got a failure; it has asked
for no reference after that. -/
inductive Final (s₀ : Resolver) (call : Nat) (rs : List UserRef) (ms : List Move) : Answer → Prop where
  | all {handed : List (UserRef × UserSecret)} (hrs : handed.map Prod.fst = rs)
      (hasked : asked s₀ call ms = rs)
      (hhanded : ∀ p ∈ handed, Obtained s₀ call p.1 (.ok p.2) ms) :
      Final s₀ call rs ms (.handed handed none)
  | failed {handed : List (UserRef × UserSecret)} {r : UserRef} {further : List UserRef}
      {e : SecretError} (hrs : handed.map Prod.fst ++ r :: further = rs)
      (hasked : asked s₀ call ms = handed.map Prod.fst ++ [r])
      (hhanded : ∀ p ∈ handed, Obtained s₀ call p.1 (.ok p.2) ms)
      (hfailed : Obtained s₀ call r (.error e) ms) :
      Final s₀ call rs ms (.handed handed (some e))

theorem Final.later (h : Final s₀ call rs ms answer)
    (hno : Entries.find? call (after s₀ ms).ongoing = none) (m : Move) :
    Final s₀ call rs (m :: ms) answer := by
  cases h with
  | all hrs hasked hhanded =>
      refine .all hrs ?_ fun p hp => .later m (hhanded p hp)
      rwa [asked_of_not_ongoing hno]
  | failed hrs hasked hhanded hfailed =>
      refine .failed hrs ?_ (fun p hp => .later m (hhanded p hp)) (.later m hfailed)
      rwa [asked_of_not_ongoing hno]

namespace Walks

theorem later (h : Walks s₀ call rs ms o) (hm : m ≠ .go call) : Walks s₀ call rs (m :: ms) o where
  isEach := h.isEach
  place := by
    rw [asked_of_ne hm]
    exact h.place
  handed p hp := .later m (h.handed p hp)

/-- **A step of a call** from a reference to itself or to the next one. -/
theorem steps (h : Walks s₀ call rs ms o) (ho : Entries.find? call (after s₀ ms).ongoing = some o)
    (hsteps : o.Steps (after s₀ ms).resolver o') : Walks s₀ call rs (.go call :: ms) o' := by
  obtain ⟨r, hr, hrs, hasked⟩ := h.place
  have hhanded : ∀ p ∈ o.handed, Obtained s₀ call p.1 (.ok p.2) (.go call :: ms) :=
    fun p hp => .later _ (h.handed p hp)
  have haskedNow : asked s₀ call (.go call :: ms) = o.handed.map Prod.fst ++ [r] := by
    rw [asked_go ho, hasked]
  cases hsteps with
  | @asks r' hp =>
      rw [hp] at hr
      obtain rfl : r' = r := hr
      refine ⟨h.isEach, ⟨r', ?_, hrs, ?_⟩, hhanded⟩
      · cases hstart : (startSecret r' (after s₀ ms).resolver).1 with
        | done result => exact rfl
        | waits w => exact reference_of_startSecret hstart
      · have hunasked :
            unasked (afterAsking r' (startSecret r' (after s₀ ms).resolver).1) = [] := by
          cases (startSecret r' (after s₀ ms).resolver).1 <;> rfl
        rw [haskedNow, hunasked, List.append_nil]
  | @gets w hp hready =>
      rw [hp] at hr
      refine ⟨h.isEach, ⟨r, hr, hrs, ?_⟩, hhanded⟩
      rw [haskedNow]
      exact List.append_nil _
  | @waits w hp =>
      refine ⟨h.isEach, ⟨r, hr, hrs, ?_⟩, hhanded⟩
      rw [haskedNow, hp]
      exact List.append_nil _
  | @hands r' next secret further _ hp hf =>
      have hobtained := (procured_after s₀ ms ho).has r' _ hp
      rw [hp] at hr
      obtain rfl : r' = r := hr
      refine ⟨h.isEach, ⟨next, rfl, ?_, ?_⟩, ?_⟩
      · rw [← hrs, hf, List.map_append, List.append_assoc]
        rfl
      · rw [haskedNow, List.map_append]
        rfl
      · intro p hp
        rcases List.mem_append.1 hp with hp | hp
        · exact hhanded p hp
        · rw [List.mem_singleton.1 hp]
          exact .later _ hobtained
  | file hp phase hphase => exact absurd hr (hp.not_isFor r)

/-- **The last turn of a call.** -/
theorem final (h : Walks s₀ call rs ms o) (ho : Entries.find? call (after s₀ ms).ongoing = some o)
    (hgo : (o.go (after s₀ ms).resolver).1 = .done answer) :
    Final s₀ call rs (.go call :: ms) answer := by
  obtain ⟨r, hr, hrs, hasked⟩ := h.place
  obtain ⟨resource, order, hjob⟩ := h.isEach
  have hhanded : ∀ p ∈ o.handed, Obtained s₀ call p.1 (.ok p.2) (.go call :: ms) :=
    fun p hp => .later _ (h.handed p hp)
  have haskedNow : asked s₀ call (.go call :: ms) = o.handed.map Prod.fst ++ [r] := by
    rw [asked_go ho, hasked]
  obtain ⟨result, hp, hconclude⟩ := Ongoing.has_of_done hr hgo
  have hobtained := (procured_after s₀ ms ho).has r result hp
  obtain ⟨e, rfl, rfl⟩ | ⟨secret, rfl, hf, rfl⟩ := Ongoing.answer_of_each hjob hconclude
  · exact .failed hrs haskedNow hhanded (.later _ hobtained)
  · rw [hf] at hrs
    have hall : (o.handed ++ [(r, secret)]).map Prod.fst = rs := by
      rw [← hrs, List.map_append]
      rfl
    refine .all hall (haskedNow.trans hrs) ?_
    intro p hp
    rcases List.mem_append.1 hp with hp | hp
    · exact hhanded p hp
    · rw [List.mem_singleton.1 hp]
      exact .later _ hobtained

end Walks

/-! ### A whole run -/

/-- A call goes through references: it is on its way, or has come to its end. -/
structure Undertakes (s₀ : Resolver) (call : Nat) (rs : List UserRef) (ms : List Move) : Prop where
  ongoing : ∀ o, Entries.find? call (after s₀ ms).ongoing = some o → Walks s₀ call rs ms o
  ended : ∀ e ∈ history s₀ ms, ∀ answer, e.ended? = some (call, answer) →
    Final s₀ call rs ms answer

/-- **A call begins** with the references that are there, in the order that they are put into. -/
theorem undertakes_begin (s₀ : Resolver) (before : List Move) (resource : String)
    (order : List UserRef → List UserRef) :
    Undertakes s₀ (after s₀ before).nextCall (order ((after s₀ before).resolver.tracked resource))
      (.begin_ (.each resource order) :: before) := by
  have hbegin : ((Job.each resource order).begin_ (after s₀ before).resolver).1 =
      (Job.each resource order).next [] (order ((after s₀ before).resolver.tracked resource)) := rfl
  generalize order ((after s₀ before).resolver.tracked resource) = rs at hbegin ⊢
  have hasked : asked s₀ (after s₀ before).nextCall (.begin_ (.each resource order) :: before) = [] :=
    (asked_of_ne Move.noConfusion).trans (asked_of_nextCall_le (Nat.le_refl _))
  constructor
  case ongoing =>
    intro o ho
    obtain ⟨ho, -⟩ | ⟨_, ⟨⟩, -, ho⟩ | ⟨o', hm, -, -⟩ :=
      ongoing_move_cases (s := after s₀ before) ho
    · exact absurd (lt_nextCall_after s₀ before ho) (Nat.lt_irrefl _)
    · rw [hbegin] at ho
      cases rs with
      | nil => exact nomatch ho
      | cons r rs =>
          obtain rfl := Stage.ongoing.inj ho
          refine ⟨⟨resource, order, rfl⟩, ⟨r, rfl, rfl, ?_⟩, nofun⟩
          rw [hasked]
          rfl
    · exact nomatch hm
  case ended =>
    intro e he answer ha
    rcases List.mem_cons.1 he with rfl | he
    · obtain ⟨_, ⟨⟩, -, hanswer, -, -⟩ | ⟨o, hm, -⟩ :=
        ended_move_cases (s := after s₀ before) ha
      · rw [hbegin] at hanswer
        cases rs with
        | nil =>
            obtain rfl := Stage.done.inj hanswer
            exact .all rfl hasked nofun
        | cons r rs => exact nomatch hanswer
      · exact nomatch hm
    · exact absurd (not_ongoing_of_ended he ha).1 (Nat.lt_irrefl _)

/-- **One move** with a call that has begun: the call is left alone, goes on or returns. -/
theorem Undertakes.move (h : Undertakes s₀ call rs ms) (hcall : call < (after s₀ ms).nextCall)
    (m : Move) : Undertakes s₀ call rs (m :: ms) where
  ongoing o ho := by
    obtain ⟨ho, hm⟩ | ⟨job, -, rfl, -⟩ | ⟨o', rfl, ho', hgo⟩ :=
      ongoing_move_cases (s := after s₀ ms) ho
    · exact (h.ongoing o ho).later hm
    · exact absurd hcall (Nat.lt_irrefl _)
    · exact (h.ongoing o' ho').steps ho' (Ongoing.steps_of_go hgo)
  ended e he answer ha := by
    rcases List.mem_cons.1 he with rfl | he
    · obtain ⟨job, -, rfl, -⟩ | ⟨o, rfl, ho, hgo, -⟩ := ended_move_cases (s := after s₀ ms) ha
      · exact absurd hcall (Nat.lt_irrefl _)
      · exact (h.ongoing o ho).final ho hgo
    · exact (h.ended e he answer ha).later (not_ongoing_of_ended he ha).2 m

/-- **A call in a run** goes through the references that were there when it began. -/
theorem undertakes_after (s₀ : Resolver) (before : List Move) (resource : String)
    (order : List UserRef → List UserRef) (later : List Move) :
    Undertakes s₀ (after s₀ before).nextCall (order ((after s₀ before).resolver.tracked resource))
      (later ++ .begin_ (.each resource order) :: before) := by
  induction later with
  | nil => exact undertakes_begin s₀ before resource order
  | cons m later ih =>
      refine ih.move (Nat.lt_of_lt_of_le ?_ (nextCall_le_after later)) m
      exact nextCall_lt_begin (after s₀ before) (.each resource order)

/-! ### The ledger -/

/-- What has come of a reference is handed over, and not written down. -/
theorem keeps_conclude_each (hjob : o.job = .each resource order) (r : UserRef)
    (result : Except SecretError UserSecret) : (o.conclude r result).Keeps untouched := by
  unfold Ongoing.conclude
  rw [hjob]
  cases result <;> exact .pure _

/-- **A turn of a call** for the user secrets of a resource leaves the ledger as it is. -/
theorem keeps_go_each (hjob : o.job = .each resource order) : o.go.Keeps untouched := by
  unfold Ongoing.go
  cases o.phase with
  | asks r =>
      refine .bind (keeps_startSecret r) fun c => ?_
      cases c <;> exact .pure _
  | awaits w =>
      refine .get_bind fun s => ?_
      split
      · exact .bind (keeps_finishSecret w) fun _ => .pure _
      · exact .pure _
  | has r result => exact keeps_conclude_each hjob r result
  | awaitsFile w =>
      refine .get_bind fun s => ?_
      split
      · exact .bind (keeps_finishDecrypt w) fun _ => .pure _
      · exact .pure _
  | hasFile result =>
      unfold Ongoing.concludeFile
      rw [hjob]
      exact .pure _

theorem Undertakes.ledger_go (h : Undertakes s₀ call rs ms) :
    (after s₀ (.go call :: ms)).resolver.ledger = (after s₀ ms).resolver.ledger := by
  have hkeeps {o : Ongoing} (ho : Entries.find? call (after s₀ ms).ongoing = some o) :
      (o.go (after s₀ ms).resolver).2.ledger = (after s₀ ms).resolver.ledger := by
    obtain ⟨resource, order, hjob⟩ := (h.ongoing o ho).isEach
    exact (keeps_go_each hjob).ledger _
  change ((after s₀ ms).go call).2.resolver.ledger = _
  obtain ⟨-, heq⟩ | ⟨o, next, resolver, ho, hgo, heq⟩ | ⟨o, answer, resolver, ho, hgo, heq⟩ :=
    (after s₀ ms).go_cases call
  · rw [heq]
  all_goals
    have hledger := hkeeps ho
    rw [hgo] at hledger
    rw [heq]
    exact hledger

theorem resolver_begin_each (s : Jobs) (resource : String)
    (order : List UserRef → List UserRef) :
    (s.move (.begin_ (.each resource order))).2.resolver = s.resolver := by
  obtain ⟨o, resolver, hbegin, heq⟩ | ⟨answer, resolver, hbegin, heq⟩ :=
    s.begin_cases (.each resource order)
  all_goals
    rw [move_begin, heq]
    exact (congrArg Prod.snd hbegin).symm

/-! ### Handing over -/

/-- What has been handed over: the first of the references, each with the user secret that was got for
it.  They were asked for in this order, and at most the one after them as well. -/
structure HandedOver (s₀ : Resolver) (call : Nat) (rs : List UserRef) (ms : List Move)
    (handed : List (UserRef × UserSecret)) : Prop where
  inOrder : handed.map Prod.fst <+: asked s₀ call ms
  asked_inOrder : asked s₀ call ms <+: rs
  asked_length_le : (asked s₀ call ms).length ≤ handed.length + 1
  obtained : ∀ p ∈ handed, Obtained s₀ call p.1 (.ok p.2) ms

theorem Walks.handedOver (h : Walks s₀ call rs ms o) : HandedOver s₀ call rs ms o.handed := by
  obtain ⟨r, -, hrs, hasked⟩ := h.place
  have hinOrder : asked s₀ call ms <+: o.handed.map Prod.fst ++ [r] := ⟨_, hasked⟩
  have hlength : (unasked o.phase).length ≤ 1 := by
    cases o.phase <;> simp [unasked]
  have hlengths := congrArg List.length hasked
  simp only [List.length_append, List.length_map, List.length_singleton] at hlengths
  refine ⟨?_, hinOrder.trans ⟨o.further, by simp [← hrs]⟩, by omega, h.handed⟩
  refine List.prefix_of_prefix_length_le (List.prefix_append _ [r]) hinOrder ?_
  rw [List.length_map]
  omega

theorem Final.handedOver (h : Final s₀ call rs ms answer) :
    ∃ handed failure, answer = .handed handed failure ∧ HandedOver s₀ call rs ms handed := by
  cases h with
  | all hrs hasked hhanded =>
      refine ⟨_, _, rfl, ?_, ?_, ?_, hhanded⟩
      · exact ⟨[], by rw [List.append_nil, hasked, hrs]⟩
      · exact ⟨[], by rw [List.append_nil, hasked]⟩
      · rw [hasked, ← hrs, List.length_map]
        exact Nat.le_succ _
  | failed hrs hasked hhanded hfailed =>
      refine ⟨_, _, rfl, ?_, ?_, ?_, hhanded⟩
      · exact ⟨_, hasked.symm⟩
      · exact ⟨_, by rw [hasked, ← hrs, List.append_assoc]; rfl⟩
      · exact Nat.le_of_eq (by simp [hasked])

/-- A call hands over the references that are tracked for a resource when it begins. -/
structure HandsOver (s₀ : Resolver) (call : Nat) (tracked rs : List UserRef) (ms : List Move) :
    Prop where
  /-- It goes through these references and no others. -/
  perm : rs.Perm tracked
  /-- None of them comes twice. -/
  unrepeated : Unrepeated rs
  ongoing : ∀ o, Entries.find? call (after s₀ ms).ongoing = some o →
    HandedOver s₀ call rs ms o.handed
  returned : ∀ e ∈ history s₀ ms, ∀ answer, e.ended? = some (call, answer) →
    ∃ handed failure, answer = .handed handed failure ∧ HandedOver s₀ call rs ms handed
  /-- If there is no failure, then all of them have been handed over. -/
  completed : ∀ e ∈ history s₀ ms, ∀ handed, e.ended? = some (call, .handed handed none) →
    handed.map Prod.fst = rs
  /-- A failure is what was got for the one after those that were handed over, and it is the last that
  was asked for. -/
  failed : ∀ e ∈ history s₀ ms, ∀ handed failure,
    e.ended? = some (call, .handed handed (some failure)) →
    ∃ r further, rs = handed.map Prod.fst ++ r :: further ∧
      Obtained s₀ call r (.error failure) ms ∧ asked s₀ call ms = handed.map Prod.fst ++ [r]
  /-- A turn of the call changes nothing in the ledger. -/
  unchanged : (after s₀ (.go call :: ms)).resolver.ledger = (after s₀ ms).resolver.ledger
  /-- A call for one user secret returns what it gets in the same way. -/
  single : ∀ call' r answer, .went call' (.secret r) (some answer) ∈ history s₀ ms →
    ∃ result, answer = .secret result ∧ Obtained s₀ call' r result ms

/-- **References are handed over in order, each once, up to the first that fails**, in every run: with
whatever is done before the call for the user secrets of a resource, and between its turns. -/
theorem handsOver_after (s₀ : Resolver) (before later : List Move) (resource : String)
    (order : List UserRef → List UserRef) (hs : ∀ resource, Unrepeated (s₀.tracked resource))
    (horder : (order ((after s₀ before).resolver.tracked resource)).Perm
      ((after s₀ before).resolver.tracked resource)) :
    let tracked := (after s₀ before).resolver.tracked resource
    (after s₀ (.begin_ (.each resource order) :: before)).resolver = (after s₀ before).resolver ∧
      HandsOver s₀ (after s₀ before).nextCall tracked (order tracked)
        (later ++ .begin_ (.each resource order) :: before) := by
  intro tracked
  have h := undertakes_after s₀ before resource order later
  refine ⟨resolver_begin_each _ resource order, ?_⟩
  constructor
  case perm => exact horder
  case unrepeated => exact (unrepeated_tracked hs before resource).perm horder
  case ongoing => exact fun o ho => (h.ongoing o ho).handedOver
  case returned => exact fun e he answer ha => (h.ended e he answer ha).handedOver
  case completed =>
    intro e he handed ha
    cases h.ended e he _ ha with
    | all hrs => exact hrs
  case failed =>
    intro e he handed failure ha
    cases h.ended e he _ ha with
    | failed hrs hasked hhanded hfailed => exact ⟨_, _, hrs.symm, hfailed, hasked⟩
  case unchanged => exact h.ledger_go
  case single => exact fun call' r answer he => obtained_of_ended he

/-- A resource is forgotten while the first of its two references is being computed.  Both are gone
through all the same, in the order that was given; the vault has no secret for the second. -/
theorem handsOver_after_stop :
    let secret : UserSecret := ⟨⟨"opaque", "", []⟩, .named ⟨[("password", "p")], by simp⟩⟩
    let kept : UserRef := ⟨"safe", ⟨[("s", "db"), ("k", "password")], by decide⟩⟩
    let lost : UserRef := ⟨"safe", ⟨[("s", "mail"), ("k", "password")], by decide⟩⟩
    let s₀ : Resolver := { vaultOf secret with ledger := [("site", [lost, kept])] }
    let job : Job := .each "site" List.reverse
    let ms : List Move :=
      [.go 0, .go 0, .pass 5, .go 0, .go 0, .go 0, .pass 5, .stop "site", .go 0, .begin_ job]
    let failure : SecretError := .decryption (.other "no secret named 'mail'")
    (∀ resource, Unrepeated (s₀.tracked resource)) ∧
      HandsOver s₀ 0 [lost, kept] [kept, lost] ms ∧
      .went 0 job (some (.handed [(kept, secret)] (some failure))) ∈ history s₀ ms ∧
      (after s₀ ms).resolver.tracked "site" = [] := by
  intro secret kept lost s₀ job ms failure
  have hs (resource : String) : Unrepeated (s₀.tracked resource) := by
    have htracked : s₀.tracked resource = if "site" = resource then [lost, kept] else [] := by
      by_cases hresource : "site" = resource
      · obtain rfl := hresource
        rfl
      · rw [tracked, Entries.find?_cons, if_neg hresource, if_neg hresource]
        rfl
    rw [htracked]
    split
    · refine .cons (fun r hr => ?_) (List.pairwise_singleton _ _)
      rw [List.mem_singleton.1 hr]
      rfl
    · exact .nil
  have hhands := handsOver_after s₀ []
    [.go 0, .go 0, .pass 5, .go 0, .go 0, .go 0, .pass 5, .stop "site", .go 0] "site" List.reverse
    hs (List.reverse_perm _)
  -- the first of them is being computed when the resource is forgotten
  let s₁ : Jobs := ⟨{ s₀ with
      now := 5
      secrets := ⟨⟨.userSecrets, [], [(kept.identity, 0)], 1⟩, [(0, ⟨5, .ok secret⟩)]⟩
      ledger := []
      lookups := 1
      log := [.untracked "site", .cacheMissed] },
    [(0, ⟨job, .awaits ⟨kept, 0⟩, [], [lost]⟩)], 1⟩
  have h₁ : after s₀ [.pass 5, .stop "site", .go 0, .begin_ job] = s₁ := rfl
  have ho₁ : Entries.find? 0 s₁.ongoing = some ⟨job, .awaits ⟨kept, 0⟩, [], [lost]⟩ := rfl
  obtain ⟨log, hgo⟩ := go_of_computed ho₁ rfl rfl (Nat.le_refl 5)
  let held : Shared UserRef.Identity SecretError UserSecret :=
    ⟨⟨.userSecrets, [(kept.identity, ⟨secret, 5, 5⟩)], [], 1⟩, [(0, ⟨5, .ok secret⟩)]⟩
  have hheld : s₁.resolver.secrets.retired 5 kept.identity 0 (.ok secret) = held :=
    Shared.retired_only ..
  let s₂ : Jobs := ⟨{ s₁.resolver with secrets := held, log := log },
    [(0, ⟨job, .asks lost, [(kept, secret)], []⟩)], 1⟩
  have h₂ : ((s₁.go 0).2.go 0).2 = s₂ := by
    rw [hgo]
    exact congrArg (fun secrets => Jobs.mk { s₁.resolver with secrets := secrets, log := log } _ _)
      hheld
  -- the second one is another one, for which there is nothing in the cache
  have hmiss : Entries.find? lost.identity held.cache.entries = none := by
    have hne : kept.identity ≠ lost.identity := by
      rw [Ne, UserRef.identity_eq_iff]
      decide
    rw [Entries.find?_cons, if_neg hne]
    rfl
  have hrequest : s₂.resolver.secrets.request s₂.resolver.now lost.identity = _ :=
    Shared.request_absent 5 hmiss rfl
  let s₃ : Jobs := ⟨{ s₂.resolver with
      now := 10
      secrets := ⟨{ held.cache with inFlight := [(lost.identity, 1)], nextFlight := 2 },
        (1, ⟨5, .error failure⟩) :: held.computations⟩
      lookups := 2
      log := .cacheMissed :: log },
    [(0, ⟨job, .awaits ⟨lost, 1⟩, [(kept, secret)], []⟩)], 1⟩
  have hstart : startSecret lost s₂.resolver =
      (.waits ⟨lost, 1⟩, { s₃.resolver with now := 5 }) := by
    have hengine : s₂.resolver.engineOf lost.engine = .ok (.vault "safe") := rfl
    simp only [startSecret, Action.bind_apply, Action.get_apply, hengine, hrequest]
    rfl
  have h₃ : ((s₂.go 0).2.move (.pass 5)).2 = s₃ := by
    rw [go_of_asks rfl rfl, hstart]
    rfl
  have ho₃ : Entries.find? 0 s₃.ongoing =
      some ⟨job, .awaits ⟨lost, 1⟩, [(kept, secret)], []⟩ := rfl
  obtain ⟨log', hgo'⟩ := go_of_computed ho₃ rfl rfl (Nat.le_add_left 5 5)
  have hlast : after s₀ ms.tail = (s₃.go 0).2 := by
    rw [← h₃, ← h₂, ← h₁]
    rfl
  have hreturned : (history s₀ ms).head? =
      some (.went 0 job (some (.handed [(kept, secret)] (some failure)))) := by
    change some ((after s₀ ms.tail).go 0).1 = _
    rw [hlast, hgo']
    rfl
  have hforgotten : (after s₀ ms).resolver.tracked "site" = [] := by
    have hend : after s₀ ms = ((after s₀ ms.tail).go 0).2 := rfl
    rw [hend, hlast, hgo']
    rfl
  exact ⟨hs, hhands.2, List.mem_of_mem_head? hreturned, hforgotten⟩

end Jobs

end SecretResolver
