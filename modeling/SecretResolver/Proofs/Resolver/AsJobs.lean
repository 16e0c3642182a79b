/-
**Decryptions are jobs.**

Whoever decrypts with a resolver asks it for bytes, among other callers who may ask for other things.
A call for bytes makes more turns than a decryption: it gets what has come of its file in one turn, and
hands it out in another.  So each move of those who decrypt is some turns of calls for bytes, with
nothing in between; the same calls begin and return the same, and the resolver is the same after it.

Main definitions:

* `Decryptions.awaiting` — a call that waits for its file, as a call for bytes;
* `Decryptions.Among` — those who decrypt, among those who ask a resolver;
* `Decryptions.Matches` — some turns amount to a move.

Main results:

* `Jobs.move_begin_bytes`, `Jobs.move_go_file`, `Jobs.move_go_bytes` — the turns of a call for bytes;
* `Decryptions.Among.call`, `Decryptions.Among.poll`, `Decryptions.Among.move` — a move is some turns;
* `Decryptions.exists_jobs` — **every run of decryptions is a run of jobs**.
-/

import SecretResolver.Proofs.Resolver.Alone
import SecretResolver.Proofs.Resolver.Downloads
import SecretResolver.Proofs.Resolver.Turns

set_option relaxedAutoImplicit false
set_option autoImplicit false

namespace SecretResolver

open Resolver

/-! ### Calls for bytes -/

namespace Jobs

/-- The call that has begun, with what it asks for. -/
def Happening.begins? : Happening → Option (Nat × Job)
  | .began call job _ => some (call, job)
  | _ => none

/-- How far a call has come that has begun to resolve an encrypted reference. -/
def afterDecrypting : Call FileWait Bytes → Phase
  | .done result => .hasFile result
  | .waits w => .awaitsFile w

/-- The moves of those who ask a resolver, from some state on. -/
def onwards (t : Jobs) : Machine Jobs Move Happening := ⟨t, move⟩

variable {t : Jobs} {call : Nat} {r : EncryptedRef}

/-- A call for bytes begins. -/
theorem move_begin_bytes (t : Jobs) (r : EncryptedRef) :
    t.move (.begin_ (.bytes r)) = (.began t.nextCall (.bytes r) none,
      { resolver := (startDecrypt r t.resolver).2
        ongoing := Entries.put t.nextCall
          ((Job.bytes r).at_ (afterDecrypting (startDecrypt r t.resolver).1)) t.ongoing
        nextCall := t.nextCall + 1 }) := by
  have hbegin : (Job.bytes r).begin_ t.resolver =
      (.ongoing ((Job.bytes r).at_ (afterDecrypting (startDecrypt r t.resolver).1)),
        (startDecrypt r t.resolver).2) := by
    simp only [Job.begin_, Job.beginFile, Action.bind_apply]
    cases (startDecrypt r t.resolver).1 <;> rfl
  simp only [move, begin_, hbegin]

/-- A call for bytes gets what has come of its file. -/
theorem move_go_file {w : FileWait}
    (ho : Entries.find? call t.ongoing = some ((Job.bytes r).at_ (.awaitsFile w)))
    (hready : timeOf (w.readyAt t.resolver) t.resolver ≤ t.resolver.now) :
    t.move (.go call) = (.went call (.bytes r) none,
      { t with
        resolver := (finishDecrypt w t.resolver).2
        ongoing := Entries.put call
          ((Job.bytes r).at_ (.hasFile (finishDecrypt w t.resolver).1)) t.ongoing }) := by
  have hgo : ((Job.bytes r).at_ (.awaitsFile w)).go t.resolver =
      (.ongoing ((Job.bytes r).at_ (.hasFile (finishDecrypt w t.resolver).1)),
        (finishDecrypt w t.resolver).2) := Ongoing.go_awaitsFile hready
  simp only [move, go, ho, hgo]
  rfl

/-- A call for bytes hands them out. -/
theorem move_go_bytes {result : Except SecretError Bytes}
    (ho : Entries.find? call t.ongoing = some ((Job.bytes r).at_ (.hasFile result))) :
    t.move (.go call) = (.went call (.bytes r) (some (.bytes result)),
      { t with ongoing := Entries.drop call t.ongoing }) := by
  have hgo : ((Job.bytes r).at_ (.hasFile result)).go t.resolver =
      (.done (.bytes result), t.resolver) := rfl
  simp only [move, go, ho, hgo]
  rfl

end Jobs

/-! ### Decryptions among them -/

namespace Decryptions

/-- A call that waits for its file, as a call for bytes. -/
def awaiting (w : FileWait) : Ongoing := (Job.bytes w.reference).at_ (.awaitsFile w)

/-- A decryption that begins, as a call for bytes. -/
def asking (b : Nat × EncryptedRef) : Nat × Job := (b.1, .bytes b.2)

/-- What a decryption returns, as what a call for bytes returns. -/
def giving (a : Nat × Except SecretError Bytes) : Nat × Answer := (a.1, .bytes a.2)

/-- Those who decrypt, among those who ask a resolver: the resolver is the same, and the same calls
wait. -/
structure Among (s : Decryptions) (t : Jobs) : Prop where
  resolver : t.resolver = s.resolver
  nextCall : t.nextCall = s.nextCall
  ongoing : ∀ call, Entries.find? call t.ongoing = (Entries.find? call s.waiting).map awaiting

/-- Some turns amount to a move: they lead to where it leads, and in them a call begins and returns
just as it does in the move. -/
structure Matches (s : Decryptions) (t : Jobs) (m : Move) (turns : List Jobs.Move) : Prop where
  among : Among (s.move m).2 (t.onwards.after turns)
  begins : (t.onwards.history turns).filterMap Jobs.Happening.begins? =
    ([(s.move m).1].filterMap Happening.begins?).map asking
  ended : (t.onwards.history turns).filterMap Jobs.Happening.ended? =
    ([(s.move m).1].filterMap Happening.answers?).map giving

variable {s : Decryptions} {t : Jobs}

theorem Among.drop (h : Among s t) (call call' : Nat) :
    Entries.find? call' (Entries.drop call t.ongoing) =
      (Entries.find? call' (Entries.drop call s.waiting)).map awaiting := by
  rw [Entries.find?_drop, Entries.find?_drop]
  split
  · rfl
  · exact h.ongoing call'

/-- What a call has got is gone again when it has handed it out. -/
theorem find?_drop_put (call : Nat) (o : Ongoing) (os : List (Nat × Ongoing)) (call' : Nat) :
    Entries.find? call' (Entries.drop call (Entries.put call o os)) =
      Entries.find? call' (Entries.drop call os) := by
  rw [Entries.find?_drop, Entries.find?_drop]
  split
  · rfl
  · rename_i hcall
    rw [Entries.find?_put, if_neg hcall]

theorem Matches.one {m : Move} {m₁ : Jobs.Move} {x₁ : Jobs.Happening} {t₁ : Jobs}
    (h₁ : t.move m₁ = (x₁, t₁)) (among : Among (s.move m).2 t₁)
    (begins : [x₁].filterMap Jobs.Happening.begins? =
      ([(s.move m).1].filterMap Happening.begins?).map asking)
    (ended : [x₁].filterMap Jobs.Happening.ended? =
      ([(s.move m).1].filterMap Happening.answers?).map giving) :
    Matches s t m [m₁] where
  among := by
    change Among _ (t.move m₁).2
    rwa [h₁]
  begins := by
    change [(t.move m₁).1].filterMap _ = _
    rwa [h₁]
  ended := by
    change [(t.move m₁).1].filterMap _ = _
    rwa [h₁]

theorem Matches.two {m : Move} {m₁ m₂ : Jobs.Move} {x₁ x₂ : Jobs.Happening} {t₁ t₂ : Jobs}
    (h₁ : t.move m₁ = (x₁, t₁)) (h₂ : t₁.move m₂ = (x₂, t₂)) (among : Among (s.move m).2 t₂)
    (begins : [x₂, x₁].filterMap Jobs.Happening.begins? =
      ([(s.move m).1].filterMap Happening.begins?).map asking)
    (ended : [x₂, x₁].filterMap Jobs.Happening.ended? =
      ([(s.move m).1].filterMap Happening.answers?).map giving) :
    Matches s t m [m₂, m₁] where
  among := by
    change Among _ ((t.move m₁).2.move m₂).2
    rwa [h₁, h₂]
  begins := by
    change [((t.move m₁).2.move m₂).1, (t.move m₁).1].filterMap _ = _
    rwa [h₁, h₂]
  ended := by
    change [((t.move m₁).2.move m₂).1, (t.move m₁).1].filterMap _ = _
    rwa [h₁, h₂]

/-- **A decryption begins** as a call for bytes does.  If it returns at once, that call makes another
turn to hand out what it has got. -/
theorem Among.call (h : Among s t) (hnew : Entries.find? t.nextCall t.ongoing = none)
    (r : EncryptedRef) : ∃ turns, Matches s t (.call r) turns := by
  have hbegin := t.move_begin_bytes r
  rcases hstart : startDecrypt r s.resolver with ⟨c, resolver⟩
  rw [h.resolver, hstart, h.nextCall] at hbegin
  rw [h.nextCall] at hnew
  cases c with
  | done answer =>
      have hmove : s.move (.call r) = (.answered s.nextCall r answer,
          { s with resolver := resolver, nextCall := s.nextCall + 1 }) := by
        simp only [move, Decryptions.call, hstart]
      have hgot := Entries.find?_put_self s.nextCall ((Job.bytes r).at_ (.hasFile answer)) t.ongoing
      refine ⟨_, .two hbegin (Jobs.move_go_bytes hgot) ?_ ?_ ?_⟩
      · rw [hmove]
        refine ⟨rfl, rfl, fun call => ?_⟩
        rw [find?_drop_put, Entries.drop_eq_self hnew]
        exact h.ongoing call
      all_goals
        rw [hmove]
        rfl
  | waits w =>
      obtain rfl : w.reference = r := reference_of_startDecrypt (congrArg Prod.fst hstart)
      refine ⟨_, .one hbegin ?_ ?_ ?_⟩
      · simp only [move, Decryptions.call, hstart]
        refine ⟨rfl, rfl, fun call => ?_⟩
        rw [Entries.find?_put, Entries.find?_put]
        split
        · rfl
        · exact h.ongoing call
      all_goals
        simp only [move, Decryptions.call, hstart]
        split <;> rfl

/-- **A decryption goes on** as a call for bytes does that gets what has come of its file and hands it
out; one that cannot go on makes no turn. -/
theorem Among.poll (h : Among s t) (call : Nat) : ∃ turns, Matches s t (.poll call) turns := by
  have hidle (hpoll : s.move (.poll call) = (.idle call, s)) :
      ∃ turns, Matches s t (.poll call) turns := by
    refine ⟨[], ?_, ?_, ?_⟩
    · rw [hpoll]
      exact h
    all_goals
      rw [hpoll]
      rfl
  cases hw : Entries.find? call s.waiting with
  | none => exact hidle (by simp only [move, Decryptions.poll, hw])
  | some w =>
      by_cases hready : timeOf (w.readyAt s.resolver) s.resolver ≤ s.resolver.now
      · have hpoll : s.move (.poll call) = (.returned call w (finishDecrypt w s.resolver).1,
            { s with
              resolver := (finishDecrypt w s.resolver).2
              waiting := Entries.drop call s.waiting }) := by
          simp only [move, Decryptions.poll, hw, if_pos hready]
          rfl
        have ho : Entries.find? call t.ongoing = some (awaiting w) := by rw [h.ongoing, hw]; rfl
        have hgets := Jobs.move_go_file ho (by rwa [h.resolver])
        rw [h.resolver] at hgets
        have hgot := Entries.find?_put_self call
          ((Job.bytes w.reference).at_ (.hasFile (finishDecrypt w s.resolver).1)) t.ongoing
        refine ⟨_, .two hgets (Jobs.move_go_bytes hgot) ?_ ?_ ?_⟩
        · rw [hpoll]
          refine ⟨rfl, h.nextCall, fun call' => ?_⟩
          rw [find?_drop_put]
          exact h.drop call call'
        all_goals
          rw [hpoll]
          rfl
      · exact hidle (by simp only [move, Decryptions.poll, hw, if_neg hready])

/-- **A move is some turns.** -/
theorem Among.move (h : Among s t) (hnew : Entries.find? t.nextCall t.ongoing = none) (m : Move) :
    ∃ turns, Matches s t m turns := by
  cases m with
  | call r => exact h.call hnew r
  | poll call => exact h.poll call
  | abort call => exact ⟨[.abort call], ⟨h.resolver, h.nextCall, h.drop call⟩, rfl, rfl⟩
  | clear =>
      exact ⟨[.clearEngines],
        ⟨congrArg (fun s => (clearEngines s).2) h.resolver, h.nextCall, h.ongoing⟩, rfl, rfl⟩
  | pass ms =>
      exact ⟨[.pass ms],
        ⟨congrArg (fun s => (Resolver.pass ms s).2) h.resolver, h.nextCall, h.ongoing⟩, rfl, rfl⟩
  | restock store =>
      exact ⟨[.restock store],
        ⟨congrArg (fun s : Resolver => { s with store := store }) h.resolver, h.nextCall, h.ongoing⟩,
        rfl, rfl⟩

/-- **Every run of decryptions is a run of jobs**: some jobs do the same to the resolver, and in them
the same calls begin, for the bytes of the same references, and return the same in the same order. -/
theorem exists_jobs (s₀ : Resolver) (ms : List Move) : ∃ js : List Jobs.Move,
    Among (after s₀ ms) (Jobs.after s₀ js) ∧
    (Jobs.history s₀ js).filterMap Jobs.Happening.begins? =
      ((history s₀ ms).filterMap Happening.begins?).map asking ∧
    (Jobs.history s₀ js).filterMap Jobs.Happening.ended? =
      ((history s₀ ms).filterMap Happening.answers?).map giving := by
  induction ms with
  | nil => exact ⟨[], ⟨rfl, rfl, fun _ => rfl⟩, rfl, rfl⟩
  | cons m ms ih =>
      obtain ⟨js, hamong, hbegins, hended⟩ := ih
      have hnew : Entries.find? (Jobs.after s₀ js).nextCall (Jobs.after s₀ js).ongoing = none := by
        cases ho : Entries.find? (Jobs.after s₀ js).nextCall (Jobs.after s₀ js).ongoing with
        | none => rfl
        | some o => exact absurd (Jobs.lt_nextCall_after s₀ js ho) (Nat.lt_irrefl _)
      obtain ⟨turns, hmatches⟩ := hamong.move hnew m
      have hafter : Jobs.after s₀ (turns ++ js) = (Jobs.after s₀ js).onwards.after turns :=
        (Jobs.machine s₀).after_append turns js
      have hhistory : Jobs.history s₀ (turns ++ js) =
          (Jobs.after s₀ js).onwards.history turns ++ Jobs.history s₀ js :=
        (Jobs.machine s₀).history_append turns js
      have hpast : history s₀ (m :: ms) = [((after s₀ ms).move m).1] ++ history s₀ ms := rfl
      refine ⟨turns ++ js, hafter ▸ hmatches.among, ?_, ?_⟩
      · rw [hhistory, List.filterMap_append, hmatches.begins, hbegins, hpast, List.filterMap_append,
          List.map_append]
      · rw [hhistory, List.filterMap_append, hmatches.ended, hended, hpast, List.filterMap_append,
          List.map_append]

end Decryptions

end SecretResolver
