/-
**Machines.**

Whoever shares something takes turns at it.  A move is what is done in one turn: in some state it makes
something happen and leads to another state.  Every list of moves is a run.

Main definitions:

* `Machine` — a first state, and what moves do;
* `Machine.after`, `Machine.history` — the state after some moves, and what happened in them;
* `Machine.startingAt` — the machine with another first state.

Main results:

* `Machine.after_append`, `Machine.history_append` — a run goes on from where it has come to;
* `Machine.exists_moves_of_history`, `Machine.exists_moves_of_mem` — all that has happened is what some
  move has done.
-/

set_option relaxedAutoImplicit false
set_option autoImplicit false

namespace SecretResolver

universe u v w

/-- A first state, and what a move does in a state: what happens, and the state after it. -/
structure Machine (σ : Type u) (μ : Type v) (η : Type w) where
  start : σ
  move : σ → μ → η × σ

namespace Machine

variable {σ : Type u} {μ : Type v} {η : Type w}

/-- The state after some moves, of which the last one is given first. -/
def after (M : Machine σ μ η) : List μ → σ
  | [] => M.start
  | m :: ms => (M.move (M.after ms) m).2

/-- What happened in some moves, the last thing first. -/
def history (M : Machine σ μ η) : List μ → List η
  | [] => []
  | m :: ms => (M.move (M.after ms) m).1 :: M.history ms

/-- The same moves from another state on. -/
def startingAt (M : Machine σ μ η) (s : σ) : Machine σ μ η := { M with start := s }

/-! ### Runs that go on -/

variable (M : Machine σ μ η)

theorem after_append (since ms : List μ) :
    M.after (since ++ ms) = (M.startingAt (M.after ms)).after since := by
  induction since with
  | nil => rfl
  | cons m since ih => exact congrArg (fun s => (M.move s m).2) ih

theorem history_append (since ms : List μ) :
    M.history (since ++ ms) = (M.startingAt (M.after ms)).history since ++ M.history ms := by
  induction since with
  | nil => rfl
  | cons m since ih =>
      change (M.move (M.after (since ++ ms)) m).1 :: M.history (since ++ ms) = _
      rw [ih, after_append]
      rfl

/-- What has happened stays in the history. -/
theorem mem_history_append (since ms : List μ) : ∀ x ∈ M.history ms, x ∈ M.history (since ++ ms) := by
  intro x hx
  rw [history_append]
  exact List.mem_append_right _ hx

/-! ### Where things have happened -/

variable {M}

/-- All that has happened is what some move has done, and what was before it is what happened in the
moves before. -/
theorem exists_moves_of_history {ms : List μ} {newer older : List η} {x : η}
    (h : M.history ms = newer ++ x :: older) :
    ∃ since m before, ms = since ++ m :: before ∧ x = (M.move (M.after before) m).1 ∧
      older = M.history before := by
  induction ms generalizing newer with
  | nil => exact absurd h (by simp [history])
  | cons m ms ih =>
      cases newer with
      | nil =>
          obtain ⟨hx, hold⟩ := List.cons.inj h
          exact ⟨[], m, ms, rfl, hx.symm, hold.symm⟩
      | cons x' newer =>
          obtain ⟨since, m', before, rfl, hx, hold⟩ := ih (List.cons.inj h).2
          exact ⟨m :: since, m', before, rfl, hx, hold⟩

theorem exists_moves_of_mem {ms : List μ} {x : η} (h : x ∈ M.history ms) :
    ∃ since m before, ms = since ++ m :: before ∧ x = (M.move (M.after before) m).1 := by
  obtain ⟨newer, older, heq⟩ := List.append_of_mem h
  obtain ⟨since, m, before, hms, hx, -⟩ := exists_moves_of_history heq
  exact ⟨since, m, before, hms, hx⟩

end Machine

end SecretResolver
