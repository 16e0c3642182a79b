/-
**The log decides nothing.**

Whatever a resolver does it does with any log: it returns the same and leaves the same state behind,
but for the log itself.  This is said of each step of a call, and composed along the call.

Main definitions:

* `Action.Unlogged` — an action that takes no notice of the log.

Main results:

* `Action.Unlogged.bind`, `Action.Unlogged.get_bind` — how actions are composed;
* `Resolver.unlogged_userSecret`, `Resolver.unlogged_decrypt` — **resolving takes no notice of the
  log**.
-/

import SecretResolver.Resolver.Resolve

set_option relaxedAutoImplicit false
set_option autoImplicit false

namespace SecretResolver

/-! ### Actions -/

namespace Action

variable {α β : Type}

/-- An action takes no notice of the log: with another one it returns the same and leaves the same
state, but for the log. -/
def Unlogged (x : Action α) : Prop :=
  ∀ (s : Resolver) (log : List LogEvent), ∃ log',
    x { s with log := log } = ((x s).1, { (x s).2 with log := log' })

namespace Unlogged

/-- The result is the same with any log. -/
theorem result_eq {x : Action α} (hx : x.Unlogged) (s : Resolver) (log : List LogEvent) :
    (x { s with log := log }).1 = (x s).1 := by
  obtain ⟨log', hlog⟩ := hx s log
  rw [hlog]

theorem pure (a : α) : Unlogged (pure a : Action α) := fun _ log => ⟨log, rfl⟩

theorem bind {x : Action α} {f : α → Action β} (hx : x.Unlogged) (hf : ∀ a, (f a).Unlogged) :
    (x >>= f).Unlogged := by
  intro s log
  obtain ⟨log', hlog'⟩ := hx s log
  obtain ⟨log'', hlog''⟩ := hf (x s).1 (x s).2 log'
  exact ⟨log'', by rw [bind_apply, bind_apply, hlog', hlog'']⟩

/-- What goes on from the state goes on in the same way from the state with another log. -/
theorem get_bind {f : Resolver → Action β} (hsame : ∀ s log, f { s with log := log } = f s)
    (hf : ∀ s, (f s).Unlogged) : (get >>= f : Action β).Unlogged := by
  intro s log
  obtain ⟨log', hlog'⟩ := hf s s log
  exact ⟨log', by rw [bind_apply, bind_apply, get_apply, get_apply, hsame, hlog']⟩

theorem modify {f : Resolver → Resolver}
    (hf : ∀ s log, f { s with log := log } = { f s with log := log }) :
    Unlogged (modify f : Action Unit) := fun s log => ⟨log, by rw [modify_apply, modify_apply, hf]⟩

theorem note (e : LogEvent) : (Resolver.note e).Unlogged := fun _ log => ⟨e :: log, rfl⟩

end Unlogged

end Action

/-! ### Resolving -/

namespace Resolver

theorem unlogged_passTo (time : Nat) : (passTo time).Unlogged := .modify fun _ _ => rfl

/-- Waiting takes no notice of the log, if neither what is waited for does nor what comes after it. -/
theorem unlogged_await {ω α : Type} {readyAt : ω → Resolver → Option Nat}
    {finish : ω → Action (Except SecretError α)}
    (hready : ∀ w s log, readyAt w { s with log := log } = readyAt w s)
    (hfinish : ∀ w, (finish w).Unlogged) (c : Call ω α) : (await readyAt finish c).Unlogged := by
  cases c with
  | done result => exact .pure result
  | waits w =>
      have htime (s s' : Resolver) (log log' : List LogEvent) :
          timeOf (readyAt w { s with log := log }) { s' with log := log' } =
            timeOf (readyAt w s) s' := by
        rw [hready]
        rfl
      refine .get_bind ?_ fun s => .get_bind ?_ fun s' => ?_
      · intro s log
        simp only [hready]
      · intro s' log
        rfl
      · exact .bind (unlogged_passTo _) fun _ => hfinish w

theorem unlogged_noteRequest {β : Type} (request : Cache.Request β) :
    (noteRequest request).Unlogged := by
  cases request with
  | hit value => exact .note _
  | joined flight => exact .note _
  | started flight expired =>
      cases expired with
      | false => exact .note _
      | true => exact .bind (.note _) fun _ => .note _

theorem unlogged_noteCompletion {κ β : Type} (result : Except SecretError β)
    (completion : Cache.Completion κ) : (noteCompletion result completion).Unlogged := by
  cases completion with
  | stale => exact .pure _
  | stored displaced =>
      cases displaced with
      | none => exact .pure _
      | some k => exact .note _
  | failed =>
      cases result with
      | ok value => exact .pure _
      | error e => exact .note _

/-! ### User secrets -/

theorem unlogged_openVault (r : UserRef) : (openVault r).Unlogged := by
  refine .bind (.modify fun _ _ => rfl) fun _ => .get_bind (fun _ _ => rfl) fun s => ?_
  split <;> exact .pure _

theorem unlogged_computeSecret (e : Engine) (r : UserRef) : (computeSecret e r).Unlogged := by
  cases e with
  | embedded => exact .get_bind (fun _ _ => rfl) fun s => .pure _
  | storage id files => exact .get_bind (fun _ _ => rfl) fun s => .pure _
  | vault id => exact unlogged_openVault r
  | echo id => exact .get_bind (fun _ _ => rfl) fun s => .pure _

theorem unlogged_computeChecked (e : Engine) (r : UserRef) : (computeChecked e r).Unlogged := by
  unfold computeChecked
  split
  · exact .get_bind (fun _ _ => rfl) fun s => .pure _
  · exact unlogged_computeSecret e r

theorem unlogged_startSecret (r : UserRef) : (startSecret r).Unlogged := by
  refine .get_bind (fun _ _ => rfl) fun s => ?_
  split
  · exact .pure _
  · rename_i engine _
    refine .bind (.modify fun _ _ => rfl) fun _ => .bind (unlogged_noteRequest _) fun _ => ?_
    split
    · exact .pure _
    · exact .pure _
    · refine .bind (unlogged_computeChecked engine r) fun c => ?_
      exact .bind (.modify fun _ _ => rfl) fun _ => .pure _

theorem unlogged_finishSecret (w : SecretWait) : (finishSecret w).Unlogged := by
  refine .get_bind (fun _ _ => rfl) fun s => ?_
  split
  · exact .pure _
  · refine .bind (.modify fun _ _ => rfl) fun _ => ?_
    exact .bind (unlogged_noteCompletion _ _) fun _ => .pure _

/-- **Resolving a user secret reference takes no notice of the log.** -/
theorem unlogged_userSecret (r : UserRef) : (userSecret r).Unlogged :=
  .bind (unlogged_startSecret r) fun c =>
    unlogged_await (fun _ _ _ => rfl) unlogged_finishSecret c

/-! ### Encrypted references -/

theorem unlogged_replace (e : Engine) : (replace e).Unlogged := .modify fun _ _ => rfl

theorem unlogged_startDownload (k : ObjectKey) : (startDownload k).Unlogged := by
  refine .bind (.note _) fun _ => .get_bind (fun _ _ => rfl) fun s => ?_
  dsimp only
  split
  · refine .bind (.note _) fun _ => .bind (.modify fun _ _ => rfl) fun _ => .pure _
  · exact .bind (.modify fun _ _ => rfl) fun _ => .pure _

theorem unlogged_requestFile (id : String) (files : Shared ObjectKey SecretError Bytes)
    (k : ObjectKey) : (requestFile id files k).Unlogged := by
  refine .get_bind (fun _ _ => rfl) fun s => .bind (unlogged_noteRequest _) fun _ => ?_
  split
  · exact .bind (unlogged_replace _) fun _ => .pure _
  · exact .bind (unlogged_replace _) fun _ => .pure _
  · refine .bind (unlogged_startDownload k) fun download => ?_
    exact .bind (unlogged_replace _) fun _ => .pure _

theorem unlogged_startEngine (e : Engine) (r : EncryptedRef) : (startEngine e r).Unlogged := by
  cases e with
  | embedded => exact .pure _
  | vault id => exact .pure _
  | echo id => exact .pure _
  | storage id files =>
      simp only [startEngine]
      split
      · exact .pure _
      · refine .bind (unlogged_requestFile id files _) fun found => ?_
        split <;> exact .pure _

theorem unlogged_startDecrypt (r : EncryptedRef) : (startDecrypt r).Unlogged := by
  refine .get_bind (fun _ _ => rfl) fun s => ?_
  split
  · exact .pure _
  · split
    · exact .pure _
    · exact .bind (.note _) fun _ => unlogged_startEngine _ r

theorem unlogged_noteDownload (k : ObjectKey) (result : Except SecretError Bytes)
    (completion : Cache.Completion ObjectKey) : (noteDownload k result completion).Unlogged := by
  unfold noteDownload
  split
  · exact .note _
  · exact .pure _

theorem unlogged_collectFile (w : FileWait) : (collectFile w).Unlogged := by
  refine .get_bind (fun _ _ => rfl) fun s => ?_
  split
  · exact .pure _
  · split
    · exact .pure _
    · refine .bind (unlogged_replace _) fun _ => .bind (unlogged_noteDownload _ _ _) fun _ => ?_
      exact .bind (unlogged_noteCompletion _ _) fun _ => .pure _

theorem unlogged_finishDecrypt (w : FileWait) : (finishDecrypt w).Unlogged := by
  refine .bind (unlogged_collectFile w) fun found => ?_
  split <;> exact .pure _

/-- **Resolving an encrypted reference takes no notice of the log.** -/
theorem unlogged_decrypt (r : EncryptedRef) : (decrypt r).Unlogged :=
  .bind (unlogged_startDecrypt r) fun c =>
    unlogged_await (fun _ _ _ => rfl) unlogged_finishDecrypt c

end Resolver

end SecretResolver
