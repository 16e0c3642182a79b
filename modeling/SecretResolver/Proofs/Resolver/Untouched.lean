/-
**What resolving leaves as it is.**

A resolver that resolves references uses its engines, its cache and its clock, and it counts and logs.
It does not touch the ledger of its resources, nor the store and the vault that its engines read from.
This is said of each step of a call, and composed along the call.

Main definitions:

* `Action.Keeps` — an action leaves something of the resolver as it is;
* `Resolver.untouched` — the ledger, the store and the vault.

Main results:

* `Resolver.keeps_startSecret`, `Resolver.keeps_finishSecret` — user secrets;
* `Resolver.keeps_startDecrypt`, `Resolver.keeps_finishDecrypt` — encrypted references;
* `Resolver.keeps_clearSecrets`, `Resolver.keeps_clearEngines` — caches.
-/

import SecretResolver.Proofs.Resolver.Files
import SecretResolver.Resolver.Secrets

set_option relaxedAutoImplicit false
set_option autoImplicit false

namespace SecretResolver

/-- The ledger, the store and the vault. -/
def Resolver.untouched (s : Resolver) : Ledger × Store × List (String × VaultSecret) :=
  (s.ledger, s.store, s.vault)

/-! ### Actions -/

namespace Action

variable {α β γ : Type}

/-- An action leaves something of the resolver as it is. -/
def Keeps (f : Resolver → γ) (x : Action α) : Prop := ∀ s, f (x s).2 = f s

namespace Keeps

variable {f : Resolver → γ}

theorem pure (a : α) : Keeps f (pure a : Action α) := fun _ => rfl

theorem bind {x : Action α} {g : α → Action β} (hx : x.Keeps f) (hg : ∀ a, (g a).Keeps f) :
    (x >>= g).Keeps f := by
  intro s
  rw [bind_apply, hg, hx]

/-- What is done with the state is done with the state at hand. -/
theorem get_bind {g : Resolver → Action β} (hg : ∀ s, (g s).Keeps f) :
    (get >>= g : Action β).Keeps f := fun s => hg s s

theorem modify {g : Resolver → Resolver} (hg : ∀ s, f (g s) = f s) :
    Keeps f (modify g : Action Unit) := hg

theorem ledger {x : Action α} (h : x.Keeps Resolver.untouched) (s : Resolver) :
    (x s).2.ledger = s.ledger := congrArg Prod.fst (h s)

end Keeps

end Action

namespace Resolver

theorem keeps_note (e : LogEvent) : (note e).Keeps untouched := fun _ => rfl

theorem keeps_replace (e : Engine) : (replace e).Keeps untouched := fun _ => rfl

theorem keeps_noteRequest {β : Type} (request : Cache.Request β) :
    (noteRequest request).Keeps untouched := by
  intro s
  obtain ⟨log, hlog⟩ := noteRequest_eq request s
  rw [hlog]
  rfl

theorem keeps_noteCompletion {κ β : Type} (result : Except SecretError β)
    (completion : Cache.Completion κ) : (noteCompletion result completion).Keeps untouched := by
  intro s
  obtain ⟨log, hlog⟩ := noteCompletion_eq result completion s
  rw [hlog]
  rfl

/-! ### User secrets -/

theorem keeps_openVault (r : UserRef) : (openVault r).Keeps untouched := by
  refine .bind (.modify fun _ => rfl) fun _ => .get_bind fun s => ?_
  split <;> exact .pure _

theorem keeps_computeChecked (e : Engine) (r : UserRef) :
    (computeChecked e r).Keeps untouched := by
  unfold computeChecked
  split
  · exact .get_bind fun s => .pure _
  · cases e with
    | embedded => exact .get_bind fun s => .pure _
    | storage id files => exact .get_bind fun s => .pure _
    | vault id => exact keeps_openVault r
    | echo id => exact .get_bind fun s => .pure _

theorem keeps_startSecret (r : UserRef) : (startSecret r).Keeps untouched := by
  refine .get_bind fun s => ?_
  split
  · exact .pure _
  · rename_i engine _
    refine .bind (.modify fun _ => rfl) fun _ => .bind (keeps_noteRequest _) fun _ => ?_
    split
    · exact .pure _
    · exact .pure _
    · refine .bind (keeps_computeChecked engine r) fun c => ?_
      exact .bind (.modify fun _ => rfl) fun _ => .pure _

theorem keeps_finishSecret (w : SecretWait) : (finishSecret w).Keeps untouched := by
  refine .get_bind fun s => ?_
  split
  · exact .pure _
  · refine .bind (.modify fun _ => rfl) fun _ => ?_
    exact .bind (keeps_noteCompletion _ _) fun _ => .pure _

/-! ### Encrypted references -/

theorem keeps_startDownload (k : ObjectKey) : (startDownload k).Keeps untouched := by
  intro s
  obtain ⟨log, hlog⟩ := startDownload_eq k s
  rw [hlog]
  rfl

theorem keeps_requestFile (id : String) (files : Shared ObjectKey SecretError Bytes)
    (k : ObjectKey) : (requestFile id files k).Keeps untouched := by
  refine .get_bind fun s => .bind (keeps_noteRequest _) fun _ => ?_
  split
  · exact .bind (keeps_replace _) fun _ => .pure _
  · exact .bind (keeps_replace _) fun _ => .pure _
  · refine .bind (keeps_startDownload k) fun download => ?_
    exact .bind (keeps_replace _) fun _ => .pure _

theorem keeps_startDecrypt (r : EncryptedRef) : (startDecrypt r).Keeps untouched := by
  refine .get_bind fun s => ?_
  split
  · exact .pure _
  · rename_i engine _
    split
    · exact .pure _
    · refine .bind (keeps_note _) fun _ => ?_
      cases engine with
      | embedded => exact .pure _
      | vault id => exact .pure _
      | echo id => exact .pure _
      | storage id files =>
          simp only [startEngine]
          split
          · exact .pure _
          · refine .bind (keeps_requestFile id files _) fun found => ?_
            split <;> exact .pure _

theorem keeps_collectFile (w : FileWait) : (collectFile w).Keeps untouched := by
  refine .get_bind fun s => ?_
  split
  · exact .pure _
  · split
    · exact .pure _
    · refine .bind (keeps_replace _) fun _ => .bind ?_ fun _ => ?_
      · intro s'
        obtain ⟨log, hlog⟩ := noteDownload_eq _ _ _ s'
        rw [hlog]
        rfl
      · exact .bind (keeps_noteCompletion _ _) fun _ => .pure _

theorem keeps_finishDecrypt (w : FileWait) : (finishDecrypt w).Keeps untouched := by
  refine .bind (keeps_collectFile w) fun found => ?_
  split <;> exact .pure _

/-! ### Caches -/

theorem keeps_clearSecrets : clearSecrets.Keeps untouched :=
  .get_bind fun _ => .bind (.modify fun _ => rfl) fun _ => keeps_note _

theorem keeps_clearEngine (e : Engine) : (clearEngine e).Keeps untouched := by
  cases e with
  | storage id files =>
      exact .bind (keeps_note _) fun _ => .bind (keeps_replace _) fun _ => keeps_note _
  | embedded => exact .pure _
  | vault id => exact .pure _
  | echo id => exact .pure _

theorem untouched_clearEach (es : List (String × Engine)) (s : Resolver) :
    untouched (es.foldl (fun s e => (clearEngine e.2 s).2) s) = untouched s := by
  induction es generalizing s with
  | nil => rfl
  | cons e es ih => rw [List.foldl_cons, ih, keeps_clearEngine]

theorem keeps_clearEngines : clearEngines.Keeps untouched := by
  intro s
  have hclear : (clearEngines s).2 =
      (note (.enginesCleared s.engines.size)
        (s.engines.entries.foldl (fun s e => (clearEngine e.2 s).2) s)).2 := by
    simp [clearEngines, clearEach_eq]
  rw [hclear, keeps_note, untouched_clearEach]

end Resolver

end SecretResolver
