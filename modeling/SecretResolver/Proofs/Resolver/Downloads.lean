/-
**Files through caches come to what they come to without.**

Any number of calls decrypt references into files with one resolver, in any order and with pauses,
clearings and other stores between their steps.  What a call returns is made of one download of its
own file and of what its reference wants out of that file, by nobody's cache but through it.

Main definitions:

* `Resolver.Leads` — a reference leads into a file of a storage engine;
* `Resolver.Fresh` — a resolver whose caches hold nothing;
* `Decryptions.Downloaded` — a download of a file came to a result;
* `Decryptions.Sound` — what caches hold and calls wait for comes from downloads;
* `Decryptions.EndToEnd` — what calls return and when files are downloaded.

Main results:

* `Decryptions.call_cases`, `Decryptions.poll_of_waiting` — what a call leads to;
* `Decryptions.Sound.move`, `Decryptions.sound_after` — what a move keeps, and so a whole run;
* `Decryptions.after_alike` — **what calls want out of their files makes no difference** to the
  resolver;
* `Decryptions.endToEnd` — **every run resolves files as if nothing were cached**.
-/

import Mathlib.Data.List.Forall2
import SecretResolver.Proofs.Resolver.Files
import SecretResolver.Proofs.Resolver.Registry
import SecretResolver.Resolver.Decryptions

set_option relaxedAutoImplicit false
set_option autoImplicit false

namespace SecretResolver

/-! ### References and resolvers -/

namespace Resolver

/-- A reference leads into a file of a storage engine. -/
def Leads (s : Resolver) (r : EncryptedRef) (k : ObjectKey) : Prop :=
  (s.filesOf? r.engine).isSome = true ∧ Location.key r = .ok k

/-- A resolver whose engines are known by their own identifiers and whose caches hold nothing. -/
structure Fresh (s : Resolver) : Prop where
  known : s.Known
  unused : ∀ id files, s.filesOf? id = some files → ∃ limits, files = .empty limits

theorem fresh_empty (limits : CacheLimits) (store : Store) : (empty limits store).Fresh where
  known := by
    intro id e he
    simp [empty, Table.get?, Table.empty] at he
  unused := by
    intro id files hfiles
    simp [filesOf?, empty, Table.get?, Table.empty] at hfiles

/-- A resolver stays fresh when an engine is added whose cache holds nothing. -/
theorem Fresh.register {s : Resolver} (hs : s.Fresh) {e : Engine}
    (he : ∀ files, filesIn? e = some files → ∃ limits, files = .empty limits) :
    (register e s).2.Fresh := by
  refine ⟨fun id e' he' => ?_, fun id files hfiles => ?_⟩
  · rw [get?_register] at he'
    cases hold : s.engines.get? id with
    | none =>
        rw [hold, Option.none_or] at he'
        split at he'
        · rename_i hid
          exact Option.some.inj he' ▸ hid
        · cases he'
    | some old =>
        rw [hold, Option.some_or] at he'
        exact hs.known id e' (hold.trans he')
  · have hunused := hs.unused id
    rw [filesOf?_eq] at hfiles hunused
    rw [get?_register] at hfiles
    cases hold : s.engines.get? id with
    | none =>
        rw [hold, Option.none_or] at hfiles
        split at hfiles
        · exact he files hfiles
        · cases hfiles
    | some old =>
        rw [hold, Option.some_or] at hfiles
        rw [hold] at hunused
        exact hunused files hfiles

end Resolver

namespace Decryptions

/-! ### What happenings say -/

/-- The call that has begun, with its reference. -/
def Happening.begins? : Happening → Option (Nat × EncryptedRef)
  | .answered call r _ => some (call, r)
  | .joined call w => some (call, w.reference)
  | .started call w _ => some (call, w.reference)
  | _ => none

/-- The call that has returned, with what it returned. -/
def Happening.answers? : Happening → Option (Nat × Except SecretError Bytes)
  | .answered call _ answer => some (call, answer)
  | .returned call _ answer => some (call, answer)
  | _ => none

/-- The file whose download was started. -/
def Happening.downloads? : Happening → Option ObjectKey
  | .started _ w _ => some w.key
  | _ => none

/-- A download of a file, by an engine, came to a result. -/
def Downloaded (past : List Happening) (id : String) (k : ObjectKey)
    (result : Except SecretError Bytes) : Prop :=
  ∃ call w d, .started call w d ∈ past ∧ w.engine = id ∧ w.key = k ∧ d.result = result

theorem Downloaded.mono {past past' : List Happening} {id : String} {k : ObjectKey}
    {result : Except SecretError Bytes} (h : Downloaded past id k result)
    (hsub : ∀ x ∈ past, x ∈ past') : Downloaded past' id k result := by
  obtain ⟨call, w, d, hmem, hid, hk, hresult⟩ := h
  exact ⟨call, w, d, hsub _ hmem, hid, hk, hresult⟩

/-! ### What calls lead to -/

/-- A call begins. -/
theorem call_cases {s : Decryptions} (hs : s.resolver.Known) (r : EncryptedRef) :
    ((∀ files k, s.resolver.filesOf? r.engine = some files → Location.key r ≠ .ok k) ∧
      ∃ answer log, s.call r = (.answered s.nextCall r answer,
        { s with resolver := { s.resolver with log := log }, nextCall := s.nextCall + 1 })) ∨
    ∃ files k log, s.resolver.filesOf? r.engine = some files ∧ Location.key r = .ok k ∧
      ((∃ e, Entries.find? k files.cache.entries = some e ∧
        s.call r = (.answered s.nextCall r (Location.part r e.value),
          { s with
            resolver := s.resolver.withFiles r.engine (files.used s.resolver.now k e) log
            nextCall := s.nextCall + 1 })) ∨
      (∃ flight, Entries.find? k files.cache.inFlight = some flight ∧
        s.call r = (.joined s.nextCall ⟨r.engine, r, k, flight⟩,
          { resolver := s.resolver.withFiles r.engine (files.missed k) log
            waiting := Entries.put s.nextCall ⟨r.engine, r, k, flight⟩ s.waiting
            nextCall := s.nextCall + 1 })) ∨
      ((∀ e, Entries.find? k files.cache.entries = some e →
          e.isExpired files.cache.limits s.resolver.now = true) ∧
        Entries.find? k files.cache.inFlight = none ∧
        s.call r = (.started s.nextCall ⟨r.engine, r, k, files.cache.nextFlight⟩
            (s.resolver.store.download k),
          { resolver := { s.resolver with downloads := k :: s.resolver.downloads }.withFiles r.engine
              (files.begun k ⟨s.resolver.now + (s.resolver.store.download k).delay,
                (s.resolver.store.download k).result⟩) log
            waiting := Entries.put s.nextCall ⟨r.engine, r, k, files.cache.nextFlight⟩ s.waiting
            nextCall := s.nextCall + 1 }))) := by
  rcases Resolver.startDecrypt_cases hs r with
    ⟨files, k, log, hfiles, hk, heq⟩ | ⟨hnone, answer, log, heq⟩
  · rcases Resolver.requestFile_cases r.engine files k { s.resolver with log := log } with
      ⟨e, log', he, hlive, hrequest⟩ |
        ⟨hover, ⟨flight, log', hflight, hrequest⟩ | ⟨hno, log', hrequest⟩⟩
    · refine .inr ⟨files, k, log', hfiles, hk, .inl ⟨e, he, ?_⟩⟩
      rw [hrequest] at heq
      simp [call, heq, Resolver.withFiles]
    · refine .inr ⟨files, k, log', hfiles, hk, .inr (.inl ⟨flight, hflight, ?_⟩)⟩
      rw [hrequest] at heq
      simp [call, heq, Resolver.withFiles]
    · refine .inr ⟨files, k, log', hfiles, hk, .inr (.inr ⟨hover, hno, ?_⟩)⟩
      rw [hrequest] at heq
      simp [call, heq, Resolver.withFiles]
  · refine .inl ⟨hnone, answer, log, ?_⟩
    simp [call, heq]

/-- A call that waits goes on as soon as its download is there. -/
theorem poll_of_waiting {s : Decryptions} {call : Nat} {w : Resolver.FileWait}
    {files : Shared ObjectKey SecretError Bytes} {c : Computation SecretError Bytes}
    (hw : Entries.find? call s.waiting = some w)
    (hfiles : s.resolver.filesOf? w.engine = some files)
    (hc : files.computation? w.flight = some c) :
    if c.readyAt ≤ s.resolver.now then
      ∃ log, s.poll call = (.returned call w (c.result >>= Location.part w.reference),
        { s with
          resolver := s.resolver.withFiles w.engine
            (files.retired s.resolver.now w.key w.flight c.result) log
          waiting := Entries.drop call s.waiting })
    else s.poll call = (.idle call, s) := by
  have hready : w.readyAt s.resolver = some c.readyAt := by
    simp [Resolver.FileWait.readyAt, hfiles, Shared.readyAt?, hc]
  have htime : Resolver.timeOf (w.readyAt s.resolver) s.resolver =
      max s.resolver.now c.readyAt := by
    simp [Resolver.timeOf, hready]
  split
  · rename_i hle
    obtain ⟨log, hfinish⟩ := Resolver.finishDecrypt_eq hfiles hc
    refine ⟨log, ?_⟩
    have hnow : max s.resolver.now c.readyAt ≤ s.resolver.now := by omega
    simp [poll, hw, htime, hnow, hfinish]
  · rename_i hlt
    have hnow : ¬ max s.resolver.now c.readyAt ≤ s.resolver.now := by omega
    simp [poll, hw, htime, hnow]

/-! ### What caches hold and calls wait for -/

/-- A call waits for a download of the file that its reference leads to. -/
structure Waits (past : List Happening) (s : Decryptions) (call : Nat) (w : Resolver.FileWait) :
    Prop where
  known : call < s.nextCall
  began : ∃ b ∈ past, b.begins? = some (call, w.reference)
  leads : Location.key w.reference = .ok w.key
  engine : w.reference.engine = w.engine
  under : ∃ files c, s.resolver.filesOf? w.engine = some files ∧
    files.computation? w.flight = some c ∧ Downloaded past w.engine w.key c.result

/-- What caches hold and calls wait for comes from downloads. -/
structure Sound (s₀ : Resolver) (past : List Happening) (s : Decryptions) : Prop where
  known : s.resolver.Known
  storages : ∀ id, (s.resolver.filesOf? id).isSome = (s₀.filesOf? id).isSome
  sourced : ∀ id files, s.resolver.filesOf? id = some files → files.Sourced (Downloaded past id)
  waits : ∀ call w, Entries.find? call s.waiting = some w → Waits past s call w
  numbered : ∀ b ∈ past, ∀ call r, b.begins? = some (call, r) → call < s.nextCall
  /-- A call has begun once. -/
  unique : ∀ b ∈ past, ∀ b' ∈ past, ∀ call r r', b.begins? = some (call, r) →
    b'.begins? = some (call, r') → r = r'

variable {s₀ : Resolver} {past : List Happening} {s : Decryptions}

theorem sound_start (h : s₀.Fresh) : Sound s₀ [] (start s₀) where
  known := h.known
  storages _ := rfl
  sourced id files hfiles := by
    obtain ⟨limits, rfl⟩ := h.unused id files hfiles
    exact Shared.sourced_empty limits
  waits call w hw := by simp [start] at hw
  numbered := by simp
  unique := by simp

/-- What a turn leaves of the caches: all that they hold comes from downloads, and the downloads
that were under way still are. -/
structure Succeeds (past : List Happening) (before now : Resolver) : Prop where
  known : now.Known
  storages : ∀ id, (now.filesOf? id).isSome = (before.filesOf? id).isSome
  sourced : ∀ id files, now.filesOf? id = some files → files.Sourced (Downloaded past id)
  kept : ∀ id files flight c, before.filesOf? id = some files →
    files.computation? flight = some c →
    ∃ files', now.filesOf? id = some files' ∧ files'.computation? flight = some c

theorem Sound.sourced_cons (h : Sound s₀ past s) {id : String}
    {files : Shared ObjectKey SecretError Bytes} (hfiles : s.resolver.filesOf? id = some files)
    (e : Happening) : files.Sourced (Downloaded (e :: past) id) := by
  refine (h.sourced id files hfiles).mono ?_
  intro k result hdown
  exact hdown.mono fun _ => List.mem_cons_of_mem _

/-- Nothing happens to the caches. -/
theorem Sound.same (h : Sound s₀ past s) (e : Happening) {now : Resolver}
    (hsame : now.engines = s.resolver.engines) : Succeeds (e :: past) s.resolver now := by
  have hfiles : ∀ id, now.filesOf? id = s.resolver.filesOf? id := by
    intro id
    rw [Resolver.filesOf?_eq, Resolver.filesOf?_eq, hsame]
  refine ⟨fun id e' he' => ?_, fun id => ?_, fun id files hf => ?_, fun id files flight c hf hc => ?_⟩
  · rw [hsame] at he'
    exact h.known id e' he'
  · rw [hfiles]
  · rw [hfiles] at hf
    exact h.sourced_cons hf e
  · exact ⟨files, (hfiles id).trans hf, hc⟩

/-- Something happens to one cache. -/
theorem Sound.withFiles (h : Sound s₀ past s) (e : Happening) (now : Resolver)
    (hsame : now.engines = s.resolver.engines) {id : String}
    {files files' : Shared ObjectKey SecretError Bytes}
    (hfiles : s.resolver.filesOf? id = some files)
    (hsourced : files'.Sourced (Downloaded (e :: past) id))
    (hkept : ∀ flight c, files.computation? flight = some c → files'.computation? flight = some c)
    (log : List LogEvent) :
    Succeeds (e :: past) s.resolver (now.withFiles id files' log) := by
  have hnow := h.same e hsame
  refine ⟨hnow.known.withFiles id files' log, fun id' => ?_, fun id' files'' hf => ?_,
    fun id' files'' flight c hf hc => ?_⟩
  · rw [Resolver.filesOf?_withFiles]
    split
    · rename_i hid
      rw [← hid, hfiles]
      rfl
    · exact hnow.storages id'
  · rw [Resolver.filesOf?_withFiles] at hf
    split at hf
    · rename_i hid
      obtain rfl := Option.some.inj hf
      exact hid ▸ hsourced
    · exact hnow.sourced id' files'' hf
  · rw [Resolver.filesOf?_withFiles]
    split
    · rename_i hid
      rw [← hid, hfiles] at hf
      obtain rfl := Option.some.inj hf
      exact ⟨files', rfl, hkept flight c hc⟩
    · exact hnow.kept id' files'' flight c hf hc

/-- All caches are cleared, which takes no download away from those who wait for it. -/
theorem Sound.clear (h : Sound s₀ past s) (e : Happening) :
    Succeeds (e :: past) s.resolver (Resolver.clearEngines s.resolver).2 := by
  obtain ⟨engines, log, -, hknown, hfiles⟩ := Resolver.clearEngines_spec h.known
  refine ⟨hknown, fun id => ?_, fun id files hf => ?_, fun id files flight c hf hc => ?_⟩
  · rw [hfiles, Option.isSome_map]
  · rw [hfiles, Option.map_eq_some_iff] at hf
    obtain ⟨files', hf', rfl⟩ := hf
    exact (h.sourced_cons hf' e).clear
  · rw [hfiles, hf]
    exact ⟨files.clear, rfl, hc⟩

/-- What is known of a call that waits stays known. -/
theorem Waits.mono {call : Nat} {w : Resolver.FileWait} {e : Happening} {s' : Decryptions}
    (h : Waits past s call w) (hnext : s.nextCall ≤ s'.nextCall)
    (hs : Succeeds (e :: past) s.resolver s'.resolver) : Waits (e :: past) s' call w := by
  obtain ⟨b, hb, hbegins⟩ := h.began
  obtain ⟨files, c, hfiles, hc, hdown⟩ := h.under
  obtain ⟨files', hfiles', hc'⟩ := hs.kept _ _ _ _ hfiles hc
  have hknown := h.known
  exact ⟨by omega, ⟨b, List.mem_cons_of_mem _ hb, hbegins⟩, h.leads, h.engine,
    files', c, hfiles', hc', hdown.mono fun _ => List.mem_cons_of_mem _⟩

/-- One turn: the caches succeed to what they were, calls that begin have a new number, and who waits
has waited before or is known to wait. -/
theorem Sound.turn (h : Sound s₀ past s) {e : Happening} {s' : Decryptions}
    (hs : Succeeds (e :: past) s.resolver s'.resolver) (hnext : s.nextCall ≤ s'.nextCall)
    (hbegins : ∀ call r, e.begins? = some (call, r) → s.nextCall ≤ call ∧ call < s'.nextCall)
    (hwaits : ∀ call w, Entries.find? call s'.waiting = some w →
      Entries.find? call s.waiting = some w ∨ Waits (e :: past) s' call w) :
    Sound s₀ (e :: past) s' where
  known := hs.known
  storages id := (hs.storages id).trans (h.storages id)
  sourced := hs.sourced
  waits call w hw := by
    rcases hwaits call w hw with hold | hnew
    · exact (h.waits call w hold).mono hnext hs
    · exact hnew
  numbered b hb call r hr := by
    rcases List.mem_cons.1 hb with rfl | hb
    · exact (hbegins call r hr).2
    · have hlt := h.numbered b hb call r hr
      omega
  unique b hb b' hb' call r r' hr hr' := by
    -- a call that begins now has a number that no call before it had
    rcases List.mem_cons.1 hb with rfl | hold <;> rcases List.mem_cons.1 hb' with rfl | hold'
    · have heq := hr.symm.trans hr'
      simp only [Option.some.injEq, Prod.mk.injEq, true_and] at heq
      exact heq
    · have hge := (hbegins call r hr).1
      have hlt := h.numbered b' hold' call r' hr'
      omega
    · have hge := (hbegins call r' hr').1
      have hlt := h.numbered b hold call r hr
      omega
    · exact h.unique b hold b' hold' call r r' hr hr'

/-! ### Turns -/

/-- Who waits after a call has come to wait: that call, or one that has waited before. -/
theorem waits_put {call call' : Nat} {w w' : Resolver.FileWait} {e : Happening}
    {s' : Decryptions} (hw : Entries.find? call' (Entries.put call w s.waiting) = some w')
    (hnew : Waits (e :: past) s' call w) :
    Entries.find? call' s.waiting = some w' ∨ Waits (e :: past) s' call' w' := by
  rw [Entries.find?_put] at hw
  split at hw
  · rename_i hcall
    obtain rfl := Option.some.inj hw
    exact .inr (hcall ▸ hnew)
  · exact .inl hw

theorem Sound.call (h : Sound s₀ past s) (r : EncryptedRef) :
    Sound s₀ ((s.call r).1 :: past) (s.call r).2 := by
  rcases call_cases h.known r with
    ⟨-, answer, log, heq⟩ | ⟨files, k, log, hfiles, hk, ⟨e, he, heq⟩ | ⟨flight, hflight, heq⟩ |
      ⟨-, -, heq⟩⟩
  · rw [heq]
    refine h.turn (h.same _ rfl) (Nat.le_succ _) ?_ fun _ _ hw => .inl hw
    simp only [Happening.begins?, Option.some.injEq, Prod.mk.injEq]
    rintro call r' ⟨rfl, rfl⟩
    exact ⟨Nat.le_refl _, Nat.lt_succ_self _⟩
  · rw [heq]
    have hsourced := (h.sourced_cons hfiles (.answered s.nextCall r (Location.part r e.value)))
    refine h.turn (h.withFiles _ s.resolver rfl hfiles (hsourced.used he _) (fun _ _ hc => hc) log)
      (Nat.le_succ _) ?_ fun _ _ hw => .inl hw
    simp only [Happening.begins?, Option.some.injEq, Prod.mk.injEq]
    rintro call r' ⟨rfl, rfl⟩
    exact ⟨Nat.le_refl _, Nat.lt_succ_self _⟩
  · rw [heq]
    have hsourced := h.sourced_cons hfiles (.joined s.nextCall ⟨r.engine, r, k, flight⟩)
    obtain ⟨c, hc, hdown⟩ := hsourced.flying k flight hflight
    refine h.turn (h.withFiles _ s.resolver rfl hfiles (hsourced.missed k) (fun _ _ hc => hc) log)
      (Nat.le_succ _) ?_ fun call w hw => waits_put hw ?_
    · simp only [Happening.begins?, Option.some.injEq, Prod.mk.injEq]
      rintro call r' ⟨rfl, rfl⟩
      exact ⟨Nat.le_refl _, Nat.lt_succ_self _⟩
    · refine ⟨Nat.lt_succ_self _, ⟨_, List.mem_cons_self .., rfl⟩, hk, rfl, files.missed k, c, ?_,
        hc, hdown⟩
      rw [Resolver.filesOf?_withFiles, if_pos rfl]
  · rw [heq]
    generalize s.resolver.store.download k = d
    have hdown : Downloaded
        (.started s.nextCall ⟨r.engine, r, k, files.cache.nextFlight⟩ d :: past) r.engine k d.result :=
      ⟨_, _, _, List.mem_cons_self .., rfl, rfl, rfl⟩
    have hsourced := h.sourced_cons hfiles
      (.started s.nextCall ⟨r.engine, r, k, files.cache.nextFlight⟩ d)
    have hbegun := hsourced.begun (c := ⟨s.resolver.now + d.delay, d.result⟩) hdown
    refine h.turn (h.withFiles _ { s.resolver with downloads := k :: s.resolver.downloads } rfl
      hfiles hbegun (fun _ _ hc => hsourced.computation?_begun hc k _) log)
      (Nat.le_succ _) ?_ fun call w hw => waits_put hw ?_
    · simp only [Happening.begins?, Option.some.injEq, Prod.mk.injEq]
      rintro call r' ⟨rfl, rfl⟩
      exact ⟨Nat.le_refl _, Nat.lt_succ_self _⟩
    · refine ⟨Nat.lt_succ_self _, ⟨_, List.mem_cons_self .., rfl⟩, hk, rfl, _,
        ⟨s.resolver.now + d.delay, d.result⟩, ?_, files.computation?_begun_self k _, hdown⟩
      rw [Resolver.filesOf?_withFiles, if_pos rfl]

/-- Who still waits after a call has stopped waiting has waited before. -/
theorem waits_drop {call call' : Nat} {w : Resolver.FileWait}
    (hw : Entries.find? call' (Entries.drop call s.waiting) = some w) :
    Entries.find? call' s.waiting = some w := by
  rw [Entries.find?_drop] at hw
  split at hw
  · exact absurd hw (by simp)
  · exact hw

theorem Sound.poll (h : Sound s₀ past s) (call : Nat) :
    Sound s₀ ((s.poll call).1 :: past) (s.poll call).2 := by
  have hidle : Sound s₀ (.idle call :: past) s :=
    h.turn (h.same _ rfl) (Nat.le_refl _) (by simp [Happening.begins?]) fun _ _ hw => .inl hw
  cases hw : Entries.find? call s.waiting with
  | none => simpa [Decryptions.poll, hw] using hidle
  | some w =>
      obtain ⟨files, c, hfiles, hc, hdown⟩ := (h.waits call w hw).under
      have hpoll := poll_of_waiting hw hfiles hc
      split at hpoll
      · obtain ⟨log, heq⟩ := hpoll
        rw [heq]
        have hdown' : Downloaded (.returned call w (c.result >>= Location.part w.reference) :: past)
            w.engine w.key c.result := hdown.mono fun _ => List.mem_cons_of_mem _
        refine h.turn (h.withFiles _ s.resolver rfl hfiles
          ((h.sourced_cons hfiles _).retired hdown' _) (fun _ _ hc => hc) log) (Nat.le_refl _)
          (by simp [Happening.begins?]) ?_
        exact fun _ _ hw => .inl (waits_drop hw)
      · rw [hpoll]
        exact hidle

/-- Every move keeps what caches hold and calls wait for. -/
theorem Sound.move (h : Sound s₀ past s) (m : Move) :
    Sound s₀ ((s.move m).1 :: past) (s.move m).2 := by
  cases m with
  | call r => exact h.call r
  | poll call => exact h.poll call
  | abort call =>
      exact h.turn (h.same _ rfl) (Nat.le_refl _) (by simp [Decryptions.move, Happening.begins?])
        fun _ _ hw => .inl (waits_drop hw)
  | clear =>
      exact h.turn (h.clear _) (Nat.le_refl _) (by simp [Decryptions.move, Happening.begins?])
        fun _ _ hw => .inl hw
  | pass ms =>
      exact h.turn (h.same _ rfl) (Nat.le_refl _) (by simp [Decryptions.move, Happening.begins?])
        fun _ _ hw => .inl hw
  | restock store =>
      exact h.turn (h.same _ rfl) (Nat.le_refl _) (by simp [Decryptions.move, Happening.begins?])
        fun _ _ hw => .inl hw

/-- In every run what caches hold and calls wait for comes from downloads. -/
theorem sound_after (h : s₀.Fresh) (ms : List Move) : Sound s₀ (history s₀ ms) (after s₀ ms) := by
  induction ms with
  | nil => exact sound_start h
  | cons m ms ih => exact ih.move m

/-! ### What calls return -/

/-- A call that goes on has waited for a download. -/
theorem Sound.poll_cases (h : Sound s₀ past s) (call : Nat) :
    s.poll call = (.idle call, s) ∨
      ∃ w files result log, Waits past s call w ∧ s.resolver.filesOf? w.engine = some files ∧
        Downloaded past w.engine w.key result ∧
        s.poll call = (.returned call w (result >>= Location.part w.reference),
          { s with
            resolver := s.resolver.withFiles w.engine
              (files.retired s.resolver.now w.key w.flight result) log
            waiting := Entries.drop call s.waiting }) := by
  cases hw : Entries.find? call s.waiting with
  | none => exact .inl (by simp [Decryptions.poll, hw])
  | some w =>
      have hwaits := h.waits call w hw
      obtain ⟨files, c, hfiles, hc, hdown⟩ := hwaits.under
      have hpoll := poll_of_waiting hw hfiles hc
      split at hpoll
      · obtain ⟨log, heq⟩ := hpoll
        exact .inr ⟨w, files, c.result, log, hwaits, hfiles, hdown, heq⟩
      · exact .inl hpoll

/-- A call returns what its reference makes of one download of its own file. -/
theorem Sound.answered (h : Sound s₀ past s) {m : Move} {call : Nat}
    {answer : Except SecretError Bytes} (ha : (s.move m).1.answers? = some (call, answer)) :
    ∃ r, (∃ b ∈ (s.move m).1 :: past, b.begins? = some (call, r)) ∧
      ∀ k, s₀.Leads r k →
        ∃ result, Downloaded past r.engine k result ∧ Location.Answers r result answer := by
  cases m with
  | call r =>
      change (s.call r).1.answers? = _ at ha
      change ∃ r', (∃ b ∈ (s.call r).1 :: past, _) ∧ _
      rcases call_cases h.known r with
        ⟨hnone, answer', log, heq⟩ | ⟨files, k, log, hfiles, hk, ⟨e, he, heq⟩ | ⟨flight, -, heq⟩ |
          ⟨-, -, heq⟩⟩
      · rw [heq] at ha ⊢
        obtain ⟨rfl, rfl⟩ : s.nextCall = call ∧ answer' = answer := by
          simpa [Happening.answers?] using ha
        refine ⟨r, ⟨_, List.mem_cons_self .., rfl⟩, fun k hleads => ?_⟩
        obtain ⟨files, hfiles⟩ := Option.isSome_iff_exists.1 ((h.storages _).trans hleads.1)
        exact absurd hleads.2 (hnone files k hfiles)
      · rw [heq] at ha ⊢
        obtain ⟨rfl, rfl⟩ : s.nextCall = call ∧ Location.part r e.value = answer := by
          simpa [Happening.answers?] using ha
        refine ⟨r, ⟨_, List.mem_cons_self .., rfl⟩, fun k' hleads => ?_⟩
        obtain rfl : k = k' := Except.ok.inj (hk.symm.trans hleads.2)
        exact ⟨.ok e.value, (h.sourced _ _ hfiles).held k e he, Location.answers_part r e.value⟩
      · rw [heq] at ha
        simp [Happening.answers?] at ha
      · rw [heq] at ha
        simp [Happening.answers?] at ha
  | poll call' =>
      change (s.poll call').1.answers? = _ at ha
      change ∃ r', (∃ b ∈ (s.poll call').1 :: past, _) ∧ _
      rcases h.poll_cases call' with heq | ⟨w, files, result, log, hwaits, -, hdown, heq⟩
      · rw [heq] at ha
        simp [Happening.answers?] at ha
      · rw [heq] at ha ⊢
        obtain ⟨rfl, rfl⟩ : call' = call ∧ (result >>= Location.part w.reference) = answer := by
          simpa [Happening.answers?] using ha
        obtain ⟨b, hb, hbegins⟩ := hwaits.began
        refine ⟨w.reference, ⟨b, List.mem_cons_of_mem _ hb, hbegins⟩, fun k hleads => ?_⟩
        obtain rfl : w.key = k := Except.ok.inj (hwaits.leads.symm.trans hleads.2)
        exact ⟨result, hwaits.engine ▸ hdown, Location.answers_bind w.reference result⟩
  | abort call' => simp [Decryptions.move, Happening.answers?] at ha
  | clear => simp [Decryptions.move, Happening.answers?] at ha
  | pass ms => simp [Decryptions.move, Happening.answers?] at ha
  | restock store => simp [Decryptions.move, Happening.answers?] at ha

/-- A download is started where there is neither a value nor a download in flight. -/
theorem Sound.needed (h : Sound s₀ past s) {m : Move} {call : Nat} {w : Resolver.FileWait}
    {d : Download} (hstarted : (s.move m).1 = .started call w d) :
    d = s.resolver.store.download w.key ∧
      ∃ files, s.resolver.filesOf? w.engine = some files ∧
        (∀ e, Entries.find? w.key files.cache.entries = some e →
          e.isExpired files.cache.limits s.resolver.now = true) ∧
        Entries.find? w.key files.cache.inFlight = none := by
  cases m with
  | call r =>
      change (s.call r).1 = _ at hstarted
      rcases call_cases h.known r with
        ⟨-, answer', log, heq⟩ | ⟨files, k, log, hfiles, hk, ⟨e, he, heq⟩ | ⟨flight, -, heq⟩ |
          ⟨hover, hno, heq⟩⟩
      · simp [heq] at hstarted
      · simp [heq] at hstarted
      · simp [heq] at hstarted
      · rw [heq] at hstarted
        obtain ⟨-, rfl, rfl⟩ := Happening.started.inj hstarted
        exact ⟨rfl, files, hfiles, hover, hno⟩
  | poll call' =>
      change (s.poll call').1 = _ at hstarted
      rcases h.poll_cases call' with heq | ⟨w, files, result, log, -, -, -, heq⟩
      · simp [heq] at hstarted
      · simp [heq] at hstarted
  | abort call' => simp [Decryptions.move] at hstarted
  | clear => simp [Decryptions.move] at hstarted
  | pass ms => simp [Decryptions.move] at hstarted
  | restock store => simp [Decryptions.move] at hstarted

/-- A move that puts other files into the store. -/
def Move.restocks : Move → Bool
  | .restock _ => true
  | _ => false

/-- What was downloaded grows by what is started, and the store stays as long as nobody changes it. -/
theorem Sound.effect (h : Sound s₀ past s) (m : Move) :
    (s.move m).2.resolver.downloads = (s.move m).1.downloads?.toList ++ s.resolver.downloads ∧
      (m.restocks = false → (s.move m).2.resolver.store = s.resolver.store) := by
  cases m with
  | call r =>
      change (s.call r).2.resolver.downloads = (s.call r).1.downloads?.toList ++ _ ∧
        (_ → (s.call r).2.resolver.store = _)
      rcases call_cases h.known r with
        ⟨-, answer, log, heq⟩ | ⟨files, k, log, -, -, ⟨e, -, heq⟩ | ⟨flight, -, heq⟩ | ⟨-, -, heq⟩⟩
      · simp [heq, Happening.downloads?]
      · simp [heq, Happening.downloads?, Resolver.withFiles]
      · simp [heq, Happening.downloads?, Resolver.withFiles]
      · simp [heq, Happening.downloads?, Resolver.withFiles]
  | poll call =>
      change (s.poll call).2.resolver.downloads = (s.poll call).1.downloads?.toList ++ _ ∧
        (_ → (s.poll call).2.resolver.store = _)
      rcases h.poll_cases call with heq | ⟨w, files, result, log, -, -, -, heq⟩
      · simp [heq, Happening.downloads?]
      · simp [heq, Happening.downloads?, Resolver.withFiles]
  | abort call => simp [Decryptions.move, Happening.downloads?]
  | clear =>
      obtain ⟨engines, log, heq, -⟩ := Resolver.clearEngines_spec h.known
      simp [Decryptions.move, Happening.downloads?, heq]
  | pass ms => simp [Decryptions.move, Happening.downloads?, Resolver.pass]
  | restock store => simp [Decryptions.move, Happening.downloads?, Move.restocks]

/-- What was downloaded in a run is what was started in it. -/
theorem downloads_after (h : s₀.Fresh) (ms : List Move) :
    (after s₀ ms).resolver.downloads =
      (history s₀ ms).filterMap Happening.downloads? ++ s₀.downloads := by
  induction ms with
  | nil => rfl
  | cons m ms ih =>
      change ((after s₀ ms).move m).2.resolver.downloads =
        (((after s₀ ms).move m).1 :: history s₀ ms).filterMap Happening.downloads? ++ s₀.downloads
      rw [((sound_after h ms).effect m).1, ih, List.filterMap_cons]
      cases ((after s₀ ms).move m).1.downloads? <;> rfl

theorem store_after (h : s₀.Fresh) {ms : List Move} (hms : ∀ m ∈ ms, m.restocks = false) :
    (after s₀ ms).resolver.store = s₀.store := by
  induction ms with
  | nil => rfl
  | cons m ms ih =>
      have hm := ((sound_after h ms).effect m).2 (hms m (by simp))
      exact hm.trans (ih fun m' hm' => hms m' (by simp [hm']))

/-- While nobody changes the store, every download comes to the same. -/
theorem result_of_downloaded (h : s₀.Fresh) {ms : List Move} (hms : ∀ m ∈ ms, m.restocks = false)
    {id : String} {k : ObjectKey} {result : Except SecretError Bytes}
    (hdown : Downloaded (history s₀ ms) id k result) : result = (s₀.store.download k).result := by
  induction ms with
  | nil =>
      obtain ⟨call, w, d, hmem, -⟩ := hdown
      exact absurd hmem List.not_mem_nil
  | cons m ms ih =>
      have hms' : ∀ m' ∈ ms, m'.restocks = false := fun m' hm' => hms m' (by simp [hm'])
      obtain ⟨call, w, d, hmem, rfl, rfl, rfl⟩ := hdown
      rcases List.mem_cons.1 hmem with hnow | hbefore
      · obtain ⟨rfl, -⟩ := (sound_after h ms).needed hnow.symm
        rw [store_after h hms']
      · exact ih hms' ⟨call, w, d, hbefore, rfl, rfl, rfl⟩

/-! ### References into the same files -/

/-- Two moves that differ at most in what a call wants out of its file. -/
inductive Move.Alike : Move → Move → Prop where
  | call (r r' : EncryptedRef) (h : r.Alike r') : Alike (.call r) (.call r')
  | same (m : Move) : Alike m m

/-- Two calls that wait for the same download, with references that are alike. -/
def Awaiting.Alike (w w' : Resolver.FileWait) : Prop :=
  ∃ id r r' k flight, EncryptedRef.Alike r r' ∧ w = ⟨id, r, k, flight⟩ ∧ w' = ⟨id, r', k, flight⟩

/-- Two states that differ at most in what calls want out of their files. -/
structure Alike (s s' : Decryptions) : Prop where
  resolver : s.resolver = s'.resolver
  nextCall : s.nextCall = s'.nextCall
  waiting : ∀ call, Option.Rel Awaiting.Alike (Entries.find? call s.waiting)
    (Entries.find? call s'.waiting)

variable {s' : Decryptions}

theorem Alike.drop (h : Alike s s') (call call' : Nat) :
    Option.Rel Awaiting.Alike (Entries.find? call' (Entries.drop call s.waiting))
      (Entries.find? call' (Entries.drop call s'.waiting)) := by
  rw [Entries.find?_drop, Entries.find?_drop]
  split
  · exact .none
  · exact h.waiting call'

theorem Alike.put (h : Alike s s') (call : Nat) {w w' : Resolver.FileWait}
    (hw : Awaiting.Alike w w') (call' : Nat) :
    Option.Rel Awaiting.Alike (Entries.find? call' (Entries.put call w s.waiting))
      (Entries.find? call' (Entries.put call w' s'.waiting)) := by
  rw [Entries.find?_put, Entries.find?_put]
  split
  · exact .some hw
  · exact h.waiting call'

theorem Alike.call (h : Alike s s') {r r' : EncryptedRef} (hr : r.Alike r') :
    Alike (s.call r).2 (s'.call r').2 := by
  obtain ⟨houtcome, hresolver⟩ := Resolver.startDecrypt_alike hr s.resolver
  unfold Decryptions.call
  rw [← h.resolver]
  rcases hs : Resolver.startDecrypt r s.resolver with ⟨outcome, resolver⟩
  rcases hs' : Resolver.startDecrypt r' s.resolver with ⟨outcome', resolver'⟩
  rw [hs, hs'] at houtcome hresolver
  obtain rfl : resolver = resolver' := hresolver
  cases houtcome with
  | done answer answer' => exact ⟨rfl, by simp [h.nextCall], h.waiting⟩
  | waits id r r' k flight hr =>
      refine ⟨rfl, by simp [h.nextCall], ?_⟩
      rw [h.nextCall]
      exact h.put s'.nextCall ⟨id, r, r', k, flight, hr, rfl, rfl⟩

theorem Alike.poll (h : Alike s s') (call : Nat) : Alike (s.poll call).2 (s'.poll call).2 := by
  have hwaiting := h.waiting call
  unfold Decryptions.poll
  rw [← h.resolver]
  cases hw : Entries.find? call s.waiting with
  | none =>
      cases hw' : Entries.find? call s'.waiting with
      | none => exact h
      | some w' => rw [hw, hw'] at hwaiting; nomatch hwaiting
  | some w =>
      cases hw' : Entries.find? call s'.waiting with
      | none => rw [hw, hw'] at hwaiting; nomatch hwaiting
      | some w' =>
          rw [hw, hw'] at hwaiting
          cases hwaiting with
          | some hww =>
              obtain ⟨id, r, r', k, flight, hr, rfl, rfl⟩ := hww
              -- when a file is there does not depend on what is wanted out of it
              have hsame : Resolver.FileWait.readyAt ⟨id, r', k, flight⟩ s.resolver =
                  Resolver.FileWait.readyAt ⟨id, r, k, flight⟩ s.resolver := rfl
              have hfinish := Resolver.finishDecrypt_alike id r r' k flight s.resolver
              simp only [hsame]
              split
              · exact ⟨hfinish, h.nextCall, h.drop call⟩
              · exact h

theorem Alike.move (h : Alike s s') {m m' : Move} (hm : m.Alike m') :
    Alike (s.move m).2 (s'.move m').2 := by
  obtain ⟨hresolver, hnext, hwaiting⟩ := h
  cases hm with
  | call r r' hr => exact Alike.call ⟨hresolver, hnext, hwaiting⟩ hr
  | same m =>
      cases m with
      | call r => exact Alike.call ⟨hresolver, hnext, hwaiting⟩ (.refl r)
      | poll call => exact Alike.poll ⟨hresolver, hnext, hwaiting⟩ call
      | abort call => exact ⟨hresolver, hnext, Alike.drop ⟨hresolver, hnext, hwaiting⟩ call⟩
      | clear => exact ⟨by simp [Decryptions.move, hresolver], hnext, hwaiting⟩
      | pass ms => exact ⟨by simp [Decryptions.move, hresolver], hnext, hwaiting⟩
      | restock store => exact ⟨by simp [Decryptions.move, hresolver], hnext, hwaiting⟩

/-- **What calls want out of their files makes no difference** to the resolver, and so none to what is
cached and downloaded. -/
theorem after_alike (s₀ : Resolver) {ms ms' : List Move} (h : List.Forall₂ Move.Alike ms ms') :
    Alike (after s₀ ms) (after s₀ ms') := by
  induction h with
  | nil => exact ⟨rfl, rfl, fun _ => .none⟩
  | cons hm _ ih => exact ih.move hm

/-! ### Whole runs -/

/-- What calls return and when files are downloaded, in a run from some resolver. -/
structure EndToEnd (s₀ : Resolver) (ms : List Move) : Prop where
  /-- Every call has one number and one reference. -/
  begun : ∀ since r before, ms = since ++ .call r :: before →
    ∃ call, ((after s₀ before).move (.call r)).1.begins? = some (call, r)
  once : ∀ b ∈ history s₀ ms, ∀ b' ∈ history s₀ ms, ∀ call r r',
    b.begins? = some (call, r) → b'.begins? = some (call, r') → r = r'
  /-- What a call returns is what its reference makes of one download of its own file. -/
  answered : ∀ since m before, ms = since ++ m :: before → ∀ call answer,
    ((after s₀ before).move m).1.answers? = some (call, answer) →
    ∃ r, (∃ b ∈ history s₀ (m :: before), b.begins? = some (call, r)) ∧
      ∀ k, s₀.Leads r k → ∃ result, Downloaded (history s₀ before) r.engine k result ∧
        Location.Answers r result answer
  /-- A call that waits returns when it goes on after some time. -/
  progress : ∀ call w, Entries.find? call (after s₀ ms).waiting = some w →
    ∃ n₀, ∀ n, n₀ ≤ n → ∃ answer,
      ((after s₀ (.pass n :: ms)).move (.poll call)).1 = .returned call w answer
  /-- A download is started where there is neither a value nor a download in flight. -/
  needed : ∀ since m before, ms = since ++ m :: before → ∀ call w d,
    ((after s₀ before).move m).1 = .started call w d →
    d = (after s₀ before).resolver.store.download w.key ∧
      ∃ files, (after s₀ before).resolver.filesOf? w.engine = some files ∧
        (∀ e, Entries.find? w.key files.cache.entries = some e →
          e.isExpired files.cache.limits (after s₀ before).resolver.now = true) ∧
        Entries.find? w.key files.cache.inFlight = none
  /-- Nothing else is downloaded. -/
  counted : (after s₀ ms).resolver.downloads =
    (history s₀ ms).filterMap Happening.downloads? ++ s₀.downloads
  /-- What calls want out of their files makes no difference to caches and downloads. -/
  alike : ∀ ms', List.Forall₂ Move.Alike ms ms' →
    (after s₀ ms).resolver = (after s₀ ms').resolver
  /-- While nobody changes the store, calls return what they would return without any cache. -/
  steady : (∀ m ∈ ms, m.restocks = false) → ∀ e ∈ history s₀ ms, ∀ call answer,
    e.answers? = some (call, answer) → ∀ b ∈ history s₀ ms, ∀ r, b.begins? = some (call, r) →
    (∃ k, s₀.Leads r k) → answer = Location.fetch s₀.store r

theorem begins?_call (hs : s.resolver.Known) (r : EncryptedRef) :
    (s.call r).1.begins? = some (s.nextCall, r) := by
  rcases call_cases hs r with
    ⟨-, answer, log, heq⟩ | ⟨files, k, log, -, -, ⟨e, -, heq⟩ | ⟨flight, -, heq⟩ | ⟨-, -, heq⟩⟩
  all_goals
    rw [heq]
    rfl

/-- A call that waits returns when it goes on after its download is there. -/
theorem Sound.returned_of_pass (h : Sound s₀ past s) {call : Nat} {w : Resolver.FileWait}
    (hw : Entries.find? call s.waiting = some w) :
    ∃ n₀, ∀ n, n₀ ≤ n → ∃ answer,
      (((s.move (.pass n)).2).move (.poll call)).1 = .returned call w answer := by
  obtain ⟨files, c, hfiles, hc, -⟩ := (h.waits call w hw).under
  refine ⟨c.readyAt, fun n hn => ⟨c.result >>= Location.part w.reference, ?_⟩⟩
  have hpoll := poll_of_waiting (s := (s.move (.pass n)).2) hw hfiles hc
  have hready : c.readyAt ≤ (s.move (.pass n)).2.resolver.now := by
    change c.readyAt ≤ s.resolver.now + n
    omega
  rw [if_pos hready] at hpoll
  obtain ⟨log, heq⟩ := hpoll
  change ((s.move (.pass n)).2.poll call).1 = _
  rw [heq]

/-- While nobody changes the store, a call returns what it would return without any cache. -/
theorem answer_eq_fetch (h : s₀.Fresh) {ms : List Move} (hms : ∀ m ∈ ms, m.restocks = false)
    {e b : Happening} (he : e ∈ history s₀ ms) {call : Nat} {answer : Except SecretError Bytes}
    (ha : e.answers? = some (call, answer)) (hb : b ∈ history s₀ ms) {r : EncryptedRef}
    (hr : b.begins? = some (call, r)) {k : ObjectKey} (hleads : s₀.Leads r k) :
    answer = Location.fetch s₀.store r := by
  obtain ⟨since, m, before, rfl, rfl⟩ := Machine.exists_moves_of_mem he
  have hsub : ∀ x ∈ history s₀ (m :: before), x ∈ history s₀ (since ++ m :: before) :=
    (machine s₀).mem_history_append since (m :: before)
  obtain ⟨r', ⟨b', hb', hr'⟩, hanswer⟩ := (sound_after h before).answered ha
  obtain rfl : r' = r :=
    (sound_after h _).unique b' (hsub b' hb') b hb call r' r hr' hr
  obtain ⟨result, hdown, hanswers⟩ := hanswer k hleads
  have hbefore : ∀ m' ∈ before, m'.restocks = false := fun m' hm' => hms m' (by simp [hm'])
  obtain rfl := result_of_downloaded h hbefore hdown
  have hfetch : Location.fetch s₀.store r' =
      (s₀.store.download k).result >>= Location.part r' := by
    simp only [Location.fetch, hleads.2]
    rfl
  rw [hfetch]
  exact hanswers.unique (Location.answers_bind r' _)

/-- **Every run resolves files as if nothing were cached**: what a call returns is made of one
download of its own file, and a file is downloaded only when it is neither there nor under way. -/
theorem endToEnd (s₀ : Resolver) (h : s₀.Fresh) (ms : List Move) : EndToEnd s₀ ms where
  begun since r before _ := ⟨_, begins?_call (sound_after h before).known r⟩
  once := (sound_after h ms).unique
  answered since m before _ call answer ha := (sound_after h before).answered ha
  progress call w hw := (sound_after h ms).returned_of_pass hw
  needed since m before _ call w d hd := (sound_after h before).needed hd
  counted := downloads_after h ms
  alike ms' hms' := (after_alike s₀ hms').resolver
  steady hms e he call answer ha b hb r hr := by
    rintro ⟨k, hleads⟩
    exact answer_eq_fetch h hms he ha hb hr hleads

/-- A call wants a scalar out of a file that is being downloaded for a call that wants all of it, and
another one comes when the file is there: one download serves them all. -/
theorem endToEnd_shared :
    let s₀ := (Resolver.register (.storage "files" (.empty .standard)) (.empty .standard
      (.objects [(⟨"b", "r", "f"⟩, ⟨Utf8.ofString "a: 1\n", none, 5⟩)]))).2
    let whole : EncryptedRef := ⟨"files", ⟨[("b", "b"), ("r", "r"), ("f", "f")], by decide⟩⟩
    let part : EncryptedRef :=
      ⟨"files", ⟨[("b", "b"), ("r", "r"), ("f", "f"), ("k", "a")], by decide⟩⟩
    let ms : List Move := [.call part, .poll 1, .poll 0, .pass 5, .call part, .call whole]
    s₀.Fresh ∧ EndToEnd s₀ ms ∧ (after s₀ ms).resolver.downloads = [⟨"b", "r", "f"⟩] := by
  intro s₀ whole part ms
  have hfresh : s₀.Fresh := by
    refine (Resolver.fresh_empty _ _).register ?_
    intro files hfiles
    exact ⟨.standard, (Option.some.inj hfiles).symm⟩
  exact ⟨hfresh, endToEnd s₀ hfresh ms, by decide +kernel⟩

end Decryptions

end SecretResolver
