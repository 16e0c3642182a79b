/-
**What becomes of a reference into a file.**

A reference that leads into a file of a storage engine is described once: what its call leads to at
the beginning and when it goes on, and what becomes of the cache of its engine, of the downloads and
of everything else.  What is wanted out of the file comes last and touches none of this.

Main definitions:

* `Resolver.Known` — every engine is known by its own identifier;
* `Location.Answers`, `Location.fetch` — what a reference makes of what a download came to, and what
  it comes to without any cache.

Main results:

* `Location.answers_part` — the part that is wanted, or why there is none;
* `Resolver.startDecrypt_cases`, `Resolver.finishDecrypt_eq` — the beginning and the end of a call;
* `Resolver.clearEngines_spec` — **clearing clears every cache** and nothing else;
* `Resolver.startDecrypt_alike`, `Resolver.finishDecrypt_alike` — **what is wanted out of a file
  makes no difference** to the resolver.
-/

import SecretResolver.Proofs.Cache.Sources
import SecretResolver.Resolver.Files

set_option relaxedAutoImplicit false
set_option autoImplicit false

namespace SecretResolver

/-! ### References into files -/

namespace Location

variable {r : EncryptedRef} {k : ObjectKey}

/-- A reference leads to a file if it has the three parameters of one. -/
theorem key_eq_ok_iff : key r = .ok k ↔
    r.get? "b" = some k.bucket ∧ r.get? "r" = some k.region ∧ r.get? "f" = some k.file := by
  obtain ⟨bucket, region, file⟩ := k
  unfold key parameter
  cases r.get? "b" with
  | none => simp [bind, Except.bind]
  | some b =>
      cases r.get? "r" with
      | none => simp [bind, Except.bind]
      | some r' =>
          cases r.get? "f" <;> simp [bind, Except.bind, pure, Except.pure]

/-- A reference that leads to a file passes the check. -/
theorem validate_of_key (h : key r = .ok k) : validate r = .ok () := by
  obtain ⟨hb, hr, hf⟩ := key_eq_ok_iff.1 h
  have hhas : ∀ p ∈ required, r.has p.1 = true := by
    intro p hp
    simp only [required, List.mem_cons, List.not_mem_nil, or_false] at hp
    unfold EncryptedRef.has Table.contains
    unfold EncryptedRef.get? at hb hr hf
    rcases hp with rfl | rfl | rfl
    · simp [hb]
    · simp [hr]
    · simp [hf]
  have hnone : required.find? (fun p => !r.has p.1) = none := by
    rw [List.find?_eq_none]
    intro p hp
    simp [hhas p hp]
  simp [validate, hnone]

/-- What a reference makes of what the download of its file came to: all of it, or the UTF-8 bytes
of the scalar at the path that it names; and if there is none, why decryption failed. -/
inductive Answers (r : EncryptedRef) :
    Except SecretError Bytes → Except SecretError Bytes → Prop where
  /-- A failure stays what it was. -/
  | failed (e : SecretError) : Answers r (.error e) (.error e)
  | whole (contents : Bytes) (h : r.get? fieldParameter = none) :
      Answers r (.ok contents) (.ok contents)
  | scalar (contents : Bytes) (path : String) (d : Document) (text : String)
      (h : r.get? fieldParameter = some path) (hd : Document.decodeYaml contents = .ok d)
      (ht : d.extract path = .ok text) : Answers r (.ok contents) (.ok (Utf8.ofString text))
  /-- There is no scalar at the path. -/
  | missing (contents : Bytes) (path : String) (d : Document) (cause : DecryptionCause)
      (h : r.get? fieldParameter = some path) (hd : Document.decodeYaml contents = .ok d)
      (ht : d.extract path = .error cause) : Answers r (.ok contents) (.error (.decryption cause))
  /-- The file is no document. -/
  | undecodable (contents : Bytes) (path : String) (cause : DecryptionCause)
      (h : r.get? fieldParameter = some path)
      (hd : Document.decodeYaml contents = .error cause) :
      Answers r (.ok contents) (.error (.decryption cause))

/-- What a reference comes to if nothing is cached: a download of its file, and its part of it. -/
def fetch (store : Store) (r : EncryptedRef) : Except SecretError Bytes := do
  let k ← key r
  let contents ← (store.download k).result
  part r contents

/-- The part of a file is what a reference makes of it. -/
theorem answers_part (r : EncryptedRef) (contents : Bytes) :
    Answers r (.ok contents) (part r contents) := by
  unfold part
  cases hk : r.get? fieldParameter with
  | none => exact .whole contents hk
  | some path =>
      cases hd : Document.decodeYaml contents with
      | error cause => exact .undecodable contents path cause hk hd
      | ok d =>
          cases ht : d.extract path with
          | error cause => simpa [ht] using .missing contents path d cause hk hd ht
          | ok text => simpa [ht] using .scalar contents path d text hk hd ht

theorem answers_bind (r : EncryptedRef) (result : Except SecretError Bytes) :
    Answers r result (result >>= part r) := by
  cases result with
  | error e => exact .failed e
  | ok contents => exact answers_part r contents

/-- A reference makes one thing of what a download came to. -/
theorem Answers.unique {result answer answer' : Except SecretError Bytes}
    (h : Answers r result answer) (h' : Answers r result answer') : answer = answer' := by
  cases h <;> cases h' <;> simp_all

end Location

/-! ### Engines by their identifiers -/

namespace Resolver

variable {s s' : Resolver} {id id' : String}

/-- Every engine is known by its own identifier. -/
def Known (s : Resolver) : Prop := ∀ id e, s.engines.get? id = some e → e.identifier = id

theorem filesOf?_eq_some_iff {files : Shared ObjectKey SecretError Bytes} (hs : s.Known) :
    s.filesOf? id = some files ↔ s.engines.get? id = some (.storage id files) := by
  unfold filesOf?
  constructor
  · intro h
    split at h
    · rename_i id' files' he
      obtain rfl := Option.some.inj h
      obtain rfl : id' = id := hs id _ he
      exact he
    · exact absurd h (by simp)
  · intro h
    rw [h]

/-- The resolver with a cache in the place of that of a storage engine, and with another log. -/
def withFiles (s : Resolver) (id : String) (files : Shared ObjectKey SecretError Bytes)
    (log : List LogEvent) : Resolver :=
  { s with engines := s.engines.put id (.storage id files), log := log }

theorem filesOf?_withFiles (s : Resolver) (id id' : String)
    (files : Shared ObjectKey SecretError Bytes) (log : List LogEvent) :
    (s.withFiles id files log).filesOf? id' = if id = id' then some files else s.filesOf? id' := by
  unfold filesOf? withFiles
  rw [Table.get?_put]
  by_cases h : id = id' <;> simp [h]

theorem Known.withFiles (hs : s.Known) (id : String) (files : Shared ObjectKey SecretError Bytes)
    (log : List LogEvent) : (s.withFiles id files log).Known := by
  intro id' e he
  simp only [Resolver.withFiles, Table.get?_put] at he
  split at he
  · rename_i hid
    obtain rfl := Option.some.inj he
    exact hid
  · exact hs id' e he

/-! ### What is only logged -/

theorem noteRequest_eq {β : Type} (request : Cache.Request β) (s : Resolver) :
    ∃ log, noteRequest request s = ((), { s with log := log }) := by
  cases request with
  | hit value => exact ⟨_, rfl⟩
  | joined flight => exact ⟨_, rfl⟩
  | started flight expired => cases expired <;> exact ⟨_, rfl⟩

theorem noteCompletion_eq {κ β : Type} (result : Except SecretError β)
    (completion : Cache.Completion κ) (s : Resolver) :
    ∃ log, noteCompletion result completion s = ((), { s with log := log }) := by
  cases completion with
  | stale => exact ⟨_, rfl⟩
  | stored displaced => cases displaced <;> exact ⟨_, rfl⟩
  | failed => cases result <;> exact ⟨_, rfl⟩

theorem noteDownload_eq (k : ObjectKey) (result : Except SecretError Bytes)
    (completion : Cache.Completion ObjectKey) (s : Resolver) :
    ∃ log, noteDownload k result completion s = ((), { s with log := log }) := by
  cases result <;> cases completion <;> exact ⟨_, rfl⟩

/-! ### The beginning of a call -/

theorem startDownload_eq (k : ObjectKey) (s : Resolver) :
    ∃ log, startDownload k s = (⟨s.now + (s.store.download k).delay, (s.store.download k).result⟩,
      { s with downloads := k :: s.downloads, log := log }) := by
  cases h : (s.store.download k).path with
  | none => exact ⟨.downloading k :: s.log, by simp [startDownload, h]⟩
  | some path => exact ⟨.readingFile path :: .downloading k :: s.log, by simp [startDownload, h]⟩

/-- A file is requested: it is there, or its download is joined, or a download is started where there
is neither. -/
theorem requestFile_cases (id : String) (files : Shared ObjectKey SecretError Bytes)
    (k : ObjectKey) (s : Resolver) :
    (∃ e log, Entries.find? k files.cache.entries = some e ∧
      e.isExpired files.cache.limits s.now = false ∧
      requestFile id files k s = (.inl e.value, s.withFiles id (files.used s.now k e) log)) ∨
    ((∀ e, Entries.find? k files.cache.entries = some e →
        e.isExpired files.cache.limits s.now = true) ∧
      ((∃ flight log, Entries.find? k files.cache.inFlight = some flight ∧
          requestFile id files k s = (.inr flight, s.withFiles id (files.missed k) log)) ∨
        (Entries.find? k files.cache.inFlight = none ∧ ∃ log,
          requestFile id files k s = (.inr files.cache.nextFlight,
            { s with downloads := k :: s.downloads }.withFiles id
              (files.begun k ⟨s.now + (s.store.download k).delay, (s.store.download k).result⟩)
              log)))) := by
  rcases files.request_cases s.now k with
    ⟨e, he, hlive, heq⟩ | ⟨hover, ⟨flight, hflight, heq⟩ | ⟨hno, expired, files', heq, hbegin⟩⟩
  · obtain ⟨log, hlog⟩ := noteRequest_eq (.hit e.value) s
    exact .inl ⟨e, log, he, hlive, by simp [requestFile, heq, hlog, replace, withFiles,
      Engine.identifier]⟩
  · obtain ⟨log, hlog⟩ := noteRequest_eq (.joined flight : Cache.Request Bytes) s
    exact .inr ⟨hover, .inl ⟨flight, log, hflight, by simp [requestFile, heq, hlog, replace,
      withFiles, Engine.identifier]⟩⟩
  · obtain ⟨log, hlog⟩ := noteRequest_eq
      (.started files.cache.nextFlight expired : Cache.Request Bytes) s
    obtain ⟨log', hlog'⟩ := startDownload_eq k { s with log := log }
    exact .inr ⟨hover, .inr ⟨hno, log', by simp [requestFile, heq, hlog, hlog', replace, withFiles,
      Engine.identifier, hbegin]⟩⟩

/-- An engine answers at once a reference that leads to none of its files. -/
theorem startEngine_eq_done {e : Engine} {r : EncryptedRef}
    (h : ∀ id files k, e = .storage id files → Location.key r ≠ .ok k) (s : Resolver) :
    ∃ answer, startEngine e r s = (.done answer, s) := by
  cases e with
  | embedded => exact ⟨_, rfl⟩
  | vault id => exact ⟨_, rfl⟩
  | echo id => exact ⟨_, rfl⟩
  | storage id files =>
      cases hk : Location.key r with
      | error fault => exact ⟨.error fault, by simp [startEngine, hk]⟩
      | ok k => exact absurd hk (h id files k rfl)

/-- A call that waits does so with the reference it was made with. -/
theorem reference_of_startEngine {e : Engine} {r : EncryptedRef} {w : FileWait}
    (h : (startEngine e r s).1 = .waits w) : w.reference = r := by
  cases e with
  | storage id files =>
      simp only [startEngine] at h
      cases hk : Location.key r with
      | error fault =>
          rw [hk] at h
          cases h
      | ok k =>
          rw [hk] at h
          simp only [Action.bind_apply] at h
          rcases hrequest : requestFile id files k s with ⟨contents | flight, s'⟩
          · rw [hrequest] at h
            cases h
          · rw [hrequest] at h
            exact (congrArg FileWait.reference (Call.waits.inj h)).symm
  | embedded => cases h
  | vault id => cases h
  | echo id => cases h

theorem reference_of_startDecrypt {r : EncryptedRef} {w : FileWait}
    (h : (startDecrypt r s).1 = .waits w) : w.reference = r := by
  simp only [startDecrypt, Action.bind_apply, Action.get_apply] at h
  cases hengine : s.engineOf r.engine with
  | error fault =>
      rw [hengine] at h
      cases h
  | ok e =>
      simp only [hengine] at h
      cases hvalid : e.validate r with
      | error fault =>
          rw [hvalid] at h
          cases h
      | ok _ =>
          rw [hvalid] at h
          exact reference_of_startEngine h

/-- A call begins: its reference leads into a file, or it returns at once and changes nothing but
the log. -/
theorem startDecrypt_cases (hs : s.Known) (r : EncryptedRef) :
    (∃ files k log, s.filesOf? r.engine = some files ∧ Location.key r = .ok k ∧
      startDecrypt r s =
        match requestFile r.engine files k { s with log := log } with
        | (.inl contents, s') => (.done (Location.part r contents), s')
        | (.inr flight, s') => (.waits ⟨r.engine, r, k, flight⟩, s')) ∨
    ((∀ files k, s.filesOf? r.engine = some files → Location.key r ≠ .ok k) ∧
      ∃ answer log, startDecrypt r s = (.done answer, { s with log := log })) := by
  cases he : s.engines.get? r.engine with
  | none =>
      refine .inr ⟨?_, .error (.noSuchEngine r.engine), s.log, by simp [startDecrypt, engineOf, he]⟩
      intro files k hfiles
      rw [filesOf?_eq_some_iff hs, he] at hfiles
      exact absurd hfiles (by simp)
  | some e =>
      by_cases hlead : ∃ id files k, e = .storage id files ∧ Location.key r = .ok k
      · obtain ⟨id, files, k, rfl, hk⟩ := hlead
        obtain rfl : id = r.engine := hs _ _ he
        have hfiles : s.filesOf? r.engine = some files := (filesOf?_eq_some_iff hs).2 he
        have hvalid := Location.validate_of_key hk
        refine .inl ⟨files, k, .decrypting r.engine :: s.log, hfiles, hk, ?_⟩
        simp only [startDecrypt, engineOf, he, Engine.validate, hvalid, startEngine, hk,
          Action.bind_apply, Action.get_apply, note_apply, Engine.identifier]
        rcases requestFile r.engine files k _ with ⟨contents | flight, s'⟩ <;> rfl
      · have hnone : ∀ id files k, e = .storage id files → Location.key r ≠ .ok k :=
          fun id files k hid hk => hlead ⟨id, files, k, hid, hk⟩
        refine .inr ⟨?_, ?_⟩
        · intro files k hfiles
          rw [filesOf?_eq_some_iff hs, he] at hfiles
          exact hnone r.engine files k (Option.some.inj hfiles)
        · cases hv : e.validate r with
          | error fault => exact ⟨.error fault, s.log, by simp [startDecrypt, engineOf, he, hv]⟩
          | ok _ =>
              obtain ⟨answer, hanswer⟩ := startEngine_eq_done hnone
                { s with log := .decrypting e.identifier :: s.log }
              exact ⟨answer, .decrypting e.identifier :: s.log,
                by simp [startDecrypt, engineOf, he, hv, hanswer]⟩

/-! ### The end of a call -/

/-- A call whose file is there gets its part of it, and the download comes to its end. -/
theorem finishDecrypt_eq {w : FileWait} {files : Shared ObjectKey SecretError Bytes}
    {c : Computation SecretError Bytes} (hfiles : s.filesOf? w.engine = some files)
    (hc : files.computation? w.flight = some c) :
    ∃ log, finishDecrypt w s = (c.result >>= Location.part w.reference,
      s.withFiles w.engine (files.retired s.now w.key w.flight c.result) log) := by
  obtain ⟨completion, hcollect⟩ := Shared.collect_eq hc s.now w.key
  obtain ⟨log, hlog⟩ := noteDownload_eq w.key c.result completion
    (s.withFiles w.engine (files.retired s.now w.key w.flight c.result) s.log)
  obtain ⟨log', hlog'⟩ := noteCompletion_eq c.result completion
    { s.withFiles w.engine (files.retired s.now w.key w.flight c.result) s.log with log := log }
  have hcollected : collectFile w s = (c.result,
      s.withFiles w.engine (files.retired s.now w.key w.flight c.result) log') := by
    simp only [withFiles] at hlog hlog'
    simp [collectFile, hfiles, hcollect, replace, Engine.identifier, hlog, hlog', withFiles]
  refine ⟨log', ?_⟩
  simp only [finishDecrypt, Action.bind_apply, hcollected]
  cases c.result <;> rfl

/-! ### Clearing -/

/-- The caches of some engines are cleared one after the other. -/
theorem clearEach_eq (es : List (String × Engine)) (s : Resolver) :
    (es.foldlM (fun _ e => clearEngine e.2) () : Action Unit) s =
      ((), es.foldl (fun s e => (clearEngine e.2 s).2) s) := by
  induction es generalizing s with
  | nil => rfl
  | cons e es ih => exact ih _

theorem clearEngine_storage (id : String) (files : Shared ObjectKey SecretError Bytes)
    (s : Resolver) : ∃ log, (clearEngine (.storage id files) s).2 = s.withFiles id files.clear log :=
  ⟨_, rfl⟩

theorem clearEngine_of_ne_storage {e : Engine} (h : ∀ id files, e ≠ .storage id files)
    (s : Resolver) : (clearEngine e s).2 = s := by
  cases e with
  | storage id files => exact absurd rfl (h id files)
  | embedded => rfl
  | vault id => rfl
  | echo id => rfl

/-- The cache that an engine has. -/
def filesIn? : Engine → Option (Shared ObjectKey SecretError Bytes)
  | .storage _ files => some files
  | _ => none

theorem filesOf?_eq (s : Resolver) (id : String) :
    s.filesOf? id = (s.engines.get? id).bind filesIn? := by
  unfold filesOf?
  cases s.engines.get? id with
  | none => rfl
  | some e => cases e <;> rfl

/-- Clearing the caches of engines clears these and nothing else. -/
theorem clearEach_spec {es : List (String × Engine)} (hd : (Entries.names es).Nodup)
    (hid : ∀ e ∈ es, e.2.identifier = e.1) (s : Resolver) :
    ∃ engines log, es.foldl (fun s e => (clearEngine e.2 s).2) s =
        { s with engines := engines, log := log } ∧
      (s.Known → Known { s with engines := engines, log := log }) ∧
      ∀ id, (engines.get? id).bind filesIn? =
        (((Entries.find? id es).bind filesIn?).map Shared.clear).or (s.filesOf? id) := by
  induction es generalizing s with
  | nil => exact ⟨s.engines, s.log, rfl, fun h => h, fun id => by simp [filesOf?_eq]⟩
  | cons e es ih =>
      obtain ⟨name, e⟩ := e
      rw [Entries.names_cons, List.nodup_cons] at hd
      have hname : e.identifier = name := hid (name, e) (by simp)
      have hes : ∀ e ∈ es, e.2.identifier = e.1 := fun e he => hid e (by simp [he])
      have hout : Entries.find? name es = none := Entries.find?_eq_none_iff.2 hd.1
      by_cases hstorage : ∃ id files, e = .storage id files
      · obtain ⟨id, files, rfl⟩ := hstorage
        obtain rfl : id = name := hname
        obtain ⟨log, hlog⟩ := clearEngine_storage id files s
        obtain ⟨engines, log', heq, hknown, hfiles⟩ := ih hd.2 hes (s.withFiles id files.clear log)
        refine ⟨engines, log', ?_, ?_, ?_⟩
        · rw [List.foldl_cons, hlog, heq]
          rfl
        · exact fun hs => hknown (hs.withFiles id files.clear log)
        · intro id'
          rw [hfiles, filesOf?_withFiles, Entries.find?_cons]
          by_cases h : id = id'
          · subst h
            simp [hout, filesIn?]
          · simp [h]
      · have hnone : ∀ id files, e ≠ .storage id files :=
          fun id files h => hstorage ⟨id, files, h⟩
        obtain ⟨engines, log, heq, hknown, hfiles⟩ := ih hd.2 hes s
        refine ⟨engines, log, ?_, hknown, ?_⟩
        · simp only [List.foldl_cons, clearEngine_of_ne_storage hnone, heq]
        · intro id'
          rw [hfiles, Entries.find?_cons]
          by_cases h : name = id'
          · subst h
            have hin : filesIn? e = none := by
              cases e <;> simp_all [filesIn?]
            simp [hout, hin]
          · simp [h]

/-- **Clearing clears every cache** and nothing else. -/
theorem clearEngines_spec (hs : s.Known) :
    ∃ engines log, (clearEngines s).2 = { s with engines := engines, log := log } ∧
      (clearEngines s).2.Known ∧
      ∀ id, (clearEngines s).2.filesOf? id = (s.filesOf? id).map Shared.clear := by
  have hid : ∀ e ∈ s.engines.entries, e.2.identifier = e.1 := by
    intro e he
    exact hs e.1 e.2 (Table.mem_entries_iff.1 he)
  obtain ⟨engines, log, heq, hknown, hfiles⟩ := clearEach_spec s.engines.distinct hid s
  have hclear : (clearEngines s).2 =
      { s with engines := engines, log := .enginesCleared s.engines.size :: log } := by
    simp [clearEngines, clearEach_eq, heq]
  refine ⟨engines, _, hclear, ?_, ?_⟩
  · rw [hclear]
    exact hknown hs
  · intro id
    rw [hclear, filesOf?_eq, hfiles, filesOf?_eq]
    change ((s.engines.get? id |>.bind filesIn?).map Shared.clear).or _ = _
    cases (s.engines.get? id).bind filesIn? <;> rfl

end Resolver

/-! ### References into the same file -/

/-- Two references differ at most in what they want out of their file. -/
def EncryptedRef.Alike (r r' : EncryptedRef) : Prop :=
  r.engine = r'.engine ∧ ∀ name, name ≠ fieldParameter → r.get? name = r'.get? name

namespace EncryptedRef.Alike

variable {r r' : EncryptedRef}

theorem refl (r : EncryptedRef) : r.Alike r := ⟨rfl, fun _ _ => rfl⟩

theorem key_eq (h : r.Alike r') : Location.key r = Location.key r' := by
  have hb := h.2 "b" (by decide)
  have hr := h.2 "r" (by decide)
  have hf := h.2 "f" (by decide)
  simp only [Location.key, Location.parameter, hb, hr, hf]

theorem validate_eq (h : r.Alike r') (e : Engine) : e.validate r = e.validate r' := by
  have hb := h.2 "b" (by decide)
  have hr := h.2 "r" (by decide)
  have hf := h.2 "f" (by decide)
  have hv := h.2 Embedded.valueParameter (by decide)
  unfold EncryptedRef.get? at hb hr hf
  cases e with
  | embedded => simp only [Engine.validate, Embedded.bytes, hv]
  | storage id files =>
      simp only [Engine.validate, Location.validate, Location.required, EncryptedRef.has,
        Table.contains, List.find?_cons, List.find?_nil, hb, hr, hf]
  | vault id => rfl
  | echo id => rfl

end EncryptedRef.Alike

namespace Resolver

/-- Two calls that have begun for references which are alike: both have returned, or both wait for the
same download. -/
inductive Call.Alike : Call FileWait Bytes → Call FileWait Bytes → Prop where
  | done (answer answer' : Except SecretError Bytes) : Alike (.done answer) (.done answer')
  | waits (id : String) (r r' : EncryptedRef) (k : ObjectKey) (flight : Nat) (h : r.Alike r') :
      Alike (.waits ⟨id, r, k, flight⟩) (.waits ⟨id, r', k, flight⟩)

variable {r r' : EncryptedRef}

theorem startEngine_alike (h : r.Alike r') (e : Engine) (s : Resolver) :
    Call.Alike (startEngine e r s).1 (startEngine e r' s).1 ∧
      (startEngine e r s).2 = (startEngine e r' s).2 := by
  cases e with
  | embedded => exact ⟨.done _ _, rfl⟩
  | vault id => exact ⟨.done _ _, rfl⟩
  | echo id => exact ⟨.done _ _, rfl⟩
  | storage id files =>
      simp only [startEngine, h.key_eq]
      cases Location.key r' with
      | error fault => exact ⟨.done _ _, rfl⟩
      | ok k =>
          simp only [Action.bind_apply]
          rcases requestFile id files k s with ⟨contents | flight, s'⟩
          · exact ⟨.done _ _, rfl⟩
          · exact ⟨.waits id r r' k flight h, rfl⟩

/-- What is wanted out of a file makes no difference to the beginning of a call. -/
theorem startDecrypt_alike (h : r.Alike r') (s : Resolver) :
    Call.Alike (startDecrypt r s).1 (startDecrypt r' s).1 ∧
      (startDecrypt r s).2 = (startDecrypt r' s).2 := by
  simp only [startDecrypt, Action.bind_apply, Action.get_apply, h.1]
  cases s.engineOf r'.engine with
  | error fault => exact ⟨.done _ _, rfl⟩
  | ok e =>
      simp only [h.validate_eq e]
      cases e.validate r' with
      | error fault => exact ⟨.done _ _, rfl⟩
      | ok _ => exact startEngine_alike h e _

/-- What is wanted out of a file makes no difference to the end of its download. -/
theorem finishDecrypt_alike (id : String) (r r' : EncryptedRef) (k : ObjectKey) (flight : Nat)
    (s : Resolver) :
    (finishDecrypt ⟨id, r, k, flight⟩ s).2 = (finishDecrypt ⟨id, r', k, flight⟩ s).2 := by
  have hcollect : collectFile ⟨id, r, k, flight⟩ = collectFile ⟨id, r', k, flight⟩ := rfl
  simp only [finishDecrypt, Action.bind_apply, hcollect]
  cases (collectFile ⟨id, r', k, flight⟩ s).1 <;> rfl

end Resolver

end SecretResolver
