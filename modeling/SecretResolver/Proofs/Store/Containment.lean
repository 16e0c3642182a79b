/-
**No file outside its directory is read.**

A path leads from component to component.  Joining a path to another one appends its components,
unless it starts from somewhere else: at the root of all files, or at a dot of its own.  A path all of
whose components are names does neither, and goes down only.  So whatever texts name a bucket and a
file, what is read for them lies below the directory of the store.

Main definitions:

* `ObjectKey.Inside` — a bucket that is one name, and a file of names;
* `FileTree.lead` — where a component leads to in a tree;
* `Store.Confined` — a store of files below a directory keeps to it for a key.

Main results:

* `Path.components_join` — joining appends components;
* `FileTree.file?_of_read` — what is read is the file that components lead to;
* `Store.confined` — **no key leads out of the directory**.
-/

import SecretResolver.Store.Basic

set_option relaxedAutoImplicit false
set_option autoImplicit false

namespace SecretResolver

/-! ### Components -/

namespace Path

variable {base path : String}

theorem components_eq (path : String) : components path =
    (if isAbsolute path then [.root] else []) ++ ofPieces (Text.splitAll '/' path.toList) := by
  simp [components, isAbsolute]

/-- What comes after a slash adds its own components. -/
theorem ofPieces_append_cons (cs ds : List Char) :
    ofPieces (Text.splitAll '/' (cs ++ '/' :: ds)) =
      ofPieces (Text.splitAll '/' cs) ++ (Text.splitAll '/' ds).filterMap component? := by
  rw [Text.splitAll_append_cons]
  cases hs : Text.splitAll '/' cs with
  | nil => exact absurd hs (Text.splitAll_ne_nil '/' cs)
  | cons p ps => simp [ofPieces]

/-- A path that starts neither at the root nor at a dot has the components of its pieces. -/
theorem components_of_relative (habsolute : isAbsolute path = false)
    (hhere : Component.here ∉ components path) :
    components path = (Text.splitAll '/' path.toList).filterMap component? := by
  rw [components_eq, habsolute] at hhere ⊢
  cases hs : Text.splitAll '/' path.toList with
  | nil => rfl
  | cons p ps =>
      rw [hs] at hhere
      have hdot : p ≠ ['.'] := by
        rintro rfl
        exact hhere (by simp [ofPieces])
      cases hp : component? p <;> simp [ofPieces, hdot, hp]

theorem isAbsolute_append (hbase : base ≠ "") (rest : List Char) :
    isAbsolute (String.ofList (base.toList ++ rest)) = isAbsolute base := by
  cases hs : base.toList with
  | nil => exact absurd (String.toList_eq_nil_iff.1 hs) hbase
  | cons c cs => simp [isAbsolute, hs]

/-- **Joining a path appends its components**, if it starts neither at the root nor at a dot. -/
theorem components_join (habsolute : isAbsolute path = false)
    (hhere : Component.here ∉ components path) :
    components (join base path) = components base ++ components path := by
  have hpath := components_of_relative habsolute hhere
  unfold join
  by_cases hbase : base = ""
  · subst hbase
    simp [components, ofPieces, component?]
  · have hempty : base.isEmpty = false := by simpa using hbase
    simp only [habsolute, hempty, Bool.or_self, Bool.false_eq_true, if_false]
    split
    · -- the slash at the end of the base is the one between the two
      rename_i hslash
      obtain ⟨cs, hcs⟩ := List.getLast?_eq_some_iff.1 hslash
      have hjoin : base ++ path = String.ofList (base.toList ++ path.toList) := by simp
      rw [hjoin, components_eq, isAbsolute_append hbase, components_eq base, hpath]
      simp [hcs, ofPieces_append_cons, component?]
    · have hjoin : base ++ "/" ++ path =
          String.ofList (base.toList ++ ('/' :: path.toList)) := by
        simp [← String.toList_inj]
      rw [hjoin, components_eq, isAbsolute_append hbase, components_eq base, hpath]
      simp [ofPieces_append_cons]

/-! ### Paths of names -/

/-- Only a path that starts at the root has the root among its components. -/
theorem root_mem_of_isAbsolute (h : isAbsolute path = true) : Component.root ∈ components path := by
  simp [components_eq, h]

/-- Joining a path of names appends its components. -/
theorem components_join_of_names (h : ∀ c ∈ components path, ∃ name, c = .normal name) :
    components (join base path) = components base ++ components path := by
  refine components_join ?_ fun hhere => ?_
  · cases habsolute : isAbsolute path with
    | false => rfl
    | true =>
        obtain ⟨name, hname⟩ := h _ (root_mem_of_isAbsolute habsolute)
        exact nomatch hname
  · obtain ⟨name, hname⟩ := h _ hhere
    exact nomatch hname

theorem isNormal_iff {c : Component} : c.isNormal = true ↔ ∃ name, c = .normal name := by
  cases c <;> simp [Component.isNormal]

theorem isContained_iff : isContained path = true ↔
    components path ≠ [] ∧ ∀ c ∈ components path, ∃ name, c = .normal name := by
  simp [isContained, isNormal_iff]

/-- Components that are names, as the names that they are. -/
theorem exists_names {cs : List Component} (h : ∀ c ∈ cs, ∃ name, c = .normal name) :
    ∃ names : List String, cs = names.map .normal := by
  induction cs with
  | nil => exact ⟨[], rfl⟩
  | cons c cs ih =>
      obtain ⟨name, rfl⟩ := h c (by simp)
      obtain ⟨names, rfl⟩ := ih fun c hc => h c (by simp [hc])
      exact ⟨name :: names, rfl⟩

end Path

/-! ### Trees -/

namespace FileTree

open SecretResolver.Path

/-- Where a component leads to from the end of a way. -/
def lead (way : List String) : Component → List String
  | .root => []
  | .here => way
  | .above => way.dropLast
  | .normal name => way ++ [name]

theorem foldl_lead_names (way names : List String) :
    (names.map Component.normal).foldl lead way = way ++ names := by
  induction names generalizing way with
  | nil => simp
  | cons name names ih => simp [ih, lead]

variable {t : FileTree} {contents : Bytes}

/-- Following pieces ends at the file that their components lead to. -/
theorem file?_of_follow {way : List String} {pieces : List (List Char)}
    (h : t.follow way pieces = .ok contents) :
    t.file? ((pieces.filterMap component?).foldl lead way) = some contents := by
  induction pieces generalizing way with
  | nil =>
      rw [follow] at h
      split at h
      · rename_i hfile
        rw [← Except.ok.inj h]
        exact hfile
      · exact nomatch h
  | cons piece pieces ih =>
      rw [follow] at h
      split at h
      · rename_i hempty
        have hnone : component? piece = none := by simp_all [component?]
        simpa [hnone] using ih h
      · split at h
        · exact nomatch h
        · split at h
          · rename_i hnothing
            have hnone : component? piece = none := by simp_all [component?]
            simpa [hnone] using ih h
          · rename_i hname
            split at h
            · rename_i hdots
              subst hdots
              split at h
              · exact nomatch h
              · exact ih h
            · rename_i hdots
              have hsome : component? piece = some (.normal (String.ofList piece)) := by
                simp_all [component?]
              simp only at h
              split at h
              · exact nomatch h
              · split at h
                · simpa [hsome, lead] using ih h
                · exact nomatch h

/-- **What is read is the file that the components of its path lead to.** -/
theorem file?_of_read {path : String} (h : t.read path = .ok contents) :
    t.file? ((components path).foldl lead []) = some contents := by
  unfold read at h
  simp only at h
  split at h
  · exact nomatch h
  · split at h
    · exact nomatch h
    · rename_i hrelative
      split at h
      · exact nomatch h
      · have habsolute : isAbsolute path = false := by simp_all
        have hfollow := file?_of_follow h
        rw [components_eq, habsolute]
        cases hs : Text.splitAll '/' path.toList with
        | nil => exact absurd hs (Text.splitAll_ne_nil '/' path.toList)
        | cons p ps =>
            rw [hs] at hfollow
            by_cases hdot : p = ['.']
            · subst hdot
              simpa [ofPieces, lead, component?] using hfollow
            · cases hp : component? p <;> simpa [ofPieces, hdot, hp] using hfollow

end FileTree

/-! ### Stores -/

/-- A file that may be asked for: its bucket is one name, and it lies down some names from there. -/
structure ObjectKey.Inside (k : ObjectKey) : Prop where
  bucket : ∃ name, Path.components k.bucket = [.normal name]
  file : Path.components k.file ≠ [] ∧ ∀ c ∈ Path.components k.file, ∃ name, c = .normal name

namespace Store

open SecretResolver.Path

variable {root path : String} {k : ObjectKey}

theorem isBucket_iff {bucket : String} :
    isBucket bucket = true ↔ ∃ name, components bucket = [.normal name] := by
  rw [isBucket, Bool.and_eq_true, isContained_iff, beq_iff_eq, List.length_eq_one_iff]
  constructor
  · rintro ⟨⟨-, hnames⟩, c, hc⟩
    obtain ⟨name, rfl⟩ := hnames c (by simp [hc])
    exact ⟨name, hc⟩
  · rintro ⟨name, hname⟩
    simp [hname]

/-- The files that can be asked for are those inside. -/
theorem exists_pathIn_iff : (∃ path, pathIn root k = .ok path) ↔ k.Inside := by
  constructor
  · rintro ⟨path, hpath⟩
    obtain ⟨hbucket, hfile, -⟩ := pathIn_eq_ok_iff.1 hpath
    exact ⟨isBucket_iff.1 hbucket, isContained_iff.1 hfile⟩
  · intro h
    exact ⟨_, pathIn_eq_ok_iff.2 ⟨isBucket_iff.2 h.bucket, isContained_iff.2 h.file, rfl⟩⟩

/-- The path of a file goes on from the directory, to its bucket and from there to the file. -/
theorem components_of_pathIn (h : pathIn root k = .ok path) :
    components path = components root ++ components k.bucket ++ components k.file := by
  obtain ⟨name, hname⟩ := (exists_pathIn_iff.1 ⟨path, h⟩).bucket
  obtain ⟨-, hfile⟩ := (exists_pathIn_iff.1 ⟨path, h⟩).file
  obtain ⟨-, -, rfl⟩ := pathIn_eq_ok_iff.1 h
  rw [components_join_of_names hfile, components_join_of_names]
  intro c hc
  rw [hname, List.mem_singleton] at hc
  exact ⟨name, hc⟩

/-- The path of a file goes down from the directory, by the name of the bucket and some more. -/
theorem names_of_pathIn (h : pathIn root k = .ok path) : ∃ bucket names, names ≠ [] ∧
    components k.bucket = [.normal bucket] ∧ components k.file = names.map .normal ∧
    components path = components root ++ (bucket :: names).map .normal := by
  obtain ⟨bucket, hbucket⟩ := (exists_pathIn_iff.1 ⟨path, h⟩).bucket
  obtain ⟨hne, hfile⟩ := (exists_pathIn_iff.1 ⟨path, h⟩).file
  obtain ⟨names, hnames⟩ := exists_names hfile
  refine ⟨bucket, names, ?_, hbucket, hnames, ?_⟩
  · rintro rfl
    exact hne hnames
  · rw [components_of_pathIn h, hbucket, hnames]
    simp

/-- A file that cannot be asked for is refused under its own key, and nothing is read for it. -/
theorem download_of_not_inside (h : ¬ k.Inside) : ∃ cause, pathIn root k = .error cause ∧
    ∀ read, (files root read).download k = ⟨none, 0, .error (.fetch k cause)⟩ := by
  cases hpath : pathIn root k with
  | ok path => exact absurd (exists_pathIn_iff.1 ⟨path, hpath⟩) h
  | error cause => exact ⟨cause, rfl, fun read => by simp [download, downloadFile, hpath]⟩

/-- A store of files below a directory keeps to that directory for a key. -/
structure Confined (root : String) (k : ObjectKey) : Prop where
  /-- There is a path just for a bucket that is one name and a file of names. -/
  inside : (∃ path, pathIn root k = .ok path) ↔ k.Inside
  /-- The path goes on from the directory, to the bucket and from there to the file. -/
  joined : ∀ path, pathIn root k = .ok path →
    components path = components root ++ components k.bucket ++ components k.file
  /-- It goes down from the directory, and nothing in it leads up again. -/
  below : ∀ path, pathIn root k = .ok path →
    ∃ names, names ≠ [] ∧ components path = components root ++ names.map .normal
  /-- Nothing but what is at that path is read. -/
  read : ∀ read read' : String → Except FileFault Bytes,
    (∀ path, pathIn root k = .ok path → read path = read' path) →
    (files root read).download k = (files root read').download k
  /-- In a tree that is a file somewhere below what the directory leads to. -/
  stored : ∀ (t : FileTree) (contents : Bytes),
    ((files root t.read).download k).result = .ok contents →
    ∃ names, names ≠ [] ∧
      t.file? ((components root).foldl FileTree.lead [] ++ names) = some contents
  /-- Without a path there is a failure to fetch under the very key, and nothing is read. -/
  refused : ¬ k.Inside → ∃ cause, pathIn root k = .error cause ∧
    ∀ read, (files root read).download k = ⟨none, 0, .error (.fetch k cause)⟩

/-- **No key leads out of the directory**, whatever texts name its bucket, its region and its
file. -/
theorem confined (root : String) (k : ObjectKey) : Confined root k where
  inside := exists_pathIn_iff
  joined _ := components_of_pathIn
  below path hpath := by
    obtain ⟨bucket, names, -, -, -, hcomponents⟩ := names_of_pathIn hpath
    exact ⟨bucket :: names, by simp, hcomponents⟩
  read read read' hread := by
    cases hpath : pathIn root k with
    | error cause => simp [download, downloadFile, hpath]
    | ok path => simp [download, downloadFile, hpath, hread path hpath]
  stored t contents hcontents := by
    cases hpath : pathIn root k with
    | error cause => simp [download, downloadFile, hpath] at hcontents
    | ok path =>
        obtain ⟨bucket, names, -, -, -, hcomponents⟩ := names_of_pathIn hpath
        have hread : t.read path = .ok contents := by
          cases hread : t.read path <;> simp_all [download, downloadFile]
        refine ⟨bucket :: names, by simp, ?_⟩
        have hfile := FileTree.file?_of_read hread
        rwa [hcomponents, List.foldl_append, FileTree.foldl_lead_names] at hfile
  refused := download_of_not_inside

end Store

end SecretResolver
