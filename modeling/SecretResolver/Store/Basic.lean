/-
**Stores of files.**

A storage engine downloads whole files, known by bucket, region and file.  A store is a set of
objects, each of which may be slow or fail, or a tree of files with one directory for each bucket, or
anything else that can be downloaded from, with failures of its own.  In a tree neither bucket nor
file may lead anywhere but down.

Main definitions:

* `StoredObject`, `Store`;
* `Store.pathIn` — the path of a file in a tree;
* `Store.download` — what downloading a file comes to.

Main results:

* `Store.pathIn_eq_ok_iff` — the files of a tree that can be asked for.
-/

import SecretResolver.Cache.Shared
import SecretResolver.Log
import SecretResolver.Store.FileTree

set_option relaxedAutoImplicit false
set_option autoImplicit false

namespace SecretResolver

/-- An object in a store. -/
structure StoredObject where
  contents : Bytes
  failure : Option String
  delay : Nat
  deriving Repr, DecidableEq

/-- What a download comes to. -/
structure Download where
  path : Option String
  delay : Nat
  result : Except SecretError Bytes

/-- A store of files. -/
inductive Store where
  | objects (items : List (ObjectKey × StoredObject))
  | files (root : String) (read : String → Except FileFault Bytes)
  /-- A store of which no more is known than what its downloads come to. -/
  | remote (fetch : ObjectKey → Download)

namespace Store

/-- Whether a bucket is the name of one directory. -/
def isBucket (bucket : String) : Bool :=
  Path.isContained bucket && (Path.components bucket).length == 1

/-- The path of a file below a directory. -/
def pathIn (root : String) (k : ObjectKey) : Except FetchCause String :=
  if !isBucket k.bucket then .error .bucketPath
  else if !Path.isContained k.file then .error .filePath
  else .ok (Path.join (Path.join root k.bucket) k.file)

theorem pathIn_eq_ok_iff {root path : String} {k : ObjectKey} :
    pathIn root k = .ok path ↔
      isBucket k.bucket = true ∧ Path.isContained k.file = true ∧
        path = Path.join (Path.join root k.bucket) k.file := by
  unfold pathIn
  cases isBucket k.bucket <;> cases Path.isContained k.file <;>
    simp [eq_comm]

/-- Downloads an object. -/
def downloadObject (items : List (ObjectKey × StoredObject)) (k : ObjectKey) : Download :=
  match Entries.find? k items with
  | none => ⟨none, 0, .error (.fetch k .noObject)⟩
  | some o =>
      match o.failure with
      | some text => ⟨none, o.delay, .error (.fetch k (.other text))⟩
      | none => ⟨none, o.delay, .ok o.contents⟩

/-- Reads a file below a directory. -/
def downloadFile (root : String) (read : String → Except FileFault Bytes) (k : ObjectKey) :
    Download :=
  match pathIn root k with
  | .error cause => ⟨none, 0, .error (.fetch k cause)⟩
  | .ok path =>
      match read path with
      | .error fault => ⟨some path, 0, .error (.fetch k (.unreadable path fault.text))⟩
      | .ok contents => ⟨some path, 0, .ok contents⟩

/-- Downloads a file. -/
def download : Store → ObjectKey → Download
  | .objects items, k => downloadObject items k
  | .files root read, k => downloadFile root read k
  | .remote fetch, k => fetch k

/-- The store with an object put in. -/
def put (k : ObjectKey) (o : StoredObject) : Store → Store
  | .objects items => .objects (Entries.put k o items)
  | s => s

/-- Whether a store has an object. -/
def contains (k : ObjectKey) : Store → Bool
  | .objects items => (Entries.find? k items).isSome
  | _ => false

/-- The store without an object. -/
def erase (k : ObjectKey) : Store → Store
  | .objects items => .objects (Entries.drop k items)
  | s => s

end Store

end SecretResolver
