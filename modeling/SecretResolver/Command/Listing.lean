/-
**Listings of engines.**

A list of engines with their kinds, as JSON, as YAML, or as a table with a header.

Main definitions:

* `OutputFormat`, `OutputFormat.ofName?`;
* `Listing.write` — the text of a list in a format.
-/

import SecretResolver.Engine
import SecretResolver.Json.Writer
import SecretResolver.Yaml.Writer

set_option relaxedAutoImplicit false
set_option autoImplicit false

namespace SecretResolver

/-! ### Formats -/

/-- The formats of a listing. -/
inductive OutputFormat where
  | json
  | yaml
  | table
  deriving Repr, DecidableEq

namespace OutputFormat

/-- All formats. -/
def all : List OutputFormat := [.json, .yaml, .table]

/-- The name of a format. -/
def name : OutputFormat → String
  | .json => "json"
  | .yaml => "yaml"
  | .table => "table"

/-- The format with a name, in whatever case. -/
def ofName? (s : String) : Option OutputFormat :=
  all.find? fun f => Text.sameIgnoringCase f.name s

/-- What is said about a name of no format. -/
def unknown (s : String) : String :=
  s!"Unsupported output format: '{s}'. Use 'json', 'yaml', or 'table'."

end OutputFormat

/-! ### Listings -/

/-- Identifiers of engines, with the names of their kinds. -/
abbrev Listing := List (String × String)

namespace Listing

/-- The engines of a list. -/
def ofEngines (es : List Engine) : Listing := es.map fun e => (e.identifier, e.kind.name)

/-- The fields of each engine by name. -/
def records (l : Listing) : List (List (String × String)) :=
  l.map fun e => [("identifier", e.1), ("kind", e.2)]

/-- A text filled up with spaces. -/
def padded (width : Nat) (s : String) : String :=
  s ++ String.ofList (List.replicate (width - s.length) ' ')

/-- The width of the first column. -/
def width (l : Listing) : Nat := l.foldl (fun w e => max w e.1.utf8ByteSize) "ENGINE".length

/-- The width of the second column in the rule below the header. -/
def kindWidth : Nat := 7

/-- A line of a table. -/
def line (width : Nat) (e : String × String) : String := padded width e.1 ++ " " ++ e.2 ++ "\n"

/-- The list as a table. -/
def table (l : Listing) : String :=
  line l.width ("ENGINE", "KIND") ++
    String.ofList (List.replicate (l.width + 1 + kindWidth) '-') ++ "\n" ++
    String.join (l.map (line l.width))

/-- The text of a list in a format. -/
def write (l : Listing) : OutputFormat → String
  | .json => String.ofList (Json.writeTable l.records) ++ "\n"
  | .yaml => String.ofList (Yaml.writeRows l.records) ++ "\n"
  | .table => l.table

end Listing

end SecretResolver
