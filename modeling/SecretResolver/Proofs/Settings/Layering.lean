/-
**Settings are layered one by one.**

There are eight settings.  A file gives some of them, variables of the environment give some of
them, and all have defaults.  Each setting is what the environment says, else what the file says,
else its default, whatever is said about the other ones, be they of the same section or not.  The
settings that come out are returned exactly if they keep the rules, and what fails otherwise is a
failure of the configuration.

Main definitions:

* `Settings.Key` — the settings, with the path, the variable, the type and the rule of each;
* `Settings.Choice`, `Settings.Choice.over` — some settings, and all of them over other ones;
* `Layer.Gives`, `Environment.Gives` — a file and an environment that give some settings;
* `Settings.Layered` — what is loaded.

Main results:

* `Environment.gives_layer` — the layer of an environment gives what its variables give;
* `Settings.ofLayer_of_holds` — a layer that holds a value for each setting is read;
* `Settings.layered_of_gives` — **each setting is layered by itself**.
-/

import Mathlib.Logic.Function.Basic
import SecretResolver.Proofs.Settings.Merging
import SecretResolver.Proofs.Settings.Numerals
import SecretResolver.Proofs.Text.Utf8
import SecretResolver.Settings.File

set_option relaxedAutoImplicit false
set_option autoImplicit false

namespace SecretResolver

namespace Settings

/-! ### The settings, one by one -/

/-- The limits of a cache. -/
inductive Limit where
  | maximumSize
  | afterWrite
  | afterAccess
  deriving Repr, DecidableEq

/-- The name of a limit within its section. -/
def Limit.name : Limit → String
  | .maximumSize => "maximum_size"
  | .afterWrite => "expire_after_write_seconds"
  | .afterAccess => "expire_after_access_seconds"

/-- A limit of a cache. -/
def Limit.get (s : CacheSettings) : Limit → Nat
  | .maximumSize => s.maximumSize
  | .afterWrite => s.afterWriteSeconds
  | .afterAccess => s.afterAccessSeconds

/-- The settings. -/
inductive Key where
  | cache (l : Limit)
  | userSecrets (l : Limit)
  | level
  | json
  deriving Repr, DecidableEq

namespace Key

/-- The section of a setting. -/
def part : Key → String
  | .cache _ => "cache"
  | .userSecrets _ => "user_secrets"
  | .level => "logging"
  | .json => "logging"

/-- The name of a setting within its section. -/
def field : Key → String
  | .cache l => l.name
  | .userSecrets l => l.name
  | .level => "level"
  | .json => "json"

/-- A name in capitals. -/
def capitals (s : String) : List Char := s.toList.map Char.toUpper

/-- The letters of the variable of a setting: its section and its name in capitals. -/
def letters (k : Key) : List Char :=
  "SECRETS__".toList ++ capitals k.part ++ "__".toList ++ capitals k.field

/-- The variable of a setting. -/
def variable_ (k : Key) : String := String.ofList k.letters

/-- The path of a setting: its section and its name. -/
def path (k : Key) : String := String.ofList (k.part.toList ++ '.' :: k.field.toList)

/-- The type of a setting: a number, a text or a truth value. -/
abbrev Value : Key → Type
  | .cache _ => Nat
  | .userSecrets _ => Nat
  | .level => String
  | .json => Bool

/-- The rule of a setting: numbers are at least one, and the level is not empty. -/
def Allows : (k : Key) → k.Value → Prop
  | .cache _, n => 1 ≤ n
  | .userSecrets _, n => 1 ≤ n
  | .level, s => s ≠ ""
  | .json, _ => True

end Key

/-- A setting of all settings. -/
def get (s : Settings) : (k : Key) → k.Value
  | .cache l => l.get s.cache
  | .userSecrets l => l.get s.userSecrets
  | .level => s.logging.level
  | .json => s.logging.json

/-- The settings that some values make. -/
def ofValues (v : (k : Key) → k.Value) : Settings :=
  ⟨⟨v (.cache .maximumSize), v (.cache .afterWrite), v (.cache .afterAccess)⟩,
    ⟨v (.userSecrets .maximumSize), v (.userSecrets .afterWrite), v (.userSecrets .afterAccess)⟩,
    ⟨v .level, v .json⟩⟩

theorem get_ofValues (v : (k : Key) → k.Value) (k : Key) : (ofValues v).get k = v k := by
  rcases k with (_ | _ | _) | (_ | _ | _) | _ | _ <;> rfl

/-- Settings keep the rules when each of them keeps its own. -/
theorem isValid_ofValues {v : (k : Key) → k.Value} :
    (ofValues v).IsValid ↔ ∀ k : Key, k.Allows (v k) := by
  constructor
  · rintro ⟨⟨h1, h2, h3⟩, ⟨h4, h5, h6⟩, h7⟩ k
    rcases k with (_ | _ | _) | (_ | _ | _) | _ | _
    exacts [h1, h2, h3, h4, h5, h6, h7, trivial]
  · intro h
    exact ⟨⟨h (.cache .maximumSize), h (.cache .afterWrite), h (.cache .afterAccess)⟩,
      ⟨h (.userSecrets .maximumSize), h (.userSecrets .afterWrite), h (.userSecrets .afterAccess)⟩,
      h .level⟩

/-! ### Some of the settings -/

/-- Values for some of the settings. -/
abbrev Choice := (k : Key) → Option k.Value

/-- No setting. -/
def Choice.none : Choice := fun _ => Option.none

/-- Values for some settings, and other ones for the rest. -/
def Choice.over (c : Choice) (v : (k : Key) → k.Value) : (k : Key) → k.Value :=
  fun k => (c k).getD (v k)

/-! ### How settings are given -/

namespace Key

/-- What a value in a file must be to give a setting: an integer, a text, or a truth value.  Formats
without types have texts for all of them. -/
def Shows : (k : Key) → Leaf → k.Value → Prop
  | .cache _, x, n => n < bound ∧ (x = .integer n ∨ ∃ s, x = .text s ∧ Text.IsNumeral s n)
  | .userSecrets _, x, n => n < bound ∧ (x = .integer n ∨ ∃ s, x = .text s ∧ Text.IsNumeral s n)
  | .level, x, s => x = .text s
  | .json, x, b => x = .flag b ∨ x = .text (if b then "true" else "false")

/-- What the text of a variable must be to give a setting: the digits of a number, a text that reads
neither as a number nor as a truth value, or a truth value. -/
def Spells : (k : Key) → String → k.Value → Prop
  | .cache _, s, n => n < bound ∧ Text.IsNumeral s n
  | .userSecrets _, s, n => n < bound ∧ Text.IsNumeral s n
  | .level, s, t => s = t ∧ Text.lowerAscii s ≠ "true" ∧ Text.lowerAscii s ≠ "false" ∧
      Numeral.integer? s = none ∧ Numeral.real? s = none
  | .json, s, b => s = if b then "true" else "false"

end Key

end Settings

open Settings (Key Limit Choice)

/-- A layer that gives some settings: where it says something about a setting, that is a single value
of the right type, and nothing else in it touches the setting. -/
structure Layer.Gives (l : Layer) (c : Choice) : Prop where
  room : ∀ k : Key, l.LeavesRoom k.part k.field
  shows_ : ∀ (k : Key) (origin : Option String) (x : Leaf),
    .leaf origin x ∈ l.given k.part k.field → ∃ v, c k = some v ∧ k.Shows x v
  complete : ∀ k : Key, c k ≠ none → l.given k.part k.field ≠ []

/-- A variable that is none of ours, as its name begins with something else. -/
def Environment.Foreign (name : String) : Prop :=
  ¬ Environment.start <+: (Text.lowerAscii name).toList

/-- An environment whose variables give some settings and no other ones. -/
structure Environment.Gives (env : Environment) (c : Choice) : Prop where
  ours : ∀ v ∈ env, Environment.Foreign v.1 ∨
    ∃ (k : Key) (x : k.Value), v.1 = k.variable_ ∧ c k = some x ∧ k.Spells v.2 x
  complete : ∀ k : Key, c k ≠ none → ∃ s, (k.variable_, s) ∈ env

/-! ### The layer of an environment -/

namespace Environment

/-- What stands behind our name in the variable of a setting, in small letters. -/
theorem dropStart_variable (k : Key) :
    Text.dropStart start (k.letters.map Char.toLower) =
      some (k.part.toList ++ '_' :: '_' :: k.field.toList) := by
  rcases k with (_ | _ | _) | (_ | _ | _) | _ | _ <;> decide

theorem points_variable (k : Key) :
    points (k.part.toList ++ '_' :: '_' :: k.field.toList) =
      k.part.toList ++ '.' :: k.field.toList := by
  rcases k with (_ | _ | _) | (_ | _ | _) | _ | _ <;> decide

/-- The key that the variable of a setting gives a value to is the path of the setting. -/
theorem key?_variable (k : Key) : key? k.variable_ = some k.path := by
  rw [key?, Key.variable_, Text.lowerAscii, String.toList_ofList, String.toList_ofList,
    dropStart_variable, Option.map_some, points_variable, Key.path]

theorem splitAll_path (k : Key) :
    Text.splitAll '.' (k.part.toList ++ '.' :: k.field.toList) =
      [k.part.toList, k.field.toList] := by
  rcases k with (_ | _ | _) | (_ | _ | _) | _ | _ <;> decide

theorem isName_path (k : Key) : ([k.part.toList, k.field.toList].all fun p =>
    !p.isEmpty && p.all Text.isNameChar) = true := by
  rcases k with (_ | _ | _) | (_ | _ | _) | _ | _ <;> decide

theorem pathOf_path (k : Key) : Layer.pathOf k.path = [k.part, k.field] := by
  rw [Layer.pathOf, Key.path, String.toList_ofList, splitAll_path]
  simp only [isName_path k, if_true, List.map_cons, List.map_nil, String.ofList_toList]

theorem eq_of_path {k k' : Key} (h : [k.part, k.field] = [k'.part, k'.field]) : k = k' := by
  rcases k with (_ | _ | _) | (_ | _ | _) | _ | _ <;>
    rcases k' with (_ | _ | _) | (_ | _ | _) | _ | _ <;>
      first | rfl | exact absurd h (by decide)

theorem key?_eq_none {name : String} (h : Foreign name) : key? name = none := by
  rw [key?, Option.map_eq_none_iff]
  cases hrest : Text.dropStart start (Text.lowerAscii name).toList with
  | none => rfl
  | some rest => exact absurd ⟨rest, (Text.dropStart_eq_some_iff.1 hrest).symm⟩ h

/-- What a text that spells a value is taken for shows this value. -/
theorem shows_guess {k : Key} {s : String} {x : k.Value} (h : k.Spells s x) :
    k.Shows (guess s) x := by
  have hnumber : ∀ {n : Nat}, n < Settings.bound → Text.IsNumeral s n → guess s = .integer n := by
    intro n hn hs
    rw [guess, if_neg (hs.lowerAscii_ne rfl), if_neg (hs.lowerAscii_ne rfl), hs.integer?_eq hn]
  cases k with
  | cache l => exact ⟨h.1, .inl (hnumber h.1 h.2)⟩
  | userSecrets l => exact ⟨h.1, .inl (hnumber h.1 h.2)⟩
  | level =>
      obtain ⟨rfl, htrue, hfalse, hinteger, hreal⟩ := h
      change guess s = .text s
      rw [guess, if_neg htrue, if_neg hfalse, hinteger, hreal]
  | json =>
      obtain rfl := h
      cases x <;> exact .inl rfl

variable {env : Environment} {c : Choice}

/-- What stands in the layer of an environment are single values at the paths of settings. -/
theorem mem_layer (h : env.Gives c) {f : String × Setting} (hf : f ∈ env.layer) :
    ∃ (k : Key) (x : k.Value) (v : Leaf), Layer.pathOf f.1 = [k.part, k.field] ∧
      f.2 = .leaf (some origin) v ∧ c k = some x ∧ k.Shows v x := by
  obtain ⟨v, hv, hf⟩ := List.mem_filterMap.1 hf
  obtain ⟨key, hkey, rfl⟩ := Option.map_eq_some_iff.1 hf
  obtain hforeign | ⟨k, x, hname, hx, hspells⟩ := h.ours v hv
  · exact nomatch (key?_eq_none hforeign).symm.trans hkey
  · rw [hname, key?_variable] at hkey
    obtain rfl := Option.some.inj hkey
    exact ⟨k, x, guess v.2, pathOf_path k, rfl, hx, shows_guess hspells⟩

/-- Such a value is given to one setting only. -/
theorem givenBy_leaf {k k' : Key} {f : String × Setting} (h : Layer.pathOf f.1 = [k.part, k.field]) :
    Layer.givenBy k'.part k'.field f = if k = k' then [f.2] else [] := by
  rw [Layer.givenBy, h, if_neg (by simp)]
  by_cases hk : k = k'
  · rw [if_pos hk, if_pos (by rw [hk])]
  · rw [if_neg hk, if_neg fun heq => hk (eq_of_path heq)]

/-- **The layer of an environment** gives what its variables give. -/
theorem gives_layer (h : env.Gives c) : env.layer.Gives c where
  room := by
    intro k f hf
    obtain ⟨k', x, v, hpath, hv, -⟩ := mem_layer h hf
    refine ⟨fun heq => ?_, fun w hw => ?_, fun more heq => ?_⟩
    · rw [hpath] at heq
      exact absurd (congrArg List.length heq) (by simp)
    · rw [givenBy_leaf hpath] at hw
      split at hw
      · exact ⟨_, _, (List.mem_singleton.1 hw).trans hv⟩
      · exact nomatch hw
    · rw [hpath] at heq
      exact (List.cons.inj (List.cons.inj heq).2).2.symm
  shows_ := by
    intro k origin value hmem
    obtain ⟨f, hf, hvalue⟩ := List.mem_flatMap.1 hmem
    obtain ⟨k', x, v, hpath, hv, hx, hshows⟩ := mem_layer h hf
    rw [givenBy_leaf hpath] at hvalue
    split at hvalue
    · rename_i hk
      subst hk
      rw [List.mem_singleton, hv] at hvalue
      obtain ⟨-, rfl⟩ := Setting.leaf.inj hvalue
      exact ⟨x, hx, hshows⟩
    · exact nomatch hvalue
  complete := by
    intro k hk
    obtain ⟨s, hs⟩ := h.complete k hk
    have hmem : (k.path, Setting.leaf (some origin) (guess s)) ∈ env.layer :=
      List.mem_filterMap.2 ⟨_, hs, by simp only [key?_variable, Option.map_some]⟩
    have hgiven : Setting.leaf (some origin) (guess s) ∈ env.layer.given k.part k.field := by
      refine List.mem_flatMap.2 ⟨_, hmem, ?_⟩
      rw [givenBy_leaf (f := (k.path, _)) (pathOf_path k), if_pos rfl]
      exact List.mem_singleton_self _
    exact List.ne_nil_of_mem hgiven

end Environment

/-! ### Layers that hold all settings -/

/-- A layer that holds a value for each setting. -/
def Layer.Holds (l : Layer) (v : (k : Key) → k.Value) : Prop :=
  ∀ k : Key, ∃ origin x, l.field? k.part k.field = some (.leaf origin x) ∧ k.Shows x (v k)

namespace Layer

variable {l : Layer} {c : Choice} {v : (k : Key) → k.Value}

/-- The defaults hold all settings. -/
theorem holds_standard : Settings.standard.layer.Holds Settings.standard.get := by
  intro k
  rcases k with (_ | _ | _) | (_ | _ | _) | _ | _
  all_goals first
    | exact ⟨none, _, rfl, by decide, .inl rfl⟩
    | exact ⟨none, _, rfl, rfl⟩
    | exact ⟨none, _, rfl, .inl rfl⟩

/-- A layer that gives some settings changes these, and leaves the others. -/
theorem Holds.onto {upper : Layer} (h : l.Holds v) (hupper : upper.Gives c) :
    (Layer.onto upper l).Holds (c.over v) := by
  intro k
  rw [field?_onto (hupper.room k)]
  cases hlast : (given k.part k.field upper).getLast? with
  | none =>
      have hnone : c k = none := by
        by_contra hsome
        exact hupper.complete k hsome (List.getLast?_eq_none_iff.1 hlast)
      obtain ⟨origin, x, hfield, hshows⟩ := h k
      refine ⟨origin, x, hfield, ?_⟩
      rwa [Choice.over, hnone]
  | some w =>
      have hmem := List.mem_of_getLast? hlast
      obtain ⟨f, hf, hw⟩ := List.mem_flatMap.1 hmem
      obtain ⟨origin, x, rfl⟩ := (hupper.room k f hf).single w hw
      obtain ⟨y, hy, hshows⟩ := hupper.shows_ k origin x hmem
      refine ⟨origin, x, rfl, ?_⟩
      rwa [Choice.over, hy]

end Layer

/-! ### Reading -/

namespace Settings

namespace Key

/-- How the value of a setting is read. -/
def read : (k : Key) → String → Setting → Except ConfigCause k.Value
  | .cache _ => Setting.natural
  | .userSecrets _ => Setting.natural
  | .level => Setting.text
  | .json => Setting.flag

/-- A number that is shown is read. -/
theorem natural_of_shows {n : Nat} {x : Leaf} (hn : n < bound)
    (h : x = .integer n ∨ ∃ s, x = .text s ∧ Text.IsNumeral s n) (key : String)
    (origin : Option String) : Setting.natural key (.leaf origin x) = .ok n := by
  obtain rfl | ⟨s, rfl, hs⟩ := h
  · rw [Setting.natural, if_pos (Int.natCast_nonneg n), Int.toNat_natCast]
  · simp only [Setting.natural, hs.word?_eq_none, hs.natural?_eq hn, Option.map_none]
    rfl

/-- What is shown is read. -/
theorem read_of_shows {k : Key} {x : Leaf} {v : k.Value} (h : k.Shows x v) (key : String)
    (origin : Option String) : k.read key (.leaf origin x) = .ok v := by
  cases k with
  | cache l => exact natural_of_shows h.1 h.2 key origin
  | userSecrets l => exact natural_of_shows h.1 h.2 key origin
  | level =>
      obtain rfl := h
      rfl
  | json =>
      obtain rfl | rfl := h
      · rfl
      · cases v <;> rfl

end Key

variable {l : Layer} {v : (k : Key) → k.Value}

/-- A section with a field is a table with this field. -/
theorem table_of_field? {part field : String} {w : Setting} (h : l.field? part field = some w) :
    ∃ origin fields, Entries.find? part l = some (.table origin fields) ∧
      l.valueOf part = .table origin fields ∧ Entries.find? field fields = some w := by
  rw [Layer.field?, Layer.fieldsOf, Layer.valueOf] at h
  rw [Layer.valueOf]
  cases hpart : Entries.find? part l with
  | none =>
      rw [hpart] at h
      exact absurd h.symm (Option.some_ne_none w)
  | some section_ =>
      rw [hpart] at h
      cases section_ with
      | leaf origin value => exact absurd h.symm (Option.some_ne_none w)
      | list origin items => exact absurd h.symm (Option.some_ne_none w)
      | table origin fields => exact ⟨origin, fields, rfl, rfl, h⟩

theorem sectionOf_of_holds (h : l.Holds v) (k : Key) :
    sectionOf k.part l = .ok (l.valueOf k.part) := by
  obtain ⟨_, _, hfield, -⟩ := h k
  obtain ⟨_, _, hfind, hvalue, -⟩ := table_of_field? hfield
  rw [sectionOf, hfind, hvalue]

theorem readAt_of_holds (h : l.Holds v) (k : Key) (type key : String) (size index : Nat) :
    readAt (l.valueOf k.part) type key size ⟨k.field, index⟩ k.read = .ok (v k) := by
  obtain ⟨origin, x, hfield, hshows⟩ := h k
  obtain ⟨_, _, -, hvalue, hfind⟩ := table_of_field? hfield
  rw [hvalue, readAt, hfind]
  exact Key.read_of_shows hshows _ origin

theorem ofSection_cache_of_holds (h : l.Holds v) :
    CacheSettings.ofSection "cache" (l.valueOf "cache") = .ok (ofValues v).cache := by
  have hsize := readAt_of_holds h (.cache .maximumSize) "CacheConfig" "cache" 3 0
  have hwrite := readAt_of_holds h (.cache .afterWrite) "CacheConfig" "cache" 3 1
  have haccess := readAt_of_holds h (.cache .afterAccess) "CacheConfig" "cache" 3 2
  simp only [Key.part, Key.field, Limit.name, Key.read] at hsize hwrite haccess
  simp only [CacheSettings.ofSection, hsize, hwrite, haccess]
  rfl

theorem ofSection_userSecrets_of_holds (h : l.Holds v) :
    CacheSettings.ofSection "user_secrets" (l.valueOf "user_secrets") =
      .ok (ofValues v).userSecrets := by
  have hsize := readAt_of_holds h (.userSecrets .maximumSize) "CacheConfig" "user_secrets" 3 0
  have hwrite := readAt_of_holds h (.userSecrets .afterWrite) "CacheConfig" "user_secrets" 3 1
  have haccess := readAt_of_holds h (.userSecrets .afterAccess) "CacheConfig" "user_secrets" 3 2
  simp only [Key.part, Key.field, Limit.name, Key.read] at hsize hwrite haccess
  simp only [CacheSettings.ofSection, hsize, hwrite, haccess]
  rfl

theorem ofSection_logging_of_holds (h : l.Holds v) :
    LogSettings.ofSection "logging" (l.valueOf "logging") = .ok (ofValues v).logging := by
  have hlevel := readAt_of_holds h .level "LoggingConfig" "logging" 2 0
  have hjson := readAt_of_holds h .json "LoggingConfig" "logging" 2 1
  simp only [Key.part, Key.field, Key.read] at hlevel hjson
  simp only [LogSettings.ofSection, hlevel, hjson]
  rfl

/-- **A layer that holds a value for each setting** is read. -/
theorem ofLayer_of_holds (h : l.Holds v) : ofLayer l = .ok (ofValues v) := by
  have hcache := sectionOf_of_holds h (.cache .maximumSize)
  have huser := sectionOf_of_holds h (.userSecrets .maximumSize)
  have hlogging := sectionOf_of_holds h .level
  simp only [Key.part] at hcache huser hlogging
  simp only [ofLayer, hcache, huser, hlogging]
  change (do
    let cache ← CacheSettings.ofSection "cache" (l.valueOf "cache")
    let userSecrets ← CacheSettings.ofSection "user_secrets" (l.valueOf "user_secrets")
    let logging ← LogSettings.ofSection "logging" (l.valueOf "logging")
    return (⟨cache, userSecrets, logging⟩ : Settings)) = _
  rw [ofSection_cache_of_holds h, ofSection_userSecrets_of_holds h, ofSection_logging_of_holds h]
  rfl

end Settings

/-! ### What is loaded -/

/-- A file that gives some settings, or none if no file is named. -/
inductive SettingsFile.Gives (read : ReadFile) : Option String → Choice → Prop where
  | named {name : String} {file : Layer} {c : Choice} (found : SettingsFile.layer read name = .ok file)
      (given : file.Gives c) : Gives read (some name) c
  | unnamed : Gives read none .none

namespace Settings

/-- The settings that result from what an environment says, what a file says, and the defaults. -/
def chosen (above below : Choice) : (k : Key) → k.Value := above.over (below.over standard.get)

/-- How settings are loaded where a file gives some settings and an environment gives some. -/
structure Layered (read : ReadFile) (name : Option String) (env : Environment)
    (above below : Choice) : Prop where
  /-- What is chosen for each setting by itself is returned exactly if it keeps the rules. -/
  returns : ∀ s, load read name env = .ok s ↔
    (∀ k : Key, k.Allows (chosen above below k)) ∧ ∀ k, s.get k = chosen above below k
  /-- Everything else is a failure of the configuration. -/
  fails : ¬ (∀ k : Key, k.Allows (chosen above below k)) →
    ∃ cause, load read name env = .error (.config cause)
  /-- What is returned passes the rules. -/
  valid : ∀ s, load read name env = .ok s → s.check = .ok s
  /-- A setting that the environment gives in addition or otherwise changes this setting alone. -/
  overriding : ∀ (env' : Environment) (k : Key) (x : k.Value),
    env'.Gives (Function.update above k (some x)) →
      ∀ s s', load read name env = .ok s → load read name env' = .ok s' →
        s'.get k = x ∧ ∀ k' ≠ k, s'.get k' = s.get k'

/-- Settings are what is read of them one by one. -/
theorem ofValues_get (s : Settings) : ofValues s.get = s := rfl

theorem check_eq_error {s : Settings} (h : ¬ s.IsValid) :
    ∃ cause, s.check = .error (.config cause) := by
  have hne : s.violations.isEmpty = false := by
    rw [List.isEmpty_eq_false_iff]
    exact fun heq => h (violations_eq_nil_iff.1 heq)
  exact ⟨_, by rw [check, hne]; rfl⟩

variable {read : ReadFile} {name : Option String} {env : Environment} {above below : Choice}

/-- What is loaded is what was chosen for each setting, if it passes. -/
theorem load_eq (hfile : SettingsFile.Gives read name below) (henv : env.Gives above) :
    load read name env = (ofValues (chosen above below)).check := by
  have hlayers : ∀ file : Layer, file.Gives below →
      ofLayers file env = (ofValues (chosen above below)).check := by
    intro file hgives
    have hholds := (Layer.holds_standard.onto hgives).onto (Environment.gives_layer henv)
    rw [ofLayers, ofLayer_of_holds hholds]
    rfl
  cases hfile with
  | named found given =>
      rw [load, found]
      exact hlayers _ given
  | unnamed =>
      refine hlayers [] ⟨?_, ?_, fun k hk => absurd rfl hk⟩
      · intro k f hf
        exact nomatch hf
      · intro k origin x hx
        exact nomatch hx

/-- Whatever is loaded passes the rules. -/
theorem check_of_load {s : Settings} (h : load read name env = .ok s) : s.check = .ok s := by
  have hlayers : ∀ file : Layer, ofLayers file env = .ok s → s.check = .ok s := by
    intro file hs
    rw [ofLayers] at hs
    split at hs
    · exact nomatch hs
    · obtain ⟨hvalid, rfl⟩ := check_eq_ok_iff.1 hs
      exact hs
  unfold load at h
  split at h
  · exact hlayers _ h
  · split at h
    · exact nomatch h
    · exact hlayers _ h

theorem load_eq_ok_iff (hfile : SettingsFile.Gives read name below) (henv : env.Gives above)
    (s : Settings) : load read name env = .ok s ↔
      (∀ k : Key, k.Allows (chosen above below k)) ∧ ∀ k, s.get k = chosen above below k := by
  rw [load_eq hfile henv, check_eq_ok_iff, isValid_ofValues]
  refine and_congr_right fun _ => ⟨?_, fun h => ?_⟩
  · rintro rfl
    exact get_ofValues _
  · rw [← ofValues_get s, funext h]

/-- **Each setting is layered by itself.** -/
theorem layered_of_gives (hfile : SettingsFile.Gives read name below) (henv : env.Gives above) :
    Layered read name env above below where
  returns := load_eq_ok_iff hfile henv
  fails := by
    intro hrules
    rw [load_eq hfile henv]
    exact check_eq_error fun hvalid => hrules (isValid_ofValues.1 hvalid)
  valid := fun _ => check_of_load
  overriding := by
    intro env' k x henv' s s' hs hs'
    have hbefore := ((load_eq_ok_iff hfile henv s).1 hs).2
    have hafter := ((load_eq_ok_iff hfile henv' s').1 hs').2
    refine ⟨?_, fun k' hk' => ?_⟩
    · rw [hafter, chosen, Choice.over, Function.update_self, Option.getD_some]
    · rw [hafter, hbefore, chosen, Choice.over, Function.update_of_ne hk']
      rfl

end Settings

/-! ### A file and an environment -/

namespace SettingsFile

/-- What the bytes of a text are read as, unless the text begins with a mark of the order of
bytes. -/
theorem textOf_ofString {s : String} (h : s.toList.head? ≠ some (Char.ofNat 0xFEFF)) :
    textOf (Utf8.ofString s) = s.toList := by
  have hdecode : Utf8.decode (Utf8.ofString s) = (s.toList, []) := Utf8.decode_encode s.toList
  have hlossy : lossyText ((Utf8.ofString s).length + 1) (Utf8.ofString s) = s.toList := by
    rw [lossyText, hdecode]
  unfold textOf
  dsimp only
  split
  · rename_i rest heq
    rw [heq, Utf8.decode] at hdecode
    exact absurd (congrArg List.head? (congrArg Prod.fst hdecode).symm) h
  · exact hlossy

/-- A file that is there and holds a text in its format is read. -/
theorem layer_of_text {read : ReadFile} {path text : String} {f : FileFormat} {l : Layer}
    (hread : read path = .ok (Utf8.ofString text)) (hformat : FileFormat.ofName? path = some f)
    (htext : text.toList.head? ≠ some (Char.ofNat 0xFEFF))
    (hl : f.read (some (tidyPath path)) text.toList = some l) : layer read path = .ok l := by
  have hfind : find read path = some path := by
    rw [find, candidates, List.find?_cons_of_pos (by rw [hread]; rfl)]
  simp only [layer, hfind, hformat, hread, textOf_ofString htext, hl]

end SettingsFile

/-! ### An example -/

namespace Settings

/-- A file in which one limit and the form of the log are given. -/
def smallFile : String := "[cache]\nmaximum_size = 500\n[logging]\njson = true\n"

/-- A disk with this file on it. -/
def smallDisk : ReadFile := fun path =>
  if path = "app.toml" then .ok (Utf8.ofString smallFile) else .error .notFound

/-- The layer that the file is. -/
def smallLayer : Layer :=
  [("cache", .table (some "app.toml") [("maximum_size", .leaf (some "app.toml") (.integer 500))]),
    ("logging", .table (some "app.toml") [("json", .leaf (some "app.toml") (.flag true))])]

/-- An environment in which this limit is given otherwise, and something else. -/
def smallEnvironment : Environment :=
  [("PATH", "/bin"), ("SECRETS__CACHE__MAXIMUM_SIZE", "7")]

/-- The settings in the file. -/
def smallBelow : Choice
  | .cache .maximumSize => some (500 : Nat)
  | .json => some true
  | _ => Option.none

/-- The setting in the environment. -/
def smallAbove : Choice
  | .cache .maximumSize => some (7 : Nat)
  | _ => Option.none

theorem gives_smallLayer : smallLayer.Gives smallBelow where
  room := by
    intro k
    refine Layer.leavesRoom_of_sections fun f hf => ?_
    simp only [smallLayer, List.mem_cons, List.not_mem_nil, or_false] at hf
    obtain rfl | rfl := hf
    all_goals
      refine ⟨by decide, _, _, rfl, fun g hg => ?_⟩
      obtain rfl := List.mem_singleton.1 hg
      exact ⟨_, _, rfl⟩
  shows_ := by
    intro k origin x hx
    rcases k with (_ | _ | _) | (_ | _ | _) | _ | _
    · obtain ⟨-, rfl⟩ := Setting.leaf.inj (List.mem_singleton.1 hx)
      exact ⟨(500 : Nat), rfl, by decide, .inl rfl⟩
    iterate 6 exact nomatch List.not_mem_nil hx
    · obtain ⟨-, rfl⟩ := Setting.leaf.inj (List.mem_singleton.1 hx)
      exact ⟨true, rfl, .inl rfl⟩
  complete := by
    intro k hk
    rcases k with (_ | _ | _) | (_ | _ | _) | _ | _
    · exact List.cons_ne_nil _ _
    iterate 6 exact absurd rfl hk
    · exact List.cons_ne_nil _ _

theorem gives_smallFile : SettingsFile.Gives smallDisk (some "app.toml") smallBelow := by
  have hread : SettingsFile.layer smallDisk "app.toml" = .ok smallLayer :=
    SettingsFile.layer_of_text (f := .toml) rfl (by decide) (by decide) rfl
  exact .named hread gives_smallLayer

theorem gives_smallEnvironment : smallEnvironment.Gives smallAbove where
  ours := by
    intro v hv
    simp only [smallEnvironment, List.mem_cons, List.not_mem_nil, or_false] at hv
    obtain rfl | rfl := hv
    · exact .inl (by unfold Environment.Foreign; decide)
    · exact .inr ⟨.cache .maximumSize, (7 : Nat), by decide, rfl, by decide, by decide⟩
  complete := by
    intro k hk
    rcases k with (_ | _ | _) | (_ | _ | _) | _ | _
    · exact ⟨"7", by decide⟩
    all_goals exact absurd rfl hk

theorem layered_of_gives_small :
    SettingsFile.Gives smallDisk (some "app.toml") smallBelow ∧
      Environment.Gives smallEnvironment smallAbove ∧
      Layered smallDisk (some "app.toml") smallEnvironment smallAbove smallBelow :=
  ⟨gives_smallFile, gives_smallEnvironment,
    layered_of_gives gives_smallFile gives_smallEnvironment⟩

end Settings

end SecretResolver
