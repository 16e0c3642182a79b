/-
**Arguments of the command line.**

One command with what it takes, and options before or after it.  An option is given by its name
after two dashes, with its value after an equals sign or in the next argument, or by a letter after
one dash, several of which may be joined.  After two dashes alone everything is a plain argument.
No option is given twice, except once before and once after the command, where the later counts.

Main definitions:

* `Command`, `Invocation` — what is to be done;
* `Option_`, `Given` — the options there are, and the arguments taken apart;
* `Invocation.parse` — the invocation that some arguments are.
-/

set_option relaxedAutoImplicit false
set_option autoImplicit false

namespace SecretResolver

/-! ### Invocations -/

/-- The commands. -/
inductive Command where
  /-- Resolve a reference and print its value; a resource uses it. -/
  | resolve (reference resource : String)
  /-- Print all fields of a user secret in an encoding. -/
  | present (reference encoding : String)
  | check (reference : String)
  | encrypt (plaintext : String)
  | engines (format : String)
  deriving Repr, DecidableEq

/-- What is to be done. -/
structure Invocation where
  command : Command
  /-- The name of the file of settings, if there is one. -/
  config : Option String
  /-- The directory of the files that references lead into. -/
  root : String
  /-- Whether more is logged than the settings say. -/
  verbose : Bool
  deriving Repr, DecidableEq

/-- What some arguments ask for. -/
inductive Request where
  | invoke (i : Invocation)
  | version
  | help
  | misuse
  deriving Repr, DecidableEq

/-! ### Options -/

/-- An option. -/
structure Option_ where
  name : String
  letter : Option Char
  takesValue : Bool
  /-- Whether its value is a path, which must not be empty. -/
  isPath : Bool
  deriving Repr, DecidableEq

/-- The option for help. -/
def helpOption : Option_ := ⟨"help", some 'h', false, false⟩

/-- The option for the version. -/
def versionOption : Option_ := ⟨"version", some 'V', false, false⟩

/-- The options of all commands. -/
def commonOptions : List Option_ :=
  [⟨"config", none, true, true⟩, ⟨"root", none, true, true⟩, ⟨"verbose", some 'v', false, false⟩,
    helpOption]

/-- The options before a command. -/
def leadingOptions : List Option_ := commonOptions ++ [versionOption]

/-- The shapes of commands. -/
structure Shape where
  name : String
  options : List Option_
  arity : Nat
  deriving Repr, DecidableEq

/-- The commands by their names. -/
def shapes : List Shape := [
  ⟨"resolve", [⟨"resource", none, true, false⟩], 1⟩,
  ⟨"show", [⟨"encoding", some 'e', true, false⟩], 1⟩,
  ⟨"check", [], 1⟩,
  ⟨"encrypt", [], 1⟩,
  ⟨"engines", [⟨"output", some 'o', true, false⟩], 0⟩]

/-! ### Taking arguments apart -/

/-- The options and plain arguments that were given. -/
structure Given where
  /-- The options with their values; flags have an empty one. -/
  options : List (String × String)
  plain : List String
  deriving Repr, DecidableEq

/-- Why arguments are not taken apart. -/
inductive Stop where
  | version
  | help
  | misuse
  deriving Repr, DecidableEq

/-- The value of an option that was given. -/
def Given.option? (g : Given) (name : String) : Option String :=
  (g.options.find? fun o => o.1 == name).map Prod.snd

/-- Adds an option, unless it was given before. -/
def Given.add (g : Given) (o : Option_) (value : String) : Except Stop Given :=
  if o = helpOption then .error .help
  else if o = versionOption then .error .version
  else if (g.option? o.name).isSome || (o.isPath && value.isEmpty) then .error .misuse
  else .ok { g with options := g.options ++ [(o.name, value)] }

/-- Whether an argument is taken for options and not for a value. -/
def isDashed (s : String) : Bool :=
  match s.toList with
  | '-' :: _ :: _ => true
  | _ => false

/-- The name before an equals sign, and the value after it if there is one. -/
def splitAssignment (cs : List Char) : String × Option String :=
  let name := cs.takeWhile fun c => c != '='
  match cs.dropWhile fun c => c != '=' with
  | [] => (String.ofList name, none)
  | _ :: value => (String.ofList name, some (String.ofList value))

/-- A value after a letter, with or without an equals sign. -/
def attached : List Char → String
  | '=' :: cs => String.ofList cs
  | cs => String.ofList cs

/-- Options by their letters.  The last one may wait for its value. -/
def letters (options : List Option_) : List Char → Given → Except Stop (Given × Option Option_)
  | [], g => .ok (g, none)
  | c :: cs, g =>
      match options.find? fun o => o.letter == some c with
      | none => .error .misuse
      | some o =>
          if o.takesValue then
            if cs.isEmpty then .ok (g, some o)
            else (g.add o (attached cs)).map fun g => (g, none)
          else
            match g.add o "" with
            | .error stop => .error stop
            | .ok g => letters options cs g

/-- An option by its name.  It may wait for its value. -/
def longOption (options : List Option_) (cs : List Char) (g : Given) :
    Except Stop (Given × Option Option_) :=
  let (name, value) := splitAssignment cs
  match options.find? fun o => o.name == name with
  | none => .error .misuse
  | some o =>
      match o.takesValue, value with
      | true, some value => (g.add o value).map fun g => (g, none)
      | true, none => .ok (g, some o)
      | false, none => (g.add o "").map fun g => (g, none)
      | false, some _ => .error .misuse

/-- What an argument that is not plain does. -/
def dashed (options : List Option_) (s : String) (g : Given) :
    Except Stop (Given × Option Option_) :=
  match s.toList with
  | '-' :: '-' :: cs => longOption options cs g
  | '-' :: cs => letters options cs g
  | _ => .error .misuse

/-- Takes arguments apart; `limit` is the number of plain arguments that may come, and without one
the first plain argument ends it.  `waiting` is an option that waits for its value. -/
def takeApart (options : List Option_) (limit : Option Nat) :
    (waiting : Option Option_) → Given → List String → Except Stop (Given × List String)
  | some _, _, [] => .error .misuse
  | none, g, [] => .ok (g, [])
  | waiting, g, s :: rest =>
      match waiting with
      | some o =>
          if isDashed s then .error .misuse
          else
            match g.add o s with
            | .error stop => .error stop
            | .ok g => takeApart options limit none g rest
      | none =>
          if s == "--" then
            if limit.getD 0 < g.plain.length + rest.length then .error .misuse
            else .ok ({ g with plain := g.plain ++ rest }, [])
          else if isDashed s then
            match dashed options s g with
            | .error stop => .error stop
            | .ok (g, waiting) => takeApart options limit waiting g rest
          else
            match limit with
            | none => .ok (g, s :: rest)
            | some n =>
                if n ≤ g.plain.length then .error .misuse
                else takeApart options limit none { g with plain := g.plain ++ [s] } rest

/-! ### Putting them together -/

/-- The command of a shape with what was given for it. -/
def commandOf (s : Shape) (g : Given) : Option Command :=
  match s.name, g.plain with
  | "resolve", [r] => some (.resolve r ((g.option? "resource").getD "cli"))
  | "show", [r] => some (.present r ((g.option? "encoding").getD "yaml"))
  | "check", [r] => some (.check r)
  | "encrypt", [p] => some (.encrypt p)
  | "engines", [] => some (.engines ((g.option? "output").getD "table"))
  | _, _ => none

/-- The invocation of a command with options before and after it. -/
def invocationOf (leading own : Given) (c : Command) : Invocation :=
  let option? (name : String) : Option String := own.option? name <|> leading.option? name
  ⟨c, option? "config", (option? "root").getD ".", (option? "verbose").isSome⟩

/-- What a reason not to take arguments apart asks for. -/
def Request.ofStop : Stop → Request
  | .version => .version
  | .help => .help
  | .misuse => .misuse

/-- What the arguments of a command ask for. -/
def parseCommand (leading : Given) (s : Shape) (args : List String) : Request :=
  match takeApart (s.options ++ commonOptions) (some s.arity) none ⟨[], []⟩ args with
  | .error stop => .ofStop stop
  | .ok (own, _) =>
      match commandOf s own with
      | some c => .invoke (invocationOf leading own c)
      | none => .misuse

/-- What some arguments ask for. -/
def Request.parse (args : List String) : Request :=
  match takeApart leadingOptions none none ⟨[], []⟩ args with
  | .error stop => .ofStop stop
  | .ok (_, []) => .misuse
  | .ok (leading, name :: rest) =>
      match shapes.find? fun s => s.name == name with
      | some s => parseCommand leading s rest
      | none => if name == "help" then .help else .misuse

end SecretResolver
