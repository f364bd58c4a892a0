/-!
The command line: `check INPUT` and `generate INPUT --out-dir DIR`, both with `--config FILE`.
`--log-format` and `--verbose` may stand before or after the command. What is not given on the
command line is taken from the environment.
-/

namespace ApiDescriptors

inductive LogFormat
  | json
  | pretty
deriving DecidableEq, Repr

def LogFormat.ofName? : String → Option LogFormat
  | "json"   => some .json
  | "pretty" => some .pretty
  | _        => none

inductive Command
  | check (input : String) (config : Option String)
  | generate (input outDir : String) (config : Option String)
deriving DecidableEq, Repr

namespace Command

def input : Command → String
  | check input _      => input
  | generate input _ _ => input

def config : Command → Option String
  | check _ config      => config
  | generate _ _ config => config

end Command

structure CommandLine where
  logFormat : LogFormat
  verbose   : Bool
  command   : Command
deriving DecidableEq

namespace CommandLine

abbrev Environment := List (String × String)

-- Which part of the command line is read: what stands before the command, or what follows it.
inductive Level
  | program
  | check
  | generate
deriving DecidableEq

-- What was given at one level.
structure Given where
  logFormat : Option LogFormat := none
  verbose   : Bool             := false
  config    : Option String    := none
  outDir    : Option String    := none
  input     : Option String    := none

-- Takes an option with its value. No option may be given twice, and a path is not empty.
def Given.set? (g : Given) (level : Level) (name value : String) : Option Given :=
  match name with
  | "--log-format" => do
    guard g.logFormat.isNone
    some { g with logFormat := some (← LogFormat.ofName? value) }
  | "--config"     => do
    guard (level ≠ .program ∧ g.config.isNone ∧ value ≠ "")
    some { g with config := some value }
  | "--out-dir"    => do
    guard (level = .generate ∧ g.outDir.isNone ∧ value ≠ "")
    some { g with outDir := some value }
  | _              => none

def Given.setInput? (g : Given) (level : Level) (value : String) : Option Given := do
  guard (level ≠ .program ∧ g.input.isNone ∧ value ≠ "")
  some { g with input := some value }

def isOption (word : String) : Bool :=
  word.startsWith "-" && word ≠ "-"

-- Reads the words of a level. At the level of the program the first word that is no option is
-- the command; it is given with the words after it.
def read? (level : Level) (g : Given) : List String → Option (Given × Option (String × List String))
  | []            => some (g, none)
  | word :: words =>
    if word = "--" then (words.foldlM (fun (g : Given) value => g.setInput? level value) g).map (·, none)
    else if word = "-v" ∨ word = "--verbose" then
      if g.verbose then none else read? level { g with verbose := true } words
    else if isOption word then
      match word.splitOn "=" with
      | [name] =>
        match words with
        | value :: words => if isOption value then none else do read? level (← g.set? level name value) words
        | []             => none
      | name :: value => do read? level (← g.set? level name ("=".intercalate value)) words
      | []            => none
    else if level = .program then some (g, some (word, words))
    else do read? level (← g.setInput? level word) words

-- The value of an environment variable for an option that was not given.
def fromEnvironment? (env : Environment) (name : String) (given : Option String) : Option (Option String) :=
  match given, env.lookup name with
  | some value, _          => some (some value)
  | none,       some value => if value = "" then none else some (some value)
  | none,       none       => some none

-- The log format at one level. A faulty variable is refused wherever it would be used.
def logFormat? (env : Environment) (given : Option LogFormat) : Option LogFormat :=
  match given, env.lookup "RESTGEN_LOG_FORMAT" with
  | some format, _         => some format
  | none,        some name => LogFormat.ofName? name
  | none,        none      => some .pretty

-- Reads a command line; none if it is faulty.
def ofWords? (env : Environment) (words : List String) : Option CommandLine := do
  let (outer, command) ← read? .program {} words
  let (name, words) ← command
  let level ← match name with
    | "check"    => some Level.check
    | "generate" => some Level.generate
    | _          => none
  let (inner, _) ← read? level {} words
  let outerFormat ← logFormat? env outer.logFormat
  let innerFormat ← logFormat? env inner.logFormat
  let input ← inner.input
  let config ← fromEnvironment? env "RESTGEN_CONFIG" inner.config
  let command ←
    if level = .generate then do
      let outDir ← (← fromEnvironment? env "RESTGEN_OUT_DIR" inner.outDir)
      some (Command.generate input outDir config)
    else some (Command.check input config)
  some {
    logFormat := if inner.logFormat.isSome then innerFormat else outerFormat
    verbose   := outer.verbose || inner.verbose
    command
  }

end CommandLine
end ApiDescriptors
