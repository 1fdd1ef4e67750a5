/-
The command line.

Options are known by a letter behind one dash or by a word behind two.  Letters can be run
together, and what follows the letter of an option that takes a value is that value.  A value
is looked at only when the next argument shows that it is complete, so a bad value is
reported before a later mistake, unless that one is an argument nobody knows.
-/
import ApiNotes.Config

namespace ApiNotes

/-- What a run is asked to do. -/
structure Arguments where
  /-- The directory of sources. -/
  source : Option String := none
  format : Format := .yaml
  /-- The file for the document. -/
  output : Option String := none
  languages : List String := []
  /-- The file with the configuration. -/
  config : Option String := none
  verbose : Bool := false
deriving DecidableEq, Repr, Inhabited

namespace CommandLine

/-- Why a command line asks for no run. -/
inductive Rejection
  | unknownArgument
  | invalidValue
  | tooManyValues
  | conflict
  | helpAsked
  | versionAsked
deriving DecidableEq, Repr

/-- The arguments that have a value. -/
inductive Setting
  | source
  | format
  | output
  | languages
  | config
deriving DecidableEq, Repr

/-- The arguments that have none. -/
inductive Switch
  | verbose
  | help
  | version
deriving DecidableEq, Repr

/-- An option. -/
inductive Opt
  | setting (setting : Setting)
  | switch (switch : Switch)
deriving DecidableEq, Repr

/-- The option with a letter. -/
def optOfLetter? : Char → Option Opt
  | 'f' => some (.setting .format)
  | 'o' => some (.setting .output)
  | 'l' => some (.setting .languages)
  | 'c' => some (.setting .config)
  | 'v' => some (.switch .verbose)
  | 'h' => some (.switch .help)
  | 'V' => some (.switch .version)
  | _ => none

/-- The option with a word. -/
def optOfWord? : String → Option Opt
  | "format" => some (.setting .format)
  | "output" => some (.setting .output)
  | "lang" => some (.setting .languages)
  | "config" => some (.setting .config)
  | "verbose" => some (.switch .verbose)
  | "help" => some (.switch .help)
  | "version" => some (.switch .version)
  | _ => none

/-- A command line that has been read up to some argument. -/
structure Progress where
  arguments : Arguments := {}
  /-- The settings that have a value. -/
  given : List Setting := []
  /-- A setting that waits, and its value as far as it is there. -/
  pending : Option (Setting × Option String) := none
  /-- Whether the place of the directory is taken. -/
  placeTaken : Bool := false
  /-- Whether two dashes have ended the options. -/
  optionsEnded : Bool := false

namespace Progress

/-- A value that may not be empty. -/
def filled (value : String) : Except Rejection (Option String) :=
  if value.isEmpty then .error .invalidValue else .ok (some value)

/-- Gives a setting its value.  Only languages can be given more than once. -/
def set (p : Progress) (setting : Setting) (value : String) : Except Rejection Progress := do
  if setting ≠ .languages ∧ p.given.contains setting then throw .conflict
  let a := p.arguments
  let arguments ← match setting with
    | .source => do pure { a with source := ← filled value }
    | .output => do pure { a with output := ← filled value }
    | .config => do pure { a with config := ← filled value }
    | .format =>
      match Format.ofName? value with
      | some format => pure { a with format }
      | none => throw .invalidValue
    | .languages =>
      let names := (value.toList.splitOn ',').map String.ofList
      pure { a with languages := a.languages ++ names }
  pure { p with arguments, given := setting :: p.given }

/-- Completes the setting that waits; it needs a value by now. -/
def settle (p : Progress) : Except Rejection Progress :=
  match p.pending with
  | none => .ok p
  | some (_, none) => .error .invalidValue
  | some (setting, some value) => { p with pending := none }.set setting value

/-- Turns a switch. -/
def turn (p : Progress) (switch : Switch) : Except Rejection Progress := do
  let p ← p.settle
  match switch with
  | .help => throw .helpAsked
  | .version => throw .versionAsked
  | .verbose =>
    if p.arguments.verbose then throw .conflict
    pure { p with arguments := { p.arguments with verbose := true } }

/-- Names a setting, whose value is attached or comes next. -/
def name (p : Progress) (setting : Setting) (attached : Option String) :
    Except Rejection Progress := do
  let p ← p.settle
  match attached with
  | some value => p.set setting value
  | none => pure { p with pending := some (setting, none) }

/-- Reads the letters behind a dash. -/
def letters (p : Progress) : List Char → Except Rejection Progress
  | [] => .ok p
  | c :: rest =>
    match optOfLetter? c with
    | none => .error .unknownArgument
    | some (.switch switch) => do letters (← p.turn switch) rest
    | some (.setting setting) =>
      match rest with
      | [] => p.name setting none
      | '=' :: value => p.name setting (some (String.ofList value))
      | value => p.name setting (some (String.ofList value))

/-- Reads the word behind two dashes. -/
def word (p : Progress) (text : List Char) : Except Rejection Progress :=
  let (name, attached) := match Text.cutAt ['='] text with
    | some (name, value) => (name, some (String.ofList value))
    | none => (text, none)
  match optOfWord? (String.ofList name) with
  | none => .error .unknownArgument
  | some (.setting setting) => p.name setting attached
  | some (.switch switch) => if attached.isSome then .error .tooManyValues else p.turn switch

/-- Reads the directory of sources; there is only one. -/
def place (p : Progress) (argument : String) : Except Rejection Progress := do
  if p.placeTaken then throw .unknownArgument
  let p ← p.settle
  pure { p with pending := some (.source, some argument), placeTaken := true }

/-- Reads an argument that is no option. -/
def value (p : Progress) (argument : String) : Except Rejection Progress :=
  match p.pending with
  | some (setting, none) => .ok { p with pending := some (setting, some argument) }
  | _ => p.place argument

/-- Reads an argument. -/
def step (p : Progress) (argument : String) : Except Rejection Progress :=
  if p.optionsEnded then p.place argument
  else
    match argument.toList with
    | ['-', '-'] => .ok { p with optionsEnded := true }
    | '-' :: '-' :: text => p.word text
    | '-' :: c :: rest => p.letters (c :: rest)
    | _ => p.value argument

/-- The arguments when there is no more to read.  A directory and a configuration exclude each
other. -/
def finish (p : Progress) : Except Rejection Arguments := do
  let p ← p.settle
  if p.arguments.source.isSome && p.arguments.config.isSome then throw .conflict
  pure p.arguments

end Progress

/-- Reads a command line, which starts with the name of the program. -/
def read (argv : List String) : Except Rejection Arguments := do
  (← (argv.drop 1).foldlM Progress.step {}).finish

end CommandLine

/-- The version of this tool, for configurations that come from a command line. -/
def toolVersion : String := "0.1.0"

/-- The configuration that a command line stands for. -/
def Arguments.toConfig (arguments : Arguments) (source : String) : Config where
  version := toolVersion
  inputs := [{ directory := source, languages := arguments.languages }]
  output := some { path := arguments.output, format := arguments.format }

end ApiNotes
