import Localization.Path
import Localization.Text.Decimal

/-
**The arguments of a command.**

An argument switches something on or sets a value; a value stands after an equals sign or is the
next argument. Nothing may be given twice, and nothing else may be given. A value is looked at once the
next argument is understood, so that an argument nobody knows is what a user hears of first. This is
the documented behaviour of a library for arguments that is not part of the program's sources.

* `Arguments` — what a user asks for.
* `Arguments.parse` — reads a list of arguments, or says why the command does not run.
-/

namespace Localization

/-- What a user asks for. -/
structure Arguments where
  /-- The project's directory. -/
  projectDirectory : Option Path
  /-- The settings file. -/
  settingsFile : Option Path
  logFile : Option Path
  verbose : Bool
  /-- Build again whenever a source changes. -/
  watch : Bool
  /-- The time in milliseconds between two looks at the sources. -/
  watchDelay : Nat
  /-- Merge the template into the languages. -/
  merge : Bool
  /-- Write the lines of sources into the template. -/
  showSourceContext : Bool
  /-- The directory of which translated copies are made. -/
  projectSource : Option Path
  /-- The culture in which that directory is written. -/
  projectCulture : Option String
  /-- The directory that takes the copies. -/
  projectOutput : Option Path
  /-- Copies may take the place of files. -/
  projectForce : Bool
  deriving DecidableEq, Repr

/-- What is wrong with arguments. -/
inductive UsageError where
  /-- An argument that nobody knows. -/
  | unknown
  /-- A switch with a value. -/
  | needlessValue
  | missingValue
  | repeated
  | notANumber
  deriving DecidableEq, Repr

/-- The wording of an error. -/
def UsageError.message : UsageError → String
  | unknown => "unknown argument"
  | needlessValue => "a value for an argument that takes none"
  | missingValue => "an argument lacks its value"
  | repeated => "an argument is given twice"
  | notANumber => "the delay is no number of milliseconds"

/-- Why a command does not run. -/
inductive Refusal where
  /-- The user asks what the arguments are. -/
  | help
  /-- The user asks for the version. -/
  | version
  | usage (error : UsageError)
  deriving DecidableEq, Repr

namespace Arguments

/-- Something to switch on. -/
inductive Switch where
  | verbose
  | watch
  | noMerge
  | showSourceContext
  | projectForce
  deriving DecidableEq, Repr

/-- Something to set. -/
inductive Setting where
  | projectDirectory
  | settingsFile
  | logFile
  | watchDelay
  | projectSource
  | projectCulture
  | projectOutput
  deriving DecidableEq, Repr

/-- What an argument can be for. -/
inductive Meaning where
  | help
  | version
  | switch (switch : Switch)
  | setting (setting : Setting)
  deriving DecidableEq, Repr

/-- The names of arguments, behind two hyphens. -/
def names : List (String × Meaning) := [
  ("project-dir", .setting .projectDirectory),
  ("config-path", .setting .settingsFile),
  ("verbose", .switch .verbose),
  ("log-file", .setting .logFile),
  ("watch", .switch .watch),
  ("watch-delay", .setting .watchDelay),
  ("build-no-merge", .switch .noMerge),
  ("show-source-context", .switch .showSourceContext),
  ("project", .setting .projectSource),
  ("project-default-lang", .setting .projectCulture),
  ("project-output", .setting .projectOutput),
  ("project-force", .switch .projectForce),
  ("help", .help),
  ("version", .version)]

/-- The letters of arguments, behind one hyphen. None of them sets a value. -/
def letters : List (Char × Meaning) := [('v', .switch .verbose), ('h', .help), ('V', .version)]

/-- The list of arguments for a user who asks. -/
def helpText : String :=
  "Usage: pot [OPTIONS]\n\nOptions:\n" ++
    "\n".intercalate (names.map fun (name, meaning) =>
      match meaning with
      | .setting _ => s!"  --{name} <VALUE>"
      | _ => s!"  --{name}")

/-- The version for a user who asks. -/
def versionText : String := "pot 0.1.0"

/-- What arguments have said so far. -/
structure Given where
  switches : List Switch
  values : List (Setting × String)
  /-- A setting that is not looked at yet, with its value if that has come. -/
  pending : Option (Setting × Option String)
  deriving DecidableEq, Repr

/-- Nothing is said. -/
def Given.nothing : Given := ⟨[], [], none⟩

/-- What is wrong with the value of a setting. -/
def problem? (setting : Setting) (value : String) : Option UsageError :=
  match setting with
  | .projectCulture => none
  | .watchDelay =>
    if (Text.Decimal.unsignedWord? value.toList).isNone then some .notANumber else none
  | _ => if value = "" then some .missingValue else none

/-- Takes in the value of a setting. -/
def Given.set (given : Given) (setting : Setting) (value : String) : Except Refusal Given :=
  if (given.values.lookup setting).isSome then .error (.usage .repeated)
  else
    match problem? setting value with
    | some error => .error (.usage error)
    | none => .ok { given with values := (setting, value) :: given.values }

/-- Takes in the setting that is pending. -/
def Given.settle (given : Given) : Except Refusal Given :=
  match given.pending with
  | none => .ok given
  | some (_, none) => .error (.usage .missingValue)
  | some (setting, some value) => { given with pending := none }.set setting value

/-- Takes in an argument without a value. -/
def Given.take (given : Given) : Meaning → Except Refusal Given
  | .help => do
    let _ ← given.settle
    .error .help
  | .version => do
    let _ ← given.settle
    .error .version
  | .switch switch => do
    let settled ← given.settle
    if switch ∈ settled.switches then .error (.usage .repeated)
    else .ok { settled with switches := switch :: settled.switches }
  | .setting setting => do
    let settled ← given.settle
    .ok { settled with pending := some (setting, none) }

/-- Takes in an argument with a value behind an equals sign. -/
def Given.takeValue (given : Given) (value : String) : Meaning → Except Refusal Given
  | .setting setting => do
    let settled ← given.settle
    settled.set setting value
  | _ => .error (.usage .needlessValue)

/-- Takes in the letters behind one hyphen. -/
def Given.takeLetters (given : Given) : List Char → Except Refusal Given
  | [] => .ok given
  | letter :: rest => do
    match letters.lookup letter with
    | none => .error (.usage .unknown)
    | some meaning =>
      let taken ← given.take meaning
      taken.takeLetters rest

/-- Takes in a name behind two hyphens, and its value if there is one. -/
def Given.takeName (given : Given) (text : List Char) : Except Refusal Given :=
  match names.lookup (String.ofList (text.takeWhile (· ≠ '='))), text.dropWhile (· ≠ '=') with
  | none, _ => .error (.usage .unknown)
  | some meaning, [] => given.take meaning
  | some meaning, _ :: value => given.takeValue (String.ofList value) meaning

/-- Takes in an argument without a hyphen, which has to be the value of a setting. -/
def Given.takePlain (given : Given) (value : String) : Except Refusal Given :=
  match given.pending with
  | some (setting, none) => .ok { given with pending := some (setting, some value) }
  | _ => .error (.usage .unknown)

/-- Takes in arguments. Two hyphens alone end those with a name; no others may follow. -/
def Given.takeAll (given : Given) : List String → Except Refusal Given
  | [] => given.settle
  | argument :: rest =>
    match argument.toList with
    | ['-', '-'] => if rest.isEmpty then given.settle else .error (.usage .unknown)
    | '-' :: '-' :: name => do
      let taken ← given.takeName name
      taken.takeAll rest
    | '-' :: letter :: more => do
      let taken ← given.takeLetters (letter :: more)
      taken.takeAll rest
    | _ => do
      let taken ← given.takePlain argument
      taken.takeAll rest

/-- The time between two looks at the sources if none is given. -/
def standardDelay : Nat := 500

/-- The arguments that are given. -/
def ofGiven (given : Given) : Arguments :=
  let path (setting : Setting) := (given.values.lookup setting).map Path.mk
  let isOn (switch : Switch) := given.switches.contains switch
  { projectDirectory := path .projectDirectory
    settingsFile := path .settingsFile
    logFile := path .logFile
    verbose := isOn .verbose
    watch := isOn .watch
    watchDelay :=
      ((given.values.lookup .watchDelay).bind fun value =>
        Text.Decimal.unsignedWord? value.toList).getD standardDelay
    merge := !isOn .noMerge
    showSourceContext := isOn .showSourceContext
    projectSource := path .projectSource
    projectCulture := given.values.lookup .projectCulture
    projectOutput := path .projectOutput
    projectForce := isOn .projectForce }

/-- Reads a list of arguments, or says why the command does not run. -/
def parse (arguments : List String) : Except Refusal Arguments :=
  (Given.nothing.takeAll arguments).map ofGiven

end Arguments

/-- What a user is told whose command does not run. -/
def Refusal.message : Refusal → String
  | help => Arguments.helpText
  | version => Arguments.versionText
  | usage error => s!"error: {error.message}"

end Localization
