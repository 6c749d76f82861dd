import Localization.Command.Arguments
import Localization.Projection
import Localization.Watch

/-
**Running a command.**

* `Command.start` — everything up to the end of the command, or up to the first look of a watch.
* `Command.Exit.code`, `Command.Exit.message?` — how a command that came to its end is reported.
-/

namespace Localization

namespace Command

/-- How a command ends. -/
inductive Exit where
  | success
  /-- The arguments keep the command from being run. -/
  | refused (refusal : Refusal)
  | failure (reason : String)
  /-- The program stopped itself. -/
  | aborted (reason : String)
  deriving DecidableEq, Repr

namespace Exit

/-- The code of an end. -/
def code : Exit → Nat
  | success => 0
  | refused (.usage _) => 2
  | refused _ => 0
  | failure _ => 1
  | aborted _ => 101

/-- What a user is told at the end. -/
def message? : Exit → Option String
  | success => none
  | refused refusal => some refusal.message
  | failure reason => some reason
  | aborted reason => some reason

end Exit

/-- What a command does once it is started. -/
inductive Start where
  | exit (exit : Exit)
  /-- It watches a project, and looks again whenever the delay in milliseconds has passed. -/
  | watching (watch : Watch) (delay : Nat)

/-- The note in a log file that a command was run. -/
def logNote : String := "started\n"

/-- Content with a text at its end. -/
def append (content : Content) (text : String) : Content :=
  match content with
  | .text before => .text (before ++ text)
  | .binary bytes => .binary (bytes ++ text.toUTF8.toList)

/-- The tree with a note in the log file, if that can be written. -/
def log (tree : FileTree) : Option Path → FileTree
  | none => tree
  | some path =>
    let before := (tree.read path).toOption.getD (.text "")
    (tree.write path (append before logNote)).toOption.getD tree

/-- The project that arguments name, with the settings in effect. -/
def project (tree : FileTree) (arguments : Arguments) : Except SettingsError Project :=
  let here := FileTree.pathOf tree.workingDirectory
  let directory := (arguments.projectDirectory.getD here).absolute here
  (Project.ofDirectory directory).load tree arguments.settingsFile

/-- What a build is to do. -/
def buildOptions (arguments : Arguments) : BuildOptions :=
  ⟨arguments.merge, arguments.showSourceContext⟩

/-- What to project, if that is asked for. -/
def projectionOptions? (arguments : Arguments) : Option ProjectionOptions :=
  arguments.projectSource.map fun source =>
    ⟨source, arguments.projectCulture, arguments.projectOutput, arguments.projectForce⟩

/-- Starts to watch a project. Without a delay nothing comes after the first build. -/
def startWatch (project : Project) (arguments : Arguments) (tree : FileTree) : Start × FileTree :=
  match Watch.start project (buildOptions arguments) tree with
  | .error error => (.exit (.failure error.message), tree)
  | .ok (watch, left) =>
    if arguments.watchDelay = 0 then (.exit (.aborted "The delay must not be zero"), left)
    else (.watching watch arguments.watchDelay, left)

/-- Projects a directory. -/
def runProjection (project : Project) (options : ProjectionOptions) (tree : FileTree) :
    Exit × FileTree :=
  match Projection.run project options tree with
  | (.error cause, left) => (.aborted s!"The width {cause.width} is too large", left)
  | (.ok (.error error), left) => (.failure error.message, left)
  | (.ok (.ok report), left) =>
    (if report.isSuccess then .success else .failure "Some files failed to project", left)

/-- Builds a project. -/
def runBuild (project : Project) (options : BuildOptions) (tree : FileTree) : Exit × FileTree :=
  match project.build options tree with
  | (.error error, left) => (.failure error.message, left)
  | (.ok report, left) =>
    (if report.isSuccess then .success else .failure "Some languages failed to merge", left)

/-- Watches, projects or builds a project, as the arguments ask. -/
def startProject (project : Project) (arguments : Arguments) (tree : FileTree) :
    Start × FileTree :=
  if arguments.watch then startWatch project arguments tree
  else
    let (exit, left) :=
      match projectionOptions? arguments with
      | some options => runProjection project options tree
      | none => runBuild project (buildOptions arguments) tree
    (.exit exit, left)

/-- Runs a command up to its end, or up to the first look of a watch. -/
def start (tree : FileTree) (words : List String) : Start × FileTree :=
  match Arguments.parse words with
  | .error refusal => (.exit (.refused refusal), tree)
  | .ok arguments =>
    let logged := log tree arguments.logFile
    match project logged arguments with
    | .error error => (.exit (.failure error.message), logged)
    | .ok project => startProject project arguments logged

end Command

end Localization
