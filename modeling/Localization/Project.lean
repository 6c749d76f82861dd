import Localization.FileTree.Files
import Localization.Settings.Reader
import Localization.Settings.Validation
import Localization.Locale

/-
**A project: a directory with settings.**

* `Project.load` — the project with the settings of a file, which have to be usable.
* `Project.reload` — loads settings in place of those in effect, which stay if that fails.
* `Project.locale`, `Project.sourceDirectories` — the places that the settings name.
-/

namespace Localization

/-- A project's directory and the settings in effect. -/
structure Project where
  directory : Path
  settings : Settings
  deriving DecidableEq

/-- Why settings are refused. -/
inductive SettingsError where
  | unreadable (error : FileError)
  /-- The text is no text of settings. -/
  | malformed
  | invalid (problems : List SettingsProblem)
  deriving DecidableEq, Repr

/-- The wording of an error. -/
def SettingsError.message : SettingsError → String
  | unreadable error => s!"Failed to load configuration file: {error.message}"
  | malformed => "Failed to parse configuration"
  | invalid problems => Settings.problemsText problems

namespace Project

/-- A project that chooses nothing. -/
def ofDirectory (directory : Path) : Project := ⟨directory, .standard⟩

/-- The name of a project's settings file. -/
def settingsName : String := ".i18n.json"

/-- The settings in a file, or those of a project that chooses nothing if there is no file. -/
def readSettings (tree : FileTree) (path : Path) : Except SettingsError Settings :=
  if tree.exists? path then
    match tree.readText path with
    | .error error => .error (.unreadable error)
    | .ok text =>
      match Settings.parse? text with
      | none => .error .malformed
      | some settings => .ok settings
  else .ok .standard

/-- The project with the settings of a file: the given one, else the one in its directory. -/
def load (project : Project) (tree : FileTree) (file : Option Path) :
    Except SettingsError Project := do
  let settings ← readSettings tree (file.getD (project.directory.join settingsName))
  if settings.problems = [] then .ok { project with settings := settings }
  else .error (.invalid settings.problems)

/-- Loads settings: whether that went well, and the project with the settings that are in effect then. -/
def reload (project : Project) (tree : FileTree) (file : Option Path) :
    Except SettingsError Unit × Project :=
  match project.load tree file with
  | .ok loaded => (.ok (), loaded)
  | .error error => (.error error, project)

/-- The locale directory of a project. -/
def locale (project : Project) : Locale :=
  ⟨project.directory.join project.settings.localeDirectory, none⟩

/-- The directories in which a project's sources are looked for. -/
def sourceDirectories (project : Project) : List Path :=
  project.settings.directoriesToScan.map project.directory.join

end Project

end Localization
