import Localization.Locale.Merging
import Localization.Scan.Sources

/-
**Builds: from sources to template and languages.**

A build scans the sources of a project, saves the template, and merges the languages if the template
changed or if a language of the project has no catalog.

* `Project.build` — runs a build.
-/

namespace Localization

/-- What a build is to do. -/
structure BuildOptions where
  /-- Merge the template into the languages. -/
  merge : Bool
  /-- Write the lines of sources into the template. -/
  showContext : Bool
  deriving DecidableEq, Repr

/-- A build that merges and does not write lines of sources. -/
def BuildOptions.standard : BuildOptions := ⟨true, false⟩

/-- What a build did. -/
structure BuildReport where
  files : Nat
  nuggets : Nat
  warnings : Nat
  templateChanged : Bool
  /-- The report of the merge, if there was one. -/
  merge : Option MergeReport
  deriving DecidableEq

/-- No language failed to merge. -/
def BuildReport.isSuccess (report : BuildReport) : Bool :=
  report.merge.all (·.isSuccess)

/-- Why a build does not come to its end. -/
inductive BuildError where
  | scan (error : ScanError)
  | store (error : StoreError)
  deriving DecidableEq

/-- The wording of an error. -/
def BuildError.message : BuildError → String
  | scan error => error.message
  | store error => error.message

namespace Project

/-- Some language of the project has no catalog. -/
def lacksLanguage (project : Project) (tree : FileTree) : Bool :=
  project.settings.languages.any fun culture => !project.locale.hasLanguage tree culture

/-- Merges the languages with the items of a scan if there is reason to. -/
def mergeScanned (project : Project) (options : BuildOptions) (items : Items)
    (templateChanged : Bool) (tree : FileTree) : Option MergeReport × FileTree :=
  if options.merge && (templateChanged || project.lacksLanguage tree) then
    let (report, left) := project.locale.mergeAll project.settings.languages items tree
    (some report, left)
  else (none, tree)

/-- Saves a scan as template and merges the languages with it. -/
def buildScanned (project : Project) (options : BuildOptions) (scan : Scan) (tree : FileTree) :
    Except BuildError BuildReport × FileTree :=
  match project.locale.saveTemplate tree scan.items with
  | (.error error, left) => (.error (.store error), left)
  | (.ok changed, left) =>
    let (merge, last) := project.mergeScanned options scan.items changed left
    (.ok ⟨scan.files, scan.items.size, scan.warnings.length, changed, merge⟩, last)

/-- Builds a project. -/
def build (project : Project) (options : BuildOptions) (tree : FileTree) :
    Except BuildError BuildReport × FileTree :=
  match SourceScanner.ofProject project options.showContext with
  | .error error => (.error (.scan error), tree)
  | .ok scanner => project.buildScanned options (scanner.scan tree) tree

end Project

end Localization
