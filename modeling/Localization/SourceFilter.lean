import Localization.Settings.Basic

/-
**Which files are sources.**

A source is a file of the project that some include pattern covers and no exclude pattern does. The
patterns see paths from the project's directory.

* `SourceFilter.ofSettings` — the filter that settings describe, or the first bad pattern.
* `SourceFilter.isSource` — whether a file is a source.
-/

namespace Localization

/-- The patterns that choose sources in a project. -/
structure SourceFilter where
  /-- The project's directory. -/
  project : Path
  includes : List Glob
  excludes : List Glob

/-- The pattern that keeps a filter from being made. -/
inductive FilterError where
  | includePattern (error : GlobError)
  | excludePattern (error : GlobError)
  deriving DecidableEq, Repr

/-- The wording of an error. -/
def FilterError.message : FilterError → String
  | includePattern error =>
    s!"Invalid source include pattern '{error.pattern}': {error.message}"
  | excludePattern error => s!"Invalid exclude pattern '{error.pattern}': {error.message}"

namespace SourceFilter

/-- Reads patterns, up to the first bad one. -/
def readPatterns : List String → Except GlobError (List Glob)
  | [] => .ok []
  | pattern :: rest => do
    let glob ← Glob.ofPattern .plain pattern
    let others ← readPatterns rest
    .ok (glob :: others)

/-- The filter of a project with the given settings. -/
def ofSettings (project : Path) (settings : Settings) : Except FilterError SourceFilter := do
  let includes ← (readPatterns settings.includePatterns).mapError .includePattern
  let excludes ← (readPatterns settings.excludePatterns).mapError .excludePattern
  .ok ⟨project, includes, excludes⟩

/-- A path from the project's directory names a source. -/
def isRelativeSource (filter : SourceFilter) (path : Path) : Bool :=
  Glob.anyMatch filter.includes path.text.toList && !Glob.anyMatch filter.excludes path.text.toList

/-- A path names a source of the project. -/
def isSource (filter : SourceFilter) (path : Path) : Bool :=
  (path.relativeTo? filter.project).any filter.isRelativeSource

/-- The path as it is written into references. -/
def reference (filter : SourceFilter) (path : Path) : String :=
  path.reference filter.project

end SourceFilter

end Localization
