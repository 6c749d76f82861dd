import Localization.Glob.Matching
import Localization.Nugget.Tokens
import Localization.Path

/-
**The settings of a project.**

* `Settings` — what a project chooses; `Settings.standard` holds for one that chooses nothing.
* `Settings.threads` — how many threads scan the sources.
-/

namespace Localization

/-- What a project chooses. -/
structure Settings where
  /-- The locale directory, seen from the project's directory. -/
  localeDirectory : String
  /-- The directories of sources, seen from the project's directory. -/
  directoriesToScan : List String
  includePatterns : List String
  excludePatterns : List String
  tokens : Tokens
  /-- The cultures that have a catalog even before one is saved. -/
  languages : List String
  /-- The number of threads that scan, where one is chosen. -/
  threadCount : Option Nat
  deriving DecidableEq, Repr

namespace Settings

/-- The settings of a project that chooses nothing. -/
def standard : Settings where
  localeDirectory := "locale"
  directoriesToScan := ["."]
  includePatterns := ["**/*.\x7bhtml,cshtml,razor,js,ts\x7d"]
  excludePatterns := ["**/node_modules/**", "**/bin/**", "**/obj/**"]
  tokens := .standard
  languages := []
  threadCount := none

/-- The number of threads that scan; `available` stands in for a choice. There is at least one. -/
def threads (settings : Settings) (available : Nat) : Nat :=
  max 1 (settings.threadCount.getD available)

end Settings

end Localization
