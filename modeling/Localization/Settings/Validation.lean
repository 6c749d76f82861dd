import Localization.Culture
import Localization.Settings.Basic
import Localization.Text.Blank

/-
**Settings that can be used.**

* `Settings.problems` — what is wrong with settings, field by field.
* `Settings.problemsText` — all problems as one message.
-/

namespace Localization

/-- What is wrong with settings. -/
inductive SettingsProblem where
  | blankLocaleDirectory
  | noDirectories
  | noIncludePatterns
  | includePattern (index : Nat) (error : GlobError)
  | excludePattern (index : Nat) (error : GlobError)
  | tokens (error : TokenError)
  | unknownCulture (index : Nat) (name : String)
  | noThreads
  deriving DecidableEq, Repr

namespace SettingsProblem

/-- The field that is at fault. -/
def field : SettingsProblem → String
  | blankLocaleDirectory => "localeDirectory"
  | noDirectories => "directoriesToScan"
  | noIncludePatterns => "includePatterns"
  | includePattern index _ => s!"includePatterns[{index}]"
  | excludePattern index _ => s!"excludePatterns[{index}]"
  | tokens (.empty role) => s!"nuggetTokens.{role.name}"
  | tokens (.duplicate ..) => "nuggetTokens"
  | unknownCulture index _ => s!"languages[{index}]"
  | noThreads => "indexing.numThreads"

/-- The wording of a pattern at fault. -/
def patternMessage (error : GlobError) : String :=
  s!"Invalid glob pattern '{error.pattern}': {error.message}"

/-- The wording of a problem. -/
def message : SettingsProblem → String
  | blankLocaleDirectory => "The locale directory cannot be empty. Example: \"locale\""
  | noDirectories => "At least one directory is required. Example: [\".\"]"
  | noIncludePatterns =>
    "At least one pattern is required. Example: [\"**/*.\x7bhtml,cshtml\x7d\"]"
  | includePattern _ error => patternMessage error
  | excludePattern _ error => patternMessage error
  | tokens error => error.message
  | unknownCulture _ name => s!"Unknown culture '{name}'. Example: \"fr\" or \"pt-BR\""
  | noThreads => "The thread count must be at least 1, or removed to use the default"

end SettingsProblem

namespace Settings

/-- The patterns that are at fault, with their places in the list. -/
def badPatterns (index : Nat) : List String → List (Nat × GlobError)
  | [] => []
  | pattern :: rest =>
    match Glob.ofPattern .plain pattern with
    | .ok _ => badPatterns (index + 1) rest
    | .error error => (index, error) :: badPatterns (index + 1) rest

/-- The names that are no cultures, with their places in the list. -/
def unknownCultures (index : Nat) : List String → List (Nat × String)
  | [] => []
  | name :: rest =>
    if Culture.isKnown name then unknownCultures (index + 1) rest
    else (index, name) :: unknownCultures (index + 1) rest

/-- A problem under a condition. -/
def problemIf (condition : Bool) (problem : SettingsProblem) : List SettingsProblem :=
  if condition then [problem] else []

/-- What is wrong with settings, in the order of their fields. -/
def problems (settings : Settings) : List SettingsProblem :=
  problemIf (Text.trim settings.localeDirectory.toList).isEmpty .blankLocaleDirectory ++
    problemIf settings.directoriesToScan.isEmpty .noDirectories ++
    problemIf settings.includePatterns.isEmpty .noIncludePatterns ++
    (badPatterns 0 settings.includePatterns).map (fun (index, error) =>
      .includePattern index error) ++
    (badPatterns 0 settings.excludePatterns).map (fun (index, error) =>
      .excludePattern index error) ++
    settings.tokens.problem?.toList.map .tokens ++
    (unknownCultures 0 settings.languages).map (fun (index, name) => .unknownCulture index name) ++
    problemIf (settings.threadCount = some 0) .noThreads

/-- The lines of problems, numbered from `number` on. -/
def problemLines (number : Nat) : List SettingsProblem → List String
  | [] => []
  | problem :: rest =>
    s!"  {number}. {problem.field} - {problem.message}" :: problemLines (number + 1) rest

/-- The wording of all problems. -/
def problemsText (problems : List SettingsProblem) : String :=
  "Configuration validation failed:\n" ++ "\n".intercalate (problemLines 1 problems)

end Settings

end Localization
