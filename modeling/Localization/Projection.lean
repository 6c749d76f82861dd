import Localization.FileTree.Walk
import Localization.Locale.Catalogs
import Localization.Project
import Localization.Translator

/-
**Projecting a directory: a translated copy for every culture.**

* `Projection.cultures` — the default culture and the cultures that have a catalog.
* `Projection.files` — the files to copy; the output is not among them.
* `Projection.makeCopies` — makes the copies.
* `Projection.run` — projects a directory, unless that would replace files.
-/

namespace Localization

/-- What to project. -/
structure ProjectionOptions where
  source : Path
  /-- The culture in which the source is written. -/
  defaultCulture : Option String
  /-- The directory that takes the copies. -/
  output : Option Path
  /-- Copies may take the place of files. -/
  force : Bool
  deriving DecidableEq, Repr

/-- Why a projection, or the copy of one file, fails. -/
inductive ProjectionError where
  | missingDefaultCulture
  | unknownCulture (name : String)
  | sourceNotFound (path : Path)
  | outputExists (path : Path)
  | access (failure : FileFailure)
  | store (error : StoreError)
  deriving DecidableEq

/-- The wording of an error. -/
def ProjectionError.message : ProjectionError → String
  | missingDefaultCulture => "Default culture not specified. Use --project-default-lang"
  | unknownCulture name => s!"Default culture not found: {name}"
  | sourceNotFound path => s!"Directory does not exist: {path.text}"
  | outputExists path =>
    s!"File {path.text} already exists. Use --project-force to overwrite."
  | access failure => s!"I/O error on {failure.path.text}: {failure.error.message}"
  | store error => error.message

/-- What a projection did. -/
structure ProjectionReport where
  output : Path
  cultures : List String
  /-- How many copies were made. -/
  written : Nat
  /-- The copies that could not be made. -/
  failures : List ProjectionError
  deriving DecidableEq

/-- Every copy was made. -/
def ProjectionReport.isSuccess (report : ProjectionReport) : Bool := report.failures.isEmpty

namespace Projection

/-- The name of the directory of copies where none is chosen. -/
def outputName : String := "projected"

/-- The default culture that is asked for. -/
def defaultCulture (options : ProjectionOptions) : Except ProjectionError String :=
  let name := String.ofList (Text.trim (options.defaultCulture.getD "").toList)
  if name = "" then .error .missingDefaultCulture
  else if Culture.isKnown name then .ok name
  else .error (.unknownCulture name)

/-- The absolute path of a path; the empty one has none. -/
def absolute (tree : FileTree) (path : Path) : Except ProjectionError Path :=
  if path.text = "" then .error (.access ⟨path, .emptyPath⟩)
  else .ok (path.absolute (FileTree.pathOf tree.workingDirectory))

/-- The directory to project. -/
def source (tree : FileTree) (options : ProjectionOptions) : Except ProjectionError Path := do
  let path ← absolute tree options.source
  if tree.isDirectory path then .ok path else .error (.sourceNotFound path)

/-- The directory of copies. -/
def output (tree : FileTree) (options : ProjectionOptions) (source : Path) :
    Except ProjectionError Path :=
  match options.output with
  | some path => absolute tree path
  | none => .ok (source.join outputName)

/-- The cultures without those that are other spellings of a known one. -/
def addCultures (known : List String) : List String → List String
  | [] => known
  | culture :: rest =>
    if known.any fun other => Culture.normalize other = Culture.normalize culture then
      addCultures known rest
    else addCultures (known ++ [culture]) rest

/-- The default culture, and then the cultures that have a catalog. -/
def cultures (tree : FileTree) (locale : Locale) (defaultCulture : String) :
    Except StoreError (List String) :=
  (locale.languages tree).map (addCultures [defaultCulture])

/-- The files to copy, seen from their directory, in order. The output is not among them. -/
def files (tree : FileTree) (source output : Path) : List Path :=
  ((tree.walkAll source (·.same output)).filterMap (·.relativeTo? source)).mergeSort
    fun first second => !second.before first

/-- A copy to make. -/
structure Copy where
  culture : String
  input : Path
  target : Path
  deriving DecidableEq, Repr

/-- The copies to make, culture by culture. -/
def copies (source output : Path) (cultures : List String) (files : List Path) : List Copy :=
  cultures.flatMap fun culture => files.map fun file =>
    ⟨culture, source.join file.text, (output.join culture).join file.text⟩

/-- The first copy that would take the place of something. -/
def firstExisting? (tree : FileTree) (copies : List Copy) : Option Path :=
  (copies.map (·.target)).find? tree.exists?

/-- The content of a copy: a text is translated, other content stays as it is. -/
def translated (translator : Translator) (tree : FileTree) (culture : String) :
    Content → Except Overwide Content × Translator
  | .binary bytes => (.ok (.binary bytes), translator)
  | .text text =>
    let (outcome, after) := translator.translate tree tree.clock culture text
    (outcome.map .text, after)

/-- What becomes of a copy. -/
inductive CopyOutcome where
  | done
  | failed (error : ProjectionError)
  /-- A message cannot be laid out, which stops the program. -/
  | stopped (cause : Overwide)
  deriving DecidableEq

/-- Makes a copy. -/
def makeCopy (translator : Translator) (tree : FileTree) (copy : Copy) :
    CopyOutcome × Translator × FileTree :=
  match tree.read copy.input with
  | .error error => (.failed (.access ⟨copy.input, error⟩), translator, tree)
  | .ok content =>
    match translated translator tree copy.culture content with
    | (.error cause, after) => (.stopped cause, after, tree)
    | (.ok content, after) =>
      match tree.store copy.target content with
      | (.ok (), left) => (.done, after, left)
      | (.error failure, left) => (.failed (.access failure), after, left)

/-- Makes copies, one after the other. A copy that fails does not keep the others from being made.
The result counts those that were made. -/
def makeCopies (translator : Translator) (tree : FileTree) :
    List Copy → Except Overwide (Nat × List ProjectionError) × FileTree
  | [] => (.ok (0, []), tree)
  | copy :: rest =>
    match makeCopy translator tree copy with
    | (.stopped cause, _, left) => (.error cause, left)
    | (.done, after, left) =>
      let (outcome, last) := makeCopies after left rest
      (outcome.map fun (written, failures) => (written + 1, failures), last)
    | (.failed error, after, left) =>
      let (outcome, last) := makeCopies after left rest
      (outcome.map fun (written, failures) => (written, error :: failures), last)

/-- What is to be done. -/
structure Plan where
  defaultCulture : String
  output : Path
  cultures : List String
  copies : List Copy
  deriving DecidableEq, Repr

/-- The plan of a projection of a project, unless something keeps it from being run. -/
def plan (project : Project) (options : ProjectionOptions) (tree : FileTree) :
    Except ProjectionError Plan := do
  let defaultCulture ← defaultCulture options
  let source ← source tree options
  let output ← output tree options source
  let cultures ← (cultures tree project.locale defaultCulture).mapError .store
  let copies := copies source output cultures (files tree source output)
  match if options.force then none else firstExisting? tree copies with
  | some path => .error (.outputExists path)
  | none => .ok ⟨defaultCulture, output, cultures, copies⟩

/-- The translator of a plan. -/
def translator (project : Project) (defaultCulture : String) : Translator :=
  .ofSource (.locale { project.locale with defaultCulture := some defaultCulture })

/-- Projects a directory. -/
def run (project : Project) (options : ProjectionOptions) (tree : FileTree) :
    Except Overwide (Except ProjectionError ProjectionReport) × FileTree :=
  match plan project options tree with
  | .error error => (.ok (.error error), tree)
  | .ok plan =>
    let (outcome, left) := makeCopies (translator project plan.defaultCulture) tree plan.copies
    (outcome.map fun (written, failures) =>
      .ok ⟨plan.output, plan.cultures, written, failures⟩, left)

end Projection

end Localization
