import Localization.Catalog.Item
import Localization.FileTree.Walk
import Localization.Nugget.Scanner
import Localization.Project
import Localization.Scan.Lines
import Localization.SourceFilter

/-
**Scanning the sources of a project.**

A scan reads every source and collects its nuggets as items by message id. A source that cannot be
read and a nugget at fault are left out with a warning.

* `SourceScanner.ofProject` — the scanner of a project.
* `SourceScanner.sources` — the sources, in order.
* `SourceScanner.scanText` — the mentions of messages in one source.
* `SourceScanner.scan` — the items of all sources; threads share the sources in order.
-/

namespace Localization

/-- A message mentioned in a source. -/
structure Mention where
  id : String
  reference : Reference
  /-- The comment of the nugget. -/
  comment : Option String
  /-- The line of the source, if it is asked for. -/
  context : Option String
  deriving DecidableEq

/-- What a scan leaves out. -/
inductive ScanWarning where
  | unreadable (failure : FileFailure)
  | malformed (reference : Reference) (error : NuggetError)
  deriving DecidableEq

/-- The wording of a warning. -/
def ScanWarning.message : ScanWarning → String
  | unreadable failure => s!"Failed to read {failure.path.text}: {failure.error.message}"
  | malformed reference error => s!"Malformed nugget at {reference.text}: {error.message}"

/-- What sources mention. -/
structure Findings where
  mentions : List Mention
  warnings : List ScanWarning
  deriving DecidableEq

namespace Findings

/-- No findings. -/
def none : Findings := ⟨[], []⟩

/-- Findings one after the other. -/
def append (first second : Findings) : Findings :=
  ⟨first.mentions ++ second.mentions, first.warnings ++ second.warnings⟩

end Findings

/-- What a scan found. -/
structure Scan where
  /-- How many sources there are. -/
  files : Nat
  items : Items
  warnings : List ScanWarning
  deriving DecidableEq

namespace Item

/-- A sorted list of texts with one more, unless it is there. -/
def insertText (text : String) : List String → List String
  | [] => [text]
  | other :: rest =>
    if other < text then other :: insertText text rest
    else if other = text then other :: rest
    else text :: other :: rest

/-- The item with a mention of its message. -/
def addMention (item : Item) (mention : Mention) : Item :=
  { item with
    references := item.references.insert mention.reference ()
    extracted :=
      (mention.comment.toList ++ mention.context.toList).foldl
        (fun texts text => insertText text texts) item.extracted }

end Item

namespace Items

/-- The items with a mention of a message. -/
def addMention (items : Items) (mention : Mention) : Items :=
  items.insert mention.id (((items.get? mention.id).getD (.ofId mention.id)).addMention mention)

/-- The items of mentions. -/
def ofMentions (mentions : List Mention) : Items :=
  mentions.foldl addMention .empty

end Items

/-- Why a project cannot be scanned. -/
inductive ScanError where
  | filter (error : FilterError)
  | tokens (error : TokenError)
  deriving DecidableEq

/-- The wording of an error. -/
def ScanError.message : ScanError → String
  | filter error => error.message
  | tokens error => s!"Invalid nugget tokens: {error.message}"

/-- What a scan looks for, and where. -/
structure SourceScanner where
  directories : List Path
  filter : SourceFilter
  markup : Markup
  threads : Nat
  /-- The lines of the sources go into the items. -/
  showContext : Bool

namespace SourceScanner

/-- How many threads scan where a project does not choose. -/
def standardThreads : Nat := 4

/-- The scanner of a project. -/
def ofProject (project : Project) (showContext : Bool) : Except ScanError SourceScanner := do
  let filter ←
    (SourceFilter.ofSettings project.directory project.settings).mapError ScanError.filter
  let markup ← (Markup.ofTokens project.settings.tokens).mapError ScanError.tokens
  .ok {
    directories := project.sourceDirectories
    filter := filter
    markup := markup
    threads := project.settings.threads standardThreads
    showContext := showContext }

/-- The sources, in order. -/
def sources (scanner : SourceScanner) (tree : FileTree) : List Path :=
  Path.sortDistinct ((scanner.directories.flatMap tree.walkSources).filter scanner.filter.isSource)

/-- The finding of a nugget or of a mistake in a source that is known by the name `name`. -/
def finding (scanner : SourceScanner) (name : String) (text : List Char) (counter : LineCounter) :
    Except NuggetError Occurrence → Findings × LineCounter
  | .error error =>
    let (line, moved) := counter.lineAt error.span.start
    (⟨[], [.malformed ⟨name, line⟩ error]⟩, moved)
  | .ok occurrence =>
    let (line, moved) := counter.lineAt occurrence.span.start
    let reference : Reference := ⟨name, line⟩
    let context :=
      if scanner.showContext then
        some (reference.text ++ ": " ++
          String.ofList (Text.lineAround text occurrence.span.start))
      else Option.none
    (⟨[⟨occurrence.nugget.id, reference, occurrence.nugget.comment, context⟩], []⟩, moved)

/-- The findings of nuggets and mistakes of a source, in order. -/
def findings (scanner : SourceScanner) (name : String) (text : List Char)
    (counter : LineCounter) : List (Except NuggetError Occurrence) → Findings
  | [] => .none
  | result :: rest =>
    let (first, moved) := scanner.finding name text counter result
    first.append (scanner.findings name text moved rest)

/-- The findings in the text of a source. -/
def scanText (scanner : SourceScanner) (path : Path) (text : String) : Findings :=
  scanner.findings (scanner.filter.reference path) text.toList (.start text.toList)
    (scanner.markup.parse .source text)

/-- The findings in a source. -/
def scanFile (scanner : SourceScanner) (tree : FileTree) (path : Path) : Findings :=
  match tree.readText path with
  | .ok text => scanner.scanText path text
  | .error error => ⟨[], [.unreadable ⟨path, error⟩]⟩

/-- The findings in sources, one after the other. -/
def scanFiles (scanner : SourceScanner) (tree : FileTree) (paths : List Path) : Findings :=
  (paths.map (scanner.scanFile tree)).foldr .append .none

/-- A list in parts of `size + 1` elements, the last of which may have fewer. -/
def portions {α : Type} (size : Nat) (elements : List α) : List (List α) :=
  match elements with
  | [] => []
  | first :: rest => (first :: rest.take size) :: portions size (rest.drop size)
termination_by elements.length
decreasing_by
  simp only [List.length_drop, List.length_cons]
  omega

/-- A list in at most `count` parts of like size. -/
def shares {α : Type} (count : Nat) (elements : List α) : List (List α) :=
  portions ((elements.length + (count - 1)) / count - 1) elements

/-- The findings in sources that threads share: each takes a run of them, and the findings are
joined in the order of the runs. -/
def scanShared (scanner : SourceScanner) (tree : FileTree) (paths : List Path) : Findings :=
  ((shares scanner.threads paths).map (scanner.scanFiles tree)).foldr .append .none

/-- Scans all sources. -/
def scan (scanner : SourceScanner) (tree : FileTree) : Scan :=
  let paths := scanner.sources tree
  let found := scanner.scanShared tree paths
  ⟨paths.length, .ofMentions found.mentions, found.warnings⟩

end SourceScanner

end Localization
