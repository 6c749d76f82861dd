import Localization.Catalog.Reader
import Localization.Catalog.Writer
import Localization.FileTree.Files

/-
**Catalogs in files.**

* `Catalog.load?` — the catalog in a file, or none if there is no file.
* `Catalog.save` — puts a catalog into a file, unless the file holds the same text already.
-/

namespace Localization

/-- Why a catalog cannot be read from a file or saved to it. -/
inductive StoreError where
  | access (failure : FileFailure)
  | malformed (path : Path) (error : Catalog.ParseError)
  deriving DecidableEq

/-- The wording of an error. -/
def StoreError.message : StoreError → String
  | access failure => s!"Failed to access {failure.path.text}: {failure.error.message}"
  | malformed path error => s!"Failed to parse {path.text}:{error.line}: {error.fault.message}"

namespace Catalog

/-- The catalog in a file, or none if there is no file. -/
def load? (tree : FileTree) (path : Path) : Except StoreError (Option Catalog) :=
  match tree.readText path with
  | .error .notFound => .ok none
  | .error error => .error (.access ⟨path, error⟩)
  | .ok text =>
    match parse text with
    | .ok catalog => .ok (some catalog)
    | .error error => .error (.malformed path error)

/-- A catalog that is in a file is what the text of the file says. -/
theorem load?_eq_some {tree : FileTree} {path : Path} {catalog : Catalog} :
    load? tree path = .ok (some catalog) ↔
      ∃ text, tree.readText path = .ok text ∧ parse text = .ok catalog := by
  unfold load?
  constructor
  · intro loaded
    cases read : tree.readText path with
    | error error =>
      rw [read] at loaded
      cases error <;> cases loaded
    | ok text =>
      rw [read] at loaded
      dsimp only at loaded
      cases parsed : parse text with
      | error error =>
        rw [parsed] at loaded
        cases loaded
      | ok other =>
        rw [parsed] at loaded
        cases loaded
        exact ⟨text, rfl, parsed⟩
  · rintro ⟨text, read, parsed⟩
    rw [read]
    dsimp only
    rw [parsed]

/-- The header of the catalog in a file, which is empty if there is no file. -/
def loadHeader (tree : FileTree) (path : Path) : Except StoreError Header :=
  (load? tree path).map fun catalog? => (catalog?.map (·.header)).getD .empty

/-- Puts a text into a file and says whether the file held another text or was not there. -/
def saveText (tree : FileTree) (path : Path) (text : String) : Except StoreError Bool × FileTree :=
  match tree.readText path with
  | .ok current => if current = text then (.ok false, tree) else replace
  | .error .notFound => replace
  | .error error => (.error (.access ⟨path, error⟩), tree)
where
  /-- Writes the text. -/
  replace : Except StoreError Bool × FileTree :=
    let (outcome, left) := tree.store path (.text text)
    ((outcome.mapError .access).map fun _ => true, left)

/-- Saves items to a file, with the standard header on top of the header that is there. A file that
cannot be read stays as it is. -/
def save (tree : FileTree) (path : Path) (language : Option String) (items : Items) :
    Except StoreError Bool × FileTree :=
  match loadHeader tree path with
  | .error error => (.error error, tree)
  | .ok existing => saveText tree path (render ⟨Header.standard language existing, items⟩)

end Catalog

end Localization
