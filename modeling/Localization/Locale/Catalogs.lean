import Localization.Catalog.Files
import Localization.Locale

/-
**The catalogs in a locale directory.**

* `Locale.loadTemplate`, `Locale.saveTemplate` — the template, which holds no localized texts.
* `Locale.loadLanguage`, `Locale.saveLanguage` — the catalog of a culture.
* `Locale.languages` — the cultures that have a catalog.
-/

namespace Localization

namespace Locale

/-- Items that are in use, as a template holds them. -/
def templateItems (items : Items) : Items :=
  .ofList ((items.values.filter (!·.obsolete)).map fun item => (item.id, item.asTemplate))

/-- The items of the template, of which there are none if there is no template. -/
def loadTemplate (locale : Locale) (tree : FileTree) : Except StoreError Items :=
  (Catalog.load? tree locale.templatePath).map fun catalog? =>
    (catalog?.getD .empty).items.mapValues fun _ item => item.asTemplate

/-- Saves items as the template, and says whether the file changed. -/
def saveTemplate (locale : Locale) (tree : FileTree) (items : Items) :
    Except StoreError Bool × FileTree :=
  Catalog.save tree locale.templatePath none (templateItems items)

/-- The items of a culture, of which there are none if it has no catalog. -/
def loadLanguage (locale : Locale) (tree : FileTree) (culture : String) :
    Except StoreError Items :=
  (Catalog.load? tree (locale.languagePath culture)).map fun catalog? =>
    (catalog?.getD .empty).items

/-- Saves the items of a culture, and says whether the file changed. -/
def saveLanguage (locale : Locale) (tree : FileTree) (culture : String) (items : Items) :
    Except StoreError Bool × FileTree :=
  Catalog.save tree (locale.languagePath culture) (some culture) items

/-- A culture has a catalog. -/
def hasLanguage (locale : Locale) (tree : FileTree) (culture : String) : Bool :=
  tree.isFile (locale.languagePath culture)

/-- The cultures that have a catalog, in order. -/
def languages (locale : Locale) (tree : FileTree) : Except StoreError (List String) :=
  match tree.list locale.directory with
  | .error .notFound => .ok []
  | .error error => .error (.access ⟨locale.directory, error⟩)
  | .ok names => .ok (SortedSet.ofList (names.filter (locale.hasLanguage tree))).keys

end Locale

end Localization
