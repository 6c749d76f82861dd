import Localization.Catalog.Merge
import Localization.Locale.Catalogs

/-
**Merging all languages with a template.**

* `Locale.mergeLanguage` — merges the catalog of one culture.
* `Locale.mergeAll` — merges every culture; one that fails does not keep the others from it.
-/

namespace Localization

/-- What a merge did to the catalog of a culture. -/
structure LanguageSummary where
  culture : String
  /-- How many items are new. -/
  added : Nat
  /-- How many items became obsolete. -/
  obsoleted : Nat
  /-- The file changed. -/
  written : Bool
  deriving DecidableEq, Repr

/-- What a merge did to all catalogs. -/
structure MergeReport where
  languages : List LanguageSummary
  /-- The cultures that failed. The name is empty if the cultures could not be listed. -/
  failures : List (String × StoreError)
  deriving DecidableEq

namespace MergeReport

/-- The report of a merge of nothing. -/
def empty : MergeReport := ⟨[], []⟩

/-- No culture failed. -/
def isSuccess (report : MergeReport) : Bool := report.failures.isEmpty

/-- The report with the outcome of a culture in front. -/
def add (culture : String) (outcome : Except StoreError LanguageSummary) (report : MergeReport) :
    MergeReport :=
  match outcome with
  | .ok summary => { report with languages := summary :: report.languages }
  | .error error => { report with failures := (culture, error) :: report.failures }

end MergeReport

namespace Locale

/-- The cultures to merge: those that have a catalog and those that shall get one, in order. -/
def cultures (locale : Locale) (tree : FileTree) (configured : List String) :
    Except StoreError (List String) :=
  (locale.languages tree).map fun languages => (SortedSet.ofList (languages ++ configured)).keys

/-- Merges the catalog of a culture with a template. -/
def mergeLanguage (locale : Locale) (template : Items) (tree : FileTree) (culture : String) :
    Except StoreError LanguageSummary × FileTree :=
  match locale.loadLanguage tree culture with
  | .error error => (.error error, tree)
  | .ok existing =>
    let merged := Items.merge existing template
    let (outcome, left) := locale.saveLanguage tree culture merged.items
    (outcome.map fun written =>
      ⟨culture, merged.added.length, merged.obsoleted.length, written⟩, left)

/-- Merges the catalogs of cultures, one after the other. -/
def mergeEach (locale : Locale) (template : Items) (tree : FileTree) :
    List String → MergeReport × FileTree
  | [] => (.empty, tree)
  | culture :: rest =>
    let (outcome, left) := locale.mergeLanguage template tree culture
    let (report, last) := mergeEach locale template left rest
    (report.add culture outcome, last)

/-- Merges the catalogs of all cultures with a template. -/
def mergeAll (locale : Locale) (configured : List String) (template : Items) (tree : FileTree) :
    MergeReport × FileTree :=
  match locale.cultures tree configured with
  | .error error => ({ MergeReport.empty with failures := [("", error)] }, tree)
  | .ok cultures => locale.mergeEach template tree cultures

end Locale

end Localization
