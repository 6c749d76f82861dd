import Localization.Cache
import Localization.Catalog.Files
import Localization.Locale
import Localization.Replacement

/-
**Translating texts with the catalogs of a culture.**

* `Dictionary.load` — the dictionary of a list of catalogs, of which an earlier one goes first.
* `Service` — where dictionaries come from, and what texts become with them; `Service.dictionary` and
  `Service.translate` go through a cache.
* `Translator` — the service of catalogs, with its cache.
-/

namespace Localization

namespace Dictionary

/-- The dictionary with the items of catalogs. A catalog that is not there holds none. -/
def loadMore (tree : FileTree) (dictionary : Dictionary) :
    List Path → Except StoreError Dictionary
  | [] => .ok dictionary
  | path :: rest =>
    match Catalog.load? tree path with
    | .error error => .error error
    | .ok none => loadMore tree dictionary rest
    | .ok (some catalog) => loadMore tree (dictionary.addItems catalog.items) rest

/-- The dictionary of a list of catalogs, of which an earlier one goes first. -/
def load (tree : FileTree) (rules : Plural.Rules) (culture : String) (paths : List Path) :
    Except StoreError Dictionary :=
  loadMore tree (empty culture rules) paths

end Dictionary

/-- The catalogs that cultures are served from. -/
inductive CatalogSource where
  | locale (directory : Locale)
  /-- The same catalogs for every culture. -/
  | fixed (paths : List Path)
  deriving DecidableEq, Repr

/-- The catalogs of a culture. -/
def CatalogSource.paths (source : CatalogSource) (culture : String) : List Path :=
  match source with
  | .locale directory => directory.files culture
  | .fixed paths => paths

/-- Loads the dictionaries of cultures, and makes something of texts with them. -/
structure Service (ρ : Type) where
  load : String → Except StoreError Dictionary
  replace : Dictionary → String → ρ

namespace Service

variable {ρ : Type}

/-- Loads the dictionary of a culture for a cache. -/
def build (service : Service ρ) (culture : String) : BuildResult StoreError Dictionary :=
  match service.load culture with
  | .ok dictionary => .built dictionary
  | .error error => .failed error

/-- The dictionary that a cache answers; one that could not be loaded has no texts. -/
def served (culture : String) : CacheAnswer StoreError Dictionary → Dictionary
  | .stored dictionary => dictionary
  | .fresh (.built dictionary) => dictionary
  | .fresh _ => Dictionary.empty culture .standard

/-- The dictionary of a culture out of a cache, which is asked at one time and has the dictionary loaded
by another. -/
def dictionary (service : Service ρ) (cache : Cache Dictionary) (asked loaded : Nat)
    (culture : String) : Dictionary × Cache Dictionary :=
  let (answer, after) := cache.fetch asked loaded culture fun _ => service.build culture
  (served culture answer, after)

/-- What becomes of a text in a culture, with the dictionary out of a cache. -/
def translate (service : Service ρ) (cache : Cache Dictionary) (asked loaded : Nat)
    (culture text : String) : ρ × Cache Dictionary :=
  let (dictionary, after) := service.dictionary cache asked loaded culture
  (service.replace dictionary text, after)

end Service

/-- Translates texts, and keeps the dictionaries of the cultures that it was asked for. -/
structure Translator where
  source : CatalogSource
  rules : Plural.Rules
  cache : Cache Dictionary
  markup : Markup

namespace Translator

/-- A translator with the standard rules, cache and markup. -/
def ofSource (source : CatalogSource) : Translator :=
  ⟨source, .standard, .empty .standard, .standard⟩

/-- The dictionary of a culture as its catalogs are now. -/
def load (translator : Translator) (tree : FileTree) (culture : String) :
    Except StoreError Dictionary :=
  Dictionary.load tree translator.rules culture (translator.source.paths culture)

/-- The service of the catalogs as they are now. -/
def service (translator : Translator) (tree : FileTree) : Service (Except Overwide String) where
  load := translator.load tree
  replace := translator.markup.replace

/-- The dictionary of a culture at the time `now`. -/
def dictionary (translator : Translator) (tree : FileTree) (now : Nat) (culture : String) :
    Dictionary × Translator :=
  let (dictionary, cache) := (translator.service tree).dictionary translator.cache now now culture
  (dictionary, { translator with cache := cache })

/-- A text with its nuggets in a culture at the time `now`. -/
def translate (translator : Translator) (tree : FileTree) (now : Nat) (culture text : String) :
    Except Overwide String × Translator :=
  let (outcome, cache) := (translator.service tree).translate translator.cache now now culture text
  (outcome, { translator with cache := cache })

/-- The translator that forgets the dictionary of a culture. -/
def invalidate (translator : Translator) (culture : String) : Translator :=
  { translator with cache := translator.cache.invalidate culture }

end Translator

end Localization
