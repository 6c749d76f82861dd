import Localization.Locale.Catalogs
import Localization.Proofs.Dictionary
import Localization.Translator

/-
**The dictionary of the default culture.**

The default culture is served from the template. Loading the template as such leaves out what
translators may have added to it, but the dictionary of the default culture takes this in, as it does
from any catalog. So a text that is localized in the template is shown in the default culture.

* `Dictionary.IsBlank` — a dictionary without texts and forms; `Nugget.resolve_of_isBlank`.
* `Items.Untranslated` — items with nothing that a dictionary takes; `isBlank_ofItems_iff`.
* `isBlank_default_iff` — the dictionary of the default culture, and the items of the template.
-/

namespace Localization

/-! ### Blank dictionaries -/

/-- The dictionary has neither a text nor plural forms for any id. -/
def Dictionary.IsBlank (dictionary : Dictionary) : Prop :=
  ∀ id, dictionary.singular.get? id = none ∧ dictionary.plural.get? id = none

/-- A nugget with its id for a text. -/
def Nugget.original (nugget : Nugget) : Except Overwide String :=
  if nugget.isFormatted then fillIn nugget.id nugget.items else .ok nugget.id

/-- **A nugget shows its id** where there are no texts. -/
theorem Nugget.resolve_of_isBlank {dictionary : Dictionary} (blank : dictionary.IsBlank) (nugget : Nugget) :
    nugget.resolve dictionary = nugget.original := by
  obtain ⟨text, forms⟩ := blank nugget.id
  have unknown : nugget.localized? dictionary = none := by
    unfold localized?
    cases nugget.count? with
    | none => exact text
    | some count =>
      dsimp only
      rw [Dictionary.lookupPlural?, forms]
      exact text
  rw [resolve, unknown]
  rfl

/-! ### Items without texts -/

/-- No item that may be shown has a localized text, or a plural form that is not empty. -/
def Items.Untranslated (items : Items) : Prop :=
  ∀ item ∈ items.values, item.isUsable = true →
    item.localizedText? = none ∧ ∀ form ∈ item.forms, form = ""

instance (items : Items) : Decidable items.Untranslated :=
  inferInstanceAs (Decidable (∀ item ∈ items.values, item.isUsable = true →
    item.localizedText? = none ∧ ∀ form ∈ item.forms, form = ""))

/-- A dictionary takes nothing from an item exactly if this has nothing to be shown. -/
theorem Item.usable_eq_none_iff (item : Item) :
    item.usableText? = none ∧ item.usableForms? = none ↔
      (item.isUsable = true → item.localizedText? = none ∧ ∀ form ∈ item.forms, form = "") := by
  unfold usableText? usableForms?
  cases item.isUsable with
  | false => simp
  | true =>
    have forms : item.hasForms = false ↔ ∀ form ∈ item.forms, form = "" := by
      simp [hasForms]
    rw [if_pos rfl, Bool.true_and, singularText?, Option.or_eq_none_iff]
    simp only [ite_eq_right_iff, reduceCtorEq, imp_false, Bool.not_eq_true, forms, forall_const]
    refine ⟨fun ⟨⟨text, _⟩, empty⟩ => ⟨text, empty⟩, fun ⟨text, empty⟩ => ⟨⟨text, ?_⟩, empty⟩⟩
    cases first : item.forms with
    | nil => rfl
    | cons form rest =>
      rw [first] at empty
      rw [List.head?_cons, empty form List.mem_cons_self]
      rfl

/-- **A dictionary of items is blank exactly if the items are untranslated.** -/
theorem isBlank_ofItems_iff {items : Items} (keyed : items.Keyed) (culture : String)
    (rules : Plural.Rules) : (Dictionary.ofItems culture rules items).IsBlank ↔ items.Untranslated := by
  have table (id : String) : (Dictionary.ofItems culture rules items).singular.get? id = none ∧
      (Dictionary.ofItems culture rules items).plural.get? id = none ↔
        ∀ item, items.get? id = some item → item.usableText? = none ∧ item.usableForms? = none := by
    rw [Dictionary.takes_singular.ofItems keyed culture rules id rfl,
      Dictionary.takes_plural.ofItems keyed culture rules id rfl]
    cases items.get? id <;> simp
  unfold Dictionary.IsBlank Items.Untranslated
  simp only [table, Item.usable_eq_none_iff]
  constructor
  · intro blank item member
    obtain ⟨id, found⟩ := SortedMap.mem_values.mp member
    exact blank id item found
  · intro bare id item found
    exact bare item (SortedMap.mem_values.mpr ⟨id, found⟩)

/-- What a template holds is untranslated. -/
theorem untranslated_asTemplate (items : Items) :
    Items.Untranslated (items.mapValues fun _ item => item.asTemplate) := by
  intro item member _
  obtain ⟨id, found⟩ := SortedMap.mem_values.mp member
  rw [SortedMap.get?_mapValues] at found
  obtain ⟨own, -, rfl⟩ := Option.map_eq_some_iff.mp found
  exact ⟨rfl, List.forall_mem_nil _⟩

/-! ### The default culture -/

namespace Locale

variable {locale : Locale} {tree : FileTree} {culture name text : String} {template : Catalog}

/-- The default culture is served from the template, in whatever spelling it is asked for. -/
theorem files_of_default (default : locale.defaultCulture = some name)
    (spelt : Culture.normalize name = Culture.normalize culture) :
    locale.files culture = [locale.templatePath] := by
  have own : locale.isDefault culture = true := by
    rw [isDefault, default, Option.any_some, decide_eq_true_iff]
    exact spelt
  rw [files, if_pos own]

theorem keyed_of_parse (parsed : Catalog.parse text = .ok template) : template.items.Keyed := by
  obtain ⟨closed, last, -, rfl⟩ := Catalog.reads_of_parseLines parsed
  exact Catalog.keyed_ofEntries _

/-- **The dictionary of the default culture has no texts exactly if the template is untranslated**, and
then every nugget shows its id. The items that are loaded of the template have no texts in any case. -/
theorem isBlank_default_iff (rules : Plural.Rules) (default : locale.defaultCulture = some name)
    (spelt : Culture.normalize name = Culture.normalize culture)
    (read : tree.readText locale.templatePath = .ok text)
    (parsed : Catalog.parse text = .ok template) :
    ∃ dictionary items,
      Dictionary.load tree rules culture (locale.files culture) = .ok dictionary ∧
      locale.loadTemplate tree = .ok items ∧
      (∀ id, items.get? id = (template.items.get? id).map Item.asTemplate) ∧
      (Dictionary.ofItems culture rules items).IsBlank ∧
      (dictionary.IsBlank ↔ template.items.Untranslated) ∧
      (template.items.Untranslated → ∀ nugget : Nugget, nugget.resolve dictionary = nugget.original) := by
  have keyed := keyed_of_parse parsed
  have found : Catalog.load? tree locale.templatePath = .ok (some template) := by
    rw [Catalog.load?, read]
    dsimp only
    rw [parsed]
  have blank := isBlank_ofItems_iff keyed culture rules
  refine ⟨Dictionary.ofItems culture rules template.items,
    template.items.mapValues fun _ item => item.asTemplate, ?_, ?_, ?_, ?_, blank, ?_⟩
  · rw [Dictionary.load, files_of_default default spelt, Dictionary.loadMore, found]
    rfl
  · rw [loadTemplate, found]
    rfl
  · exact fun id => SortedMap.get?_mapValues _ _ id
  · refine (isBlank_ofItems_iff (fun id item there => ?_) culture rules).mpr (untranslated_asTemplate _)
    rw [SortedMap.get?_mapValues] at there
    obtain ⟨own, held, rfl⟩ := Option.map_eq_some_iff.mp there
    exact keyed id own held
  · exact fun bare => Nugget.resolve_of_isBlank (blank.mpr bare)

/-- A locale directory whose sources are written in American English. -/
def american : Locale := ⟨⟨"/locale"⟩, some "en-US"⟩

/-- The locale directory with a template. -/
def templateTree (text : String) : FileTree :=
  ⟨.ofList [(["locale"], .directory), (["locale", templateName], .file (.text text) 0)], [], 1⟩

/-- A template with texts that are not to be shown: an uncertain one and an obsolete one. -/
def hiddenText : String :=
  "#, fuzzy\nmsgid \"cat\"\nmsgstr \"chat\"\n\n#~ msgid \"dog\"\n#~ msgstr \"chien\"\n"

/-- What the template is read as. -/
def hiddenTemplate : Catalog where
  header := .empty
  items := .ofList [
    ("cat", { Item.ofId "cat" with localized := some "chat", fuzzy := true }),
    ("dog", { Item.ofId "dog" with localized := some "chien", obsolete := true })]

theorem isBlank_default_hiddenText :
    american.defaultCulture = some "en-US" ∧ Culture.normalize "en-US" = Culture.normalize "EN_us" ∧
      (templateTree hiddenText).readText american.templatePath = .ok hiddenText ∧
      Catalog.parse hiddenText = .ok hiddenTemplate ∧
      ∃ dictionary, Dictionary.load (templateTree hiddenText) .standard "EN_us" (american.files "EN_us") =
          .ok dictionary ∧
        dictionary.IsBlank ∧ ∀ nugget : Nugget, nugget.resolve dictionary = nugget.original := by
  have spelt : Culture.normalize "en-US" = Culture.normalize "EN_us" := by decide +kernel
  obtain ⟨read, parsed⟩ : (templateTree hiddenText).readText american.templatePath = .ok hiddenText ∧
      Catalog.parse hiddenText = .ok hiddenTemplate := by decide +kernel
  have bare : hiddenTemplate.items.Untranslated := by decide +kernel
  obtain ⟨dictionary, items, loaded, -, -, -, blank, shown⟩ :=
    isBlank_default_iff .standard rfl spelt read parsed
  exact ⟨rfl, spelt, read, parsed, dictionary, loaded, blank.mpr bare, shown bare⟩

/-- A template with a localized text. -/
def localizedText : String := "msgid \"Hello\"\nmsgstr \"Bonjour\"\n"

/-- What the template is read as. -/
def localizedTemplate : Catalog where
  header := .empty
  items := .ofList [("Hello", { Item.ofId "Hello" with localized := some "Bonjour" })]

/-- A text that is localized in the template is shown in the default culture, although it is not among
the items that are loaded of the template. -/
theorem default_shows_localizedText :
    ∃ dictionary,
      Dictionary.load (templateTree localizedText) .standard "EN_us" (american.files "EN_us") =
          .ok dictionary ∧
        dictionary.lookup? "Hello" = some "Bonjour" ∧
        (⟨"Hello", [], none⟩ : Nugget).resolve dictionary = .ok "Bonjour" ∧
        american.loadTemplate (templateTree localizedText) =
          .ok (SortedMap.empty.insert "Hello" (Item.ofId "Hello")) := by
  have listed : american.files "EN_us" = [american.templatePath] := by decide +kernel
  have read : Catalog.load? (templateTree localizedText) american.templatePath =
      .ok (some localizedTemplate) := by decide +kernel
  refine ⟨.ofItems "EN_us" .standard localizedTemplate.items, ?_, ?_, ?_, ?_⟩
  · simp only [listed, Dictionary.load, Dictionary.loadMore, read]
    rfl
  all_goals decide +kernel

end Locale

end Localization
