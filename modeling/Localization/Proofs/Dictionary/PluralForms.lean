import Localization.Proofs.Catalog.Blocks
import Localization.Proofs.Dictionary
import Mathlib.Data.List.Nodup
import Mathlib.Data.List.Perm.Subperm

/-
**Plural forms by the index that a translator wrote.**

The forms of an entry are put in the order of their indexes, and then they lose these. So the form that is
looked up with an index is the one that was written with it, as long as no index is missing below it.

* `inOrder` — forms in the order of their indexes; `index_eq_iff`, which of them stand at their index.
* `Gapless` — below the index of a form with a text every index is written.
* `getElem?_inOrder_iff` — exactly then the texts stand at their indexes.
* `Catalog.Pluralizes` — a block alone says the plural forms of an id.
* `Dictionary.lookupPlural?_written_iff` — what is looked up is what was written, exactly if the id is not
  empty and its forms have no gap.
-/

namespace Localization

namespace Catalog

/-! ### Forms in the order of their indexes -/

section Order

variable {forms : List (Nat × String)} {form : Nat × String} {index place : Nat}

/-- Forms in the order of their indexes. -/
def inOrder (forms : List (Nat × String)) : List (Nat × String) :=
  forms.mergeSort fun first second => first.1 ≤ second.1

theorem perm_inOrder (forms : List (Nat × String)) : (inOrder forms).Perm forms :=
  List.mergeSort_perm forms _

/-- Forms with different indexes are strictly in order. -/
theorem pairwise_inOrder (once : (forms.map (·.1)).Nodup) :
    (inOrder forms).Pairwise fun first second => first.1 < second.1 := by
  have sorted : (inOrder forms).Pairwise fun first second => decide (first.1 ≤ second.1) = true :=
    List.pairwise_mergeSort (fun first second third => by simpa using Nat.le_trans)
      (fun first second => by simpa using Nat.le_total first.1 second.1) forms
  have distinct : (inOrder forms).Pairwise fun first second => first.1 ≠ second.1 :=
    List.pairwise_map.mp (((perm_inOrder forms).map Prod.fst).nodup_iff.mpr once)
  exact sorted.imp₂ (fun first second below other =>
    Nat.lt_of_le_of_ne (of_decide_eq_true below) other) distinct

/-- Before a form stand the forms of smaller indexes. -/
theorem exists_before (once : (forms.map (·.1)).Nodup) (stands : (inOrder forms)[place]? = some form) :
    ∃ before : List Nat, before.length = place ∧ before.Nodup ∧
      ∀ index, index ∈ before ↔ index < form.1 ∧ index ∈ forms.map (·.1) := by
  obtain ⟨before, after, split, rfl⟩ :
      ∃ before after, inOrder forms = before ++ form :: after ∧ before.length = place := by
    obtain ⟨inside, rfl⟩ := List.getElem?_eq_some_iff.mp stands
    refine ⟨(inOrder forms).take place, (inOrder forms).drop (place + 1), ?_, ?_⟩
    · rw [← List.drop_eq_getElem_cons, List.take_append_drop]
    · rw [List.length_take]
      omega
  have same := (perm_inOrder forms).symm.map Prod.fst
  rw [split, List.map_append, List.map_cons] at same
  have ordered := pairwise_inOrder once
  rw [split, List.pairwise_append] at ordered
  obtain ⟨-, above, below⟩ := ordered
  refine ⟨before.map (·.1), List.length_map _, ?_, fun index => ?_⟩
  · exact (same.nodup_iff.mp once).sublist (List.sublist_append_left _ _)
  · have smaller : ∀ index ∈ before.map (·.1), index < form.1 := by
      intro index member
      obtain ⟨other, inside, rfl⟩ := List.mem_map.mp member
      exact below other inside form List.mem_cons_self
    have greater : ∀ index ∈ after.map (·.1), form.1 < index := by
      intro index member
      obtain ⟨other, inside, rfl⟩ := List.mem_map.mp member
      exact (List.pairwise_cons.mp above).1 other inside
    rw [same.mem_iff, List.mem_append, List.mem_cons]
    constructor
    · exact fun member => ⟨smaller index member, .inl member⟩
    · rintro ⟨less, early | here | late⟩
      · exact early
      · omega
      · have more := greater index late
        omega

/-- **A form stands at its index exactly if every index below is written.** No form stands behind its
index. -/
theorem index_eq_iff (once : (forms.map (·.1)).Nodup) (stands : (inOrder forms)[place]? = some form) :
    place ≤ form.1 ∧ (form.1 = place ↔ ∀ index < form.1, index ∈ forms.map (·.1)) := by
  obtain ⟨before, rfl, distinct, smaller⟩ := exists_before once stands
  have inside : before.Subperm (List.range form.1) :=
    List.subperm_of_subset distinct fun index member => List.mem_range.mpr ((smaller index).mp member).1
  have length := List.length_range (n := form.1)
  refine ⟨length ▸ inside.length_le, fun same index below => ?_, fun written => ?_⟩
  · have all := inside.perm_of_length_le (Nat.le_of_eq (length.trans same))
    exact ((smaller index).mp (all.mem_iff.mpr (List.mem_range.mpr below))).2
  · have contained : (List.range form.1).Subperm before :=
      List.subperm_of_subset List.nodup_range fun index member =>
        (smaller index).mpr ⟨List.mem_range.mp member, written index (List.mem_range.mp member)⟩
    have most := inside.length_le
    have least := contained.length_le
    omega

/-- Below the index of a form with a text every index is written. -/
def Gapless (forms : List (Nat × String)) : Prop :=
  ∀ form ∈ forms, form.2 ≠ "" → ∀ index < form.1, index ∈ forms.map (·.1)

instance : DecidablePred Gapless :=
  fun forms => inferInstanceAs (Decidable (∀ form ∈ forms, form.2 ≠ "" → ∀ index < form.1, _))

theorem lookup_eq_some_iff (once : (forms.map (·.1)).Nodup) {text : String} :
    forms.lookup index = some text ↔ (index, text) ∈ forms := by
  rw [List.lookup_eq_some_iff]
  constructor
  · rintro ⟨before, after, rfl, -⟩
    simp
  · intro member
    obtain ⟨before, after, rfl⟩ := List.append_of_mem member
    refine ⟨before, after, rfl, fun other inside => ?_⟩
    rw [List.map_append, List.nodup_append] at once
    have apart := once.2.2 other.1 (List.mem_map_of_mem inside) index List.mem_cons_self
    simpa using Ne.symm apart

/-- Where every text stands at its index none stands before its index: there the last such text would be
missing. -/
theorem index_eq_of_kept (once : (forms.map (·.1)).Nodup)
    (kept : ∀ index text, text ≠ "" → (index, text) ∈ forms →
      ∃ other, (inOrder forms)[index]? = some (other, text))
    (stands : (inOrder forms)[place]? = some form) (filled : form.2 ≠ "") : form.1 = place := by
  -- Each text that stands too early has another one behind it that does, so the induction is on what is
  -- left of the list.
  induction left : (inOrder forms).length - place using Nat.strongRecOn generalizing place form with
  | ind left ih =>
    by_contra early
    have ahead : place < form.1 := Nat.lt_of_le_of_ne (index_eq_iff once stands).1 (Ne.symm early)
    have member : form ∈ forms := (perm_inOrder forms).mem_iff.mp (List.mem_of_getElem? stands)
    obtain ⟨other, later⟩ := kept form.1 form.2 filled member
    have inside := (List.getElem?_eq_some_iff.mp later).1
    have same : other = form.1 := ih _ (by omega) later filled rfl
    subst same
    have distinct := ((perm_inOrder forms).nodup_iff.mpr (List.Nodup.of_map _ once))
    exact early ((List.getElem?_inj inside distinct).mp (later.trans stands.symm))

/-- **The texts stand at their indexes exactly if the forms have no gap.** -/
theorem getElem?_inOrder_iff (once : (forms.map (·.1)).Nodup) :
    (∀ index : Nat, ((inOrder forms)[index]?.map (·.2)).filter (· ≠ "") =
      (forms.lookup index).filter (· ≠ "")) ↔ Gapless forms := by
  have shown : ∀ (index : Nat) text, ((inOrder forms)[index]?.map (·.2)).filter (· ≠ "") = some text ↔
      text ≠ "" ∧ ∃ other, (inOrder forms)[index]? = some (other, text) := by
    intro index text
    rw [Option.filter_eq_some_iff, Option.map_eq_some_iff, decide_eq_true_iff, and_comm]
    simp
  have written : ∀ index text, (forms.lookup index).filter (· ≠ "") = some text ↔
      text ≠ "" ∧ (index, text) ∈ forms := by
    intro index text
    rw [Option.filter_eq_some_iff, lookup_eq_some_iff once, decide_eq_true_iff, and_comm]
  constructor
  · intro same form member filled
    obtain ⟨place, stands⟩ := List.getElem?_of_mem ((perm_inOrder forms).mem_iff.mpr member)
    refine (index_eq_iff once stands).2.mp (index_eq_of_kept once ?_ stands filled)
    intro index text solid inside
    exact ((shown index text).mp ((same index).trans ((written index text).mpr ⟨solid, inside⟩))).2
  · intro gapless index
    refine Option.ext fun text => ?_
    rw [shown, written]
    refine and_congr_right fun solid => ⟨?_, fun member => ?_⟩
    · rintro ⟨other, stands⟩
      have member := (perm_inOrder forms).mem_iff.mp (List.mem_of_getElem? stands)
      obtain rfl := (index_eq_iff once stands).2.mpr (gapless _ member solid)
      exact member
    · obtain ⟨place, stands⟩ := List.getElem?_of_mem ((perm_inOrder forms).mem_iff.mpr member)
      obtain rfl := (index_eq_iff once stands).2.mpr (gapless _ member solid)
      exact ⟨index, stands⟩

end Order

/-! ### Plural forms of an id -/

/-- In a file one block alone names the id. It is neither obsolete nor fuzzy, and of its plural forms,
one for an index, some have texts. -/
structure Pluralizes (text id : String) (block : List Line) : Prop where
  lone : (blocks text).filter (Names id) = [block]
  live : block.any (·.isObsolete) = false
  sure : block.any (·.isFuzzy) = false
  filled : ∃ form ∈ formTexts block, form.2 ≠ ""
  once : ((formTexts block).map (·.1)).Nodup

/-- The item of a block that says plural forms has them in the order of their indexes. -/
theorem Describes.usableForms {block : List Line} {entry : Entry} (describes : Describes block entry)
    {text id : String} (pluralizes : Pluralizes text id block) :
    (entry.item id).usableForms? = some ((inOrder (formTexts block)).map (·.2)) := by
  have forms : (entry.item id).forms = (inOrder (formTexts block)).map (·.2) := by
    rw [← describes.forms pluralizes.once]
    rfl
  have usable : (entry.item id).isUsable = true := by
    have live : entry.obsolete = false := describes.obsolete.trans pluralizes.live
    have sure : entry.fuzzy = false := describes.fuzzy.trans pluralizes.sure
    simp [Item.isUsable, Entry.item, live, sure]
  have some : (entry.item id).hasForms = true := by
    obtain ⟨form, member, filled⟩ := pluralizes.filled
    rw [Item.hasForms, forms, List.any_eq_true]
    exact ⟨form.2, List.mem_map_of_mem ((perm_inOrder _).mem_iff.mpr member), by simpa using filled⟩
  rw [Item.usableForms?, usable, some, forms]
  rfl

end Catalog

namespace Dictionary

open Catalog

variable {text id : String} {catalog : Catalog} {block : List Line}

/-- What is looked up of a file is the form at the place of the index. -/
theorem lookupPlural?_of_parse (parsed : parse text = .ok catalog) (pluralizes : Pluralizes text id block)
    (culture : String) (rules : Plural.Rules) (count : Int) :
    (ofItems culture rules catalog.items).lookupPlural? id count =
      if id = "" then none
      else ((inOrder (formTexts block))[rules.form culture count]?.map (·.2)).filter (· ≠ "") := by
  obtain ⟨entry, describes, found⟩ := get?_of_lone parsed pluralizes.lone
  have keyed : catalog.items.Keyed := by
    obtain ⟨closed, last, -, rfl⟩ := reads_of_parseLines parsed
    exact keyed_ofEntries _
  rw [lookupPlural?_ofItems keyed, found]
  by_cases empty : id = ""
  · rw [if_pos empty, if_pos empty]
    rfl
  · rw [if_neg empty, if_neg empty, Option.bind_some, describes.usableForms pluralizes]
    exact congrArg (Option.filter _) (List.getElem?_map ..)

/-- **What is looked up for a count is the text behind the keyword of its form, whatever the culture and
the rules, exactly if the id is not empty and the forms have no gap.** -/
theorem lookupPlural?_written_iff (parsed : parse text = .ok catalog)
    (pluralizes : Pluralizes text id block) :
    (∀ culture rules count, (ofItems culture rules catalog.items).lookupPlural? id count =
      (textOf (.form (rules.form culture count)) block).filter (· ≠ "")) ↔
        id ≠ "" ∧ Gapless (formTexts block) := by
  have once := pluralizes.once
  simp only [lookupPlural?_of_parse parsed pluralizes, textOf_form]
  constructor
  · intro same
    -- Rules that always give one form reach every index.
    have every : ∀ index, (if id = "" then none
        else ((inOrder (formTexts block))[index]?.map (·.2)).filter (· ≠ "")) =
          ((formTexts block).lookup index).filter (· ≠ "") :=
      fun index => same "en" ⟨[.fixed [("en", index)]]⟩ 0
    have solid : id ≠ "" := by
      rintro rfl
      obtain ⟨form, member, filled⟩ := pluralizes.filled
      have missing := every form.1
      rw [if_pos rfl, (lookup_eq_some_iff once).mpr member, Option.filter_some] at missing
      simp [filled] at missing
    simp only [if_neg solid] at every
    exact ⟨solid, (getElem?_inOrder_iff once).mp every⟩
  · rintro ⟨solid, gapless⟩ culture rules count
    rw [if_neg solid]
    exact (getElem?_inOrder_iff once).mpr gapless _

/-- A file whose forms come out of order, one of them on two lines. -/
def shuffledText : String :=
  "msgid \"cat\"\nmsgid_plural \"cats\"\nmsgstr[1] \"cha\"\n\"ts\"\nmsgstr[0] \"chat\"\n"

/-- What the lines of the file say. -/
def shuffledBlock : List Line := [
  .keyword false .id "cat", .keyword false .pluralId "cats", .keyword false (.form 1) "cha", .more "ts",
  .keyword false (.form 0) "chat"]

theorem pluralizes_shuffledText : Pluralizes shuffledText "cat" shuffledBlock where
  lone := by decide +kernel
  live := by decide
  sure := by decide
  filled := ⟨(0, "chat"), by decide +kernel, by decide⟩
  once := by decide +kernel

theorem lookupPlural?_written_shuffledText :
    Pluralizes shuffledText "cat" shuffledBlock ∧ ∃ catalog, parse shuffledText = .ok catalog ∧
      ∀ culture rules count, (ofItems culture rules catalog.items).lookupPlural? "cat" count =
        (textOf (.form (rules.form culture count)) shuffledBlock).filter (· ≠ "") := by
  have readable : (parse shuffledText).toOption.isSome = true := by decide +kernel
  have gapless : Gapless (formTexts shuffledBlock) := by decide +kernel
  refine ⟨pluralizes_shuffledText, ?_⟩
  cases parsed : parse shuffledText with
  | error error =>
    rw [parsed] at readable
    cases readable
  | ok catalog =>
    exact ⟨catalog, rfl,
      (lookupPlural?_written_iff parsed pluralizes_shuffledText).mpr ⟨by decide, gapless⟩⟩

/-- A file with the second form only. -/
def gapText : String := "msgid \"cat\"\nmsgid_plural \"cats\"\nmsgstr[1] \"chats\"\n"

/-- What the lines of the file say. -/
def gapBlock : List Line := [
  .keyword false .id "cat", .keyword false .pluralId "cats", .keyword false (.form 1) "chats"]

/-- What the file is read as. -/
def gapFile : Catalog where
  header := .empty
  items := .ofList [("cat", { Item.ofId "cat" with plural := some "cats", forms := ["chats"] })]

theorem pluralizes_gapText : Pluralizes gapText "cat" gapBlock where
  lone := by decide +kernel
  live := by decide
  sure := by decide
  filled := ⟨(1, "chats"), by decide +kernel, by decide⟩
  once := by decide +kernel

/-- The form of the count two is written, and the form of one is not; they are shown the other way
round. -/
theorem lookupPlural?_shifts_gapText :
    parse gapText = .ok gapFile ∧ Pluralizes gapText "cat" gapBlock ∧
      Plural.Rules.standard.form "en" 1 = 0 ∧ Plural.Rules.standard.form "en" 2 = 1 ∧
      textOf (.form 0) gapBlock = none ∧ textOf (.form 1) gapBlock = some "chats" ∧
      (ofItems "en" .standard gapFile.items).lookupPlural? "cat" 1 = some "chats" ∧
      (ofItems "en" .standard gapFile.items).lookupPlural? "cat" 2 = none := by
  refine ⟨by decide +kernel, pluralizes_gapText, ?_, ?_, ?_, ?_, ?_, ?_⟩
  all_goals decide +kernel

end Dictionary

end Localization
