import Localization.Proofs.Catalog.Templates
import Localization.Proofs.Scanning.Lines
import Localization.Scan.Sources

/-
**What a scan of sources makes of them.**

* `Mention.Of` — what a mention takes from its source.
* `Items.scanned_ofMentions` — the items of mentions are as a template holds them.
* `SourceScanner.scanned_scan`, `SourceScanner.clean_of_mentions` — so are those of a scan, and only
  the comments of nuggets can have several lines.
-/

namespace Localization

open Text

/-! ### Lines -/

theorem newline_not_mem_takeWhile (text : List Char) : '\n' ∉ text.takeWhile (· ≠ '\n') := by
  intro member
  have all := List.all_takeWhile (p := fun c : Char => decide (c ≠ '\n')) (l := text)
  have same := List.all_eq_true.mp all '\n' member
  simp at same

/-- The line of an offset is one line. -/
theorem newline_not_mem_lineAround (text : List Char) (target : Nat) :
    '\n' ∉ lineAround text target := by
  intro member
  unfold lineAround at member
  rcases List.mem_append.mp (mem_of_mem_trim member) with before | after
  · exact newline_not_mem_takeWhile _ (List.mem_reverse.mp before)
  · exact newline_not_mem_takeWhile _ after

theorem newline_not_mem_text {reference : Reference} (clean : '\n' ∉ reference.path.toList) :
    '\n' ∉ reference.text.toList := by
  rw [Reference.text, String.toList_ofList, Reference.chars, List.mem_append]
  rintro (path | line)
  · exact clean path
  · exact absurd (Reference.not_isBlank_of_mem_line line) (by decide)

/-! ### Mentions -/

/-- What a mention takes from a source of a name and a text. -/
structure Mention.Of (name : String) (text : List Char) (mention : Mention) : Prop where
  id : mention.id ≠ ""
  path : mention.reference.path = name
  line : mention.reference.line ≤ text.length + 1
  context : '\n' ∉ name.toList → ∀ context ∈ mention.context, '\n' ∉ context.toList

/-- A nugget that a source has no mistake in has an id. -/
theorem id_of_mem_parse {markup : Markup} {text : String} {occurrence : Occurrence}
    (member : .ok occurrence ∈ markup.parse .source text) : occurrence.nugget.id ≠ "" := by
  unfold Markup.parse at member
  obtain ⟨⟨capture, span⟩, -, made⟩ := List.mem_map.mp member
  dsimp only at made
  cases problem : capture.problem? span with
  | some error =>
    rw [problem] at made
    cases made
  | none =>
    rw [problem] at made
    cases made
    unfold Capture.problem? at problem
    split at problem
    · cases problem
    · rename_i solid
      intro empty
      refine solid ?_
      rw [List.isEmpty_iff, ← String.toList_ofList (l := capture.id)]
      exact String.toList_eq_nil_iff.mpr empty

namespace SourceScanner

variable {scanner : SourceScanner} {text : List Char} {counter : LineCounter}

/-- The finding of a nugget or of a mistake, and where it leaves the counter. -/
theorem of_mem_finding (scanner : SourceScanner) (name : String) (counts : counter.Counts text)
    (result : Except NuggetError Occurrence)
    (solid : ∀ occurrence, result = .ok occurrence → occurrence.nugget.id ≠ "") :
    (scanner.finding name text counter result).2.Counts text ∧
      ∀ mention ∈ (scanner.finding name text counter result).1.mentions, mention.Of name text := by
  cases result with
  | error error => exact ⟨(counts.moveTo _).1, fun mention member => nomatch member⟩
  | ok occurrence =>
    obtain ⟨moved, line⟩ := counts.moveTo occurrence.span.start
    refine ⟨moved, fun mention member => ?_⟩
    rw [List.mem_singleton.mp member]
    refine ⟨solid occurrence rfl, rfl, line ▸ lineNumber_le text _, fun clean context there => ?_⟩
    dsimp only at there
    split at there
    · rw [← Option.some.inj there, String.toList_append, String.toList_append, String.toList_ofList]
      rw [List.mem_append, List.mem_append]
      rintro ((place | separator) | line)
      · exact newline_not_mem_text clean place
      · revert separator
        decide
      · rw [String.toList_ofList] at line
        exact newline_not_mem_lineAround text _ line
    · cases there

theorem of_mem_findings (scanner : SourceScanner) (name : String) (counts : counter.Counts text)
    {results : List (Except NuggetError Occurrence)}
    (solid : ∀ occurrence, .ok occurrence ∈ results → occurrence.nugget.id ≠ "") :
    ∀ mention ∈ (scanner.findings name text counter results).mentions, mention.Of name text := by
  induction results generalizing counter with
  | nil => exact fun mention member => nomatch member
  | cons result rest ih =>
    have first := of_mem_finding scanner name counts result fun occurrence same =>
      solid occurrence (same ▸ List.mem_cons_self)
    intro mention member
    rcases List.mem_append.mp member with here | later
    · exact first.2 mention here
    · exact ih first.1 (fun occurrence inside => solid occurrence (List.mem_cons_of_mem result inside))
        mention later

/-- What is mentioned in a source that can be read. -/
theorem of_mem_scanFile {tree : FileTree} {path : Path} {mention : Mention}
    (member : mention ∈ (scanner.scanFile tree path).mentions) :
    ∃ text, tree.readText path = .ok text ∧
      mention.Of (scanner.filter.reference path) text.toList := by
  unfold scanFile at member
  split at member
  · rename_i text read
    exact ⟨text, read, of_mem_findings scanner _ (LineCounter.counts_start text.toList)
      (fun occurrence => id_of_mem_parse) mention member⟩
  · cases member

theorem mem_foldr_append {found : List Findings} {mention : Mention} :
    mention ∈ (found.foldr Findings.append .none).mentions ↔
      ∃ findings ∈ found, mention ∈ findings.mentions := by
  induction found with
  | nil => simp [Findings.none]
  | cons first rest ih =>
    rw [List.foldr_cons, Findings.append, List.mem_append, ih]
    simp

/-- The parts of a list hold elements of the list. -/
theorem mem_of_mem_portions {α : Type} {size : Nat} {elements : List α} {part : List α}
    (cut : part ∈ portions size elements) {element : α} (member : element ∈ part) :
    element ∈ elements := by
  fun_induction portions size elements with
  | case1 => cases cut
  | case2 first rest ih =>
    rcases List.mem_cons.mp cut with rfl | later
    · rcases List.mem_cons.mp member with rfl | inside
      · exact List.mem_cons_self
      · exact List.mem_cons_of_mem first (List.mem_of_mem_take inside)
    · exact List.mem_cons_of_mem first (List.mem_of_mem_drop (ih later))

/-- What a scan mentions is mentioned in one of its sources. -/
theorem of_mem_scanShared {tree : FileTree} {paths : List Path} {mention : Mention}
    (member : mention ∈ (scanner.scanShared tree paths).mentions) :
    ∃ path ∈ paths, mention ∈ (scanner.scanFile tree path).mentions := by
  obtain ⟨findings, inside, there⟩ := mem_foldr_append.mp member
  obtain ⟨share, cut, rfl⟩ := List.mem_map.mp inside
  obtain ⟨file, within, here⟩ := mem_foldr_append.mp there
  obtain ⟨path, named, rfl⟩ := List.mem_map.mp within
  exact ⟨path, mem_of_mem_portions cut named, here⟩

end SourceScanner

/-! ### Items of mentions -/

namespace Item

theorem mem_insertText {text other : String} {texts : List String} :
    other ∈ insertText text texts ↔ other = text ∨ other ∈ texts := by
  induction texts with
  | nil => simp [insertText]
  | cons first rest ih =>
    rw [insertText]
    split
    · rw [List.mem_cons, ih, List.mem_cons, or_left_comm]
    · split
      · rename_i same
        subst same
        simp
      · rw [List.mem_cons]

theorem mem_foldl_insertText {added texts : List String} {other : String} :
    other ∈ added.foldl (fun texts text => insertText text texts) texts ↔
      other ∈ added ∨ other ∈ texts := by
  induction added generalizing texts with
  | nil => simp
  | cons text rest ih => rw [List.foldl_cons, ih, mem_insertText, List.mem_cons, or_assoc, or_left_comm]

/-- The comments of an item with one more mention are those of the item and the mention. -/
theorem mem_extracted_addMention {item : Item} {mention : Mention} {comment : String}
    (member : comment ∈ (item.addMention mention).extracted) :
    comment ∈ mention.comment.toList ++ mention.context.toList ∨ comment ∈ item.extracted :=
  mem_foldl_insertText.mp member

end Item

/-- A mention that a template can hold. -/
structure Mention.Sound (mention : Mention) : Prop where
  id : mention.id ≠ ""
  path : Catalog.IsPath mention.reference.path
  line : mention.reference.line ≤ Decimal.wordMax

/-- An item with a mention that a template can hold is as a template holds it, if it was before or
is new. -/
theorem Catalog.Scanned.addMention {item : Item} {mention : Mention} (sound : mention.Sound)
    (before : item = .ofId mention.id ∨ item.id = mention.id ∧ Scanned item) :
    (item.addMention mention).id = mention.id ∧ Scanned (item.addMention mention) := by
  have base : item.id = mention.id ∧ item.asTemplate = item ∧ item.plural = none ∧
      ∀ place ∈ item.references.keys, IsPath place.path ∧ place.line ≤ Decimal.wordMax := by
    rcases before with rfl | ⟨same, scanned⟩
    · refine ⟨rfl, rfl, rfl, fun place old => ?_⟩
      cases old
    · exact ⟨same, scanned.untouched, scanned.single, fun place old =>
        ⟨scanned.paths place old, scanned.fits place old⟩⟩
  obtain ⟨named, untouched, single, known⟩ := base
  have places : ∀ place ∈ (item.addMention mention).references.keys,
      IsPath place.path ∧ place.line ≤ Decimal.wordMax := by
    intro place member
    rcases SortedMap.mem_keys_insert.mp member with rfl | old
    · exact ⟨sound.path, sound.line⟩
    · exact known place old
  refine ⟨named, ?_, ?_, single, ?_, fun place member => (places place member).1,
    fun place member => (places place member).2⟩
  · show item.id ≠ ""
    rw [named]
    exact sound.id
  · rw [← untouched]
    rfl
  · exact List.ne_nil_of_mem (SortedMap.mem_keys_insert.mpr (.inl rfl))

namespace Items

theorem get?_addMention (items : Items) (mention : Mention) (id : String) :
    (items.addMention mention).get? id =
      if id = mention.id then
        some (((items.get? mention.id).getD (.ofId mention.id)).addMention mention)
      else items.get? id :=
  SortedMap.get?_insert items _ _ _

/-- What mentions give to an item holds of all items, if it holds of those that were there. -/
theorem forall_foldl_addMention {P : String → Item → Prop} {mentions : List Mention} {items : Items}
    (step : ∀ mention ∈ mentions, ∀ item, item = .ofId mention.id ∨ P mention.id item →
      P mention.id (item.addMention mention))
    (before : ∀ id item, items.get? id = some item → P id item) :
    ∀ id item, (mentions.foldl addMention items).get? id = some item → P id item := by
  induction mentions generalizing items with
  | nil => exact before
  | cons mention rest ih =>
    refine ih (fun other inside => step other (List.mem_cons_of_mem mention inside)) ?_
    intro id item found
    rw [get?_addMention] at found
    split at found
    · rename_i same
      subst same
      rw [← Option.some.inj found]
      refine step mention List.mem_cons_self _ ?_
      cases known : items.get? mention.id with
      | none => exact .inl rfl
      | some old => exact .inr (before _ old known)
    · exact before id item found

/-- What mentions give to an item holds of all items of mentions. -/
theorem forall_ofMentions {P : String → Item → Prop} {mentions : List Mention}
    (step : ∀ mention ∈ mentions, ∀ item, item = .ofId mention.id ∨ P mention.id item →
      P mention.id (item.addMention mention)) :
    ∀ id item, (ofMentions mentions).get? id = some item → P id item :=
  forall_foldl_addMention step nofun

/-- **Every item of mentions that a template can hold is as a template holds it.** -/
theorem scanned_ofMentions {mentions : List Mention} (sound : ∀ mention ∈ mentions, mention.Sound) :
    (ofMentions mentions).Keyed ∧ ∀ item ∈ (ofMentions mentions).values, Catalog.Scanned item := by
  have all : ∀ id item, (ofMentions mentions).get? id = some item →
      item.id = id ∧ Catalog.Scanned item :=
    forall_ofMentions fun mention member item before =>
      Catalog.Scanned.addMention (sound mention member) before
  refine ⟨fun id item found => (all id item found).1, fun item member => ?_⟩
  obtain ⟨id, found⟩ := SortedMap.mem_values.mp member
  exact (all id item found).2

/-- Every comment of an item comes from a mention. -/
theorem exists_mention_of_comment {mentions : List Mention} {item : Item}
    (inside : item ∈ (ofMentions mentions).values) {comment : String}
    (member : comment ∈ item.extracted) :
    ∃ mention ∈ mentions, comment ∈ mention.comment.toList ++ mention.context.toList := by
  have all : ∀ id item, (ofMentions mentions).get? id = some item → ∀ comment ∈ item.extracted,
      ∃ mention ∈ mentions, comment ∈ mention.comment.toList ++ mention.context.toList := by
    refine forall_ofMentions fun mention given item before comment there => ?_
    rcases Item.mem_extracted_addMention there with here | old
    · exact ⟨mention, given, here⟩
    · rcases before with rfl | known
      · cases old
      · exact known comment old
  obtain ⟨id, found⟩ := SortedMap.mem_values.mp inside
  exact all id item found comment member

end Items

/-! ### Scans -/

namespace SourceScanner

/-- The sources have names that references can hold, and fewer characters than there are machine
words, so that the number of a line is one. -/
structure SoundSources (scanner : SourceScanner) (tree : FileTree) : Prop where
  names : ∀ path ∈ scanner.sources tree, Catalog.IsPath (scanner.filter.reference path)
  sizes : ∀ path ∈ scanner.sources tree, ∀ text, tree.readText path = .ok text →
    text.toList.length < Decimal.wordMax

instance (scanner : SourceScanner) (tree : FileTree) : Decidable (scanner.SoundSources tree) :=
  decidable_of_iff (∀ path ∈ scanner.sources tree, Catalog.IsPath (scanner.filter.reference path) ∧
      ∀ text ∈ (tree.readText path).toOption, text.toList.length < Decimal.wordMax)
    ⟨fun all => ⟨fun path source => (all path source).1, fun path source text read =>
        (all path source).2 text (by rw [read]; rfl)⟩,
      fun sound path source => ⟨sound.names path source, fun text member =>
        sound.sizes path source text (eq_ok_of_mem_toOption member)⟩⟩

variable {scanner : SourceScanner} {tree : FileTree}

/-- What a scan mentions is mentioned in the text of one of its sources. -/
theorem of_mem_mentions {mention : Mention}
    (member : mention ∈ (scanner.scanShared tree (scanner.sources tree)).mentions) :
    ∃ path ∈ scanner.sources tree, ∃ text, tree.readText path = .ok text ∧
      mention.Of (scanner.filter.reference path) text.toList := by
  obtain ⟨path, source, here⟩ := of_mem_scanShared member
  exact ⟨path, source, of_mem_scanFile here⟩

/-- **What a scan finds is as a template holds it.** -/
theorem scanned_scan (sound : scanner.SoundSources tree) :
    (scanner.scan tree).items.Keyed ∧
      ∀ item ∈ (scanner.scan tree).items.values, Catalog.Scanned item := by
  refine Items.scanned_ofMentions fun mention member => ?_
  obtain ⟨path, source, text, read, made⟩ := of_mem_mentions member
  refine ⟨made.id, ?_, ?_⟩
  · rw [made.path]
    exact sound.names path source
  · have small := sound.sizes path source text read
    have line := made.line
    omega

/-- A comment of several lines is that of a nugget: the line of a source is one line. -/
theorem clean_of_mentions (sound : scanner.SoundSources tree)
    (clean : ∀ mention ∈ (scanner.scanShared tree (scanner.sources tree)).mentions,
      ∀ comment ∈ mention.comment, '\n' ∉ comment.toList) :
    ∀ item ∈ (scanner.scan tree).items.values, ∀ comment ∈ item.extracted,
      '\n' ∉ comment.toList := by
  intro item inside comment member
  obtain ⟨mention, given, here⟩ := Items.exists_mention_of_comment inside member
  rcases List.mem_append.mp here with own | line
  · exact clean mention given comment (Option.mem_toList.mp own)
  · obtain ⟨path, source, text, -, made⟩ := of_mem_mentions given
    exact made.context (sound.names path source).newline comment (Option.mem_toList.mp line)

end SourceScanner

end Localization
