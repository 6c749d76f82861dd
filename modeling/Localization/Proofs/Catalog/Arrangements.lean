import Localization.Proofs.Catalog.Blocks
import Mathlib.Data.List.Find

/-
**Entries of one id in any arrangement.**

A file may hold several entries for one id, live and obsolete ones in any order. If each of them is written
as one whole entry between blank lines, it is read as if it stood alone, and the one that counts for an id is
settled by the order of its own entries.

* `sections` — the lines of a file between its blank lines.
* `Stage`, `IsEntry` — the lines of one whole entry; `IsEntry.reads`.
* `Entry.reads_splitOnP` — what stands between blank lines is read on its own.
* `deciding` — the entry that counts for an id.
* `parse_of_entries` — what is kept for the ids of a file.
-/

namespace Localization.Catalog

open Text

/-! ### Whole entries -/

/-- The line has nothing but blanks. -/
def isBlankLine (line : List Char) : Bool :=
  (trimEnd line).isEmpty

/-- The lines of a file between its blank lines. -/
def sections (text : String) : List (List (List Char)) :=
  ((Text.lines text.toList).splitOnP isBlankLine).filter (!·.isEmpty)

/-- How far the lines of an entry have come. -/
inductive Stage where
  /-- There were comments at most. -/
  | comments
  /-- There were keywords, but not yet the id. -/
  | opened
  /-- The id was there. -/
  | named
  deriving DecidableEq, Repr

/-- How far an entry has come with one more line that belongs to it: comments come first, a string alone goes
on with a keyword's, there is one id, and a context stands before it. -/
def Stage.next? : Stage → Line → Option Stage
  | .comments, .comment _ => some .comments
  | .comments, .more _ => none
  | stage, .more _ => some stage
  | stage, .skipped => some stage
  | .named, .keyword _ keyword _ => if Reader.startsEntry keyword then none else some .named
  | _, .keyword _ .id _ => some .named
  | _, .keyword .. => some .opened
  | _, _ => none

/-- The lines make up one whole entry: comments, and then keywords with their strings, one of which is the
id. -/
structure IsEntry (block : List (List Char)) : Prop where
  legible : ∀ line ∈ block, (Line.ofChars line).isOk = true
  whole : (sayings block).foldlM Stage.next? .comments = some .named

instance (block : List (List Char)) : Decidable (IsEntry block) :=
  decidable_of_iff ((∀ line ∈ block, (Line.ofChars line).isOk = true) ∧
    (sayings block).foldlM Stage.next? .comments = some .named)
    ⟨fun ⟨legible, whole⟩ => ⟨legible, whole⟩, fun entry => ⟨entry.legible, entry.whole⟩⟩

/-- What has been read of an entry that has come so far. -/
def Stage.Holds (entry : Entry) : Stage → Prop
  | .comments => entry.id = none ∧ entry.current = none
  | .opened => entry.id = none ∧ entry.current.isSome = true
  | .named => entry.id.isSome = true ∧ entry.current.isSome = true

/-- **A line that belongs to an entry is read into it.** -/
theorem Stage.Holds.read {stage after : Stage} {entry : Entry} (holds : stage.Holds entry) {line : Line}
    (belongs : stage.next? line = some after) :
    ∃ next, entry.read line = .ok ([], next) ∧ after.Holds next := by
  cases line with
  | blank => cases stage <;> cases belongs
  | skipped => exact ⟨entry, rfl, by cases stage <;> cases belongs <;> exact holds⟩
  | comment comment =>
    cases stage with
    | comments =>
      cases belongs
      obtain ⟨unnamed, none⟩ := holds
      refine ⟨entry.addComment comment, ?_, ?_⟩
      · simp [Entry.read, Entry.closing, Entry.hasKeywords, unnamed, none]
      · cases comment <;> exact ⟨unnamed, none⟩
    | opened => cases belongs
    | named => cases belongs
  | more text =>
    have goesOn (some : entry.current.isSome = true) :
        ∃ keyword, entry.read (.more text) = .ok ([], entry.extendString keyword text) := by
      obtain ⟨keyword, current⟩ := Option.isSome_iff_exists.mp some
      exact ⟨keyword, by rw [Entry.read, current]⟩
    cases stage with
    | comments => cases belongs
    | opened =>
      cases belongs
      obtain ⟨keyword, taken⟩ := goesOn holds.2
      refine ⟨_, taken, ?_, (congrArg _ (Entry.current_extendString ..)).trans holds.2⟩
      cases keyword <;> simp [Entry.extendString, holds.1]
    | named =>
      cases belongs
      obtain ⟨keyword, taken⟩ := goesOn holds.2
      refine ⟨_, taken, ?_, (congrArg _ (Entry.current_extendString ..)).trans holds.2⟩
      cases keyword <;> simp [Entry.extendString, holds.1]
  | keyword obsolete keyword text =>
    have opens (stays : (Reader.startsEntry keyword && entry.id.isSome) = false) :
        entry.read (.keyword obsolete keyword text) =
          .ok ([], (entry.marked obsolete).setString keyword text) := by
      rw [Entry.read, stays]
      rfl
    have current := Entry.current_setString (entry.marked obsolete) keyword text
    cases stage with
    | comments =>
      refine ⟨_, opens (by simp [holds.1]), ?_⟩
      cases keyword <;> cases belongs <;>
        exact ⟨by simp [Entry.setString, Entry.marked, holds.1], by simp [current]⟩
    | opened =>
      refine ⟨_, opens (by simp [holds.1]), ?_⟩
      cases keyword <;> cases belongs <;>
        exact ⟨by simp [Entry.setString, Entry.marked, holds.1], by simp [current]⟩
    | named =>
      rw [next?] at belongs
      split at belongs
      · cases belongs
      · rename_i inner
        cases belongs
        refine ⟨_, opens (by simp [inner]), ?_, by simp [current]⟩
        cases keyword <;> simp [Entry.setString, Entry.marked, holds.1]

/-- The lines of an entry that has come so far are read into it to the end. -/
theorem Stage.Holds.reads {stage : Stage} {entry : Entry} (holds : stage.Holds entry)
    {before : List Line} (describes : Describes before entry) {block : List (List Char)}
    (legible : ∀ line ∈ block, (Line.ofChars line).isOk = true)
    (whole : (sayings block).foldlM Stage.next? stage = some .named) :
    ∃ last, entry.Reads block [] last ∧ Describes (before ++ sayings block) last ∧
      last.id.isSome = true := by
  induction block generalizing stage entry before with
  | nil =>
    cases whole
    refine ⟨entry, .nil entry, ?_, holds.1⟩
    rw [show sayings [] = [] from rfl, List.append_nil]
    exact describes
  | cons line rest ih =>
    obtain ⟨words, said⟩ : ∃ words, Line.ofChars line = .ok words := by
      have ok := legible line List.mem_cons_self
      cases said : Line.ofChars line with
      | ok words => exact ⟨words, rfl⟩
      | error fault => simp [said, Except.isOk, Except.toBool] at ok
    have saying : sayings (line :: rest) = words :: sayings rest := by
      rw [sayings, List.filterMap_cons, said]
      rfl
    rw [saying, List.foldlM_cons] at whole
    obtain ⟨after, belongs, further⟩ := Option.bind_eq_some_iff.mp whole
    obtain ⟨next, taken, goesOn⟩ := holds.read belongs
    have longer : Describes (before ++ [words]) next := by
      have step := describes.read taken
      split at step
      · exact absurd step.1 (List.cons_ne_nil _ _).symm
      · exact step.2
    obtain ⟨last, read, all, named⟩ :=
      ih goesOn longer (fun other member => legible other (List.mem_cons_of_mem line member)) further
    refine ⟨last, (Entry.Reads.single said taken).append_open read, ?_, named⟩
    rw [saying]
    rwa [List.append_assoc] at all

/-- **The lines of an entry are read as one**, which holds what they say. -/
theorem IsEntry.reads {block : List (List Char)} (entry : IsEntry block) :
    ∃ own, Entry.start.Reads block [] own ∧ Describes (sayings block) own ∧ own.id.isSome = true := by
  have start : Stage.comments.Holds Entry.start := ⟨rfl, rfl⟩
  exact start.reads describes_start entry.legible entry.whole

/-! ### Between blank lines -/

theorem ofChars_of_isBlankLine {line : List Char} (blank : isBlankLine line = true) :
    Line.ofChars line = .ok .blank := by
  unfold Line.ofChars
  exact if_pos blank

/-- **What stands between blank lines is read on its own**, but for the lines up to the first of them, which
go on with an entry. -/
theorem Entry.reads_splitOnP {entry next : Entry} {lines first : List (List Char)}
    {others : List (List (List Char))} {owns : List Entry}
    (split : lines.splitOnP isBlankLine = first :: others) (here : entry.Reads first [] next)
    (alone : List.Forall₂ (fun block own => start.Reads block [] own) others owns) :
    ∃ closed last, entry.Reads lines closed last ∧ closed ++ [last] = next :: owns := by
  induction lines generalizing entry next first others owns with
  | nil =>
    rw [List.splitOnP_nil] at split
    obtain ⟨rfl, rfl⟩ := List.cons.inj split
    cases alone
    exact ⟨[], next, here, rfl⟩
  | cons line rest ih =>
    obtain ⟨head, tail, later⟩ := List.exists_cons_of_ne_nil (List.splitOnP_ne_nil isBlankLine rest)
    rw [List.splitOnP_cons_eq_if_modifyHead, later] at split
    split at split
    · rename_i blank
      obtain ⟨rfl, rfl⟩ := List.cons.inj split
      obtain ⟨-, rfl⟩ := here.unique (.nil entry)
      cases alone with
      | cons one more =>
        obtain ⟨closed, last, read, same⟩ := ih later one more
        have closing : next.Reads [line] [next] start := .single (ofChars_of_isBlankLine blank) rfl
        exact ⟨_, last, closing.append read, congrArg (next :: ·) same⟩
    · obtain ⟨rfl, rfl⟩ := List.cons.inj split
      rw [← List.singleton_append] at here
      obtain ⟨before, after, behind, once, further, none⟩ := here.of_append
      obtain ⟨rfl, rfl⟩ := List.append_eq_nil_iff.mp none.symm
      obtain ⟨closed, last, read, same⟩ := ih later further alone
      exact ⟨closed, last, once.append_open read, same⟩

/-- The entry is read of these lines alone, which name its id. -/
structure Entry.IsOf (own : Entry) (block : List (List Char)) : Prop where
  reads : start.Reads block [] own
  describes : Describes (sayings block) own
  named : own.id.isSome = true

/-- Whole entries are read each on its own, and nothing is read where there are no lines. -/
theorem exists_entries {pieces : List (List (List Char))}
    (whole : ∀ block ∈ pieces.filter (!·.isEmpty), IsEntry block) :
    ∃ all owns, List.Forall₂ (fun block own => Entry.start.Reads block [] own) pieces all ∧
      List.Forall₂ (fun block own => Entry.IsOf own block) (pieces.filter (!·.isEmpty)) owns ∧
      all.filterMap (·.item?) = owns.filterMap (·.item?) := by
  induction pieces with
  | nil => exact ⟨[], [], .nil, .nil, rfl⟩
  | cons block rest ih =>
    cases block with
    | nil =>
      obtain ⟨all, owns, reads, are, same⟩ := ih whole
      exact ⟨.start :: all, owns, .cons (.nil _) reads, are, same⟩
    | cons line more =>
      obtain ⟨one, others⟩ := List.forall_mem_cons.mp whole
      obtain ⟨all, owns, reads, are, same⟩ := ih others
      obtain ⟨own, read, describes, named⟩ := one.reads
      refine ⟨own :: all, own :: owns, .cons read reads, .cons ⟨read, describes, named⟩ are, ?_⟩
      rw [List.filterMap_cons, List.filterMap_cons, same]

/-- **A file of whole entries is read**, each of them on its own. -/
theorem parse_sections {text : String} (whole : ∀ block ∈ sections text, IsEntry block) :
    ∃ catalog owns, parse text = .ok catalog ∧
      List.Forall₂ (fun block own => Entry.IsOf own block) (sections text) owns ∧
      ∀ id, catalog.items.get? id = counting id (owns.filterMap (·.item?)) := by
  obtain ⟨all, owns, reads, are, same⟩ := exists_entries whole
  obtain ⟨first, others, split⟩ := List.exists_cons_of_ne_nil
    (List.splitOnP_ne_nil isBlankLine (Text.lines text.toList))
  rw [split] at reads
  cases reads with
  | cons here alone =>
    obtain ⟨closed, last, read, entries⟩ := Entry.reads_splitOnP split here alone
    refine ⟨_, owns, read.parseLines_eq, are, fun id => ?_⟩
    rw [get?_ofEntries, entries, same]

/-! ### The entry that counts -/

/-- No line of an entry has the mark of obsolete ones. -/
def isLive (block : List (List Char)) : Bool :=
  !(sayings block).any (·.isObsolete)

/-- The entry that counts for an id: the first live one, or else the first obsolete one. -/
def deciding (id : String) (blocks : List (List (List Char))) : Option (List (List Char)) :=
  (blocks.find? fun block => Names id (sayings block) && isLive block).or
    (blocks.find? fun block => Names id (sayings block) && !isLive block)

namespace Entry.IsOf

variable {own : Entry} {block : List (List Char)} {id : String}

/-- The item of an entry has the id that its lines name, and is live as they are. -/
theorem any_item? (isOf : own.IsOf block) (solid : id ≠ "") :
    own.item?.any (fun item => item.id = id) = decide (Names id (sayings block)) ∧
      own.item?.any (fun item => item.id = id && !item.obsolete) =
        (decide (Names id (sayings block)) && isLive block) := by
  obtain ⟨name, named⟩ := Option.isSome_iff_exists.mp isOf.named
  have said : textOf .id (sayings block) = some name := isOf.describes.id.symm.trans named
  have live : isLive block = !own.obsolete := by rw [isLive, isOf.describes.obsolete]
  by_cases empty : name = ""
  · have none : own.item? = none := by simp [item?, named, empty, Option.filter]
    simp [none, Names, said, empty, solid.symm]
  · have some : own.item? = some (own.item name) := item?_eq_some.mpr ⟨name, named, empty, rfl⟩
    simp [some, Names, said, live, item]

end Entry.IsOf

section Counting

variable {blocks : List (List (List Char))} {owns : List Entry} {id : String}

/-- The item is that of the entry of these lines. -/
def IsItemOf (block : List (List Char)) (item : Item) : Prop :=
  ∃ own : Entry, own.IsOf block ∧ own.item? = some item

/-- Items and the lines of their entries are found together. -/
theorem rel_find? {counts : Item → Bool} {wanted : List (List Char) → Bool}
    (all : List.Forall₂ (fun block own => Entry.IsOf own block) blocks owns)
    (alike : ∀ block own, Entry.IsOf own block → own.item?.any counts = wanted block) :
    Option.Rel IsItemOf (blocks.find? wanted) ((owns.filterMap (·.item?)).find? counts) := by
  induction all with
  | nil => exact .none
  | @cons block own blocks owns isOf all ih =>
    have same := alike block own isOf
    cases here : own.item? with
    | none =>
      rw [here] at same
      rw [List.filterMap_cons_none here, List.find?_cons_of_neg (by simp [← same])]
      exact ih
    | some item =>
      rw [here, Option.any_some] at same
      rw [List.filterMap_cons_some here, List.find?_cons, List.find?_cons, same]
      cases wanted block with
      | true => exact .some ⟨own, isOf, here⟩
      | false => exact ih

theorem rel_or {first second : Option (List (List Char))} {one other : Option Item}
    (here : Option.Rel IsItemOf first one) (there : Option.Rel IsItemOf second other) :
    Option.Rel IsItemOf (first.or second) (one.or other) := by
  cases here with
  | none => exact there
  | some same => exact .some same

/-- Without a live entry, the first one is the first obsolete one. -/
theorem deciding_eq (id : String) (blocks : List (List (List Char))) :
    deciding id blocks = (blocks.find? fun block => Names id (sayings block) && isLive block).or
      (blocks.find? fun block => Names id (sayings block)) := by
  unfold deciding
  cases live : blocks.find? fun block => Names id (sayings block) && isLive block with
  | some block => rfl
  | none =>
    refine congrArg (none.or ·) (List.find?_congr fun block member => ?_)
    have gone := List.find?_eq_none.mp live block member
    cases named : decide (Names id (sayings block)) with
    | false => rfl
    | true =>
      rw [named, Bool.true_and] at gone
      simp [gone]

/-- **What is kept for an id is the item of the deciding entry.** -/
theorem rel_deciding (all : List.Forall₂ (fun block own => Entry.IsOf own block) blocks owns)
    (solid : id ≠ "") :
    Option.Rel IsItemOf (deciding id blocks) (counting id (owns.filterMap (·.item?))) := by
  rw [deciding_eq, counting]
  exact rel_or (rel_find? all fun block own isOf => (isOf.any_item? solid).2)
    (rel_find? all fun block own isOf => (isOf.any_item? solid).1)

theorem isSome_deciding {id : String} {blocks : List (List (List Char))} :
    (deciding id blocks).isSome = true ↔ ∃ block ∈ blocks, Names id (sayings block) := by
  rw [deciding_eq, Option.isSome_or, Bool.or_eq_true, List.find?_isSome, List.find?_isSome]
  constructor
  · rintro (⟨block, member, live⟩ | ⟨block, member, named⟩)
    · exact ⟨block, member, of_decide_eq_true (Bool.and_eq_true_iff.mp live).1⟩
    · exact ⟨block, member, of_decide_eq_true named⟩
  · rintro ⟨block, member, named⟩
    exact .inr ⟨block, member, decide_eq_true named⟩

/-- If a live entry names an id, the live entries alone decide on it. -/
theorem deciding_filter (named : ∃ block ∈ blocks, Names id (sayings block) ∧ isLive block = true) :
    deciding id blocks = deciding id (blocks.filter isLive) := by
  obtain ⟨block, member, names, live⟩ := named
  have here : (blocks.find? fun block => Names id (sayings block) && isLive block).isSome = true :=
    List.find?_isSome.mpr ⟨block, member, by simp [names, live]⟩
  have same : ((blocks.filter isLive).find? fun block => Names id (sayings block) && isLive block) =
      blocks.find? fun block => Names id (sayings block) && isLive block := by
    rw [List.find?_filter]
    refine List.find?_congr fun block _ => ?_
    cases isLive block <;> simp
  obtain ⟨found, first⟩ := Option.isSome_iff_exists.mp here
  rw [deciding, deciding, same, first, Option.some_or, Option.some_or]

/-- The item of an entry is kept where the entry stands alone. -/
theorem IsItemOf.parseLines_eq {block : List (List Char)} {item : Item} (isItemOf : IsItemOf block item) :
    ∃ own, parseLines block = .ok own ∧ own.items.get? item.id = some item := by
  obtain ⟨own, isOf, here⟩ := isItemOf
  refine ⟨ofEntries [own], isOf.reads.parseLines_eq, ?_⟩
  rw [get?_ofEntries, List.filterMap_cons_some here, List.filterMap_nil]
  refine counting_of_unique (List.mem_singleton_self item) fun other member _ => ?_
  exact List.mem_singleton.mp member

/-- What is kept for an id is what the deciding entry has on its own. -/
theorem item_of_deciding (all : List.Forall₂ (fun block own => Entry.IsOf own block) blocks owns)
    (solid : id ≠ "") {block : List (List Char)} (decides : deciding id blocks = some block) :
    ∃ own item, parseLines block = .ok own ∧ own.items.get? id = some item ∧
      counting id (owns.filterMap (·.item?)) = some item := by
  have rel := rel_deciding all solid
  rw [decides] at rel
  cases counted : counting id (owns.filterMap (·.item?)) with
  | none => rw [counted] at rel; cases rel
  | some item =>
    rw [counted] at rel
    cases rel with
    | some isItemOf =>
      obtain ⟨own, parsed, kept⟩ := isItemOf.parseLines_eq
      rw [(id_of_counting counted).2] at kept
      exact ⟨own, item, parsed, kept, rfl⟩

theorem isSome_counting (all : List.Forall₂ (fun block own => Entry.IsOf own block) blocks owns)
    (solid : id ≠ "") : (counting id (owns.filterMap (·.item?))).isSome = (deciding id blocks).isSome := by
  have rel := rel_deciding all solid
  generalize deciding id blocks = block at rel ⊢
  generalize counting id (owns.filterMap (·.item?)) = item at rel ⊢
  cases rel <;> rfl

/-- Nothing is kept for the id of a header. -/
theorem counting_empty (owns : List Entry) : counting "" (owns.filterMap (·.item?)) = none := by
  rw [counting_eq_none]
  intro item member empty
  obtain ⟨own, -, here⟩ := List.mem_filterMap.mp member
  obtain ⟨id, -, solid, rfl⟩ := Entry.item?_eq_some.mp here
  exact solid empty

end Counting

/-- **Entries of one id are settled by their order alone.** Let a file be made of whole entries between blank
lines; the one without a text for an id is its header. The file can be read, and it has items for the ids
that are named and not empty. For each of them the item is kept that its first live entry has on its own, or
else its first obsolete one. So it changes nothing for the id of a live entry if obsolete ones stand elsewhere,
come or go. -/
theorem parse_of_entries {text : String} (whole : ∀ block ∈ sections text, IsEntry block) :
    ∃ catalog, parse text = .ok catalog ∧
      (∀ id, id ∈ catalog.items.keys ↔ id ≠ "" ∧ ∃ block ∈ sections text, Names id (sayings block)) ∧
      (∀ id ≠ "", ∀ block, deciding id (sections text) = some block →
        ∃ own item, parseLines block = .ok own ∧ own.items.get? id = some item ∧
          catalog.items.get? id = some item) ∧
      ∀ other, (∀ block ∈ sections other, IsEntry block) →
        (sections other).filter isLive = (sections text).filter isLive →
        ∃ arranged, parse other = .ok arranged ∧
          ∀ id, (∃ block ∈ sections text, Names id (sayings block) ∧ isLive block = true) →
            arranged.items.get? id = catalog.items.get? id := by
  obtain ⟨catalog, owns, parsed, all, kept⟩ := parse_sections whole
  refine ⟨catalog, parsed, fun id => ?_, fun id solid block decides => ?_, fun other entries same => ?_⟩
  · rw [SortedMap.mem_keys, ← Option.isSome_iff_exists, kept]
    by_cases empty : id = ""
    · simp [empty, counting_empty]
    · rw [isSome_counting all empty, isSome_deciding]
      exact (and_iff_right empty).symm
  · rw [kept]
    exact item_of_deciding all solid decides
  · obtain ⟨arranged, others, again, those, held⟩ := parse_sections entries
    refine ⟨arranged, again, fun id named => ?_⟩
    rw [kept, held]
    by_cases empty : id = ""
    · rw [empty, counting_empty, counting_empty]
    · have decides : deciding id (sections other) = deciding id (sections text) := by
        obtain ⟨block, member, names, live⟩ := named
        have there : block ∈ (sections other).filter isLive :=
          same ▸ List.mem_filter.mpr ⟨member, live⟩
        rw [deciding_filter ⟨block, member, names, live⟩,
          deciding_filter ⟨block, (List.mem_filter.mp there).1, names, live⟩, same]
      obtain ⟨block, member, names, -⟩ := named
      obtain ⟨first, found⟩ :=
        Option.isSome_iff_exists.mp (isSome_deciding.mpr ⟨block, member, names⟩)
      obtain ⟨own, item, alone, here, counted⟩ := item_of_deciding all empty found
      obtain ⟨own', item', alone', here', counted'⟩ := item_of_deciding those empty (decides.trans found)
      cases alone.symm.trans alone'
      rw [counted, counted', ← here, ← here']

/-- An obsolete entry before two live ones of the same id. -/
def repeatedText : String :=
  "msgid \"\"\nmsgstr \"\"\n\n#~ msgid \"a\"\n#~ msgstr \"old\"\n\n" ++
    "msgid \"a\"\nmsgstr \"new\"\n\nmsgid \"a\"\nmsgstr \"newer\"\n"

/-- The obsolete entry behind the live ones. -/
def rearrangedText : String :=
  "msgid \"\"\nmsgstr \"\"\n\nmsgid \"a\"\nmsgstr \"new\"\n\n" ++
    "msgid \"a\"\nmsgstr \"newer\"\n \n\n#~ msgid \"a\"\n#~ msgstr \"old\"\n"

/-- The first live entry counts, wherever the obsolete one stands. -/
theorem parse_of_entries_repeated :
    ∃ catalog arranged own item, parse repeatedText = .ok catalog ∧ parse rearrangedText = .ok arranged ∧
      parseLines ["msgid \"a\"".toList, "msgstr \"new\"".toList] = .ok own ∧
      own.items.get? "a" = some item ∧ catalog.items.get? "a" = some item ∧
      arranged.items.get? "a" = some item := by
  have whole : ∀ block ∈ sections repeatedText, IsEntry block := by decide +kernel
  have again : ∀ block ∈ sections rearrangedText, IsEntry block := by decide +kernel
  have first : deciding "a" (sections repeatedText) =
      some ["msgid \"a\"".toList, "msgstr \"new\"".toList] := by decide +kernel
  have named : ∃ block ∈ sections repeatedText, Names "a" (sayings block) ∧ isLive block = true := by
    decide +kernel
  obtain ⟨catalog, parsed, -, items, others⟩ := parse_of_entries whole
  obtain ⟨own, item, alone, here, kept⟩ := items "a" (by decide) _ first
  obtain ⟨arranged, rearranged, same⟩ := others rearrangedText again (by decide +kernel)
  exact ⟨catalog, arranged, own, item, parsed, rearranged, alone, here, kept, (same "a" named).trans kept⟩

end Localization.Catalog
