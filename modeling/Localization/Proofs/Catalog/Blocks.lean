import Localization.Proofs.Catalog.Items
import Mathlib.Data.List.Forall2

/-
**A catalog file, block by block.**

The lines of a file fall into blocks, one for each entry. What an entry holds is what the lines of its
block say: behind each keyword stands a text, which goes on with the strings alone on the lines below.

* `keywordTexts`, `textOf`, `formTexts` — the texts behind the keywords of a block.
* `blocks` — the blocks of a file.
* `Describes.read` — what one more line means for a block and for the entry that is read of it.
* `blocks_of_parse` — the entries of a file are what its blocks say.
* `get?_of_lone` — the item of an id that one block alone names.
-/

namespace Localization.Catalog

open Text

/-! ### What lines say together -/

/-- The strings alone on their lines up to the next keyword, put together. -/
def continuation : List Line → String
  | [] => ""
  | .more text :: rest => text ++ continuation rest
  | .keyword .. :: _ => ""
  | _ :: rest => continuation rest

/-- The keywords of some lines in order, each with the text behind it. -/
def keywordTexts : List Line → List (Keyword × String)
  | [] => []
  | .keyword _ keyword text :: rest => (keyword, text ++ continuation rest) :: keywordTexts rest
  | _ :: rest => keywordTexts rest

/-- The text behind a keyword. -/
def textOf (keyword : Keyword) (lines : List Line) : Option String :=
  (keywordTexts lines).lookup keyword

/-- The index and the text of a plural form. -/
def formText? : Keyword × String → Option (Nat × String)
  | (.form index, text) => some (index, text)
  | _ => none

/-- The plural forms on some lines in order, each with its index. -/
def formTexts (lines : List Line) : List (Nat × String) :=
  (keywordTexts lines).filterMap formText?

/-- The line has a keyword behind the mark of obsolete entries. -/
def Line.isObsolete : Line → Bool
  | .keyword obsolete _ _ => obsolete
  | _ => false

/-- The line has the flag of uncertain texts. -/
def Line.isFuzzy : Line → Bool
  | .comment (.flags fuzzy _) => fuzzy
  | _ => false

/-- The line has no string. -/
def Line.isSilent : Line → Bool
  | .more _ | .keyword .. => false
  | _ => true

/-- A line cannot belong to the block above it: it is blank, or a comment behind keywords, or it names
the id of another entry. -/
def breaks (block : List Line) : Line → Bool
  | .blank => true
  | .comment _ => !(keywordTexts block).isEmpty
  | .keyword _ keyword _ => Reader.startsEntry keyword && (textOf .id block).isSome
  | _ => false

/-- The blocks of lines behind the start of a block. -/
def blocksFrom (block : List Line) : List Line → List (List Line)
  | [] => [block]
  | line :: rest =>
    if breaks block line then block :: blocksFrom [line] rest else blocksFrom (block ++ [line]) rest

/-- What the lines of a file say, where they say something. -/
def sayings (lines : List (List Char)) : List Line :=
  lines.filterMap fun line => (Line.ofChars line).toOption

/-- The blocks of a file. -/
def blocks (text : String) : List (List Line) :=
  blocksFrom [] (sayings (Text.lines text.toList))

/-! ### One more line -/

theorem continuation_keyword (lines : List Line) (obsolete : Bool) (keyword : Keyword) (text : String) :
    continuation (lines ++ [.keyword obsolete keyword text]) = continuation lines := by
  induction lines with
  | nil => rfl
  | cons line rest ih => cases line <;> simp only [List.cons_append, continuation, ih]

theorem keywordTexts_keyword (lines : List Line) (obsolete : Bool) (keyword : Keyword) (text : String) :
    keywordTexts (lines ++ [.keyword obsolete keyword text]) =
      keywordTexts lines ++ [(keyword, text)] := by
  induction lines with
  | nil => simp [keywordTexts, continuation]
  | cons line rest ih =>
    cases line <;> simp only [List.cons_append, keywordTexts, continuation_keyword, ih]

/-- A line without a string adds nothing. -/
theorem keywordTexts_silent {line : Line} (silent : line.isSilent = true) (lines : List Line) :
    continuation (lines ++ [line]) = continuation lines ∧
      keywordTexts (lines ++ [line]) = keywordTexts lines := by
  induction lines with
  | nil => cases line <;> first | exact ⟨rfl, rfl⟩ | cases silent
  | cons first rest ih =>
    cases first <;> simp only [List.cons_append, keywordTexts, continuation, ih, and_self]

theorem keywordTexts_more_of_nil {lines : List Line} (none : keywordTexts lines = []) (more : String) :
    continuation (lines ++ [.more more]) = continuation lines ++ more ∧
      keywordTexts (lines ++ [.more more]) = [] := by
  induction lines with
  | nil => simp [continuation, keywordTexts]
  | cons line rest ih =>
    cases line with
    | keyword obsolete keyword text => cases none
    | _ => simp only [List.cons_append, continuation, keywordTexts, String.append_assoc, ih none, and_self]

theorem continuation_more_of_cons {lines : List Line} (some : keywordTexts lines ≠ []) (more : String) :
    continuation (lines ++ [.more more]) = continuation lines := by
  induction lines with
  | nil => exact absurd rfl some
  | cons line rest ih =>
    cases line with
    | keyword obsolete keyword text => rfl
    | _ => simp only [List.cons_append, continuation, ih some]

/-- A string alone on its line goes on with the text behind the last keyword. -/
theorem keywordTexts_more {lines : List Line} {earlier : List (Keyword × String)} {keyword : Keyword}
    {text : String} (last : keywordTexts lines = earlier ++ [(keyword, text)]) (more : String) :
    keywordTexts (lines ++ [.more more]) = earlier ++ [(keyword, text ++ more)] := by
  induction lines generalizing earlier with
  | nil => simp [keywordTexts] at last
  | cons line rest ih =>
    cases line with
    | keyword obsolete first start =>
      simp only [keywordTexts, List.cons_append] at last ⊢
      cases earlier with
      | nil =>
        obtain ⟨same, none⟩ := List.cons.inj last
        cases same
        rw [(keywordTexts_more_of_nil none more).1, (keywordTexts_more_of_nil none more).2,
          String.append_assoc]
        rfl
      | cons one others =>
        obtain ⟨rfl, later⟩ := List.cons.inj last
        have some : keywordTexts rest ≠ [] := by simp [later]
        rw [continuation_more_of_cons some more, ih later]
        rfl
    | _ =>
      simp only [keywordTexts, List.cons_append] at last ⊢
      exact ih last

theorem formTexts_of_append {lines : List Line} {earlier : List (Keyword × String)} {keyword : Keyword}
    {text : String} (last : keywordTexts lines = earlier ++ [(keyword, text)]) :
    formTexts lines = earlier.filterMap formText? ++ (formText? (keyword, text)).toList := by
  rw [formTexts, last, List.filterMap_append]
  rfl

/-- The form of an index is the text behind its keyword. -/
theorem textOf_form (index : Nat) (lines : List Line) :
    textOf (.form index) lines = (formTexts lines).lookup index := by
  rw [textOf, formTexts]
  induction keywordTexts lines with
  | nil => rfl
  | cons first rest ih =>
    obtain ⟨keyword, text⟩ := first
    rw [List.lookup_cons, ih]
    cases keyword with
    | form other =>
      have same : (Keyword.form index == Keyword.form other) = (index == other) := by
        by_cases equal : index = other <;> simp [equal]
      rw [same]
      rfl
    | _ => rfl

/-! ### Blocks and entries -/

/-- The lines of a block say what an entry holds. Forms are compared where no two of them share an
index. -/
structure Describes (block : List Line) (entry : Entry) : Prop where
  current : entry.current = (keywordTexts block).getLast?.map (·.1)
  id : entry.id = textOf .id block
  once : ((keywordTexts block).map (·.1)).count .id ≤ 1
  forms : ((formTexts block).map (·.1)).Nodup → entry.forms = formTexts block
  obsolete : entry.obsolete = block.any (·.isObsolete)
  fuzzy : entry.fuzzy = block.any (·.isFuzzy)

theorem describes_start : Describes [] .start where
  current := rfl
  id := rfl
  once := Nat.zero_le 1
  forms := fun _ => rfl
  obsolete := rfl
  fuzzy := rfl

namespace Describes

variable {block : List Line} {entry next : Entry}

/-- Keywords of an entry have been read if its block has some. -/
theorem hasKeywords (describes : Describes block entry) :
    entry.hasKeywords = !(keywordTexts block).isEmpty := by
  rw [Entry.hasKeywords, describes.id, describes.current, textOf]
  cases keywordTexts block with
  | nil => rfl
  | cons first rest => simp

/-- A line without a string changes at most the comments of an entry. -/
theorem silent (describes : Describes block entry) {line : Line} (silent : line.isSilent = true)
    (current : next.current = entry.current) (id : next.id = entry.id) (forms : next.forms = entry.forms)
    (obsolete : next.obsolete = entry.obsolete) (fuzzy : next.fuzzy = (entry.fuzzy || line.isFuzzy)) :
    Describes (block ++ [line]) next := by
  have texts := (keywordTexts_silent silent block).2
  have live : line.isObsolete = false := by
    cases line <;> first | rfl | cases silent
  refine ⟨?_, ?_, ?_, ?_, ?_, ?_⟩
  · rw [texts, current, describes.current]
  · rw [textOf, texts, ← textOf, id, describes.id]
  · rw [texts]
    exact describes.once
  · rw [formTexts, texts, ← formTexts, forms]
    exact describes.forms
  · rw [List.any_append, obsolete, describes.obsolete]
    simp [live]
  · rw [List.any_append, fuzzy, describes.fuzzy]
    simp

theorem comment (describes : Describes block entry) (comment : Comment) :
    Describes (block ++ [.comment comment]) (entry.addComment comment) := by
  refine describes.silent rfl ?_ ?_ ?_ ?_ ?_
  all_goals cases comment <;> first | rfl | simp [Entry.addComment, Line.isFuzzy]

theorem lookup_concat {texts : List (Keyword × String)} {keyword other : Keyword} {text : String} :
    (texts ++ [(other, text)]).lookup keyword =
      (texts.lookup keyword).or (if keyword = other then some text else none) := by
  rw [List.lookup_append, List.lookup_cons, List.lookup_nil]
  by_cases same : keyword = other
  · simp [same]
  · simp [same, beq_eq_false_iff_ne.mpr same]

theorem not_mem_of_lookup {texts : List (Keyword × String)} {keyword : Keyword}
    (missing : texts.lookup keyword = none) : keyword ∉ texts.map (·.1) := by
  intro member
  obtain ⟨found, inside, rfl⟩ := List.mem_map.mp member
  simpa using List.lookup_eq_none_iff.mp missing found inside

/-- The string of a keyword stands behind the others. -/
theorem keyword (describes : Describes block entry) (obsolete : Bool) (keyword : Keyword) (text : String)
    (named : keyword = .id → entry.id = none) :
    Describes (block ++ [.keyword obsolete keyword text])
      ((entry.marked obsolete).setString keyword text) := by
  have texts := keywordTexts_keyword block obsolete keyword text
  refine ⟨?_, ?_, ?_, ?_, ?_, ?_⟩
  · rw [texts, Entry.current_setString]
    simp
  · rw [textOf, texts, lookup_concat, ← textOf, ← describes.id]
    cases keyword with
    | id => rw [named rfl]; rfl
    | _ => simp [Entry.setString, Entry.marked]
  · rw [texts, List.map_append, List.count_append]
    by_cases same : keyword = .id
    · have missing : textOf .id block = none := by rw [← describes.id, named same]
      rw [List.count_eq_zero_of_not_mem (not_mem_of_lookup missing), Nat.zero_add]
      exact List.count_le_length
    · have other : List.count Keyword.id ([(keyword, text)].map (·.1)) = 0 := by simp [same]
      rw [other]
      exact describes.once
  · rw [formTexts_of_append texts, List.map_append]
    intro distinct
    have before := describes.forms (List.nodup_append.mp distinct).1
    cases keyword <;> simp [Entry.setString, Entry.marked, before, formText?, formTexts]
  · rw [List.any_append, ← describes.obsolete]
    cases keyword <;> simp [Entry.setString, Entry.marked, Line.isObsolete]
  · rw [List.any_append, ← describes.fuzzy]
    cases keyword <;> simp [Entry.setString, Entry.marked, Line.isFuzzy]

/-- A string alone on its line goes on with the text of the last keyword. -/
theorem more (describes : Describes block entry) {keyword : Keyword} (current : entry.current = some keyword)
    (more : String) : Describes (block ++ [.more more]) (entry.extendString keyword more) := by
  obtain ⟨earlier, text, last⟩ : ∃ earlier text, keywordTexts block = earlier ++ [(keyword, text)] := by
    rw [describes.current] at current
    obtain ⟨⟨same, text⟩, last, rfl⟩ := Option.map_eq_some_iff.mp current
    obtain ⟨earlier, split⟩ := List.getLast?_eq_some_iff.mp last
    exact ⟨earlier, text, split⟩
  have texts := keywordTexts_more last more
  refine ⟨?_, ?_, ?_, ?_, ?_, ?_⟩
  · rw [texts, Entry.current_extendString, current]
    simp
  · have once := describes.once
    rw [textOf, texts, lookup_concat]
    rw [last, List.map_append, List.count_append] at once
    cases keyword with
    | id =>
      -- The text behind an id is the last one, for a second id starts another entry.
      have missing : earlier.lookup .id = none := by
        rw [List.lookup_eq_none_iff]
        intro other inside
        have absent : Keyword.id ∉ earlier.map (·.1) := by
          rw [← List.count_eq_zero]
          simp at once
          omega
        simpa using fun same => absent (List.mem_map.mpr ⟨other, inside, same.symm⟩)
      rw [Entry.extendString, describes.id, textOf, last, lookup_concat, missing]
      simp
    | _ =>
      rw [Entry.extendString, describes.id, textOf, last, lookup_concat]
      simp
  · have once := describes.once
    rw [last] at once
    rw [texts]
    simpa using once
  · rw [formTexts_of_append texts, List.map_append]
    have before := describes.forms
    rw [formTexts_of_append last, List.map_append] at before
    intro distinct
    cases keyword with
    | form index =>
      have held := before distinct
      rw [Entry.extendString, held]
      refine Entry.extendForm_append (fun form member same => ?_) text more
      refine (List.nodup_append.mp distinct).2.2 form.1 (List.mem_map_of_mem member) index ?_ same
      exact List.mem_singleton_self index
    | _ => exact before distinct
  · rw [List.any_append, ← describes.obsolete]
    cases keyword <;> simp [Entry.extendString, Line.isObsolete]
  · rw [List.any_append, ← describes.fuzzy]
    cases keyword <;> simp [Entry.extendString, Line.isFuzzy]

/-- **What one more line means for a block and for the entry that is read of it.** -/
theorem read (describes : Describes block entry) {line : Line} {closed : List Entry}
    (taken : entry.read line = .ok (closed, next)) :
    if breaks block line then closed = [entry] ∧ Describes [line] next
    else closed = [] ∧ Describes (block ++ [line]) next := by
  cases line with
  | blank =>
    cases taken
    exact ⟨rfl, describes_start.silent rfl rfl rfl rfl rfl rfl⟩
  | skipped =>
    cases taken
    exact ⟨rfl, describes.silent rfl rfl rfl rfl rfl (by simp [Line.isFuzzy])⟩
  | comment comment =>
    rw [Entry.read, describes.hasKeywords] at taken
    cases taken
    rw [breaks]
    cases (keywordTexts block).isEmpty with
    | false => exact ⟨rfl, describes_start.comment comment⟩
    | true => exact ⟨rfl, describes.comment comment⟩
  | more text =>
    cases current : entry.current with
    | none =>
      rw [Entry.read, current] at taken
      cases taken
    | some keyword =>
      rw [Entry.read, current] at taken
      cases taken
      exact ⟨rfl, describes.more current text⟩
  | keyword obsolete keyword text =>
    rw [Entry.read, describes.id] at taken
    cases taken
    rw [breaks]
    cases starts : Reader.startsEntry keyword && (textOf .id block).isSome with
    | true => exact ⟨rfl, describes_start.keyword obsolete keyword text fun _ => rfl⟩
    | false =>
      refine ⟨rfl, describes.keyword obsolete keyword text fun same => ?_⟩
      rw [same, Reader.startsEntry, Bool.true_and] at starts
      rw [describes.id]
      exact Option.not_isSome_iff_eq_none.mp (Bool.eq_false_iff.mp starts)

/-- The entries of lines are what the blocks of the lines say. -/
theorem reads (describes : Describes block entry) {lines : List (List Char)} {closed : List Entry}
    (all : entry.Reads lines closed next) :
    List.Forall₂ Describes (blocksFrom block (sayings lines)) (closed ++ [next]) := by
  induction lines generalizing block entry closed with
  | nil =>
    obtain ⟨rfl, rfl⟩ := all.unique (.nil entry)
    exact .cons describes .nil
  | cons line rest ih =>
    rw [← List.singleton_append] at all
    obtain ⟨first, after, others, once, later, rfl⟩ := all.of_append
    obtain ⟨words, said, taken⟩ := once.of_single
    have saying : sayings (line :: rest) = words :: sayings rest := by
      rw [sayings, List.filterMap_cons, said]
      rfl
    rw [saying, blocksFrom]
    have step := describes.read taken
    split
    · rename_i broken
      rw [if_pos broken] at step
      obtain ⟨rfl, anew⟩ := step
      exact .cons describes (ih anew later)
    · rename_i whole
      rw [if_neg whole] at step
      obtain ⟨rfl, longer⟩ := step
      exact ih longer later

end Describes

/-- **The entries of a file are what its blocks say.** -/
theorem blocks_of_parse {text : String} {catalog : Catalog} (parsed : parse text = .ok catalog) :
    ∃ entries, catalog = ofEntries entries ∧ List.Forall₂ Describes (blocks text) entries := by
  obtain ⟨closed, last, all, rfl⟩ := reads_of_parseLines parsed
  exact ⟨closed ++ [last], rfl, describes_start.reads all⟩

/-! ### The item of an id -/

/-- The block names the id. -/
def Names (id : String) (block : List Line) : Prop :=
  textOf .id block = some id

instance (id : String) : DecidablePred (Names id) :=
  fun block => inferInstanceAs (Decidable (textOf .id block = some id))

/-- **The item of an id that one block alone names is that of the block.** Without an id there is none. -/
theorem get?_of_lone {text id : String} {catalog : Catalog} {block : List Line}
    (parsed : parse text = .ok catalog) (lone : (blocks text).filter (Names id) = [block]) :
    ∃ entry, Describes block entry ∧
      catalog.items.get? id = if id = "" then none else some (entry.item id) := by
  obtain ⟨entries, rfl, describe⟩ := blocks_of_parse parsed
  have alike : ∀ ⦃block entry⦄, Describes block entry →
      (decide (Names id block) = true ↔ decide (entry.id = some id) = true) := by
    intro block entry describes
    rw [decide_eq_true_iff, decide_eq_true_iff, describes.id, Names]
  have both := List.rel_filter alike describe
  rw [lone, List.forall₂_cons_left_iff] at both
  obtain ⟨entry, others, describes, later, only⟩ := both
  cases later
  have member : entry ∈ entries.filter fun entry => decide (entry.id = some id) := by simp [only]
  obtain ⟨inside, named⟩ := List.mem_filter.mp member
  refine ⟨entry, describes, ?_⟩
  rw [get?_ofEntries]
  split
  · rename_i empty
    rw [counting_eq_none]
    intro item found same
    obtain ⟨other, -, own⟩ := List.mem_filterMap.mp found
    obtain ⟨name, -, solid, rfl⟩ := Entry.item?_eq_some.mp own
    exact solid (same.trans empty)
  · rename_i solid
    show counting (entry.item id).id _ = some (entry.item id)
    refine counting_of_unique ?_ ?_
    · have own := Entry.item?_eq_some.mpr ⟨id, of_decide_eq_true named, solid, rfl⟩
      exact List.mem_filterMap.mpr ⟨entry, inside, own⟩
    · intro item found same
      obtain ⟨other, within, own⟩ := List.mem_filterMap.mp found
      obtain ⟨name, called, -, rfl⟩ := Entry.item?_eq_some.mp own
      have again : other ∈ entries.filter fun entry => decide (entry.id = some id) :=
        List.mem_filter.mpr ⟨within, decide_eq_true (called.trans (congrArg some same))⟩
      rw [only, List.mem_singleton] at again
      rw [again]
      exact congrArg entry.item same

end Localization.Catalog
