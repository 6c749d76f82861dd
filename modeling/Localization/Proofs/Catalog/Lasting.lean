import Localization.Proofs.Catalog.Remerging

/-
**Items whose text lasts.**

What is read of a written item may differ from the item, and then its text may differ too when it is
written once more: blanks at the end of a comment are lost, and marks around a path are dropped.

* `LastingItem` — items whose comments and references are read back as they are written.
* `itemLines_rereadItem_iff`, `body_rereadItems_iff` — the text of an item, and of all items, is the
  same after it was read exactly if the items are lasting.
* `render_congr` — the text of a catalog depends on its header and on the lines of its items.
-/

namespace Localization

open Text

namespace Catalog

/-! ### Lasting items -/

/-- An item whose comments and references are read back as they are written. -/
structure LastingItem (item : Item) : Prop where
  comments : ∀ comment ∈ item.comments, IsComment comment
  extracted : ∀ comment ∈ item.extracted, IsComment comment
  references : rereadReferences item.references.keys = item.references

instance (item : Item) : Decidable (LastingItem item) :=
  decidable_of_iff ((∀ comment ∈ item.comments, IsComment comment) ∧
      (∀ comment ∈ item.extracted, IsComment comment) ∧
      rereadReferences item.references.keys = item.references)
    ⟨fun ⟨comments, extracted, references⟩ => ⟨comments, extracted, references⟩,
      fun lasting => ⟨lasting.comments, lasting.extracted, lasting.references⟩⟩

/-- **The lines of a lasting item are the same after it was read.** -/
theorem LastingItem.itemLines_rereadItem {item : Item} (lasting : LastingItem item) :
    itemLines (rereadItem item) = itemLines item := by
  have settled : rereadItem item = settledItem item := by
    rw [settledItem, rereadItem, map_rereadComment lasting.extracted, lasting.references]
  rw [settled, itemLines_settledItem lasting.comments]

theorem commentLine_inj {mark : List Char} {first second : String}
    (same : commentLine mark first = commentLine mark second) : first = second := by
  unfold commentLine at same
  split at same
  · split at same
    · rename_i empty blank
      rw [empty, blank]
    · simp at same
  · split at same
    · simp at same
    · exact String.toList_inj.mp (List.cons.inj (List.append_cancel_left same)).2

/-- A comment whose line is the same after it was read has no blank at its end. -/
theorem trimmed_of_commentLine {mark : List Char} {comment : String}
    (same : commentLine mark (rereadComment comment) = commentLine mark comment) :
    trimEnd comment.toList = comment.toList := by
  have kept := congrArg String.toList (commentLine_inj same)
  rwa [rereadComment, String.toList_ofList] at kept

theorem digits_inj {first second : Nat} (same : Decimal.digits first = Decimal.digits second) :
    first = second := by
  rw [← Nat.ofDigitChars_ten_toDigits (n := first), ← Nat.ofDigitChars_ten_toDigits (n := second)]
  exact congrArg (Nat.ofDigitChars 10 · 0) same

/-- What stands before the number of a line. -/
theorem append_digits_inj {front other : List Char} {first second : Nat}
    (same : front ++ ':' :: Decimal.digits first = other ++ ':' :: Decimal.digits second) :
    front = other ∧ first = second := by
  have clean (number : Nat) : ∀ c ∈ Decimal.digits number, decide (c = ':') = false := by
    intro c member
    rw [decide_eq_false_iff_not]
    rintro rfl
    exact Reference.colon_not_mem_digits number member
  have parts := congrArg (cutLast (· = ':')) same
  rw [cutLast_append front (by decide) (clean first), cutLast_append other (by decide) (clean second),
    Option.some.injEq, Prod.mk.injEq] at parts
  exact ⟨parts.1, digits_inj parts.2⟩

/-- **References are told apart by what is written for them.** -/
theorem referenceChars_inj {first second : Reference}
    (same : referenceChars first = referenceChars second) : first = second := by
  -- A blank shows whether the path is isolated.
  have blanks (place : Reference) :
      (referenceChars place).any isBlank = place.path.toList.any isBlank := by
    have line : (':' :: Decimal.digits place.line).any isBlank = false :=
      List.any_eq_false.mpr fun c member => by simp [Reference.not_isBlank_of_mem_line member]
    have marks : isBlank isolateStart = false ∧ isBlank isolateEnd = false := by decide
    unfold referenceChars Reference.chars
    split
    · rename_i blank
      rw [List.any_cons, List.any_append, blank, marks.1]
      rfl
    · rw [List.any_append, line, Bool.or_false]
  have alike : first.path.toList.any isBlank = second.path.toList.any isBlank := by
    rw [← blanks first, same, blanks second]
  have parts : first.path.toList = second.path.toList ∧ first.line = second.line := by
    unfold referenceChars at same
    rw [alike] at same
    split at same
    · have isolated (place : Reference) :
          place.path.toList ++ isolateEnd :: ':' :: Decimal.digits place.line =
            (place.path.toList ++ [isolateEnd]) ++ ':' :: Decimal.digits place.line := by simp
      have inner := (List.cons.inj same).2
      rw [isolated, isolated] at inner
      obtain ⟨paths, lines⟩ := append_digits_inj inner
      exact ⟨List.append_cancel_right paths, lines⟩
    · exact append_digits_inj same
  cases first
  cases second
  simp only [String.toList_inj] at parts
  rw [parts.1, parts.2]

/-- The texts of an item that stand below its comments are the same after it was read. -/
theorem keywordLines_rereadItem (item : Item) :
    stringLines (markOf (rereadItem item)) .id (rereadItem item).id ++ localizedLines (rereadItem item) =
      stringLines (markOf item) .id item.id ++ localizedLines item := by
  -- The comments do not matter here, so they may be left out.
  let bare : Item := { item with comments := [] }
  have kept : itemLines (settledItem bare) = itemLines bare :=
    itemLines_settledItem (List.forall_mem_nil _)
  have above : commentLines (settledItem bare) = commentLines bare := rfl
  rw [itemLines, itemLines, above, List.append_assoc, List.append_assoc] at kept
  exact List.append_cancel_left kept

/-- **The lines of an item are the same after it was read exactly if it is lasting.** -/
theorem itemLines_rereadItem_iff {item : Item} (legible : LegibleItem item) :
    itemLines (rereadItem item) = itemLines item ↔ LastingItem item := by
  refine ⟨fun same => ?_, LastingItem.itemLines_rereadItem⟩
  have comments : commentLines (rereadItem item) = commentLines item := by
    rw [itemLines, itemLines, List.append_assoc, List.append_assoc, keywordLines_rereadItem] at same
    exact List.append_cancel_right same
  have flags : flagLines (rereadItem item) = flagLines item := rfl
  rw [commentLines, commentLines, flags] at comments
  have kinds := List.append_cancel_right comments
  rw [List.append_assoc, List.append_assoc] at kinds
  obtain ⟨translators, others⟩ := List.append_inj kinds (by simp [rereadItem])
  obtain ⟨extracted, places⟩ := List.append_inj others (by simp [rereadItem])
  have trimmed {mark : List Char} {texts : List String}
      (lines : (texts.map rereadComment).map (commentLine mark) = texts.map (commentLine mark)) :
      ∀ comment ∈ texts, trimEnd comment.toList = comment.toList := by
    rw [List.map_map] at lines
    exact fun comment member => trimmed_of_commentLine (List.map_inj_left.mp lines comment member)
  have keys : (rereadReferences item.references.keys).keys = item.references.keys := by
    exact (List.map_inj_right fun first second equal =>
      referenceChars_inj (List.append_cancel_left equal)).mp places
  exact
    { comments := fun comment member => ⟨legible.comments comment member, trimmed translators comment member⟩
      extracted := fun comment member => ⟨legible.extracted comment member, trimmed extracted comment member⟩
      references := by
        rw [← SortedSet.ofList_keys (rereadReferences item.references.keys), keys, SortedSet.ofList_keys] }

/-! ### The items of a file -/

/-- Texts in paragraphs are told apart paragraph by paragraph. -/
theorem paragraphs_inj {α : Type} {blocks : List α} {first second : α → List (List Char)}
    (firstSolid : ∀ block ∈ blocks, [] ∉ first block) (secondSolid : ∀ block ∈ blocks, [] ∉ second block)
    (same : (blocks.flatMap fun block => [] :: first block) = blocks.flatMap fun block => [] :: second block) :
    ∀ block ∈ blocks, first block = second block := by
  induction blocks with
  | nil => exact List.forall_mem_nil _
  | cons block rest ih =>
    -- A paragraph reaches up to the blank line of the next one.
    have until_blank {lines : List (List Char)} (solid : [] ∉ lines) (text : α → List (List Char)) :
        (lines ++ rest.flatMap fun block => [] :: text block).takeWhile (· ≠ []) = lines := by
      have all : ∀ line ∈ lines, decide (line ≠ []) = true := fun line member => by
        rw [decide_eq_true_iff]
        rintro rfl
        exact solid member
      rw [List.takeWhile_append_of_pos all]
      cases rest <;> simp
    rw [List.flatMap_cons, List.flatMap_cons, List.cons_append, List.cons_append] at same
    have lines := (List.cons.inj same).2
    have here : first block = second block := by
      have cut := congrArg (List.takeWhile (· ≠ [])) lines
      rwa [until_blank (firstSolid block List.mem_cons_self),
        until_blank (secondSolid block List.mem_cons_self)] at cut
    rw [here] at lines
    have later := ih (fun other member => firstSolid other (List.mem_cons_of_mem block member))
      (fun other member => secondSolid other (List.mem_cons_of_mem block member))
      (List.append_cancel_left lines)
    exact List.forall_mem_cons.mpr ⟨here, later⟩

theorem stringLines_solid (mark : List Char) (keyword : Keyword) (text : String) :
    [] ∉ stringLines mark keyword text := by
  unfold stringLines
  split <;> simp [Quoted.quote]

theorem formLines_solid (mark : List Char) (index : Nat) (forms : List String) :
    [] ∉ formLines mark index forms := by
  induction forms generalizing index with
  | nil => exact List.not_mem_nil
  | cons form rest ih =>
    rw [formLines, List.mem_append]
    exact fun member => member.elim (stringLines_solid mark (.form index) form) (ih (index + 1))

/-- No line of an item is blank. -/
theorem itemLines_solid (item : Item) : [] ∉ itemLines item := by
  have comment {mark : List Char} (solid : mark ≠ []) (text : String) : commentLine mark text ≠ [] := by
    unfold commentLine
    split <;> simp [solid]
  intro member
  rw [itemLines, commentLines] at member
  simp only [List.mem_append, List.mem_map] at member
  rcases member with ((((⟨text, -, empty⟩ | ⟨text, -, empty⟩) | ⟨place, -, empty⟩) | flag) | id) | localized
  · exact comment (by simp) text empty
  · exact comment (by simp) text empty
  · simp at empty
  · unfold flagLines at flag
    split at flag <;> simp at flag
  · exact stringLines_solid _ _ _ id
  · unfold localizedLines at localized
    split at localized
    · exact stringLines_solid _ _ _ localized
    · exact (List.mem_append.mp localized).elim (stringLines_solid _ _ _) (formLines_solid _ _ _)

/-- The lines of items that stand on lines. -/
theorem body_of_legible {items : Items} (legible : ∀ item ∈ items.values, LegibleItem item) :
    body items = (writtenItems items).flatMap fun item => [] :: itemLines item := by
  rw [body, List.flatMap_def, List.flatMap_def]
  refine congrArg List.flatten (List.map_congr_left fun item member => ?_)
  rw [flatMap_cutLines (legible item (mem_writtenItems.mp member)).newline_not_mem]

/-- **The lines of all items are the same after they were read exactly if all items are lasting.** -/
theorem body_rereadItems_iff {items : Items} (keyed : items.Keyed)
    (legible : ∀ item ∈ items.values, LegibleItem item) :
    body (rereadItems items) = body items ↔ ∀ item ∈ items.values, LastingItem item := by
  have whole : (⟨.empty, items⟩ : Catalog).Legible := ⟨keyed, List.forall_mem_nil _, legible⟩
  have again : body (rereadItems items) =
      (writtenItems items).flatMap fun item => [] :: itemLines (rereadItem item) := by
    have legible : ∀ item ∈ (rereadItems items).values, LegibleItem item := fun item member =>
      (whole.tidy_reread.items item member).legible
    rw [body_of_legible legible, writtenItems_mapValues (f := rereadItem) items fun _ => rfl, List.flatMap_map]
  rw [again, body_of_legible legible]
  constructor
  · intro same item member
    have lines := paragraphs_inj (fun other _ => itemLines_solid (rereadItem other))
      (fun other _ => itemLines_solid other) same item (mem_writtenItems.mpr member)
    exact (itemLines_rereadItem_iff (legible item member)).mp lines
  · intro lasting
    rw [List.flatMap_def, List.flatMap_def]
    refine congrArg List.flatten (List.map_congr_left fun item member => ?_)
    rw [(lasting item (mem_writtenItems.mp member)).itemLines_rereadItem]

/-! ### Texts of the same lines -/

/-- The lines into which newlines cut a line are written as the line is. -/
theorem flatMap_cutLines_newline (line : List Char) :
    (cutLines line).flatMap (· ++ ['\n']) = line ++ ['\n'] := by
  induction line with
  | nil => rfl
  | cons c rest ih =>
    rw [cutLines, pieces]
    split
    · rename_i newline
      rw [List.flatMap_cons, ih, of_decide_eq_true newline]
      rfl
    · split
      · rename_i none
        exact absurd none (pieces_ne_nil _ rest)
      · rename_i first others parts
        rw [cutLines, parts, List.flatMap_cons] at ih
        rw [List.flatMap_cons, List.cons_append, List.cons_append, ih]
        rfl

theorem renderChars_eq (catalog : Catalog) :
    catalog.renderChars =
      ((headerLines catalog.header).flatMap cutLines ++ body catalog.items).flatMap (· ++ ['\n']) := by
  have whole (lines : List (List Char)) :
      (lines.flatMap cutLines).flatMap (· ++ ['\n']) = lines.flatMap (· ++ ['\n']) := by
    rw [List.flatMap_assoc]
    simp only [flatMap_cutLines_newline]
  rw [renderChars, ← whole, cutLines_lines]
  rfl

/-- **The text of a catalog depends on its header and on the lines of its items.** -/
theorem render_congr {first second : Catalog} (header : first.header = second.header)
    (items : body first.items = body second.items) : render first = render second := by
  rw [render, render, renderChars_eq, renderChars_eq, header, items]

end Catalog

end Localization
