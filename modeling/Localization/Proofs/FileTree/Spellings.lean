import Localization.Proofs.FileTree.Joined

/-
**What the components of a path say about its place.**

Without links, the components of an absolute path settle the place at which it aims. They spell the
names of that place, unless the path goes up.

* `Path.components_ofNames` — the components of names.
* `Path.counted` — the parts of a text that count; `components_eq`, `counted_join`.
* `Path.components_join` — the components of names behind a path.
* `aims_iff_components` — an absolute path aims where its components lead.
* `Aims.of_same` — two spellings of one path aim at one place.
* `Aims.components_eq` — a path that never goes up is spelled by the names of its place.
-/

namespace Localization

open Text

namespace Path

variable {path base : Path} {names : List String} {parts : List (List Char)}

/-! ### Components -/

theorem text_partComponent (part : List Char) : (partComponent part).text = String.ofList part := by
  unfold partComponent
  split
  · rename_i up
    rw [up]
    rfl
  · rfl

/-- Names count, and are components by themselves. -/
theorem map_partComponent (files : AreFileNames names) :
    ((names.map String.toList).filter (!isVoid ·)).map partComponent = names.map .normal := by
  have kept : (names.map String.toList).filter (!isVoid ·) = names.map String.toList := by
    refine List.filter_eq_self.mpr fun part member => ?_
    obtain ⟨solid, -, dot⟩ := files.part member
    simp [isVoid, solid, dot]
  rw [kept, List.map_map]
  refine List.map_congr_left fun name member => ?_
  have notUp : name.toList ≠ ['.', '.'] := fun up =>
    (files.good name member).notUp (String.toList_inj.mp up)
  rw [Function.comp_apply, partComponent, if_neg notUp, String.ofList_toList]

/-- The start of the text of parts, the first of which counts. -/
theorem start_slashed {part : List Char} {rest : List (List Char)} (counts : isVoid part = false)
    (plain : ∀ other ∈ part :: rest, '/' ∉ other) {text : String}
    (spells : text.toList = slashed (part :: rest)) :
    (Path.mk text).start = (none, part :: rest) ∧ (Path.mk text).isAbsolute = false := by
  have pieces : Text.pieces isSlash text.toList = part :: rest := by
    rw [spells, pieces_slashed (List.cons_ne_nil _ _) plain]
  simp only [isVoid, Bool.or_eq_false_iff, decide_eq_false_iff_not] at counts
  have relative : (Path.mk text).isAbsolute = false := by
    rw [isAbsolute, decide_eq_false_iff_not]
    intro slash
    obtain ⟨more, begins⟩ := List.head?_eq_some_iff.mp slash
    rw [begins, Text.pieces, if_pos (by decide)] at pieces
    exact counts.1 (List.cons.inj pieces).1.symm
  refine ⟨?_, relative⟩
  unfold start
  rw [pieces, relative]
  dsimp only
  rw [if_neg Bool.false_ne_true, if_neg counts.2]

/-- A text of parts, the first of which counts if there is any, is that of a relative path. -/
theorem components_slashed (counts : ∀ part ∈ parts.head?, isVoid part = false)
    (plain : ∀ part ∈ parts, '/' ∉ part) {text : String} (spells : text.toList = slashed parts) :
    (Path.mk text).isAbsolute = false ∧
      (Path.mk text).components = (parts.filter (!isVoid ·)).map partComponent := by
  cases parts with
  | nil =>
    obtain rfl : text = "" := String.toList_eq_nil_iff.mp spells
    exact ⟨rfl, rfl⟩
  | cons part rest =>
    obtain ⟨start, relative⟩ := start_slashed (counts part rfl) plain spells
    rw [components, start]
    exact ⟨relative, rfl⟩

/-- The components of names. -/
theorem components_ofNames (files : AreFileNames names) :
    (ofNames names).components = names.map .normal := by
  have counts : ∀ part ∈ (names.map String.toList).head?, isVoid part = false := by
    intro part first
    obtain ⟨solid, -, dot⟩ := files.part (List.mem_of_head? first)
    simp [isVoid, solid, dot]
  rw [← map_partComponent files]
  exact (components_slashed counts (fun part member => (files.part member).2.1) (toList_ofNames names)).2

/-- The components of an absolute path: the root, and parts that go up or name a file. -/
theorem components_absolute (absolute : path.isAbsolute = true) :
    ∃ parts, path.components = .root :: (parts.filter (!isVoid ·)).map partComponent ∧
      Text.pieces isSlash path.text.toList = [] :: parts ∧ ∀ part ∈ parts, '/' ∉ part := by
  have plain := (start_spelled path).2.2
  obtain ⟨more, text⟩ : ∃ more, path.text.toList = '/' :: more := by
    rw [isAbsolute, decide_eq_true_eq] at absolute
    exact List.head?_eq_some_iff.mp absolute
  have parts : Text.pieces isSlash path.text.toList = [] :: Text.pieces isSlash more := by
    rw [text, pieces, if_pos (by decide)]
  have start : path.start = (some .root, Text.pieces isSlash more) := by
    unfold Path.start
    rw [parts]
    dsimp only
    rw [if_pos absolute]
  rw [start] at plain
  refine ⟨Text.pieces isSlash more, ?_, parts, plain⟩
  rw [components, start]
  rfl

/-- The parts of a text that count. -/
def counted (text : List Char) : List (List Char) := (pieces isSlash text).filter (!isVoid ·)

/-- Parts that count, without slashes. -/
def Counts (parts : List (List Char)) : Prop := ∀ part ∈ parts, isVoid part = false ∧ '/' ∉ part

theorem counts_counted (text : List Char) : Counts (counted text) := fun part member => by
  obtain ⟨cut, counts⟩ := List.mem_filter.mp member
  refine ⟨by simpa using counts, fun slash => ?_⟩
  cases (mem_of_mem_pieces cut slash).1

theorem Counts.filter_eq_self (counts : Counts parts) : parts.filter (!isVoid ·) = parts :=
  List.filter_eq_self.mpr fun part member => by simp [(counts part member).1]

theorem counted_append (front back : List Char) :
    counted (front ++ '/' :: back) = counted front ++ counted back := by
  rw [counted, pieces_append front (by decide), List.filter_append]
  rfl

theorem counted_nil : counted [] = [] := rfl

theorem counted_slash (text : List Char) : counted ('/' :: text) = counted text :=
  counted_append [] text

/-- Parts that count come back from their text. -/
theorem Counts.counted_slashed (counts : Counts parts) : counted (slashed parts) = parts := by
  cases parts with
  | nil => rfl
  | cons part rest =>
    rw [counted, pieces_slashed (List.cons_ne_nil _ _) fun other member => (counts other member).2]
    exact counts.filter_eq_self

/-- **The components of an absolute path**: the root, and the parts that count. -/
theorem components_eq_counted (absolute : path.isAbsolute = true) :
    path.components = .root :: (counted path.text.toList).map partComponent := by
  obtain ⟨parts, components, pieces, -⟩ := components_absolute absolute
  rw [components, counted, pieces]
  rfl

/-- The start of a path is settled by its first character and its first part. -/
theorem start_fst_congr {other : Path}
    (begins : path.text.toList.head? = other.text.toList.head?)
    (first : (Text.pieces isSlash path.text.toList).head? = (Text.pieces isSlash other.text.toList).head?) :
    path.start.1 = other.start.1 := by
  have absolute : path.isAbsolute = other.isAbsolute := by rw [isAbsolute, isAbsolute, begins]
  unfold start
  rw [absolute]
  cases parts : Text.pieces isSlash path.text.toList with
  | nil => exact absurd parts (pieces_ne_nil _ _)
  | cons own rest =>
    cases others : Text.pieces isSlash other.text.toList with
    | nil => exact absurd others (pieces_ne_nil _ _)
    | cons same more =>
      rw [parts, others] at first
      obtain rfl : own = same := Option.some.inj first
      dsimp only
      split
      · rfl
      · split <;> rfl

/-- **The components of a path**: its start, and the parts that count. -/
theorem components_eq (path : Path) :
    path.components = path.start.1.toList ++ (counted path.text.toList).map partComponent := by
  rw [components, counted]
  unfold start
  cases parts : Text.pieces isSlash path.text.toList with
  | nil => exact absurd parts (pieces_ne_nil _ _)
  | cons first rest =>
    dsimp only
    split
    · rename_i absolute
      obtain ⟨inner, -, cut, -⟩ := components_absolute absolute
      obtain ⟨rfl, rfl⟩ := List.cons.inj (parts.symm.trans cut)
      rfl
    · split
      · rename_i dot
        rw [dot]
        rfl
      · rfl

/-- **What is joined to a path comes behind its parts.** -/
theorem counted_join (base : Path) {name : String} (relative : (Path.mk name).isAbsolute = false) :
    counted (base.join name).text.toList = counted base.text.toList ++ counted name.toList := by
  rw [toList_join_relative base name relative, lead]
  split
  · rename_i empty
    rw [empty]
    rfl
  · split
    · rename_i slash
      obtain ⟨front, text⟩ := List.getLast?_eq_some_iff.mp slash
      rw [text, List.append_assoc, List.singleton_append, counted_append, counted_append, counted_nil,
        List.append_nil]
    · rw [List.append_assoc, List.singleton_append, counted_append]

/-- The first part of a text is that of what stands in front of a slash. -/
theorem head?_pieces_append (front back : List Char) :
    (Text.pieces isSlash (front ++ '/' :: back)).head? = (Text.pieces isSlash front).head? := by
  rw [pieces_append front (by decide), List.head?_append]
  cases parts : Text.pieces isSlash front with
  | nil => exact absurd parts (pieces_ne_nil _ _)
  | cons first rest => rfl

/-- A path with names behind it starts as the path does. -/
theorem start_fst_join (base : Path) (files : AreFileNames names) :
    (base.join (ofNames names).text).start.1 = base.start.1 := by
  have text := toList_join_ofNames base files
  by_cases empty : base.text = ""
  · rw [lead, if_pos empty, List.nil_append] at text
    obtain ⟨part, rest, parts⟩ := List.exists_cons_of_ne_nil
      (l := names.map String.toList) (by simp [files.solid])
    rw [parts] at text
    obtain ⟨solid, -, dot⟩ := files.part (parts ▸ List.mem_cons_self)
    have own := (start_slashed (by simp [isVoid, solid, dot])
      (fun other member => (files.part (parts ▸ member)).2.1) text).1
    obtain ⟨_⟩ := base
    cases empty
    rw [own]
    rfl
  · have full : base.text.toList ≠ [] := fun none => empty (String.toList_eq_nil_iff.mp none)
    rw [lead, if_neg empty] at text
    split at text
    · rename_i slash
      obtain ⟨front, own⟩ := List.getLast?_eq_some_iff.mp slash
      rw [own, List.append_assoc, List.singleton_append] at text
      refine start_fst_congr ?_ ?_
      · rw [text, own]
        cases front <;> rfl
      · rw [text, own, head?_pieces_append, head?_pieces_append]
    · rw [List.append_assoc, List.singleton_append] at text
      refine start_fst_congr ?_ ?_
      · rw [text, List.head?_append, List.head?_eq_some_head full]
        rfl
      · rw [text, head?_pieces_append]

/-- **Names behind a path are its last components.** -/
theorem components_join (base : Path) (files : AreFileNames names) :
    (base.join (ofNames names).text).components = base.components ++ names.map .normal := by
  have behind : (counted (ofNames names).text.toList).map partComponent = names.map .normal := by
    rw [counted, pieces_ofNames files, map_partComponent files]
  have joined : counted (base.join (ofNames names).text).text.toList =
      counted base.text.toList ++ counted (ofNames names).text.toList :=
    counted_join base (isAbsolute_ofNames files)
  rw [components_eq, start_fst_join base files, joined, List.map_append, behind, ← List.append_assoc,
    ← components_eq]

end Path

namespace FileTree

variable {tree : FileTree} {path : Path} {place goal : Place}

/-! ### Aims -/

/-- Without links, dots make no difference to where parts aim. -/
theorem aimsFrom_filter (unlinked : ∀ place target, tree.get? place ≠ some (.link target))
    {parts : List String} :
    tree.AimsFrom place parts goal ↔ tree.AimsFrom place (parts.filter (· ≠ ".")) goal := by
  induction parts generalizing place with
  | nil => exact Iff.rfl
  | cons name rest ih =>
    by_cases dot : name = "."
    · rw [dot, List.filter_cons_of_neg (by simp)]
      refine ⟨fun aims => ?_, fun aims => .stay (ih.mpr aims)⟩
      generalize same : "." :: rest = all at aims
      cases aims with
      | here => cases same
      | stay later =>
        cases same
        exact ih.mp later
      | up => exact absurd (List.cons.inj same).1 (by decide)
      | jump good => exact absurd (List.cons.inj same).1.symm good.notDot
      | down good => exact absurd (List.cons.inj same).1.symm good.notDot
    · rw [List.filter_cons_of_pos (by simpa using dot)]
      constructor
      · intro aims
        cases aims with
        | stay => exact absurd rfl dot
        | up later => exact .up (ih.mp later)
        | jump _ there => exact absurd there (unlinked _ _)
        | down good noLink later => exact .down good noLink (ih.mp later)
      · intro aims
        cases aims with
        | stay => exact absurd rfl dot
        | up later => exact .up (ih.mpr later)
        | jump _ there => exact absurd there (unlinked _ _)
        | down good noLink later => exact .down good noLink (ih.mpr later)

theorem filter_dot (slash : Prop) [Decidable slash] :
    (if slash then ["."] else []).filter (· ≠ ".") = ([] : List String) := by
  split <;> rfl

/-- A slash at the end makes no difference to where a path aims. -/
theorem aims_iff_solidParts (unlinked : ∀ place target, tree.get? place ≠ some (.link target)) :
    tree.Aims path goal ↔
      tree.AimsFrom (origin path.text tree.workingDirectory) (solidParts path.text.toList) goal := by
  rw [Aims, parts_eq, aimsFrom_filter unlinked, List.filter_append, filter_dot, List.append_nil,
    ← aimsFrom_filter unlinked]

/-- The parts of an absolute path but for the dots are its components behind the root. -/
theorem filter_parts (absolute : path.isAbsolute = true) :
    (parts path.text).filter (· ≠ ".") = path.components.tail.map Component.text := by
  obtain ⟨inner, components, pieces, -⟩ := Path.components_absolute absolute
  have solid : (solidParts path.text.toList).filter (· ≠ ".") =
      (inner.filter (!Path.isVoid ·)).map String.ofList := by
    unfold solidParts
    rw [pieces, List.filter_cons_of_neg (by simp), List.filter_map, List.filter_filter]
    congr 1
    refine List.filter_congr fun part member => ?_
    have dot : String.ofList part = "." ↔ part = ['.'] :=
      ⟨fun same => by rw [← String.toList_ofList (l := part), same]; rfl, fun same => same ▸ rfl⟩
    simp [Path.isVoid, dot, Bool.and_comm]
  rw [parts_eq, List.filter_append, solid, filter_dot, List.append_nil, components, List.tail_cons,
    List.map_map]
  exact List.map_congr_left fun part _ => (Path.text_partComponent part).symm

/-- **An absolute path aims where its components lead** from the root. -/
theorem aims_iff_components (unlinked : ∀ place target, tree.get? place ≠ some (.link target))
    (absolute : path.isAbsolute = true) :
    tree.Aims path goal ↔ tree.AimsFrom [] (path.components.tail.map Component.text) goal := by
  have start : origin path.text tree.workingDirectory = [] := by
    rw [Path.isAbsolute, decide_eq_true_eq] at absolute
    exact if_pos absolute
  rw [Aims, start, aimsFrom_filter unlinked, filter_parts absolute]

/-- **Two spellings of one path aim at one place.** -/
theorem Aims.of_same (unlinked : ∀ place target, tree.get? place ≠ some (.link target))
    {other : Path} (absolute : path.isAbsolute = true) (again : other.isAbsolute = true)
    (same : path.components = other.components) (aims : tree.Aims path goal) :
    tree.Aims other goal := by
  rw [aims_iff_components unlinked again, ← same]
  exact (aims_iff_components unlinked absolute).mp aims

/-- **A path that never goes up is spelled by the names of its place.** -/
theorem Aims.components_eq (unlinked : ∀ place target, tree.get? place ≠ some (.link target))
    (absolute : path.isAbsolute = true) (straight : .parent ∉ path.components)
    (aims : tree.Aims path goal) : path.components = .root :: goal.map .normal := by
  obtain ⟨parts, components, -, plain⟩ := Path.components_absolute absolute
  rw [aims_iff_components unlinked absolute] at aims
  rw [components] at straight aims ⊢
  have texts : ((parts.filter (!Path.isVoid ·)).map Path.partComponent).map Component.text =
      (parts.filter (!Path.isVoid ·)).map String.ofList := by
    rw [List.map_map]
    exact List.map_congr_left fun part _ => Path.text_partComponent part
  have named : ∀ part ∈ parts.filter (!Path.isVoid ·),
      Path.partComponent part = .normal (String.ofList part) ∧ IsFileName (String.ofList part) := by
    intro part member
    obtain ⟨inside, counts⟩ := List.mem_filter.mp member
    have notUp : part ≠ ['.', '.'] := by
      rintro rfl
      exact straight (List.mem_cons_of_mem _ (List.mem_map_of_mem member))
    simp only [Path.isVoid, Bool.not_eq_true', Bool.or_eq_false_iff, decide_eq_false_iff_not] at counts
    refine ⟨if_neg notUp, ?_, ?_, ?_, ?_⟩
    · exact fun empty => counts.1 (by simpa using congrArg String.toList empty)
    · rw [String.toList_ofList]
      exact plain part inside
    · exact fun dot => counts.2 (by simpa using congrArg String.toList dot)
    · exact fun up => notUp (by simpa using congrArg String.toList up)
  rw [List.tail_cons, texts] at aims
  have good : ∀ name ∈ (parts.filter (!Path.isVoid ·)).map String.ofList, IsFileName name := by
    intro name member
    obtain ⟨part, inside, rfl⟩ := List.mem_map.mp member
    exact (named part inside).2
  obtain ⟨same, -⟩ := aims.of_names unlinked good
  rw [same, List.nil_append, List.map_map]
  congr 1
  exact List.map_congr_left fun part member => (named part member).1

end FileTree

end Localization
