import Localization.FileTree.Walk
import Localization.Proofs.FileTree.Parents

/-
**Paths of names below a directory.**

Names are joined to a directory by slashes, and come back as the path that is relative to it.

* `AreFileNames` — names of files, one below the other.
* `Path.ofNames` — the relative path of names; `ofNames_inj`.
* `Path.toList_join_ofNames`, `join_join`, `below_eq_join` — names that are joined to a path.
* `Path.relativeTo?_join` — the names below an absolute path come back.
-/

namespace Localization

open Text

/-! ### Relative paths of names -/

/-- Names of files, one below the other. -/
structure AreFileNames (names : List String) : Prop where
  solid : names ≠ []
  good : ∀ name ∈ names, FileTree.IsFileName name

namespace AreFileNames

variable {name : String} {names : List String}

theorem singleton (good : FileTree.IsFileName name) : AreFileNames [name] :=
  ⟨List.cons_ne_nil _ _, fun _ member => List.mem_singleton.mp member ▸ good⟩

theorem part (files : AreFileNames names) {part : List Char} (member : part ∈ names.map String.toList) :
    part ≠ [] ∧ '/' ∉ part ∧ part ≠ ['.'] := by
  obtain ⟨name, inside, rfl⟩ := List.mem_map.mp member
  have good := files.good name inside
  exact ⟨fun empty => good.solid (String.toList_eq_nil_iff.mp empty), good.plain,
    fun dot => good.notDot (String.toList_inj.mp dot)⟩

end AreFileNames

namespace Path

variable {base : Path} {name : String} {names : List String}

/-- The relative path of names. -/
def ofNames (names : List String) : Path := ⟨String.ofList (slashed (names.map String.toList))⟩

theorem ofNames_singleton (name : String) : ofNames [name] = ⟨name⟩ := by
  rw [ofNames, List.map_singleton, slashed_singleton, String.ofList_toList]

theorem toList_ofNames (names : List String) :
    (ofNames names).text.toList = slashed (names.map String.toList) := String.toList_ofList

/-- Parts without slashes are the pieces of their text. -/
theorem pieces_slashed {parts : List (List Char)} (solid : parts ≠ [])
    (plain : ∀ part ∈ parts, '/' ∉ part) : pieces isSlash (slashed parts) = parts := by
  have whole {part : List Char} (clean : '/' ∉ part) : pieces isSlash part = [part] := by
    refine pieces_of_clean fun c member => ?_
    rw [isSlash, beq_eq_false_iff_ne]
    rintro rfl
    exact clean member
  induction parts with
  | nil => exact absurd rfl solid
  | cons part rest ih =>
    by_cases last : rest = []
    · rw [last, slashed_singleton, whole (plain part List.mem_cons_self)]
    · rw [slashed_cons part last, pieces_append part (by decide), whole (plain part List.mem_cons_self),
        ih last fun other member => plain other (List.mem_cons_of_mem part member)]
      rfl

theorem pieces_ofNames (files : AreFileNames names) :
    pieces isSlash (ofNames names).text.toList = names.map String.toList := by
  rw [toList_ofNames]
  exact pieces_slashed (by simp [files.solid]) fun part member => (files.part member).2.1

/-- The path of names starts with a name. -/
theorem isAbsolute_ofNames (files : AreFileNames names) : (ofNames names).isAbsolute = false := by
  have parts := pieces_ofNames files
  rw [isAbsolute, decide_eq_false_iff_not]
  intro slash
  cases text : (ofNames names).text.toList with
  | nil =>
    rw [text] at slash
    cases slash
  | cons c rest =>
    rw [text] at slash parts
    cases slash
    rw [pieces, if_pos (by decide)] at parts
    exact (files.part (parts ▸ List.mem_cons_self)).1 rfl

/-- The path of names ends with a name. -/
theorem getLast?_ofNames (files : AreFileNames names) :
    (ofNames names).text.toList.getLast? ≠ some '/' := by
  rw [toList_ofNames]
  obtain ⟨front, last, split⟩ := (List.eq_nil_or_concat _).resolve_left
    (fun empty => files.solid (List.map_eq_nil_iff.mp empty))
  rw [List.concat_eq_append] at split
  have own := files.part (split ▸ List.mem_append_right front List.mem_cons_self)
  rw [split, getLast?_slashed own.1]
  exact fun slash => own.2.1 (List.mem_of_getLast? slash)

theorem ofNames_inj {others : List String} (files : AreFileNames names) (more : AreFileNames others)
    (same : ofNames names = ofNames others) : names = others := by
  have parts := pieces_ofNames files
  rw [same, pieces_ofNames more] at parts
  exact (List.map_inj_right fun _ _ => String.toList_inj.mp).mp parts.symm

/-! ### Joined paths -/

/-- What stands in front of a relative name that is joined to a path. -/
def lead (base : Path) : List Char :=
  if base.text = "" then []
  else if base.text.toList.getLast? = some '/' then base.text.toList
  else base.text.toList ++ ['/']

theorem toList_join_relative (base : Path) (name : String)
    (relative : (Path.mk name).isAbsolute = false) :
    (base.join name).text.toList = base.lead ++ name.toList := by
  unfold join lead
  rw [relative, if_neg Bool.false_ne_true]
  by_cases empty : base.text = ""
  · simp [empty]
  · by_cases slash : base.text.toList.getLast? = some '/'
    · simp [empty, slash]
    · simp [empty, slash]

theorem isAbsolute_join {base : Path} (absolute : base.isAbsolute = true) (name : String) :
    (base.join name).isAbsolute = true := by
  by_cases other : (Path.mk name).isAbsolute = true
  · rw [join, if_pos other]
    exact other
  · have text := toList_join_relative base name (Bool.eq_false_iff.mpr other)
    rw [isAbsolute, decide_eq_true_eq] at absolute ⊢
    obtain ⟨rest, begins⟩ := List.head?_eq_some_iff.mp absolute
    have solid : base.text ≠ "" := by
      intro empty
      rw [empty] at begins
      cases begins
    rw [text, lead, if_neg solid, begins]
    split <;> rfl

theorem toList_join_ofNames (base : Path) (files : AreFileNames names) :
    (base.join (ofNames names).text).text.toList = base.lead ++ slashed (names.map String.toList) := by
  rw [toList_join_relative base (ofNames names).text (isAbsolute_ofNames files), toList_ofNames]

/-- What is joined to a name comes behind a slash. -/
theorem lead_join (base : Path) (good : FileTree.IsFileName name) :
    (base.join name).lead = base.lead ++ (name.toList ++ ['/']) := by
  have single := toList_join_ofNames base (.singleton good)
  rw [ofNames_singleton, List.map_singleton, slashed_singleton] at single
  have full : name.toList ≠ [] := fun empty => good.solid (String.toList_eq_nil_iff.mp empty)
  have solid : (base.join name).text ≠ "" := by
    intro empty
    rw [empty] at single
    exact full (List.append_eq_nil_iff.mp single.symm).2
  have closed : (base.join name).text.toList.getLast? ≠ some '/' := by
    rw [single, List.getLast?_append, List.getLast?_eq_some_getLast full, Option.some_or]
    exact fun slash => good.plain (Option.some.inj slash ▸ List.getLast_mem full)
  rw [lead, if_neg solid, if_neg closed, single, List.append_assoc]

theorem join_join (base : Path) (good : FileTree.IsFileName name) (files : AreFileNames names) :
    (base.join name).join (ofNames names).text = base.join (ofNames (name :: names)).text := by
  have all : AreFileNames (name :: names) :=
    ⟨List.cons_ne_nil _ _, List.forall_mem_cons.mpr ⟨good, files.good⟩⟩
  have text : ((base.join name).join (ofNames names).text).text.toList =
      (base.join (ofNames (name :: names)).text).text.toList := by
    rw [toList_join_ofNames _ files, toList_join_ofNames _ all, lead_join base good, List.map_cons,
      slashed_cons _ (by simp [files.solid]), List.append_assoc, List.append_assoc]
    rfl
  generalize (base.join name).join (ofNames names).text = first at text ⊢
  generalize base.join (ofNames (name :: names)).text = second at text ⊢
  exact congrArg Path.mk (String.toList_inj.mp text)

/-- The path of the names below a start is joined from the names. -/
theorem below_eq_join (base : Path) (files : AreFileNames names) :
    FileTree.below base names = base.join (ofNames names).text := by
  have step {rest : List String} {start : Path} {name : String} (all : AreFileNames (name :: rest)) :
      FileTree.below start (name :: rest) = start.join (ofNames (name :: rest)).text := by
    induction rest generalizing start name with
    | nil =>
      rw [ofNames_singleton]
      rfl
    | cons next others ih =>
      have tail : AreFileNames (next :: others) :=
        ⟨List.cons_ne_nil _ _, fun other member => all.good other (List.mem_cons_of_mem name member)⟩
      rw [← join_join start (all.good name List.mem_cons_self) tail, ← ih tail]
      rfl
  cases names with
  | nil => exact absurd rfl files.solid
  | cons name rest => exact step files

/-- What comes in front of the parts that count, they and what does not count. -/
theorem dropParts_append (lead behind : List (List Char)) :
    (dropParts (lead.filter (!isVoid ·)).length (lead ++ behind)).dropWhile isVoid =
      behind.dropWhile isVoid := by
  induction lead with
  | nil => rfl
  | cons part rest ih =>
    by_cases void : isVoid part = true
    · rw [List.filter_cons_of_neg (by simp [void])]
      cases count : (rest.filter (!isVoid ·)).length with
      | zero =>
        rw [count] at ih
        rw [dropParts, List.cons_append, List.dropWhile_cons_of_pos void]
        exact ih
      | succ number =>
        rw [count] at ih
        rw [dropParts] at ih ⊢
        rw [List.cons_append, List.dropWhile_cons_of_pos void]
        exact ih
    · rw [List.filter_cons_of_pos (by simp [void]), List.length_cons, dropParts, List.cons_append,
        List.dropWhile_cons_of_neg void]
      exact ih

/-- The start of an absolute path with names behind it. -/
theorem start_join (absolute : base.isAbsolute = true) (files : AreFileNames names) :
    ∃ front tail, base.start = (some .root, front ++ tail) ∧ (∀ part ∈ tail, isVoid part = true) ∧
      (base.join (ofNames names).text).start = (some .root, front ++ names.map String.toList) := by
  have parts : pieces isSlash (slashed (names.map String.toList)) = names.map String.toList :=
    pieces_slashed (by simp [files.solid]) fun part member => (files.part member).2.1
  have whole := toList_join_ofNames base files
  have begins {path : Path} (more : List Char) (text : path.text.toList = '/' :: more) :
      path.start = (some .root, pieces isSlash more) := by
    unfold start isAbsolute
    rw [text, pieces, if_pos (by decide)]
    rfl
  obtain ⟨more, text⟩ : ∃ more, base.text.toList = '/' :: more := by
    rw [isAbsolute, decide_eq_true_eq] at absolute
    exact List.head?_eq_some_iff.mp absolute
  have solid : base.text ≠ "" := by
    intro empty
    rw [empty] at text
    cases text
  unfold lead at whole
  rw [if_neg solid, text] at whole
  by_cases slash : ('/' :: more).getLast? = some '/'
  · rw [if_pos slash] at whole
    rcases List.eq_nil_or_concat more with rfl | ⟨front, last, rfl⟩
    · refine ⟨[], [[]], begins _ text, by decide, ?_⟩
      rw [begins (slashed (names.map String.toList)) whole, parts]
      rfl
    · rw [List.concat_eq_append] at slash text whole
      obtain rfl : last = '/' := by
        rw [← List.cons_append, List.getLast?_concat] at slash
        exact Option.some.inj slash
      refine ⟨pieces isSlash front, [[]], ?_, by decide, ?_⟩
      · rw [begins _ text, pieces_append front (by decide)]
        rfl
      · rw [begins (front ++ '/' :: slashed (names.map String.toList)) (by simp [whole]),
          pieces_append front (by decide), parts]
  · rw [if_neg slash] at whole
    refine ⟨pieces isSlash more, [], ?_, List.forall_mem_nil _, ?_⟩
    · rw [begins _ text, List.append_nil]
    · rw [begins (more ++ '/' :: slashed (names.map String.toList)) (by simp [whole]),
        pieces_append more (by decide), parts]

/-- **The names below an absolute path come back.** -/
theorem relativeTo?_join (absolute : base.isAbsolute = true) (files : AreFileNames names) :
    (base.join (ofNames names).text).relativeTo? base = some (ofNames names) := by
  obtain ⟨front, tail, start, void, joined⟩ := start_join absolute files
  have counted (part : List Char) (member : part ∈ names.map String.toList) : isVoid part = false := by
    obtain ⟨solid, -, dot⟩ := files.part member
    simp [isVoid, solid, dot]
  have none : tail.filter (!isVoid ·) = [] :=
    List.filter_eq_nil_iff.mpr fun part member => by simp [void part member]
  have components : base.components = .root :: (front.filter (!isVoid ·)).map partComponent := by
    rw [components, start, List.filter_append, none, List.append_nil]
    rfl
  have length : base.components.length = (front.filter (!isVoid ·)).length + 1 := by
    rw [components, List.length_cons, List.length_map]
  have inside : base.components.isPrefixOf (base.join (ofNames names).text).components = true := by
    rw [List.isPrefixOf_iff_prefix, components, Path.components, joined, List.filter_append,
      List.map_append]
    exact List.prefix_append _ _
  have kept : (names.map String.toList).dropWhile isVoid = names.map String.toList := by
    cases parts : names.map String.toList with
    | nil => rfl
    | cons part rest =>
      exact List.dropWhile_cons_of_neg (by simp [counted part (parts ▸ List.mem_cons_self)])
  have ends : dropEnd (names.map String.toList) = names.map String.toList := by
    unfold dropEnd
    cases parts : (names.map String.toList).reverse with
    | nil => exact (List.reverse_eq_nil_iff.mp parts).symm
    | cons part rest =>
      have own := counted part (List.mem_reverse.mp (parts ▸ List.mem_cons_self))
      rw [List.dropWhile_cons_of_neg (by simp [own]), ← parts, List.reverse_reverse]
  unfold relativeTo?
  rw [length, joined]
  dsimp only
  rw [if_pos inside, Option.isSome_some, if_pos rfl, dropParts_append, kept, ends]
  rfl

end Path

end Localization
