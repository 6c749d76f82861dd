import Localization.Proofs.FileTree.Spellings

/-
**References identify the files that they name.**

A reference is made from the components of a path. Below the project's directory these are the components
behind it, and the path comes back when they are joined to the directory. For any other path the root is one
of them, so that the slash behind a component follows the one that the root is written with.

* `Path.components_relativeTo?` — the components behind a base.
* `Path.reference_eq` — a reference from the components of its path.
* `Path.reference_below`, `Path.reference_outside` — references below the directory, and outside of it.
* `Path.reference_eq_iff` — paths that name different places have different references.
* `Path.reference_identifies` — what a reference says of its path.
-/

namespace Localization

open Text

namespace Path

variable {path other base project : Path} {parts : List (List Char)}

/-! ### Paths below a base -/

theorem length_components (absolute : path.isAbsolute = true) :
    path.components.length = (counted path.text.toList).length + 1 := by
  rw [components_eq_counted absolute, List.length_cons, List.length_map]

theorem filter_dropWhile (parts : List (List Char)) :
    (parts.dropWhile isVoid).filter (!isVoid ·) = parts.filter (!isVoid ·) := by
  induction parts with
  | nil => rfl
  | cons part rest ih =>
    by_cases void : isVoid part = true
    · rw [List.dropWhile_cons_of_pos void, ih, List.filter_cons_of_neg (by simp [void])]
    · rw [List.dropWhile_cons_of_neg void]

theorem filter_dropEnd (parts : List (List Char)) :
    (dropEnd parts).filter (!isVoid ·) = parts.filter (!isVoid ·) := by
  rw [dropEnd, List.filter_reverse, filter_dropWhile, List.filter_reverse, List.reverse_reverse]

theorem filter_dropParts (count : Nat) (parts : List (List Char)) :
    (dropParts count parts).filter (!isVoid ·) = (parts.filter (!isVoid ·)).drop count := by
  induction count generalizing parts with
  | zero => rfl
  | succ count ih =>
    rw [dropParts, ih, ← filter_dropWhile parts, Nat.add_comm, ← List.drop_drop]
    congr 1
    cases first : parts.dropWhile isVoid with
    | nil => rfl
    | cons part rest =>
      have head := List.head?_dropWhile_not isVoid parts
      rw [first] at head
      rw [List.filter_cons_of_pos (by simpa using head)]
      rfl

theorem dropParts_subset (count : Nat) (parts : List (List Char)) : dropParts count parts ⊆ parts := by
  induction count generalizing parts with
  | zero => exact List.Subset.refl parts
  | succ count ih =>
    exact fun part member => List.dropWhile_subset _ (List.drop_subset 1 _ (ih _ member))

/-- The components of the path of parts, without those at both ends that do not count. -/
theorem components_ofParts (plain : ∀ part ∈ parts, '/' ∉ part) :
    (ofParts none (dropEnd (parts.dropWhile isVoid))).components =
      (parts.filter (!isVoid ·)).map partComponent := by
  obtain ⟨void, split⟩ := (dropEnd_append (parts.dropWhile isVoid)).1
  have counts : ∀ part ∈ (dropEnd (parts.dropWhile isVoid)).head?, isVoid part = false := by
    intro part first
    have head := List.head?_dropWhile_not isVoid parts
    rw [split, List.head?_append, Option.mem_def.mp first] at head
    exact head
  have inside : ∀ part ∈ dropEnd (parts.dropWhile isVoid), '/' ∉ part := by
    intro part member
    have within := List.mem_append_left void member
    rw [← split] at within
    exact plain part (List.dropWhile_subset _ within)
  rw [(components_slashed counts inside (toList_ofParts (.inl rfl) _)).2, filter_dropEnd,
    filter_dropWhile]

/-- **The path from a base to a path below it has the components behind those of the base.** -/
theorem components_relativeTo? (rooted : base.isAbsolute = true) (absolute : path.isAbsolute = true)
    (below : base.components <+: path.components) :
    ∃ relative, path.relativeTo? base = some relative ∧
      relative.components = path.components.drop base.components.length := by
  obtain ⟨parts, components, pieces, plain⟩ := components_absolute absolute
  have start : path.start = (some .root, parts) := by
    unfold start
    rw [pieces]
    dsimp only
    rw [if_pos absolute]
  have length := length_components rooted
  generalize (counted base.text.toList).length = count at length
  refine ⟨ofParts none (dropEnd ((dropParts count parts).dropWhile isVoid)), ?_, ?_⟩
  · unfold relativeTo?
    rw [length, start]
    dsimp only
    rw [if_pos (List.isPrefixOf_iff_prefix.mpr below)]
    rfl
  · rw [components_ofParts fun part member => plain part (dropParts_subset count parts member),
      filter_dropParts, components, length, List.drop_succ_cons, List.map_drop]

/-- There is no path from a base to a path that does not lie below it. -/
theorem relativeTo?_eq_none (rooted : base.isAbsolute = true)
    (outside : ¬ base.components <+: path.components) : path.relativeTo? base = none := by
  unfold relativeTo?
  rw [length_components rooted]
  dsimp only
  rw [if_neg fun below => outside (List.isPrefixOf_iff_prefix.mp below)]

/-! ### References -/

/-- **A reference is made from the components of its path**: those behind the project's directory, or else
all of them. -/
theorem reference_eq (rooted : project.isAbsolute = true) (absolute : path.isAbsolute = true) :
    path.reference project = "/".intercalate
      ((if project.components <+: path.components then path.components.drop project.components.length
        else path.components).map Component.text) := by
  unfold reference
  split
  · rename_i below
    obtain ⟨relative, found, components⟩ := components_relativeTo? rooted absolute below
    rw [found, ← components]
    rfl
  · rename_i outside
    rw [relativeTo?_eq_none rooted outside]
    rfl

theorem toList_intercalate_text (parts : List (List Char)) :
    ("/".intercalate ((parts.map partComponent).map Component.text)).toList = slashed parts := by
  rw [String.toList_intercalate, List.map_map, List.map_map, slashed]
  congr 1
  refine (List.map_congr_left fun part _ => ?_).trans (List.map_id parts)
  rw [Function.comp_apply, Function.comp_apply, text_partComponent, String.toList_ofList]
  rfl

/-- **A reference below the project's directory is relative, and names the path from there.** -/
theorem reference_below (rooted : project.isAbsolute = true) (absolute : path.isAbsolute = true)
    (below : project.components <+: path.components) :
    (Path.mk (path.reference project)).isAbsolute = false ∧
      (project.join (path.reference project)).components = path.components := by
  have behind : path.components.drop project.components.length =
      ((counted path.text.toList).drop (counted project.text.toList).length).map partComponent := by
    rw [length_components rooted, components_eq_counted absolute, List.drop_succ_cons, List.map_drop]
  have counts : Counts ((counted path.text.toList).drop (counted project.text.toList).length) :=
    fun part member => counts_counted path.text.toList part (List.drop_subset _ _ member)
  have spelled : (path.reference project).toList =
      slashed ((counted path.text.toList).drop (counted project.text.toList).length) := by
    rw [reference_eq rooted absolute, if_pos below, behind, toList_intercalate_text]
  have relative := (components_slashed (fun part first => (counts part (List.mem_of_head? first)).1)
    (fun part member => (counts part member).2) spelled).1
  refine ⟨relative, ?_⟩
  rw [components_eq_counted (isAbsolute_join rooted _), counted_join _ relative, spelled,
    counts.counted_slashed, List.map_append, ← behind, ← List.cons_append,
    ← components_eq_counted rooted]
  exact List.prefix_iff_eq_append.mp below

/-- The plain text of an absolute path: a slash in front of each component behind the root. -/
def plainText (path : Path) : String :=
  "/" ++ "/".intercalate (path.components.tail.map Component.text)

theorem toList_plainText (absolute : path.isAbsolute = true) :
    path.plainText.toList = '/' :: slashed (counted path.text.toList) := by
  rw [plainText, String.toList_append, components_eq_counted absolute, List.tail_cons,
    toList_intercalate_text]
  rfl

/-- **A reference outside of the project's directory has one slash more than the plain text**, unless it
names the root. -/
theorem reference_outside (rooted : project.isAbsolute = true) (absolute : path.isAbsolute = true)
    (outside : ¬ project.components <+: path.components) :
    path.reference project = if path.components = [.root] then "/" else "/" ++ path.plainText := by
  rw [reference_eq rooted absolute, if_neg outside]
  split
  · rename_i root
    rw [root]
    rfl
  · rename_i named
    rw [components_eq_counted absolute] at named ⊢
    have solid : ((counted path.text.toList).map partComponent).map Component.text ≠ [] :=
      fun empty => named (by rw [List.map_eq_nil_iff.mp empty])
    refine String.toList_inj.mp ?_
    rw [String.toList_append, toList_plainText absolute, ← toList_intercalate_text]
    simp only [String.toList_intercalate, List.map_cons]
    rw [List.intercalate_cons_of_ne_nil (by simpa using solid)]
    rfl

/-- **A reference outside of the project's directory is absolute, and names the same place.** -/
theorem components_reference_outside (rooted : project.isAbsolute = true)
    (absolute : path.isAbsolute = true) (outside : ¬ project.components <+: path.components) :
    (Path.mk (path.reference project)).isAbsolute = true ∧
      (Path.mk (path.reference project)).components = path.components := by
  rw [reference_outside rooted absolute outside]
  split
  · rename_i root
    rw [root]
    exact ⟨rfl, by decide⟩
  · have text : ("/" ++ path.plainText).toList = '/' :: '/' :: slashed (counted path.text.toList) := by
      rw [String.toList_append, toList_plainText absolute]
      rfl
    have begins : (Path.mk ("/" ++ path.plainText)).isAbsolute = true := by
      rw [isAbsolute, text]
      rfl
    refine ⟨begins, ?_⟩
    rw [components_eq_counted begins, components_eq_counted absolute, text, counted_slash, counted_slash,
      (counts_counted path.text.toList).counted_slashed]

/-- Two references are equal exactly if their paths name the same place. -/
theorem reference_eq_iff (rooted : project.isAbsolute = true) (absolute : path.isAbsolute = true)
    (again : other.isAbsolute = true) :
    path.reference project = other.reference project ↔ path.components = other.components := by
  constructor
  · intro same
    by_cases below : project.components <+: path.components
    · obtain ⟨relative, back⟩ := reference_below rooted absolute below
      by_cases within : project.components <+: other.components
      · rw [← back, same]
        exact (reference_below rooted again within).2
      · have begins := (components_reference_outside rooted again within).1
        rw [← same, relative] at begins
        cases begins
    · obtain ⟨begins, back⟩ := components_reference_outside rooted absolute below
      by_cases within : project.components <+: other.components
      · have relative := (reference_below rooted again within).1
        rw [← same, begins] at relative
        cases relative
      · rw [← back, same]
        exact (components_reference_outside rooted again within).2
  · intro same
    rw [reference_eq rooted absolute, reference_eq rooted again, same]

/-- A reference outside of the project's directory is the text of its path exactly if this has one slash
more than the plain text, or is the root's. -/
theorem reference_eq_text_iff (rooted : project.isAbsolute = true) (absolute : path.isAbsolute = true)
    (outside : ¬ project.components <+: path.components) :
    path.reference project = path.text ↔
      path.text = "/" ∨ path.components ≠ [.root] ∧ path.text = "/" ++ path.plainText := by
  have root (text : path.text = "/") : path.components = [.root] := by
    rw [components_eq_counted absolute, text]
    decide
  rw [reference_outside rooted absolute outside]
  split
  · rename_i alone
    rw [eq_comm]
    exact ⟨.inl, fun either => either.resolve_right fun more => more.1 alone⟩
  · rename_i named
    rw [eq_comm]
    exact ⟨fun same => .inr ⟨named, same⟩, fun either =>
      (either.resolve_left fun text => named (root text)).2⟩

/-- **References identify the files that they name.** A reference below the project's directory is relative,
and gives the path back when it is joined to the directory. A reference outside of it is absolute and names
the same place, but it is the path's own text only if that starts with two slashes or is the root's. Paths
that name different places have different references. -/
theorem reference_identifies (rooted : project.isAbsolute = true) (absolute : path.isAbsolute = true)
    (again : other.isAbsolute = true) :
    (project.components <+: path.components →
      (Path.mk (path.reference project)).isAbsolute = false ∧
        (project.join (path.reference project)).components = path.components) ∧
      (¬ project.components <+: path.components →
        (Path.mk (path.reference project)).isAbsolute = true ∧
          (Path.mk (path.reference project)).components = path.components ∧
          (path.reference project = if path.components = [.root] then "/" else "/" ++ path.plainText) ∧
          (path.reference project = path.text ↔
            path.text = "/" ∨ path.components ≠ [.root] ∧ path.text = "/" ++ path.plainText)) ∧
      (path.reference project = other.reference project ↔ path.components = other.components) := by
  refine ⟨reference_below rooted absolute, fun outside => ?_, reference_eq_iff rooted absolute again⟩
  obtain ⟨begins, same⟩ := components_reference_outside rooted absolute outside
  exact ⟨begins, same, reference_outside rooted absolute outside,
    reference_eq_text_iff rooted absolute outside⟩

def sampleDirectory : Path := ⟨"/project"⟩

/-- A file below the directory, with a slash that does not count. -/
def innerFile : Path := ⟨"/project/Views//Index.cshtml"⟩

/-- A file outside of the directory. -/
def outerFile : Path := ⟨"/other/index.html"⟩

theorem reference_identifies_twoFiles :
    sampleDirectory.components <+: innerFile.components ∧
      ¬ sampleDirectory.components <+: outerFile.components ∧
      innerFile.reference sampleDirectory = "Views/Index.cshtml" ∧
      (sampleDirectory.join (innerFile.reference sampleDirectory)).components = innerFile.components ∧
      (Path.mk (outerFile.reference sampleDirectory)).components = outerFile.components ∧
      innerFile.reference sampleDirectory ≠ outerFile.reference sampleDirectory := by
  have below : sampleDirectory.components <+: innerFile.components := by decide
  have outside : ¬ sampleDirectory.components <+: outerFile.components := by decide
  have ofInner := @reference_identifies innerFile outerFile sampleDirectory
    (by decide) (by decide) (by decide)
  have ofOuter := @reference_identifies outerFile innerFile sampleDirectory
    (by decide) (by decide) (by decide)
  refine ⟨below, outside, by decide, (ofInner.1 below).2, (ofOuter.2.1 outside).2.1, fun same => ?_⟩
  exact absurd (ofInner.2.2.mp same) (by decide)

/-- The reference of a file outside of the directory is not the text of its path, which is plain. -/
theorem reference_outerFile_doubles :
    sampleDirectory.isAbsolute = true ∧ outerFile.isAbsolute = true ∧
      outerFile.plainText = outerFile.text ∧
      ¬ sampleDirectory.components <+: outerFile.components ∧
      outerFile.reference sampleDirectory = "//other/index.html" ∧
      outerFile.reference sampleDirectory ≠ outerFile.text := by
  decide

end Path

end Localization
