import Localization.Path
import Localization.SortedMap

/-
**The order of paths.**

* `Component.before_irrefl`, `before_trans`, `before_connected` — components are in a strict order.
* `Path.componentsBefore_trans`, `componentsBefore_connected` — so are lists of them.
* `Path.pairwise_mergeSort` — sorted paths are in order.
* `Path.sortDistinct_sorted` — paths in order; each place is named once.
-/

namespace Localization

namespace Component

theorem before_iff {first second : Component} :
    first.before second = true ↔
      first.rank < second.rank ∨ first.rank = second.rank ∧ first.text < second.text := by
  simp [before]

theorem before_irrefl (component : Component) : component.before component = false := by
  simp [before]

theorem before_trans {first second third : Component} (here : first.before second = true)
    (there : second.before third = true) : first.before third = true := by
  rw [before_iff] at here there ⊢
  rcases here with rank | ⟨rank, text⟩
  · rcases there with next | ⟨next, -⟩
    · exact .inl (Nat.lt_trans rank next)
    · exact .inl (next ▸ rank)
  · rcases there with next | ⟨next, further⟩
    · exact .inl (rank ▸ next)
    · exact .inr ⟨rank.trans next, String.lt_trans text further⟩

/-- Components of one kind with one text are equal. -/
theorem ext_rank {first second : Component} (rank : first.rank = second.rank)
    (text : first.text = second.text) : first = second := by
  cases first <;> cases second <;> simp_all [Component.rank, Component.text]

theorem before_connected {first second : Component} (different : first ≠ second) :
    first.before second = true ∨ second.before first = true := by
  rw [before_iff, before_iff]
  rcases Nat.lt_trichotomy first.rank second.rank with less | rank | more
  · exact .inl (.inl less)
  · by_cases text : first.text < second.text
    · exact .inl (.inr ⟨rank, text⟩)
    · by_cases back : second.text < first.text
      · exact .inr (.inr ⟨rank.symm, back⟩)
      · exact absurd (ext_rank rank (StrictOrder.connected text back)) different
  · exact .inr (.inl more)

end Component

namespace Path

theorem componentsBefore_irrefl (components : List Component) :
    componentsBefore components components = false := by
  induction components with
  | nil => rfl
  | cons first rest ih => rw [componentsBefore, if_pos rfl, ih]

theorem componentsBefore_trans {first second third : List Component}
    (here : componentsBefore first second = true) (there : componentsBefore second third = true) :
    componentsBefore first third = true := by
  induction first generalizing second third with
  | nil =>
    cases second with
    | nil => cases here
    | cons head rest =>
      cases third with
      | nil => cases there
      | cons other others => rfl
  | cons head rest ih =>
    cases second with
    | nil => cases here
    | cons other others =>
      cases third with
      | nil => cases there
      | cons last lasts =>
        rw [componentsBefore] at here there ⊢
        by_cases same : head = other
        · rw [if_pos same] at here
          subst same
          by_cases next : head = last
          · rw [if_pos next] at there ⊢
            exact ih here there
          · rw [if_neg next] at there ⊢
            exact there
        · rw [if_neg same] at here
          by_cases next : other = last
          · subst next
            rw [if_neg same]
            exact here
          · rw [if_neg next] at there
            have through := Component.before_trans here there
            rw [if_neg]
            · exact through
            · rintro rfl
              rw [Component.before_irrefl] at through
              cases through

theorem componentsBefore_connected {first second : List Component} (different : first ≠ second) :
    componentsBefore first second = true ∨ componentsBefore second first = true := by
  induction first generalizing second with
  | nil =>
    cases second with
    | nil => exact absurd rfl different
    | cons other others => exact .inl rfl
  | cons head rest ih =>
    cases second with
    | nil => exact .inr rfl
    | cons other others =>
      rw [componentsBefore, componentsBefore]
      by_cases same : head = other
      · subst same
        rw [if_pos rfl, if_pos rfl]
        exact ih fun equal => different (congrArg _ equal)
      · rw [if_neg same, if_neg (Ne.symm same)]
        exact Component.before_connected same

/-- A path is not before another: it names the same place or a later one. -/
theorem not_before_iff {first second : Path} :
    (!second.before first) = true ↔
      first.components = second.components ∨ first.before second = true := by
  rw [Bool.not_eq_true', before, before]
  constructor
  · intro notLater
    by_cases same : first.components = second.components
    · exact .inl same
    · refine .inr ((componentsBefore_connected same).resolve_right ?_)
      rw [notLater]
      exact Bool.false_ne_true
  · rintro (same | earlier)
    · rw [same, componentsBefore_irrefl]
    · refine Bool.eq_false_iff.mpr fun later => ?_
      have around := componentsBefore_trans earlier later
      rw [componentsBefore_irrefl] at around
      cases around

theorem before_trans {first second third : Path} (here : first.before second = true)
    (there : second.before third = true) : first.before third = true :=
  componentsBefore_trans here there

/-- Paths of which none is before an earlier one are each before the next when they are made
distinct. -/
theorem distinct_sorted {paths : List Path}
    (sorted : paths.Pairwise fun first second => (!second.before first) = true) :
    (sortDistinct.distinct paths).Pairwise (fun first second => first.before second = true) ∧
      ∀ path ∈ sortDistinct.distinct paths, path ∈ paths := by
  induction paths with
  | nil => exact ⟨.nil, nofun⟩
  | cons path rest ih =>
    obtain ⟨least, others⟩ := List.pairwise_cons.mp sorted
    obtain ⟨strict, known⟩ := ih others
    rw [sortDistinct.distinct]
    cases found : sortDistinct.distinct rest with
    | nil =>
      refine ⟨List.pairwise_singleton _ _, fun other member => ?_⟩
      rw [List.mem_singleton.mp member]
      exact List.mem_cons_self
    | cons next more =>
      rw [found] at strict known
      obtain ⟨nextFirst, moreStrict⟩ := List.pairwise_cons.mp strict
      dsimp only
      by_cases same : path.same next = true
      · have place : path.components = next.components := of_decide_eq_true same
        rw [if_pos same]
        refine ⟨List.pairwise_cons.mpr ⟨fun other member => ?_, moreStrict⟩, ?_⟩
        · rw [before, place]
          exact nextFirst other member
        · exact List.forall_mem_cons.mpr ⟨List.mem_cons_self, fun other member =>
            List.mem_cons_of_mem path (known other (List.mem_cons_of_mem next member))⟩
      · rw [if_neg same]
        have front : path.before next = true :=
          (not_before_iff.mp (least next (known next List.mem_cons_self))).resolve_left
            fun place => same (decide_eq_true place)
        refine ⟨List.pairwise_cons.mpr ⟨List.forall_mem_cons.mpr ⟨front, fun other member => ?_⟩,
          strict⟩, ?_⟩
        · exact before_trans front (nextFirst other member)
        · exact List.forall_mem_cons.mpr ⟨List.mem_cons_self, fun other member =>
            List.mem_cons_of_mem path (known other member)⟩

/-- Sorted paths are in order. -/
theorem pairwise_mergeSort (paths : List Path) :
    (paths.mergeSort fun first second => !second.before first).Pairwise
      fun first second => (!second.before first) = true := by
  refine List.pairwise_mergeSort (fun first second third here there => ?_) (fun first second => ?_) paths
  · rw [not_before_iff] at here there ⊢
    rcases here with same | earlier
    · rw [before, same]
      exact there
    · rcases there with same | next
      · rw [before, ← same]
        exact .inr earlier
      · exact .inr (before_trans earlier next)
  · rw [Bool.or_eq_true, not_before_iff, not_before_iff]
    by_cases same : first.components = second.components
    · exact .inl (.inl same)
    · rcases componentsBefore_connected same with earlier | later
      · exact .inl (.inr earlier)
      · exact .inr (.inr later)

/-- Paths of which none is before the other name the same place. -/
theorem components_eq_of_not_before {first second : Path} (here : (!second.before first) = true)
    (there : (!first.before second) = true) : first.components = second.components := by
  refine (not_before_iff.mp here).resolve_right fun earlier => ?_
  rw [earlier] at there
  cases there

/-- **Paths in order: each is before the next, and all are given ones.** -/
theorem sortDistinct_sorted (paths : List Path) :
    (sortDistinct paths).Pairwise (fun first second => first.before second = true) ∧
      ∀ path ∈ sortDistinct paths, path ∈ paths := by
  obtain ⟨strict, known⟩ := distinct_sorted (pairwise_mergeSort paths)
  exact ⟨strict, fun path member => List.mem_mergeSort.mp (known path member)⟩

end Path

end Localization
