import Localization.Proofs.Message.Identifiers
import Mathlib.Data.List.Basic

/-
**Messages in which no identifier is left.**

An identifier whose number fits 64 bits becomes a placeholder, and nothing else of a message changes. What
comes out has no such identifier any more: no percent sign that stays is followed by digits, unless by all
those of a number that is too large.

* `Message.Identifies` — such an identifier stands in a message; `Reads.identifies_iff`, as one of its pieces.
* `Message.normalizeChars_eq_self_iff` — exactly the messages without one stay as they are.
* `Message.not_identifies_normalizeChars` — normalizing leaves none.
* `Message.normalize_exact` — what normalizing does, and that it is done at once.
-/

namespace Localization.Message

open Text

/-- An identifier stands in a message: a percent sign and all the digits behind it, at least one, of a
number that fits 64 bits. -/
def Identifies (message : List Char) : Prop :=
  ∃ front digits back, message = front ++ '%' :: (digits ++ back) ∧ digits ≠ [] ∧
    (∀ c ∈ digits, Decimal.isDigit c = true) ∧ Digitless back ∧
    Decimal.value digits ≤ Decimal.wordMax

variable {message front digits back rest : List Char} {pieces : List Piece} {piece : Piece}

theorem place?_isSome_iff :
    (Piece.identifier digits).place?.isSome = true ↔ Decimal.value digits ≤ Decimal.wordMax := by
  simp [Piece.place?]

theorem percent_not_mem_run (run : ∀ c ∈ digits, Decimal.isDigit c = true) : '%' ∉ digits :=
  fun member => absurd (run '%' member) (by decide)

/-- A percent sign behind a run of digits stands behind all of them. -/
theorem exists_of_run_append (run : ∀ c ∈ digits, Decimal.isDigit c = true)
    (same : digits ++ rest = front ++ '%' :: back) :
    ∃ between, rest = between ++ '%' :: back := by
  rcases List.append_eq_append_iff.mp same with ⟨between, -, ends⟩ | ⟨between, inside, ends⟩
  · exact ⟨between, ends⟩
  · cases between with
    | nil => exact ⟨[], ends.symm⟩
    | cons c others =>
      obtain ⟨rfl, -⟩ := List.cons.inj ends
      exact absurd (inside ▸ List.mem_append_right front List.mem_cons_self)
        (percent_not_mem_run run)

/-- **The identifiers of a message are pieces of it.** -/
theorem Reads.identifies_iff (reads : Reads message pieces) :
    Identifies message ↔ ∃ piece ∈ pieces, piece.place?.isSome = true := by
  induction reads with
  | done =>
    constructor
    · rintro ⟨front, digits, back, same, -⟩
      cases front <;> cases same
    · rintro ⟨piece, member, -⟩
      cases member
  | @char c rest pieces alone later ih =>
    have head : (Piece.char c).place?.isSome = false := rfl
    simp only [List.mem_cons, exists_eq_or_imp, head, Bool.false_eq_true, false_or, ← ih]
    constructor
    · rintro ⟨front, digits, back, same, solid, run, whole, fits⟩
      cases front with
      | nil =>
        obtain ⟨rfl, rfl⟩ := List.cons.inj same
        exact absurd (alone rfl) (not_digitless_run solid run)
      | cons d others => exact ⟨others, digits, back, (List.cons.inj same).2, solid, run, whole, fits⟩
    · rintro ⟨front, digits, back, rfl, identifier⟩
      exact ⟨c :: front, digits, back, rfl, identifier⟩
  | @identifier own rest pieces solid run whole later ih =>
    simp only [List.mem_cons, exists_eq_or_imp, place?_isSome_iff, ← ih]
    constructor
    · rintro ⟨front, digits, back, same, some, all, ends, fits⟩
      cases front with
      | nil =>
        have text := (List.cons.inj same).2
        have equal : own = digits := by
          rw [← whole.takeWhile run, text, ends.takeWhile all]
        subst equal
        exact .inl fits
      | cons c others =>
        obtain ⟨between, rfl⟩ := exists_of_run_append run (List.cons.inj same).2
        exact .inr ⟨between, digits, back, rfl, some, all, ends, fits⟩
    · rintro (fits | ⟨front, digits, back, rfl, identifier⟩)
      · exact ⟨[], own, rest, rfl, solid, run, whole, fits⟩
      · exact ⟨'%' :: (own ++ front), digits, back, by simp, identifier⟩

/-! ### Messages that stay as they are -/

/-- A piece that names an argument loses its percent sign. -/
theorem count_percent_template (piece : Piece) :
    piece.template.count '%' + (if piece.place?.isSome then 1 else 0) ≤ piece.source.count '%' := by
  cases names : piece.place? with
  | none => simp [Piece.template_of_unnamed names]
  | some place =>
    have marks : '%' ∉ piece.template := by
      rw [Piece.template_of_place? names]
      simp [not_mem_digits (c := '%') (by decide)]
    have percent : '%' ∈ piece.source := by
      cases piece with
      | char c => cases names
      | identifier digits => exact List.mem_cons_self
    rw [List.count_eq_zero.mpr marks]
    simpa using List.count_pos_iff.mpr percent

theorem count_percent_templates (pieces : List Piece) :
    (pieces.flatMap Piece.template).count '%' + pieces.countP (·.place?.isSome) ≤
      (pieces.flatMap Piece.source).count '%' := by
  induction pieces with
  | nil => exact Nat.le_refl 0
  | cons piece others ih =>
    have here := count_percent_template piece
    simp only [List.flatMap_cons, List.count_append, List.countP_cons]
    omega

/-- **A message stays as it is exactly if no identifier stands in it.** -/
theorem normalizeChars_eq_self_iff : normalizeChars message = message ↔ ¬ Identifies message := by
  obtain ⟨pieces, reads⟩ := exists_reads message
  rw [reads.identifies_iff, normalizeChars_of_reads reads]
  constructor
  · rintro same ⟨piece, member, named⟩
    have fewer := count_percent_templates pieces
    have some : 0 < pieces.countP (·.place?.isSome) := List.countP_pos_iff.mpr ⟨piece, member, named⟩
    rw [same, reads.source] at fewer
    omega
  · intro unnamed
    rw [← reads.source]
    refine List.flatMap_congr fun piece member => Piece.template_of_unnamed ?_
    simpa using fun named => unnamed ⟨piece, member, named⟩

/-! ### What comes out -/

/-- Characters other than percent signs are pieces by themselves. -/
theorem Reads.plain_append {text : List Char} (plain : '%' ∉ text) (later : Reads rest pieces) :
    Reads (text ++ rest) (text.map Piece.char ++ pieces) := by
  induction text with
  | nil => exact later
  | cons c others ih =>
    rw [List.mem_cons, not_or] at plain
    exact .char (fun percent => absurd percent.symm plain.1) (ih plain.2)

/-- What comes out of a message starts with a digit only if the message does. -/
theorem Reads.digitless_templates (reads : Reads message pieces) (whole : Digitless message) :
    Digitless (pieces.flatMap Piece.template) := by
  cases reads with
  | done => exact whole
  | char alone later => exact whole
  | @identifier digits rest pieces solid run ends later =>
    rw [List.flatMap_cons]
    cases names : (Piece.identifier digits).place? with
    | none =>
      rw [Piece.template_of_unnamed names]
      rintro c ⟨⟩
      decide
    | some place =>
      rw [Piece.template_of_place? names]
      rintro c ⟨⟩
      decide

/-- What comes out has pieces that name no argument. -/
theorem Reads.exists_unnamed (reads : Reads message pieces) :
    ∃ settled, Reads (pieces.flatMap Piece.template) settled ∧
      ∀ piece ∈ settled, piece.place? = none := by
  induction reads with
  | done => exact ⟨[], .done, nofun⟩
  | @char c rest pieces alone later ih =>
    obtain ⟨settled, read, unnamed⟩ := ih
    exact ⟨.char c :: settled, .char (fun percent => later.digitless_templates (alone percent)) read,
      List.forall_mem_cons.mpr ⟨rfl, unnamed⟩⟩
  | @identifier digits rest pieces solid run whole later ih =>
    obtain ⟨settled, read, unnamed⟩ := ih
    rw [List.flatMap_cons]
    cases names : (Piece.identifier digits).place? with
    | none =>
      rw [Piece.template_of_unnamed names]
      exact ⟨.identifier digits :: settled,
        .identifier solid run (later.digitless_templates whole) read,
        List.forall_mem_cons.mpr ⟨names, unnamed⟩⟩
    | some place =>
      have plain : '%' ∉ (Piece.identifier digits).template := by
        rw [Piece.template_of_place? names]
        simp [not_mem_digits (c := '%') (by decide)]
      refine ⟨_, read.plain_append plain, fun piece member => ?_⟩
      rcases List.mem_append.mp member with char | other
      · obtain ⟨c, -, rfl⟩ := List.mem_map.mp char
        rfl
      · exact unnamed piece other

/-- **Normalizing leaves no identifier in a message.** -/
theorem not_identifies_normalizeChars (message : List Char) :
    ¬ Identifies (normalizeChars message) := by
  obtain ⟨pieces, reads⟩ := exists_reads message
  obtain ⟨settled, read, unnamed⟩ := reads.exists_unnamed
  rw [normalizeChars_of_reads reads, read.identifies_iff]
  rintro ⟨piece, member, named⟩
  rw [unnamed piece member] at named
  cases named

/-- **Normalizing puts a placeholder in the place of every identifier whose number fits 64 bits**, with this
number in decimal, and leaves all else in its place and order. It leaves a message alone exactly if no such
identifier stands in it, and to normalize again changes nothing. -/
theorem normalize_exact (message : String) :
    (∃ pieces, Reads message.toList pieces ∧
      (∀ others, Reads message.toList others → others = pieces) ∧
      (normalize message).toList = pieces.flatMap Piece.template) ∧
    (normalize message = message ↔ ¬ Identifies message.toList) ∧
    normalize (normalize message) = normalize message := by
  obtain ⟨pieces, reads⟩ := exists_reads message.toList
  have same (message : String) :
      normalize message = message ↔ normalizeChars message.toList = message.toList := by
    rw [normalize, ← String.toList_inj, String.toList_ofList]
  refine ⟨⟨pieces, reads, fun others again => (reads.unique again).symm, ?_⟩, ?_, ?_⟩
  · rw [normalize, String.toList_ofList, normalizeChars_of_reads reads]
  · rw [same, normalizeChars_eq_self_iff]
  · rw [same, normalizeChars_eq_self_iff, normalize, String.toList_ofList]
    exact not_identifies_normalizeChars message.toList

/-- A percent sign before an identifier, a leading zero, and a number beyond 64 bits. -/
example : normalize "%%01%99999999999999999999%2" = "%{1}%99999999999999999999{2}" := by
  decide +kernel

end Localization.Message
