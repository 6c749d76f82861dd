import Localization.Proofs.Text
import Localization.Proofs.Text.Decimal
import Mathlib.Data.List.Induction
import Mathlib.Data.Nat.Digits.Defs

/-
**Decimal numbers at the limit of 64 bits.**

A text is read digit by digit, and after each digit the number has to fit a word. The number never shrinks,
so it outgrows a word on the way exactly if it does so in the end. Leading zeros count for nothing.

* `Decimal.denoted` — the number that a text of digits denotes: each digit times the power of ten of its place.
* `Decimal.word?_eq_some_iff`, `Decimal.word?_eq_none_iff` — the texts that are read, as what, and the others.
* `Decimal.checkedWord?` — the same reading, calculated in words with checked operations.
* `Decimal.word?_exact` — what is read is exact, and so is every step on the way.
-/

namespace Localization.Text.Decimal

variable {text : List Char} {number : Nat} {c : Char}

/-! ### Denoted numbers -/

/-- The number that a text of digits denotes in base ten, its last digit counting once. -/
def denoted (text : List Char) : Nat :=
  Nat.ofDigits 10 (text.reverse.map fun c => c.toNat - '0'.toNat)

theorem denoted_concat (front : List Char) (c : Char) :
    denoted (front ++ [c]) = denoted front * 10 + (c.toNat - '0'.toNat) := by
  rw [denoted, List.reverse_append, List.reverse_singleton, List.singleton_append, List.map_cons,
    Nat.ofDigits_cons, Nat.add_comm, Nat.mul_comm]
  rfl

/-- Leading zeros count for nothing. -/
theorem denoted_zeros (zeros : Nat) (text : List Char) :
    denoted (List.replicate zeros '0' ++ text) = denoted text := by
  rw [denoted, List.reverse_append, List.reverse_replicate, List.map_append, List.map_replicate]
  exact Nat.ofDigits_append_replicate_zero _

theorem digit?_of_isDigit (digit : c.isDigit = true) : digit? c = some (c.toNat - '0'.toNat) :=
  if_pos (Char.isDigit_iff_toNat.mp digit)

theorem isDigit_of_digit? {size : Nat} (read : digit? c = some size) : c.isDigit = true :=
  Char.isDigit_iff_toNat.mpr (Option.ite_none_right_eq_some.mp read).1

theorem value_eq_denoted (run : ∀ c ∈ text, c.isDigit = true) : value text = denoted text := by
  induction text using List.reverseRecOn with
  | nil => rfl
  | append_singleton front c ih =>
    have last : (digit? c).getD 0 = c.toNat - '0'.toNat := by
      rw [digit?_of_isDigit (run c (by simp)), Option.getD_some]
    rw [denoted_concat, ← ih fun d member => run d (List.mem_append_left [c] member), ← last, value,
      List.foldl_append]
    rfl

/-! ### What is read -/

theorem isDigit_of_foldlM {total : Nat} (read : text.foldlM appendDigit? total = some number) :
    ∀ c ∈ text, c.isDigit = true := by
  induction text generalizing total with
  | nil => exact nofun
  | cons c rest ih =>
    rw [List.foldlM_cons] at read
    obtain ⟨next, appended, later⟩ := Option.bind_eq_some_iff.mp read
    obtain ⟨size, digit, -⟩ := Option.bind_eq_some_iff.mp appended
    exact List.forall_mem_cons.mpr ⟨isDigit_of_digit? digit, ih later⟩

/-- Reading digit by digit gives the number that is denoted, if it fits at all. -/
theorem foldlM_appendDigit?_eq_some_iff :
    text.foldlM appendDigit? 0 = some number ↔
      (∀ c ∈ text, c.isDigit = true) ∧ denoted text = number ∧ number ≤ wordMax := by
  have reads (run : ∀ c ∈ text, c.isDigit = true) : text.foldlM appendDigit? 0 =
      if denoted text ≤ wordMax then some (denoted text) else none := by
    rw [← value_eq_denoted run]
    refine foldlM_appendDigit? (fun c member => ?_) (Nat.zero_le wordMax)
    rw [isDigit, digit?_of_isDigit (run c member)]
    rfl
  constructor
  · intro read
    have run := isDigit_of_foldlM read
    rw [reads run] at read
    obtain ⟨fits, same⟩ := Option.ite_none_right_eq_some.mp read
    cases same
    exact ⟨run, rfl, fits⟩
  · rintro ⟨run, rfl, fits⟩
    rw [reads run, if_pos fits]

/-- **A text is read exactly if it consists of digits and the number that it denotes fits 64 bits.** -/
theorem word?_eq_some_iff :
    word? text = some number ↔ text ≠ [] ∧ (∀ c ∈ text, c.isDigit = true) ∧
      denoted text = number ∧ number ≤ 2 ^ 64 - 1 := by
  have limit : wordMax = 2 ^ 64 - 1 := rfl
  rw [word?, Option.ite_none_left_eq_some, foldlM_appendDigit?_eq_some_iff, List.isEmpty_iff, limit]

theorem word?_eq_none_iff :
    word? text = none ↔ text = [] ∨ (∃ c ∈ text, c.isDigit = false) ∨ 2 ^ 64 - 1 < denoted text := by
  constructor
  · intro unread
    by_contra read
    simp only [not_or, not_exists, not_and, Bool.not_eq_false, not_lt] at read
    obtain ⟨solid, run, fits⟩ := read
    cases unread.symm.trans (word?_eq_some_iff.mpr ⟨solid, run, rfl, fits⟩)
  · intro unfit
    cases read : word? text with
    | none => rfl
    | some number =>
      obtain ⟨solid, run, rfl, fits⟩ := word?_eq_some_iff.mp read
      rcases unfit with empty | ⟨c, member, other⟩ | beyond
      · exact absurd empty solid
      · rw [run c member] at other
        cases other
      · exact absurd fits (Nat.not_le_of_lt beyond)

/-! ### Words -/

/-- What words are calculated to, unless the number that is meant is too large for a word. -/
def checked? (result : UInt64) (meant : Nat) : Option UInt64 :=
  if meant ≤ wordMax then some result else none

/-- The product of two words, unless it is too large. -/
def checkedMul? (first second : UInt64) : Option UInt64 :=
  checked? (first * second) (first.toNat * second.toNat)

/-- The sum of two words, unless it is too large. -/
def checkedAdd? (first second : UInt64) : Option UInt64 :=
  checked? (first + second) (first.toNat + second.toNat)

/-- One more digit of a number in a word. -/
def appendWord? (total : UInt64) (c : Char) : Option UInt64 := do
  let digit ← digit? c
  let tens ← checkedMul? total 10
  checkedAdd? tens (UInt64.ofNat digit)

/-- Reads an unsigned number of digits alone into a word. -/
def checkedWord? (text : List Char) : Option UInt64 :=
  if text.isEmpty then none else text.foldlM appendWord? 0

variable {first second result word total next : UInt64} {meant : Nat}

theorem le_wordMax (word : UInt64) : word.toNat ≤ wordMax :=
  Nat.le_of_lt_succ word.toNat_lt

theorem exists_word {number : Nat} (fits : number ≤ wordMax) : ∃ word : UInt64, word.toNat = number :=
  ⟨UInt64.ofNat number, UInt64.toNat_ofNat_of_lt' (Nat.lt_succ_of_le fits)⟩

/-- A word that is calculated modulo its size and checked is the number that is meant. -/
theorem checked?_eq_some_iff (wraps : result.toNat = meant % 2 ^ 64) :
    checked? result meant = some word ↔ word.toNat = meant := by
  have exact (fits : meant ≤ wordMax) : result.toNat = meant :=
    wraps.trans (Nat.mod_eq_of_lt (Nat.lt_succ_of_le fits))
  rw [checked?, Option.ite_none_right_eq_some, Option.some.injEq]
  constructor
  · rintro ⟨fits, rfl⟩
    exact exact fits
  · rintro rfl
    exact ⟨le_wordMax word, UInt64.toNat_inj.mp (exact (le_wordMax word))⟩

theorem checkedMul?_eq_some_iff :
    checkedMul? first second = some word ↔ word.toNat = first.toNat * second.toNat :=
  checked?_eq_some_iff (UInt64.toNat_mul first second)

theorem checkedAdd?_eq_some_iff :
    checkedAdd? first second = some word ↔ word.toNat = first.toNat + second.toNat :=
  checked?_eq_some_iff (UInt64.toNat_add first second)

/-- **A digit is appended to a word as it is to a number.** -/
theorem appendWord?_eq_some_iff :
    appendWord? total c = some next ↔ appendDigit? total.toNat c = some next.toNat := by
  unfold appendWord? appendDigit?
  cases read : digit? c with
  | none => simp
  | some size =>
    have small : (UInt64.ofNat size).toNat = size :=
      UInt64.toNat_ofNat_of_lt' (Nat.lt_trans (lt_ten_of_digit? read) (by decide))
    simp only [Option.bind_eq_bind, Option.bind_some, Option.bind_eq_some_iff,
      checkedMul?_eq_some_iff, checkedAdd?_eq_some_iff, small, Option.ite_none_right_eq_some,
      Option.some.injEq]
    constructor
    · rintro ⟨tens, product, sum⟩
      rw [product] at sum
      exact ⟨sum ▸ le_wordMax next, sum.symm⟩
    · rintro ⟨fits, sum⟩
      obtain ⟨tens, product⟩ := exists_word (Nat.le_trans (Nat.le_add_right _ size) fits)
      exact ⟨tens, product, by rw [product, sum]⟩

/-- Words are read as numbers are. -/
theorem map_foldlM_appendWord? (text : List Char) (total : UInt64) :
    (text.foldlM appendWord? total).map UInt64.toNat = text.foldlM appendDigit? total.toNat := by
  induction text generalizing total with
  | nil => rfl
  | cons c rest ih =>
    rw [List.foldlM_cons, List.foldlM_cons]
    cases appended : appendDigit? total.toNat c with
    | none =>
      have stops : appendWord? total c = none := Option.eq_none_iff_forall_ne_some.mpr fun next goesOn =>
        absurd (appendWord?_eq_some_iff.mp goesOn) (by simp [appended])
      rw [stops]
      rfl
    | some number =>
      obtain ⟨next, rfl⟩ := exists_word (appendDigit?_le appended)
      rw [appendWord?_eq_some_iff.mpr appended]
      exact ih next

theorem map_checkedWord? (text : List Char) :
    (checkedWord? text).map UInt64.toNat = word? text := by
  unfold checkedWord? word?
  split
  · rfl
  · exact map_foldlM_appendWord? text 0

/-- The word behind a text of digits is the number that they denote. -/
theorem toNat_of_foldlM_appendWord? (read : text.foldlM appendWord? 0 = some total) :
    total.toNat = denoted text := by
  have same := map_foldlM_appendWord? text 0
  rw [read] at same
  exact (foldlM_appendDigit?_eq_some_iff.mp same.symm).2.1.symm

/-- Where a digit can be appended, the product does not wrap around. -/
theorem toNat_mul_of_appendWord? (appended : appendWord? total c = some next) :
    (total * 10).toNat = total.toNat * 10 := by
  obtain ⟨size, -, sum⟩ := eq_of_appendDigit? (appendWord?_eq_some_iff.mp appended)
  have fits : total.toNat * 10 ≤ next.toNat := sum ▸ Nat.le_add_right _ size
  rw [UInt64.toNat_mul]
  exact Nat.mod_eq_of_lt (Nat.lt_of_le_of_lt fits next.toNat_lt)

/-- **A text is read exactly if it is not empty, consists of digits, and denotes a number that fits 64 bits**,
and then as this number, whatever zeros stand before it. Words with checked operations give the same. They
never wrap around: behind each digit the word is the number that the digits so far denote, and so is the
product to which the next one is added. -/
theorem word?_exact (text : List Char) :
    (∀ number, word? text = some number ↔ text ≠ [] ∧ (∀ c ∈ text, c.isDigit = true) ∧
      denoted text = number ∧ number ≤ 2 ^ 64 - 1) ∧
    (word? text = none ↔
      text = [] ∨ (∃ c ∈ text, c.isDigit = false) ∨ 2 ^ 64 - 1 < denoted text) ∧
    (∀ zeros, denoted (List.replicate zeros '0' ++ text) = denoted text) ∧
    (checkedWord? text).map UInt64.toNat = word? text ∧
    ∀ total, text.foldlM appendWord? 0 = some total → total.toNat = denoted text ∧
      ∀ c next, appendWord? total c = some next →
        (total * 10).toNat = denoted text * 10 ∧ next.toNat = denoted (text ++ [c]) := by
  refine ⟨fun number => word?_eq_some_iff, word?_eq_none_iff, fun zeros => denoted_zeros zeros text,
    map_checkedWord? text, fun total read => ⟨toNat_of_foldlM_appendWord? read, ?_⟩⟩
  intro c next appended
  have longer : (text ++ [c]).foldlM appendWord? 0 = some next := by
    rw [List.foldlM_append, read, Option.bind_eq_bind, Option.bind_some, List.foldlM_cons, appended]
    rfl
  rw [toNat_mul_of_appendWord? appended, toNat_of_foldlM_appendWord? read]
  exact ⟨rfl, toNat_of_foldlM_appendWord? longer⟩

/-- Leading zeros before the largest number that fits, and the number behind it. -/
example : word? "00018446744073709551615".toList = some (2 ^ 64 - 1) ∧
    word? "18446744073709551616".toList = none := by
  decide +kernel

end Localization.Text.Decimal
