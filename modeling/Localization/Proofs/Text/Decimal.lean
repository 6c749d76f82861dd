import Localization.Text.Decimal

/-
**The number that a run of digits denotes.**

* `Decimal.foldlM_appendDigit?` — reading digit by digit gives the number that is denoted, or nothing
  once it has grown beyond 64 bits: it never shrinks again.
* `Decimal.word?_of_run` — a run of digits is read exactly if its number fits.
* `Decimal.length_digits_le` — the digits of a number are the shortest text that is read as it.
-/

namespace Localization.Text.Decimal

/-- The number denoted by what has been read and the digits that follow. -/
def valueFrom (total : Nat) (digits : List Char) : Nat :=
  digits.foldl (fun total c => total * 10 + (digit? c).getD 0) total

theorem valueFrom_cons (total : Nat) (c : Char) (rest : List Char) :
    valueFrom total (c :: rest) = valueFrom (total * 10 + (digit? c).getD 0) rest := rfl

/-- More digits make no smaller number. -/
theorem le_valueFrom (total : Nat) (digits : List Char) : total ≤ valueFrom total digits := by
  induction digits generalizing total with
  | nil => exact Nat.le_refl total
  | cons c rest ih =>
    have grown : total ≤ total * 10 + (digit? c).getD 0 := by omega
    exact Nat.le_trans grown (ih _)

theorem appendDigit?_of_isDigit {c : Char} (digit : isDigit c = true) (total : Nat) :
    appendDigit? total c =
      if total * 10 + (digit? c).getD 0 ≤ wordMax then some (total * 10 + (digit? c).getD 0)
      else none := by
  obtain ⟨size, denoted⟩ := Option.isSome_iff_exists.mp digit
  simp only [appendDigit?, denoted, Option.bind_eq_bind, Option.bind_some, Option.getD_some]

theorem foldlM_appendDigit? {digits : List Char} (run : ∀ c ∈ digits, isDigit c = true)
    {total : Nat} (fits : total ≤ wordMax) :
    digits.foldlM appendDigit? total =
      if valueFrom total digits ≤ wordMax then some (valueFrom total digits) else none := by
  induction digits generalizing total with
  | nil => exact (if_pos fits).symm
  | cons c rest ih =>
    rw [List.foldlM_cons, appendDigit?_of_isDigit (run c List.mem_cons_self), valueFrom_cons]
    by_cases still : total * 10 + (digit? c).getD 0 ≤ wordMax
    · rw [if_pos still]
      exact ih (fun d member => run d (List.mem_cons_of_mem c member)) still
    · have beyond := le_valueFrom (total * 10 + (digit? c).getD 0) rest
      rw [if_neg still, if_neg fun small => still (Nat.le_trans beyond small)]
      rfl

/-- **A run of digits is read as the number that it denotes**, where this fits 64 bits. -/
theorem word?_of_run {digits : List Char} (solid : digits ≠ [])
    (run : ∀ c ∈ digits, isDigit c = true) :
    word? digits = if value digits ≤ wordMax then some (value digits) else none := by
  have filled : digits.isEmpty = false := by simpa using solid
  rw [word?, filled]
  exact foldlM_appendDigit? run (Nat.zero_le wordMax)

/-! ### Lengths -/

theorem lt_ten_of_digit? {c : Char} {size : Nat} (read : digit? c = some size) : size < 10 := by
  obtain ⟨⟨least, most⟩, denoted⟩ := Option.ite_none_right_eq_some.mp read
  cases denoted
  simp only [Char.reduceToNat] at least most ⊢
  omega

theorem length_digits_of_lt_ten {number : Nat} (small : number < 10) : (digits number).length = 1 := by
  rw [digits, Nat.toDigits_of_lt_base small, List.length_singleton]

theorem eq_of_appendDigit? {total next : Nat} {c : Char} (appended : appendDigit? total c = some next) :
    ∃ size < 10, next = total * 10 + size := by
  obtain ⟨size, digit, within⟩ := Option.bind_eq_some_iff.mp appended
  obtain ⟨-, same⟩ := Option.ite_none_right_eq_some.mp within
  exact ⟨size, lt_ten_of_digit? digit, (Option.some.inj same).symm⟩

/-- A number becomes longer by one digit at most. -/
theorem length_digits_appendDigit? {total next : Nat} {c : Char}
    (appended : appendDigit? total c = some next) :
    (digits next).length ≤ (digits total).length + 1 := by
  obtain ⟨size, small, rfl⟩ := eq_of_appendDigit? appended
  by_cases single : total * 10 + size < 10
  · rw [length_digits_of_lt_ten single]
    exact Nat.le_add_left 1 _
  · have front : (total * 10 + size) / 10 = total := by omega
    have longer : digits (total * 10 + size) =
        digits total ++ [((total * 10 + size) % 10).digitChar] := by
      rw [digits, digits, Nat.toDigits_of_base_le (by decide) (Nat.le_of_not_lt single), front]
    exact Nat.le_of_eq (by rw [longer, List.length_append, List.length_singleton])

theorem length_digits_foldlM {text : List Char} {total number : Nat}
    (read : text.foldlM appendDigit? total = some number) :
    (digits number).length ≤ (digits total).length + text.length := by
  induction text generalizing total with
  | nil =>
    cases read
    exact Nat.le_refl _
  | cons c rest ih =>
    rw [List.foldlM_cons] at read
    obtain ⟨next, appended, later⟩ := Option.bind_eq_some_iff.mp read
    have here := length_digits_appendDigit? appended
    have behind := ih later
    rw [List.length_cons]
    omega

/-- **No text that denotes a number is shorter than its digits.** -/
theorem length_digits_le {text : List Char} {number : Nat}
    (read : unsignedWord? text = some number) : (digits number).length ≤ text.length := by
  have word {text : List Char} (read : word? text = some number) :
      (digits number).length ≤ text.length := by
    obtain ⟨solid, read⟩ := Option.ite_none_left_eq_some.mp read
    cases text with
    | nil => exact absurd rfl solid
    | cons c rest =>
      -- The first digit takes the place of the zero that reading starts with.
      rw [List.foldlM_cons] at read
      obtain ⟨next, appended, later⟩ := Option.bind_eq_some_iff.mp read
      obtain ⟨size, small, rfl⟩ := eq_of_appendDigit? appended
      have first : (digits (0 * 10 + size)).length = 1 := length_digits_of_lt_ten (by omega)
      have whole := length_digits_foldlM later
      rw [List.length_cons]
      omega
  unfold unsignedWord? at read
  split at read
  · exact Nat.le_succ_of_le (word read)
  · exact word read

end Localization.Text.Decimal
