import Localization.Scan.Lines

/-
**Lines are counted right, in whatever order offsets are asked for.**

* `Text.lineNumber` — the line of an offset, counted from the start of the text.
* `LineCounter.Counts` — a counter stands at the line that it says; `counts_start`, `Counts.moveTo`.
* `Counts.lineAt` — the line of an offset, wherever the counter stood before.
-/

namespace Localization

open Text

namespace Text

/-- The line of an offset, one more than there are line ends in front of it. -/
def lineNumber (text : List Char) (target : Nat) : Nat :=
  1 + (splitBytes target text).1.count '\n'

theorem splitBytes_zero (text : List Char) : (splitBytes 0 text).1 = [] := by
  cases text <;> rfl

theorem splitBytes_cons {target : Nat} (positive : 0 < target) (c : Char) (rest : List Char) :
    (splitBytes target (c :: rest)).1 = c :: (splitBytes (target - c.utf8Size) rest).1 := by
  rw [splitBytes, if_neg (Nat.ne_of_gt positive)]

/-- What ends in front of an offset starts there. -/
theorem splitBytes_append {before : List Char} {target : Nat} (passed : byteLength before ≤ target)
    (rest : List Char) :
    (splitBytes target (before ++ rest)).1 =
      before ++ (splitBytes (target - byteLength before) rest).1 := by
  induction before generalizing target with
  | nil => rfl
  | cons c others ih =>
    have size := c.utf8Size_pos
    rw [byteLength_cons] at passed ⊢
    rw [List.cons_append, splitBytes_cons (by omega), ih (by omega), Nat.sub_sub, List.cons_append]

theorem splitBytes_starts (target : Nat) (text : List Char) : (splitBytes target text).1 <+: text := by
  induction text generalizing target with
  | nil => exact List.prefix_rfl
  | cons c rest ih =>
    rcases Nat.eq_zero_or_pos target with rfl | positive
    · exact List.nil_prefix
    · rw [splitBytes_cons positive]
      exact (List.prefix_cons_inj c).mpr (ih _)

/-- There are no more lines than characters, and one. -/
theorem lineNumber_le (text : List Char) (target : Nat) : lineNumber text target ≤ text.length + 1 := by
  have shorter := (splitBytes_starts target text).length_le
  have counted := List.count_le_length (a := '\n') (l := (splitBytes target text).1)
  unfold lineNumber
  omega

end Text

namespace LineCounter

variable {text : List Char} {counter : LineCounter}

/-- The counter stands in the text at its offset, and in the line that it says. -/
structure Counts (text : List Char) (counter : LineCounter) : Prop where
  same : counter.text = text
  place : ∃ before, text = before ++ counter.rest ∧ counter.offset = byteLength before ∧
    counter.line = 1 + before.count '\n'

theorem counts_start (text : List Char) : Counts text (.start text) :=
  ⟨rfl, [], rfl, rfl, rfl⟩

/-- Going on through a rest passes what starts there in front of the target. -/
theorem advance_passes (text : List Char) (target offset line : Nat) (rest : List Char) :
    let passed := (splitBytes (target - offset) rest).1
    let moved := advance text target offset line rest
    moved.text = text ∧ rest = passed ++ moved.rest ∧ moved.offset = offset + byteLength passed ∧
      moved.line = line + passed.count '\n' := by
  induction rest generalizing offset line with
  | nil => exact ⟨rfl, rfl, rfl, rfl⟩
  | cons c rest ih =>
    rw [advance]
    by_cases before : offset < target
    · rw [if_pos before, splitBytes_cons (Nat.sub_pos_of_lt before), Nat.sub_sub]
      obtain ⟨same, split, place, lines⟩ := ih (offset + c.utf8Size) (if c = '\n' then line + 1 else line)
      refine ⟨same, congrArg (c :: ·) split, ?_, ?_⟩
      · rw [place, byteLength_cons, Nat.add_assoc]
      · rw [lines, List.count_cons]
        by_cases newline : c = '\n'
        · rw [if_pos newline, if_pos (by simpa using newline)]
          omega
        · rw [if_neg newline, if_neg (by simpa using newline), Nat.add_zero]
    · rw [if_neg before, Nat.sub_eq_zero_of_le (Nat.not_lt.mp before), splitBytes_zero]
      exact ⟨rfl, rfl, rfl, rfl⟩

/-- **A counter that is moved stands at the line of the target**, wherever it stood before. -/
theorem Counts.moveTo (counts : Counts text counter) (target : Nat) :
    Counts text (counter.moveTo target) ∧ (counter.moveTo target).line = lineNumber text target := by
  obtain ⟨same, before, split, place, lines⟩ := counts
  unfold LineCounter.moveTo lineNumber
  rw [same]
  by_cases back : target < counter.offset
  · rw [if_pos back]
    obtain ⟨own, rest, there, line⟩ := advance_passes text target 0 1 text
    rw [Nat.zero_add] at there
    exact ⟨⟨own, _, rest, there, line⟩, line⟩
  · rw [if_neg back]
    obtain ⟨own, rest, there, line⟩ := advance_passes text target counter.offset counter.line counter.rest
    have passed := splitBytes_append (place ▸ Nat.not_lt.mp back) counter.rest
    rw [← split, ← place] at passed
    refine ⟨⟨own, (splitBytes target text).1, ?_, ?_, ?_⟩, ?_⟩
    · rw [passed, List.append_assoc, ← rest, ← split]
    · rw [there, passed, byteLength_append, place]
    · rw [line, passed, List.count_append, lines, Nat.add_assoc]
    · rw [line, passed, List.count_append, lines, Nat.add_assoc]

/-- The line of an offset is counted from the start of the text. -/
theorem Counts.lineAt (counts : Counts text counter) (target : Nat) :
    (counter.lineAt target).1 = lineNumber text target ∧ Counts text (counter.lineAt target).2 :=
  ⟨(counts.moveTo target).2, (counts.moveTo target).1⟩

end LineCounter

end Localization
