import Localization.Plural.Rules
import Localization.Proofs.Culture

/-
**Plural families and their formulas.**

Catalogs give the plural rule of a language as a formula in the count `n`, an expression with the operators
of C over words of 64 bits. Every family chooses its forms as the formula of its languages says, though
some of its conditions are put in another way.

* `Formula` — the formulas, with their values; `Formula.toNat_choose`, `Formula.holds_compare`.
* `Family.formula` — the formula of each family; `Family.value_formula`.
* `Provider.families_formula` — the forms that the provider of families answers with.
-/

namespace Localization.Plural

/-! ### Formulas -/

/-- How two numbers compare. -/
inductive Comparison where
  | equal
  | unequal
  | less
  | atMost
  | more
  | atLeast
  deriving DecidableEq, Repr

/-- The numbers compare in this way. -/
def Comparison.holds (left right : UInt64) : Comparison → Bool
  | equal => left == right
  | unequal => left != right
  | less => left < right
  | atMost => left ≤ right
  | more => right < left
  | atLeast => right ≤ left

/-- A formula for the form of a count. -/
inductive Formula where
  /-- The count `n`. -/
  | n
  | number (value : UInt64)
  /-- The remainder `%` of a division. -/
  | remainder (dividend divisor : Formula)
  | compare (left : Formula) (comparison : Comparison) (right : Formula)
  /-- Both conditions hold, `&&`. -/
  | both (first second : Formula)
  /-- One of the conditions holds, `||`. -/
  | either (first second : Formula)
  /-- One value or another by a condition, `? :`. -/
  | choose (condition first second : Formula)
  deriving DecidableEq, Repr

namespace Formula

instance (value : Nat) : OfNat Formula value := ⟨.number (OfNat.ofNat value)⟩

instance : Mod Formula := ⟨.remainder⟩

/-- The number that stands for a truth value. -/
def ofTruth (truth : Bool) : UInt64 := if truth then 1 else 0

/-- The value of a formula for a count. As a condition, every number but zero is true. -/
def value (count : UInt64) : Formula → UInt64
  | n => count
  | number value => value
  | remainder dividend divisor => dividend.value count % divisor.value count
  | compare left comparison right => ofTruth (comparison.holds (left.value count) (right.value count))
  | both first second => ofTruth (first.value count != 0 && second.value count != 0)
  | either first second => ofTruth (first.value count != 0 || second.value count != 0)
  | choose condition first second =>
    if condition.value count != 0 then first.value count else second.value count

/-- The formula is true as a condition. -/
def Holds (count : UInt64) (formula : Formula) : Prop := formula.value count ≠ 0

variable {count : UInt64} {first second condition : Formula}

theorem toNat_n : (n.value count).toNat = count.toNat := rfl

theorem toNat_ofNat (number : Nat) :
    ((no_index (OfNat.ofNat number) : Formula).value count).toNat = number % UInt64.size := rfl

theorem ofTruth_ne_zero {truth : Bool} : ofTruth truth ≠ 0 ↔ truth = true := by
  cases truth <;> decide

instance : Decidable (Holds count first) := inferInstanceAs (Decidable (_ ≠ _))

theorem holds_both : Holds count (.both first second) ↔ Holds count first ∧ Holds count second := by
  rw [Holds, value, ofTruth_ne_zero, Bool.and_eq_true, bne_iff_ne, bne_iff_ne]
  rfl

theorem holds_either : Holds count (.either first second) ↔ Holds count first ∨ Holds count second := by
  rw [Holds, value, ofTruth_ne_zero, Bool.or_eq_true, bne_iff_ne, bne_iff_ne]
  rfl

/-- Words compare as the numbers that they stand for. -/
theorem holds_compare {comparison : Comparison} : Holds count (.compare first comparison second) ↔
    match comparison with
    | .equal => (first.value count).toNat = (second.value count).toNat
    | .unequal => (first.value count).toNat ≠ (second.value count).toNat
    | .less => (first.value count).toNat < (second.value count).toNat
    | .atMost => (first.value count).toNat ≤ (second.value count).toNat
    | .more => (second.value count).toNat < (first.value count).toNat
    | .atLeast => (second.value count).toNat ≤ (first.value count).toNat := by
  rw [Holds, value, ofTruth_ne_zero]
  cases comparison <;>
    simp [Comparison.holds, UInt64.toNat_inj, UInt64.lt_iff_toNat_lt, UInt64.le_iff_toNat_le]

/-- A condition counts as one or zero. -/
theorem toNat_compare {comparison : Comparison} :
    ((compare first comparison second).value count).toNat =
      if Holds count (.compare first comparison second) then 1 else 0 := by
  unfold Holds value
  cases comparison.holds (first.value count) (second.value count) <;> rfl

theorem toNat_choose : ((choose condition first second).value count).toNat =
    if Holds count condition then (first.value count).toNat else (second.value count).toNat := by
  simp only [value, bne_iff_ne, Holds]
  exact apply_ite UInt64.toNat ..

theorem toNat_remainder :
    ((first % second).value count).toNat = (first.value count).toNat % (second.value count).toNat :=
  UInt64.toNat_mod ..

end Formula

namespace Family

open Formula

/-- The formula of the languages of a family. -/
def formula : Family → Formula
  | single => 0
  -- n!=1
  | germanic => .compare n .unequal 1
  -- n>1
  | french => .compare n .more 1
  -- n%10==1 && n%100!=11 ? 0 : n%10>=2 && n%10<=4 && (n%100<10 || n%100>=20) ? 1 : 2
  | eastSlavic =>
    .choose (.both (.compare (n % 10) .equal 1) (.compare (n % 100) .unequal 11)) 0
      (.choose (.both (.both (.compare (n % 10) .atLeast 2) (.compare (n % 10) .atMost 4))
        (.either (.compare (n % 100) .less 10) (.compare (n % 100) .atLeast 20))) 1 2)
  -- n==1 ? 0 : n%10>=2 && n%10<=4 && (n%100<10 || n%100>=20) ? 1 : 2
  | polish =>
    .choose (.compare n .equal 1) 0
      (.choose (.both (.both (.compare (n % 10) .atLeast 2) (.compare (n % 10) .atMost 4))
        (.either (.compare (n % 100) .less 10) (.compare (n % 100) .atLeast 20))) 1 2)
  -- n==1 ? 0 : n>=2 && n<=4 ? 1 : 2
  | westSlavic =>
    .choose (.compare n .equal 1) 0 (.choose (.both (.compare n .atLeast 2) (.compare n .atMost 4)) 1 2)
  -- n==1 ? 0 : n==2 ? 1 : n>2 && n<7 ? 2 : n>6 && n<11 ? 3 : 4
  | irish =>
    .choose (.compare n .equal 1) 0 (.choose (.compare n .equal 2) 1
      (.choose (.both (.compare n .more 2) (.compare n .less 7)) 2
        (.choose (.both (.compare n .more 6) (.compare n .less 11)) 3 4)))
  -- n==0 ? 0 : n==1 ? 1 : n==2 ? 2 : n%100>=3 && n%100<=10 ? 3 : n%100>=11 ? 4 : 5
  | arabic =>
    .choose (.compare n .equal 0) 0 (.choose (.compare n .equal 1) 1 (.choose (.compare n .equal 2) 2
      (.choose (.both (.compare (n % 100) .atLeast 3) (.compare (n % 100) .atMost 10)) 3
        (.choose (.compare (n % 100) .atLeast 11) 4 5))))
  -- n%10==1 && n%100!=11 ? 0 : n%10>=2 && (n%100<10 || n%100>=20) ? 1 : 2
  | lithuanian =>
    .choose (.both (.compare (n % 10) .equal 1) (.compare (n % 100) .unequal 11)) 0
      (.choose (.both (.compare (n % 10) .atLeast 2)
        (.either (.compare (n % 100) .less 10) (.compare (n % 100) .atLeast 20))) 1 2)
  -- n%10==1 && n%100!=11 ? 0 : n!=0 ? 1 : 2
  | latvian =>
    .choose (.both (.compare (n % 10) .equal 1) (.compare (n % 100) .unequal 11)) 0
      (.choose (.compare n .unequal 0) 1 2)
  -- n==1 ? 0 : n==0 || (n%100>0 && n%100<20) ? 1 : 2
  | romanian =>
    .choose (.compare n .equal 1) 0
      (.choose (.either (.compare n .equal 0)
        (.both (.compare (n % 100) .more 0) (.compare (n % 100) .less 20))) 1 2)
  -- n%100==1 ? 0 : n%100==2 ? 1 : n%100==3 || n%100==4 ? 2 : 3
  | slovenian =>
    .choose (.compare (n % 100) .equal 1) 0 (.choose (.compare (n % 100) .equal 2) 1
      (.choose (.either (.compare (n % 100) .equal 3) (.compare (n % 100) .equal 4)) 2 3))

theorem endsInOne_iff {number : Nat} :
    endsInOne number = true ↔ number % 10 = 1 ∧ number % 100 ≠ 11 := by
  simp [endsInOne]

/-- Of the numbers from ten to nineteen, those from twelve to fourteen alone end in two to four. -/
theorem isFew_iff {number : Nat} : isFew number = true ↔
    (2 ≤ number % 10 ∧ number % 10 ≤ 4) ∧ (number % 100 < 10 ∨ 20 ≤ number % 100) := by
  simp only [isFew, Bool.and_eq_true, Bool.or_eq_true, decide_eq_true_eq]
  omega

/-- **A family chooses its forms by its formula.** -/
theorem value_formula (family : Family) (count : UInt64) :
    (family.formula.value count).toNat = family.form count.toNat := by
  cases family <;>
    simp only [formula, form, toNat_choose, toNat_compare, holds_both, holds_either, holds_compare,
      toNat_remainder, toNat_ofNat, toNat_n, endsInOne_iff, isFew_iff, UInt64.size, Nat.reduceMod]
  all_goals (repeat' split) <;> omega

/-- **The family of a culture** is told by the spelling that names are compared in. -/
theorem ofCulture?_congr {culture other : String}
    (same : Culture.normalize other = Culture.normalize culture) :
    ofCulture? other = ofCulture? culture := by
  have language : Culture.language other = Culture.language culture :=
    String.ext (by rw [Culture.toList_language, Culture.toList_language, same])
  rw [ofCulture?, ofCulture?, same, language]

end Family

namespace Provider

/-- The absolute value of a count, which a word holds for the least count as well. -/
def absolute (count : Int64) : UInt64 := UInt64.ofNat count.toInt.natAbs

theorem toNat_absolute (count : Int64) : (absolute count).toNat = count.toInt.natAbs := by
  have least : -2 ^ 63 ≤ count.toInt := count.le_toInt
  have most : count.toInt < 2 ^ 63 := count.toInt_lt
  have size : UInt64.size = 2 ^ 64 := rfl
  rw [absolute, UInt64.toNat_ofNat_of_lt' (by omega)]

/-- **The provider of families answers with the formulas.** For every culture and count of 64 bits it
answers what the formula of the culture's family gives for the absolute count, which is one of the family's
forms, and it answers the same for every spelling of the culture. -/
theorem families_formula (culture : String) (count : Int64) :
    (absolute count).toNat = count.toInt.natAbs ∧
      families.form? culture count.toInt =
        (Family.ofCulture? culture).map (fun family => (family.formula.value (absolute count)).toNat) ∧
      (∀ family ∈ Family.ofCulture? culture,
        (family.formula.value (absolute count)).toNat < family.forms) ∧
      ∀ other, Culture.normalize other = Culture.normalize culture →
        families.form? other count.toInt = families.form? culture count.toInt := by
  refine ⟨toNat_absolute count, ?_, fun family _ => ?_, fun other same => ?_⟩
  · simp only [families, Family.value_formula, toNat_absolute]
  · rw [Family.value_formula]
    exact family.form_lt_forms _
  · simp only [families, Family.ofCulture?_congr same]

/-- The least count in two spellings of Brazilian Portuguese, which counts like French. -/
theorem families_formula_brazilian :
    Culture.normalize "PT-br" = Culture.normalize "pt_BR" ∧
      families.form? "pt_BR" Int64.minValue.toInt =
        some (Family.french.formula.value (absolute Int64.minValue)).toNat ∧
      families.form? "PT-br" Int64.minValue.toInt = some 1 := by
  have same : Culture.normalize "PT-br" = Culture.normalize "pt_BR" := by decide +kernel
  have family : Family.ofCulture? "pt_BR" = some .french := by decide +kernel
  obtain ⟨-, answer, -, spelled⟩ := families_formula "pt_BR" Int64.minValue
  rw [family] at answer
  exact ⟨same, answer, (spelled "PT-br" same).trans (answer.trans (by decide +kernel))⟩

end Provider

end Localization.Plural
