import Localization.Plural.Family

/-
**Plural rules: which form of a message a count takes in a culture.**

* `Provider` — a source of rules that answers for some cultures.
* `Rules.form` — the answer of the first provider that has one, else one form for the count one and
  a second form for the rest.
-/

namespace Localization.Plural

/-- A source of plural rules: the form of a count in a culture, where the source knows it. -/
structure Provider where
  form? : (culture : String) → (count : Int) → Option Nat

namespace Provider

/-- The families of languages. -/
def families : Provider where
  form? culture count := (Family.ofCulture? culture).map (·.form count.natAbs)

/-- One fixed form for each of the listed cultures, spelled exactly so. -/
def fixed (forms : List (String × Nat)) : Provider where
  form? culture _ := forms.lookup culture

end Provider

/-- Providers in the order in which they are asked. -/
structure Rules where
  providers : List Provider

namespace Rules

/-- The rules that ask nobody. -/
def fallbackOnly : Rules := ⟨[]⟩

/-- The rules that know the families of languages. -/
def standard : Rules := ⟨[.families]⟩

/-- The form of a count where no provider has an answer. -/
def fallbackForm (count : Int) : Nat :=
  if count = 1 then 0 else 1

/-- The index of the plural form of a count in a culture. -/
def form (rules : Rules) (culture : String) (count : Int) : Nat :=
  (rules.providers.findSome? (·.form? culture count)).getD (fallbackForm count)

end Rules

end Localization.Plural
