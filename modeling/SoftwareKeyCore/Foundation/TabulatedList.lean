import Mathlib

/-!
# Tabulated lists

A list of a size as the table of a sequence (`tabulate`). A list is the table of its entries
(`tabulate_getD`), and replacing an entry of a table updates the sequence (`set_tabulate`). A loop
that replaces entries is so a computation with sequences.
-/

set_option autoImplicit false
set_option relaxedAutoImplicit false

namespace SoftwareKeyCore.TabulatedList

variable {α β : Type} {size : ℕ}

/-- The list of the first values of a sequence. -/
def tabulate (size : ℕ) (values : ℕ → α) : List α :=
  (List.range size).map values

@[simp] theorem length_tabulate (values : ℕ → α) : (tabulate size values).length = size := by
  simp [tabulate]

theorem getElem?_tabulate (values : ℕ → α) {index : ℕ} (hindex : index < size) :
    (tabulate size values)[index]? = some (values index) := by
  simp [tabulate, hindex]

/-- Replacing an entry updates the sequence. -/
theorem set_tabulate (values : ℕ → α) (index : ℕ) (value : α) :
    (tabulate size values).set index value =
      tabulate size (Function.update values index value) := by
  apply List.ext_getElem?
  intro other
  by_cases hother : other < size
  · rw [List.getElem?_set, getElem?_tabulate _ hother, getElem?_tabulate _ hother, length_tabulate,
      Function.update_apply]
    by_cases hsame : index = other
    · rw [if_pos hsame, if_pos (by rwa [hsame]), if_pos hsame.symm]
    · rw [if_neg hsame, if_neg (Ne.symm hsame)]
  · rw [List.getElem?_eq_none (by simpa using hother),
      List.getElem?_eq_none (by simpa using hother)]

/-- Only the first values matter. -/
theorem tabulate_congr {first second : ℕ → α}
    (hvalues : ∀ index < size, first index = second index) :
    tabulate size first = tabulate size second :=
  List.map_congr_left fun index hindex ↦ hvalues index (List.mem_range.mp hindex)

/-- A list is the table of its entries. -/
theorem tabulate_getD (values : List α) (default : α) :
    tabulate values.length (fun index ↦ values.getD index default) = values := by
  apply List.ext_getElem?
  intro index
  by_cases hindex : index < values.length
  · rw [getElem?_tabulate _ hindex, List.getD_eq_getElem _ _ hindex,
      List.getElem?_eq_getElem hindex]
  · rw [List.getElem?_eq_none (by simpa using hindex),
      List.getElem?_eq_none (by simpa using hindex)]

theorem map_tabulate (change : α → β) (values : ℕ → α) :
    (tabulate size values).map change = tabulate size fun index ↦ change (values index) := by
  simp [tabulate]

/-- Tables are combined entry by entry. -/
theorem zipWith_tabulate {γ : Type} (combine : α → β → γ) (first : ℕ → α) (second : ℕ → β) :
    List.zipWith combine (tabulate size first) (tabulate size second) =
      tabulate size fun index ↦ combine (first index) (second index) := by
  simp only [tabulate, List.zipWith_map, List.zipWith_self]

end SoftwareKeyCore.TabulatedList
