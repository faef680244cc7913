import Mathlib

/-!
# First occurrences

The entries of a list whose key has not occurred before, in order: what a loop keeps that inserts
each key into a set and skips the entries whose key is already there.
`nodup_map_firstOccurrences` and `mem_map_firstOccurrences` are that each key is kept once, and
`mem_firstOccurrences_iff` that every entry is kept when different ones have different keys.
`getLast?_firstOccurrences` locates the last entry it keeps: the entries after it repeat keys
that occurred up to it.
-/

set_option autoImplicit false
set_option relaxedAutoImplicit false

namespace SoftwareKeyCore.FirstOccurrences

variable {α κ : Type} [DecidableEq κ] (key : α → κ)

/-- The entries whose key is neither among the keys seen so far nor the key of an earlier
entry. -/
def firstOccurrences : (entries : List α) → (seen : List κ) → List α
  | [], _ => []
  | entry :: entries, seen =>
    if key entry ∈ seen then firstOccurrences entries seen
    else entry :: firstOccurrences entries (key entry :: seen)

/-- Nothing is kept when every key has been seen. -/
theorem firstOccurrences_eq_nil_iff (entries : List α) (seen : List κ) :
    firstOccurrences key entries seen = [] ↔ ∀ entry ∈ entries, key entry ∈ seen := by
  induction entries with
  | nil => simp [firstOccurrences]
  | cons entry entries ih =>
    rw [firstOccurrences, List.forall_mem_cons]
    split_ifs with hseen
    · rw [ih]
      exact ⟨fun hrest ↦ ⟨hseen, hrest⟩, fun hall ↦ hall.2⟩
    · exact ⟨fun hnil ↦ by simp at hnil, fun hall ↦ absurd hall.1 hseen⟩

/-- Seen keys matter only as a set. -/
theorem firstOccurrences_congr (entries : List α) {seen seen' : List κ}
    (hseen : ∀ value, value ∈ seen ↔ value ∈ seen') :
    firstOccurrences key entries seen = firstOccurrences key entries seen' := by
  induction entries generalizing seen seen' with
  | nil => rfl
  | cons entry entries ih =>
    have hcons : ∀ value, value ∈ key entry :: seen ↔ value ∈ key entry :: seen' := by
      intro value
      rw [List.mem_cons, List.mem_cons, hseen]
    rw [firstOccurrences, firstOccurrences, ih hseen, ih hcons]
    simp only [hseen]

/-- A list is gone through in two parts. -/
theorem firstOccurrences_append (front back : List α) (seen : List κ) :
    firstOccurrences key (front ++ back) seen =
      firstOccurrences key front seen ++
        firstOccurrences key back (front.map key ++ seen) := by
  induction front generalizing seen with
  | nil => rfl
  | cons entry front ih =>
    rw [List.cons_append, firstOccurrences, firstOccurrences]
    split_ifs with hentry
    · rw [ih]
      congr 1
      refine firstOccurrences_congr key back fun value ↦ ?_
      simp only [List.map_cons, List.mem_append, List.mem_cons]
      constructor
      · exact fun hvalue ↦ hvalue.imp Or.inr id
      · rintro ((rfl | hvalue) | hvalue)
        · exact Or.inr hentry
        · exact Or.inl hvalue
        · exact Or.inr hvalue
    · rw [ih, List.cons_append]
      congr 2
      refine firstOccurrences_congr key back fun value ↦ ?_
      simp only [List.map_cons, List.mem_append, List.mem_cons]
      tauto

/-- The keys that are kept are those that were not seen before. -/
theorem mem_map_firstOccurrences (entries : List α) (seen : List κ) (value : κ) :
    value ∈ (firstOccurrences key entries seen).map key ↔
      value ∈ entries.map key ∧ value ∉ seen := by
  induction entries generalizing seen with
  | nil => simp [firstOccurrences]
  | cons entry entries ih =>
    rw [firstOccurrences]
    split_ifs with hseen
    · rw [ih, List.map_cons, List.mem_cons]
      constructor
      · exact fun hvalue ↦ ⟨Or.inr hvalue.1, hvalue.2⟩
      · rintro ⟨rfl | hvalue, hnew⟩
        · exact absurd hseen hnew
        · exact ⟨hvalue, hnew⟩
    · rw [List.map_cons, List.mem_cons, ih, List.map_cons, List.mem_cons, List.mem_cons, not_or]
      constructor
      · rintro (rfl | ⟨hvalue, hne, hnew⟩)
        · exact ⟨Or.inl rfl, hseen⟩
        · exact ⟨Or.inr hvalue, hnew⟩
      · rintro ⟨hvalue, hnew⟩
        by_cases hentry : value = key entry
        · exact Or.inl hentry
        · exact Or.inr ⟨hvalue.resolve_left hentry, hentry, hnew⟩

/-- Each key is kept once. -/
theorem nodup_map_firstOccurrences (entries : List α) (seen : List κ) :
    ((firstOccurrences key entries seen).map key).Nodup := by
  induction entries generalizing seen with
  | nil => exact List.nodup_nil
  | cons entry entries ih =>
    rw [firstOccurrences]
    split_ifs with hseen
    · exact ih seen
    · rw [List.map_cons, List.nodup_cons]
      refine ⟨fun hmem ↦ ?_, ih _⟩
      exact ((mem_map_firstOccurrences key entries _ _).mp hmem).2 List.mem_cons_self

/-- What is kept is an entry. -/
theorem mem_of_mem_firstOccurrences {entries : List α} {seen : List κ} {entry : α}
    (hentry : entry ∈ firstOccurrences key entries seen) : entry ∈ entries := by
  induction entries generalizing seen with
  | nil => exact hentry
  | cons first entries ih =>
    rw [firstOccurrences] at hentry
    split_ifs at hentry with hseen
    · exact List.mem_cons_of_mem first (ih hentry)
    · rcases List.mem_cons.mp hentry with rfl | hentry
      · exact List.mem_cons_self
      · exact List.mem_cons_of_mem first (ih hentry)

/-- Every entry is kept when entries of one key are equal. -/
theorem mem_firstOccurrences_iff {entries : List α}
    (hkey : ∀ entry ∈ entries, ∀ entry' ∈ entries, key entry = key entry' → entry = entry')
    {entry : α} : entry ∈ firstOccurrences key entries [] ↔ entry ∈ entries := by
  refine ⟨mem_of_mem_firstOccurrences key, fun hentry ↦ ?_⟩
  have hmem := (mem_map_firstOccurrences key entries [] (key entry)).mpr
    ⟨List.mem_map_of_mem hentry, List.not_mem_nil⟩
  obtain ⟨kept, hkept, hsame⟩ := List.mem_map.mp hmem
  rwa [hkey entry hentry kept (mem_of_mem_firstOccurrences key hkept) hsame.symm]

/-- The last entry kept is the last one with a new key: it splits the list into entries with
other keys and entries that repeat a key. -/
theorem getLast?_firstOccurrences (entries : List α) (last : α) :
    (firstOccurrences key entries []).getLast? = some last ↔
      ∃ front back, entries = front ++ last :: back ∧ key last ∉ front.map key ∧
        ∀ entry ∈ back, key entry ∈ (front ++ [last]).map key := by
  constructor
  · induction entries using List.reverseRecOn with
    | nil => exact fun hlast ↦ absurd hlast (by simp [firstOccurrences])
    | append_singleton entries entry ih =>
      intro hlast
      rw [firstOccurrences_append, List.append_nil] at hlast
      by_cases hentry : key entry ∈ entries.map key
      · rw [firstOccurrences, if_pos hentry, firstOccurrences, List.append_nil] at hlast
        obtain ⟨front, back, rfl, hfront, hback⟩ := ih hlast
        refine ⟨front, back ++ [entry], by simp, hfront, ?_⟩
        intro other hother
        rcases List.mem_append.mp hother with hother | hother
        · exact hback other hother
        · rw [List.mem_singleton.mp hother]
          rw [List.map_append, List.mem_append, List.map_cons, List.mem_cons] at hentry
          rw [List.map_append, List.mem_append, List.map_singleton, List.mem_singleton]
          rcases hentry with hentry | hentry | hentry
          · exact Or.inl hentry
          · exact Or.inr hentry
          · obtain ⟨repeated, hrepeated, hkey⟩ := List.mem_map.mp hentry
            have hmem := hback repeated hrepeated
            rw [hkey, List.map_append, List.mem_append, List.map_singleton,
              List.mem_singleton] at hmem
            exact hmem
      · rw [firstOccurrences, if_neg hentry, firstOccurrences, List.getLast?_append,
          List.getLast?_singleton, Option.some_or] at hlast
        obtain rfl := Option.some.inj hlast
        exact ⟨entries, [], rfl, hentry, by simp⟩
  · rintro ⟨front, back, rfl, hfront, hback⟩
    have hrest : firstOccurrences key back (key last :: front.map key) = [] := by
      refine (firstOccurrences_eq_nil_iff key back _).mpr fun entry hentry ↦ ?_
      have hmem := hback entry hentry
      rw [List.map_append, List.mem_append, List.map_singleton, List.mem_singleton] at hmem
      rw [List.mem_cons]
      exact hmem.symm
    rw [firstOccurrences_append, List.append_nil, firstOccurrences, if_neg hfront, hrest,
      List.getLast?_append, List.getLast?_singleton, Option.some_or]

end SoftwareKeyCore.FirstOccurrences
