import SoftwareKeyCore.Foundation.CheckedSlice

/-!
# Results of computations that can panic

A computation that returns a result or panics: `Panicking ε α` is a result of type
`Except ε α`, or no result. Subtraction of unsigned numbers is where most computations of this
development can panic; `checkedSub` models it, and `allocate` and `reserve` the overflow of the
capacity of a vector. `answer_bind` and the lemmas after it run a computation forward, one statement
at a time.

`Safe` is that a computation does not panic and that a value it answers has a property.
`Safe.bind` and the rules beside it derive it from the statements of a computation. `Avoids` is that
a computation does not answer with one error, with `Avoids.bind` and its rules.
-/

set_option autoImplicit false
set_option relaxedAutoImplicit false

namespace SoftwareKeyCore

/-- A computation that answers with a value or an error, or panics and answers nothing. -/
abbrev Panicking (ε α : Type) := ExceptT ε Option α

namespace Panicking

variable {ε ε' α β : Type}

/-- The answer of a computation; `none` is a panic. -/
def answer (computation : Panicking ε α) : Option (Except ε α) :=
  computation.run

/-- `Option::expect` and the indexing of a vector: a value, or a panic when there is none. -/
def expect (value : Option α) : Panicking ε α :=
  ExceptT.mk (value.map .ok)

/-- Unsigned subtraction, which panics on underflow. -/
def checkedSub (left right : ℕ) : Panicking ε ℕ :=
  expect (CheckedSlice.subtract left right)

/-- A result that is already there, with its error wrapped. -/
def ofResult (wrap : ε → ε') (result : Except ε α) : Panicking ε' α :=
  ExceptT.mk (some (result.mapError wrap))

@[simp] theorem answer_pure (value : α) : answer (pure value : Panicking ε α) = some (.ok value) :=
  rfl

@[simp] theorem answer_throw (error : ε) :
    answer (throw error : Panicking ε α) = some (.error error) :=
  rfl

@[simp] theorem answer_ofResult (wrap : ε → ε') (result : Except ε α) :
    answer (ofResult wrap result) = some (result.mapError wrap) :=
  rfl

/-- A result that keeps its errors answers what it is. -/
theorem answer_ofResult_id_eq_ok_iff {result : Except ε α} {value : α} :
    answer (ofResult id result) = some (.ok value) ↔ result = .ok value := by
  rw [answer_ofResult, Option.some.injEq]
  cases result with
  | ok value' => rfl
  | error error => exact iff_of_false (fun habsurd ↦ nomatch habsurd) fun habsurd ↦ nomatch habsurd

/-- A sequence goes on with the value its first part answers, and stops at its error or panic. -/
theorem answer_bind (first : Panicking ε α) (second : α → Panicking ε β) :
    answer (first >>= second) = match answer first with
      | some (.ok value) => answer (second value)
      | some (.error error) => some (.error error)
      | none => none := by
  change Option.bind (answer first) (fun result ↦ match result with
    | .ok value => answer (second value)
    | .error error => some (.error error)) = _
  cases answer first with
  | none => rfl
  | some result => cases result <;> rfl

theorem answer_bind_of_ok {first : Panicking ε α} {second : α → Panicking ε β} {value : α}
    (hfirst : answer first = some (.ok value)) :
    answer (first >>= second) = answer (second value) := by
  rw [answer_bind, hfirst]

theorem answer_bind_of_error {first : Panicking ε α} {second : α → Panicking ε β} {error : ε}
    (hfirst : answer first = some (.error error)) :
    answer (first >>= second) = some (.error error) := by
  rw [answer_bind, hfirst]

theorem answer_bind_of_panic {first : Panicking ε α} {second : α → Panicking ε β}
    (hfirst : answer first = none) : answer (first >>= second) = none := by
  rw [answer_bind, hfirst]

/-- A sequence answers a value when its first part answers one that its second part goes on
from. -/
theorem answer_bind_eq_ok_iff {first : Panicking ε α} {second : α → Panicking ε β} {result : β} :
    answer (first >>= second) = some (.ok result) ↔
      ∃ value, answer first = some (.ok value) ∧ answer (second value) = some (.ok result) := by
  rw [answer_bind]
  rcases answer first with - | (error | value)
  · exact iff_of_false (by simp) (by simp)
  · exact iff_of_false (by simp) (by simp)
  · simp

/-- A subtraction that does not underflow answers with the difference. -/
theorem answer_checkedSub_of_le {left right : ℕ} (hle : right ≤ left) :
    answer (checkedSub left right : Panicking ε ℕ) = some (.ok (left - right)) := by
  rw [checkedSub, CheckedSlice.subtract_eq_some hle]
  rfl

/-- A subtraction that underflows panics. -/
theorem answer_checkedSub_of_lt {left right : ℕ} (hlt : left < right) :
    answer (checkedSub left right : Panicking ε ℕ) = none := by
  rw [checkedSub, CheckedSlice.subtract, if_neg (not_le.mpr hlt)]
  rfl

/-- A sequence panics when its first part does, if its second part is a result that is there. -/
theorem answer_bind_ofResult_eq_none_iff {wrap : ε' → ε} {first : Panicking ε α}
    {second : α → Except ε' β} :
    answer (first >>= fun value ↦ ofResult wrap (second value)) = none ↔ answer first = none := by
  rw [answer_bind]
  cases answer first with
  | none => exact iff_of_true rfl rfl
  | some result =>
    cases result with
    | ok value => exact iff_of_false (Option.some_ne_none _) (Option.some_ne_none _)
    | error error => exact iff_of_false (Option.some_ne_none _) (Option.some_ne_none _)

/-! ### Operations that panic -/

/-- The remainder, which panics on division by zero. -/
def checkedMod (left right : ℕ) : Panicking ε ℕ :=
  expect (if right = 0 then none else some (left % right))

/-- A value, or an error when there is none. -/
def orError (error : ε) (value : Option α) : Panicking ε α :=
  ExceptT.mk (some (match value with
    | some value => .ok value
    | none => .error error))

/-- Return an error when a condition holds. -/
def throwIf (error : ε) (condition : Prop) [Decidable condition] : Panicking ε Unit :=
  if condition then throw error else pure ()

/-- A guard whose condition holds is its error. -/
theorem throwIf_of_pos {error : ε} {condition : Prop} [Decidable condition]
    (hcondition : condition) : throwIf error condition = throw error :=
  if_pos hcondition

theorem throwIf_of_neg {error : ε} {condition : Prop} [Decidable condition]
    (hcondition : ¬ condition) : throwIf error condition = pure () :=
  if_neg hcondition

/-- A guard lets a computation go on when its condition does not hold. -/
theorem answer_throwIf_eq_ok_iff {error : ε} {condition : Prop} [Decidable condition]
    {result : Unit} :
    answer (throwIf error condition) = some (.ok result) ↔ ¬ condition := by
  by_cases hcondition : condition
  · rw [throwIf_of_pos hcondition, answer_throw]
    exact iff_of_false (by simp) (not_not.mpr hcondition)
  · rw [throwIf_of_neg hcondition, answer_pure]
    exact iff_of_true rfl hcondition

/-- A value that is there is no panic. -/
theorem expect_some_bind (value : α) (continuation : α → Panicking ε β) :
    (expect (some value) >>= continuation) = continuation value :=
  pure_bind value continuation

theorem answer_expect_eq_ok_iff {value? : Option α} {value : α} :
    answer (expect value? : Panicking ε α) = some (.ok value) ↔ value? = some value := by
  cases value? with
  | none => exact iff_of_false (fun h ↦ nomatch h) (fun h ↦ nomatch h)
  | some value' =>
    rw [Option.some.injEq]
    change some (Except.ok value') = some (Except.ok value) ↔ _
    rw [Option.some.injEq, Except.ok.injEq]

theorem answer_orError_eq_ok_iff {error : ε} {value? : Option α} {value : α} :
    answer (orError error value?) = some (.ok value) ↔ value? = some value := by
  cases value? with
  | none =>
    change some (Except.error error) = some (Except.ok value) ↔ _
    simp
  | some value' =>
    rw [Option.some.injEq]
    change some (Except.ok value') = some (Except.ok value) ↔ _
    rw [Option.some.injEq, Except.ok.injEq]

/-! ### Capacities -/

/-- `isize::MAX`, the most bytes that a vector has room for. -/
def isizeMax : ℕ := 2 ^ 63 - 1

/-- `Vec::with_capacity`, and `vec![0; capacity]`, of bytes: a capacity overflow panics. -/
def allocate (capacity : ℕ) : Panicking ε ℕ :=
  expect (if capacity ≤ isizeMax then some capacity else none)

/-- The capacity of a vector of bytes once it has room for more. One that has not is at least
doubled. -/
def grownCapacity (capacity length additional : ℕ) : ℕ :=
  if capacity - length < additional then max 8 (max (2 * capacity) (length + additional))
  else capacity

/-- `Vec::reserve` of bytes, by which a vector grows. -/
def reserve (capacity length additional : ℕ) : Panicking ε ℕ :=
  allocate (grownCapacity capacity length additional)

/-- What is allocated has its capacity. -/
theorem answer_allocate_of_le {capacity : ℕ} (hle : capacity ≤ isizeMax) :
    answer (allocate capacity : Panicking ε ℕ) = some (.ok capacity) := by
  rw [allocate, if_pos hle]
  rfl

theorem answer_allocate_of_lt {capacity : ℕ} (hlt : isizeMax < capacity) :
    answer (allocate capacity : Panicking ε ℕ) = none := by
  rw [allocate, if_neg (not_le.mpr hlt)]
  rfl

theorem answer_allocate_eq_ok_iff {capacity allocated : ℕ} :
    answer (allocate capacity : Panicking ε ℕ) = some (.ok allocated) ↔
      capacity ≤ isizeMax ∧ allocated = capacity := by
  by_cases hle : capacity ≤ isizeMax
  · rw [answer_allocate_of_le hle, Option.some.injEq, Except.ok.injEq, and_iff_right hle, eq_comm]
  · rw [answer_allocate_of_lt (not_le.mp hle)]
    exact iff_of_false (Option.some_ne_none _).symm fun habsurd ↦ hle habsurd.1

/-! ### Computations that do not panic -/

/-- The computation does not panic, and a value it answers has the property. -/
def Safe (computation : Panicking ε α) (post : α → Prop) : Prop :=
  ∃ result, answer computation = some result ∧ ∀ value, result = .ok value → post value

theorem safe_pure {value : α} {post : α → Prop} (hpost : post value) :
    Safe (pure value : Panicking ε α) post :=
  ⟨.ok value, answer_pure value, fun _ hvalue ↦ Except.ok.inj hvalue ▸ hpost⟩

theorem safe_throw (error : ε) (post : α → Prop) :
    Safe (throw error : Panicking ε α) post :=
  ⟨.error error, answer_throw error, fun _ hvalue ↦ nomatch hvalue⟩

/-- A sequence is safe when its first part is and its second part is on the values of the first. -/
theorem Safe.bind {first : Panicking ε α} {second : α → Panicking ε β} {middle : α → Prop}
    {post : β → Prop} (hfirst : Safe first middle)
    (hsecond : ∀ value, middle value → Safe (second value) post) :
    Safe (first >>= second) post := by
  obtain ⟨result, hanswer, hmiddle⟩ := hfirst
  cases result with
  | ok value =>
    obtain ⟨result, hresult, hpost⟩ := hsecond value (hmiddle value rfl)
    exact ⟨result, (answer_bind_of_ok hanswer).trans hresult, hpost⟩
  | error error => exact ⟨.error error, answer_bind_of_error hanswer, fun _ hvalue ↦ nomatch hvalue⟩

theorem Safe.mono {computation : Panicking ε α} {post post' : α → Prop}
    (hsafe : Safe computation post) (hpost : ∀ value, post value → post' value) :
    Safe computation post' := by
  obtain ⟨result, hanswer, hvalue⟩ := hsafe
  exact ⟨result, hanswer, fun value hresult ↦ hpost value (hvalue value hresult)⟩

/-- A safe computation does not panic. -/
theorem Safe.answer_ne_none {computation : Panicking ε α} {post : α → Prop}
    (hsafe : Safe computation post) : answer computation ≠ none := by
  obtain ⟨result, hanswer, -⟩ := hsafe
  rw [hanswer]
  exact Option.some_ne_none result

/-- A value that a safe computation answers has the property. -/
theorem Safe.of_answer_eq_ok {computation : Panicking ε α} {post : α → Prop} {value : α}
    (hsafe : Safe computation post) (hvalue : answer computation = some (.ok value)) :
    post value := by
  obtain ⟨result, hanswer, hpost⟩ := hsafe
  exact hpost value (Option.some.inj (hanswer.symm.trans hvalue))

theorem safe_checkedSub {left right : ℕ} (hle : right ≤ left) :
    Safe (checkedSub left right : Panicking ε ℕ) fun difference ↦ difference = left - right :=
  ⟨.ok (left - right), answer_checkedSub_of_le hle, fun _ hvalue ↦ (Except.ok.inj hvalue).symm⟩

theorem safe_expect {value? : Option α} {value : α} (hvalue : value? = some value) :
    Safe (expect value? : Panicking ε α) fun result ↦ result = value := by
  rw [hvalue]
  exact ⟨.ok value, rfl, fun _ hresult ↦ (Except.ok.inj hresult).symm⟩

/-- A capacity that does not overflow is allocated. -/
theorem safe_allocate {capacity : ℕ} (hle : capacity ≤ isizeMax) :
    Safe (allocate capacity : Panicking ε ℕ) fun allocated ↦ allocated = capacity :=
  safe_expect (if_pos hle)

/-- A result that is already there is no panic. -/
theorem safe_ofResult (wrap : ε → ε') (result : Except ε α) :
    Safe (ofResult wrap result) fun value ↦ result = .ok value := by
  cases result with
  | ok value => exact safe_pure rfl
  | error error => exact safe_throw (wrap error) _

theorem safe_checkedMod {left right : ℕ} (hright : right ≠ 0) :
    Safe (checkedMod left right : Panicking ε ℕ) fun residue ↦ residue = left % right :=
  safe_expect (if_neg hright)

theorem safe_orError (error : ε) (value? : Option α) :
    Safe (orError error value?) fun value ↦ value? = some value := by
  cases value? with
  | none => exact safe_throw error _
  | some value => exact safe_pure rfl

/-- What comes after a guard runs when its condition does not hold. -/
theorem safe_throwIf (error : ε) (condition : Prop) [Decidable condition] :
    Safe (throwIf error condition) fun _ ↦ ¬ condition := by
  unfold throwIf
  by_cases hcondition : condition
  · rw [if_pos hcondition]
    exact safe_throw error _
  · rw [if_neg hcondition]
    exact safe_pure hcondition

/-! ### Errors that a computation does not answer -/

/-- The computation does not answer with the error. -/
def Avoids (error : ε) (computation : Panicking ε α) : Prop :=
  answer computation ≠ some (.error error)

theorem avoids_pure (error : ε) (value : α) : Avoids error (pure value : Panicking ε α) :=
  fun hanswer ↦ nomatch hanswer

theorem avoids_throw {error error' : ε} (hne : error' ≠ error) :
    Avoids error (throw error' : Panicking ε α) :=
  fun hanswer ↦ hne (Except.error.inj (Option.some.inj hanswer))

/-- A sequence avoids an error when its parts do. -/
theorem Avoids.bind {error : ε} {first : Panicking ε α} {second : α → Panicking ε β}
    (hfirst : Avoids error first) (hsecond : ∀ value, Avoids error (second value)) :
    Avoids error (first >>= second) := by
  intro hanswer
  rw [answer_bind] at hanswer
  split at hanswer
  · exact hsecond _ hanswer
  · rename_i error' hfailed
    rw [← Except.error.inj (Option.some.inj hanswer)] at hfirst
    exact hfirst hfailed
  · exact nomatch hanswer

theorem avoids_checkedSub (error : ε) (left right : ℕ) : Avoids error (checkedSub left right) := by
  intro hanswer
  by_cases hle : right ≤ left
  · rw [answer_checkedSub_of_le hle] at hanswer
    exact nomatch hanswer
  · rw [answer_checkedSub_of_lt (not_le.mp hle)] at hanswer
    exact nomatch hanswer

theorem avoids_expect (error : ε) (value? : Option α) :
    Avoids error (expect value? : Panicking ε α) := by
  intro hanswer
  cases value? with
  | none => exact nomatch hanswer
  | some value => exact nomatch hanswer

theorem avoids_orError {error error' : ε} (hne : error' ≠ error) (value? : Option α) :
    Avoids error (orError error' value?) := by
  cases value? with
  | none => exact avoids_throw hne
  | some value => exact avoids_pure error value

theorem avoids_ite {error : ε} {condition : Prop} [Decidable condition]
    {first second : Panicking ε α} (hfirst : Avoids error first) (hsecond : Avoids error second) :
    Avoids error (if condition then first else second) := by
  split_ifs
  · exact hfirst
  · exact hsecond

theorem avoids_throwIf {error error' : ε} (hne : error' ≠ error) (condition : Prop)
    [Decidable condition] : Avoids error (throwIf error' condition) :=
  avoids_ite (avoids_throw hne) (avoids_pure error ())

end Panicking

end SoftwareKeyCore
