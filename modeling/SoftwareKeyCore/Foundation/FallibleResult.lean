import Mathlib

/-!
# Fallible results

The rules that take a successful computation in `Except ε` apart, one statement at a time:
`bind_eq_ok_iff` for a sequence, `ite_error_eq_ok_iff` for a guard, `orError_eq_ok_iff` for an
option whose absence is an error, `map_eq_ok_iff` and `mapError_eq_ok_iff` for a result that is
wrapped.
-/

set_option autoImplicit false
set_option relaxedAutoImplicit false

namespace SoftwareKeyCore.FallibleResult

variable {ε α β : Type}

/-- The value of an option, or an error when there is none. -/
def orError (error : ε) : Option α → Except ε α
  | some value => .ok value
  | none => .error error

@[simp] theorem orError_some (error : ε) (value : α) : orError error (some value) = .ok value :=
  rfl

theorem ok_bind (value : α) (second : α → Except ε β) :
    (Except.ok value >>= second) = second value :=
  rfl

/-- A sequence succeeds when its first part does and its second part does on the result. -/
theorem bind_eq_ok_iff {first : Except ε α} {second : α → Except ε β} {result : β} :
    (first >>= second) = .ok result ↔
      ∃ value, first = .ok value ∧ second value = .ok result := by
  cases first with
  | error error =>
    constructor
    · intro hresult
      have herror : (.error error : Except ε β) = .ok result := hresult
      cases herror
    · rintro ⟨value, hvalue, -⟩
      cases hvalue
  | ok value =>
    constructor
    · exact fun hresult ↦ ⟨value, rfl, hresult⟩
    · rintro ⟨value', hvalue, hresult⟩
      obtain rfl := Except.ok.inj hvalue
      exact hresult

/-- A sequence whose first part answers nothing. -/
theorem unit_bind_eq_ok_iff {first : Except ε Unit} {second : Unit → Except ε β} {result : β} :
    (first >>= second) = .ok result ↔ first = .ok () ∧ second () = .ok result := by
  rw [bind_eq_ok_iff]
  exact ⟨fun ⟨_, hfirst, hsecond⟩ ↦ ⟨hfirst, hsecond⟩, fun hboth ↦ ⟨(), hboth⟩⟩

/-- A guard is passed when its condition does not hold. -/
theorem ite_error_eq_ok_iff {condition : Prop} [Decidable condition] {error : ε}
    {rest : Except ε α} {result : α} :
    (if condition then .error error else rest) = .ok result ↔ ¬ condition ∧ rest = .ok result := by
  by_cases hcondition : condition
  · simp [hcondition]
  · simp [hcondition]

/-- A comparison succeeds when it holds. -/
theorem ite_ok_eq_ok_iff {condition : Prop} [Decidable condition] {error : ε} {result : α} :
    (if condition then .ok result else .error error : Except ε α) = .ok result ↔ condition := by
  by_cases hcondition : condition
  · simp [hcondition]
  · simp [hcondition]

theorem orError_eq_ok_iff {error : ε} {value? : Option α} {value : α} :
    orError error value? = .ok value ↔ value? = some value := by
  cases value? with
  | none => simp [orError]
  | some value' => simp [orError]

/-- A sequence only fails as one of its parts does, where the second part is run on a value. -/
theorem bind_ne_error {error : ε} {first : Except ε α} {second : α → Except ε β}
    (hfirst : first ≠ .error error)
    (hsecond : ∀ value, first = .ok value → second value ≠ .error error) :
    (first >>= second) ≠ .error error := by
  cases first with
  | error other =>
    intro hbind
    exact hfirst (congrArg Except.error (Except.error.inj hbind))
  | ok value => exact hsecond value rfl

theorem orError_ne_error {error other : ε} (hne : other ≠ error) (value? : Option α) :
    orError other value? ≠ .error error := by
  cases value? with
  | none => exact fun herror ↦ hne (Except.error.inj herror)
  | some value => exact fun herror ↦ Except.noConfusion rfl rfl (heq_of_eq herror)

theorem pure_eq_ok_iff {value result : α} :
    (pure value : Except ε α) = .ok result ↔ value = result :=
  ⟨Except.ok.inj, congrArg Except.ok⟩

/-- A mapped result is a success when the result is. -/
theorem map_eq_ok_iff {result : Except ε α} {wrap : α → β} {value : β} :
    result.map wrap = .ok value ↔ ∃ inner, result = .ok inner ∧ wrap inner = value := by
  cases result with
  | error error => simp [Except.map]
  | ok inner => simp [Except.map]

/-- Mapping the error changes no success. -/
theorem mapError_eq_ok_iff {ε' : Type} {result : Except ε α} {wrap : ε → ε'} {value : α} :
    result.mapError wrap = .ok value ↔ result = .ok value := by
  cases result with
  | error error => simp [Except.mapError]
  | ok inner => simp [Except.mapError]

end SoftwareKeyCore.FallibleResult
