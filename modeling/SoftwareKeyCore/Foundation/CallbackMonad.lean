import Mathlib

/-!
# Constructions over a fallible callback

A construction over a caller-supplied callback is written in `ExceptT ε m`: the callback runs in
the monad `m` and answers with a value or an error, and the construction stops at the first
error. This module has the rules the proofs about such constructions use.

`liftCallback` is one callback call whose error is wrapped. `outcome` is the result of a
construction over a callback without effects (`m = Id`). `outcome_bind_eq_ok` takes a successful
one apart, one statement at a time, and `outcome_ite_throw_eq_ok_iff` and
`outcome_ite_pure_eq_ok_iff` its guards. `foldlM_reverse_eq_ok` is the induction rule for a
loop and the loop that undoes it: when each undoing step takes back the step of the same index,
the undoing loop, run over the indices in reverse order, takes back the whole loop.
-/

set_option autoImplicit false
set_option relaxedAutoImplicit false

namespace SoftwareKeyCore

section

universe u

variable {m : Type u → Type u} [Monad m] {ε ε' α : Type u}

/-- One call of a callback, with its error wrapped. -/
def liftCallback (wrap : ε → ε') (call : m (Except ε α)) : ExceptT ε' m α :=
  ExceptT.mk do
    match ← call with
    | .ok value => pure (.ok value)
    | .error error => pure (.error (wrap error))

end

namespace CallbackMonad

variable {ε ε' α β σ ι : Type}

/-- The result of a construction whose callback has no effects. -/
def outcome (construction : ExceptT ε Id α) : Except ε α :=
  Id.run construction.run

/-! ### Successful outcomes -/

/-- A sequence succeeds when its first part does and its second part does on the result. -/
theorem outcome_bind_eq_ok {first : ExceptT ε Id α} {second : α → ExceptT ε Id β} {result : β} :
    outcome (first >>= second) = .ok result ↔
      ∃ value, outcome first = .ok value ∧ outcome (second value) = .ok result := by
  have hbind : outcome (first >>= second) = match outcome first with
    | .ok value => outcome (second value)
    | .error error => .error error := by
    change Id.run (match first.run with
      | .ok value => (second value).run
      | .error error => Except.error error) = _
    unfold outcome
    cases hfirst : Id.run first.run with
    | ok value => rw [show first.run = Except.ok value from hfirst]
    | error error => rw [show first.run = Except.error error from hfirst]; rfl
  rw [hbind]
  cases outcome first with
  | ok value => simp
  | error error => simp

@[simp] theorem outcome_pure (value : α) : outcome (pure value : ExceptT ε Id α) = .ok value :=
  rfl

@[simp] theorem outcome_throw (error : ε) :
    outcome (throw error : ExceptT ε Id α) = .error error :=
  rfl

/-- A guard is passed when its condition does not hold. -/
theorem outcome_ite_throw_eq_ok_iff {condition : Prop} [Decidable condition] {error : ε}
    {rest : ExceptT ε Id α} {result : α} :
    outcome (if condition then throw error else rest) = .ok result ↔
      ¬ condition ∧ outcome rest = .ok result := by
  by_cases hcondition : condition
  · simp [hcondition]
  · simp [hcondition]

/-- A last check succeeds when its condition holds, with the value it lets through. -/
theorem outcome_ite_pure_eq_ok_iff {condition : Prop} [Decidable condition] {error : ε}
    {value result : α} :
    outcome (if condition then pure value else throw error : ExceptT ε Id α) = .ok result ↔
      condition ∧ value = result := by
  by_cases hcondition : condition
  · simp [hcondition]
  · simp [hcondition]

/-- A callback call has the outcome of the callback, with its error wrapped. -/
@[simp] theorem outcome_liftCallback (wrap : ε → ε') (call : Except ε α) :
    outcome (liftCallback (m := Id) wrap call) = call.mapError wrap := by
  cases call <;> rfl

/-! ### Loops and the loops that undo them -/

/-- A loop over `indices` and the loop that undoes it. Assumes: on good states, a successful
step leads to a good state from which the undoing step of the same index leads back. Then a
successful loop leads to a good state from which the undoing loop, over the indices in reverse
order, leads back. -/
theorem foldlM_reverse_eq_ok (step undo : σ → ι → ExceptT ε Id σ) (good : σ → Prop)
    {indices : List ι}
    (hstep : ∀ index ∈ indices, ∀ state next, good state →
      outcome (step state index) = .ok next →
        good next ∧ outcome (undo next index) = .ok state) :
    ∀ {state final : σ}, good state → outcome (indices.foldlM step state) = .ok final →
      good final ∧ outcome (indices.reverse.foldlM undo final) = .ok state := by
  induction indices with
  | nil =>
    intro state final hgood hrun
    obtain rfl : state = final := by simpa using hrun
    exact ⟨hgood, by simp⟩
  | cons index indices ih =>
    intro state final hgood hrun
    rw [List.foldlM_cons] at hrun
    obtain ⟨next, hnext, hrest⟩ := outcome_bind_eq_ok.mp hrun
    obtain ⟨hgoodNext, hundo⟩ := hstep index List.mem_cons_self state next hgood hnext
    obtain ⟨hgoodFinal, hback⟩ :=
      ih (fun other hother ↦ hstep other (List.mem_cons_of_mem _ hother)) hgoodNext hrest
    refine ⟨hgoodFinal, ?_⟩
    rw [List.reverse_cons, List.foldlM_append]
    refine outcome_bind_eq_ok.mpr ⟨next, hback, ?_⟩
    rw [List.foldlM_cons]
    exact outcome_bind_eq_ok.mpr ⟨state, hundo, rfl⟩

/-- A loop whose steps succeed on good states succeeds, and ends in a good state. -/
theorem exists_foldlM_eq_ok (step : σ → ι → ExceptT ε Id σ) (good : σ → Prop) {indices : List ι}
    (hstep : ∀ index ∈ indices, ∀ state, good state →
      ∃ next, outcome (step state index) = .ok next ∧ good next) :
    ∀ {state : σ}, good state →
      ∃ final, outcome (indices.foldlM step state) = .ok final ∧ good final := by
  induction indices with
  | nil => exact fun {state} hgood ↦ ⟨state, rfl, hgood⟩
  | cons index indices ih =>
    intro state hgood
    obtain ⟨next, hnext, hgoodNext⟩ := hstep index List.mem_cons_self state hgood
    obtain ⟨final, hfinal, hgoodFinal⟩ :=
      ih (fun other hother ↦ hstep other (List.mem_cons_of_mem _ hother)) hgoodNext
    refine ⟨final, ?_, hgoodFinal⟩
    rw [List.foldlM_cons]
    exact outcome_bind_eq_ok.mpr ⟨next, hnext, hfinal⟩

end CallbackMonad

end SoftwareKeyCore
