import Mathlib

/-!
# Computations that need not return

A computation whose loops have no bound, as the family of its results within an amount of fuel
(`Fuelled`): more fuel never changes a result. `Returns` is that some amount is enough, and it
determines the value (`Returns.unique`). The computations are a lawful monad, and the values a
composed computation returns are those its parts return (`returns_bind`, `returns_mapM`,
`returns_mapM_ofFn`).

`iterate` is the loop that repeats a body until it is done; `returns_iterate_next` and
`returns_iterate_done` unroll it, and `Returns.iterate_induction` is the induction over the
iterations of a loop that returned.
-/

set_option autoImplicit false
set_option relaxedAutoImplicit false

namespace SoftwareKeyCore

/-- A computation: its result within an amount of fuel, which more fuel does not change. -/
structure Fuelled (α : Type) where
  run : (fuel : ℕ) → Option α
  run_mono : ∀ {fuel fuel' : ℕ} {value : α}, fuel ≤ fuel' → run fuel = some value →
    run fuel' = some value

namespace Fuelled

variable {α β σ : Type}

theorem ext_run {first second : Fuelled α} (hrun : ∀ fuel, first.run fuel = second.run fuel) :
    first = second := by
  cases first
  cases second
  congr
  exact funext hrun

/-- The computation returns the value, with enough fuel. -/
def Returns (computation : Fuelled α) (value : α) : Prop :=
  ∃ fuel, computation.run fuel = some value

/-- A computation returns one value. -/
theorem Returns.unique {computation : Fuelled α} {value value' : α}
    (hvalue : computation.Returns value) (hvalue' : computation.Returns value') :
    value = value' := by
  obtain ⟨fuel, hfuel⟩ := hvalue
  obtain ⟨fuel', hfuel'⟩ := hvalue'
  have hmax := computation.run_mono (le_max_left fuel fuel') hfuel
  rw [computation.run_mono (le_max_right fuel fuel') hfuel'] at hmax
  exact (Option.some.inj hmax).symm

/-- The computation of a partial function without loops. -/
def ofOption (result : Option α) : Fuelled α where
  run _ := result
  run_mono _ hresult := hresult

@[simp] theorem returns_ofOption {result : Option α} {value : α} :
    (ofOption result).Returns value ↔ result = some value :=
  ⟨fun ⟨_, hresult⟩ ↦ hresult, fun hresult ↦ ⟨0, hresult⟩⟩

/-! ### Sequencing -/

instance : Monad Fuelled where
  pure value := ofOption (some value)
  bind computation next :=
    { run := fun fuel ↦ (computation.run fuel).bind fun value ↦ (next value).run fuel
      run_mono := by
        intro fuel fuel' value hfuel hvalue
        obtain ⟨middle, hmiddle, hlast⟩ := Option.bind_eq_some_iff.mp hvalue
        rw [computation.run_mono hfuel hmiddle]
        exact (next middle).run_mono hfuel hlast }

theorem run_pure (value : α) (fuel : ℕ) : (pure value : Fuelled α).run fuel = some value :=
  rfl

theorem run_bind (computation : Fuelled α) (next : α → Fuelled β) (fuel : ℕ) :
    (computation >>= next).run fuel =
      (computation.run fuel).bind fun value ↦ (next value).run fuel :=
  rfl

instance : LawfulMonad Fuelled :=
  LawfulMonad.mk' Fuelled
    (fun computation ↦ ext_run fun fuel ↦ Option.bind_fun_some (computation.run fuel))
    (fun _ _ ↦ rfl)
    (fun computation _ _ ↦ ext_run fun fuel ↦ Option.bind_assoc (computation.run fuel) _ _)

@[simp] theorem returns_pure {value value' : α} :
    (pure value : Fuelled α).Returns value' ↔ value = value' := by
  show (ofOption (some value)).Returns value' ↔ _
  rw [returns_ofOption, Option.some.injEq]

/-- What a composed computation returns. -/
theorem returns_bind {computation : Fuelled α} {next : α → Fuelled β} {value : β} :
    (computation >>= next).Returns value ↔
      ∃ middle, computation.Returns middle ∧ (next middle).Returns value := by
  constructor
  · rintro ⟨fuel, hfuel⟩
    rw [run_bind] at hfuel
    obtain ⟨middle, hmiddle, hlast⟩ := Option.bind_eq_some_iff.mp hfuel
    exact ⟨middle, ⟨fuel, hmiddle⟩, fuel, hlast⟩
  · rintro ⟨middle, ⟨fuel, hmiddle⟩, fuel', hlast⟩
    refine ⟨max fuel fuel', ?_⟩
    rw [run_bind, computation.run_mono (le_max_left fuel fuel') hmiddle]
    exact (next middle).run_mono (le_max_right fuel fuel') hlast

/-- What a computation over a list returns, entry by entry. -/
theorem returns_mapM {step : α → Fuelled β} {values : List α} {results : List β} :
    (values.mapM step).Returns results ↔
      List.Forall₂ (fun value result ↦ (step value).Returns result) values results := by
  induction values generalizing results with
  | nil => rw [List.mapM_nil, returns_pure, List.forall₂_nil_left_iff, eq_comm]
  | cons value values ih =>
    simp only [List.mapM_cons, returns_bind, returns_pure, ih]
    constructor
    · rintro ⟨result, hresult, rest, hrest, rfl⟩
      exact List.Forall₂.cons hresult hrest
    · intro hforall
      obtain ⟨result, rest, hresult, hrest, rfl⟩ := List.forall₂_cons_left_iff.mp hforall
      exact ⟨result, hresult, rest, hrest, rfl⟩

/-- What a computation over a family returns, entry by entry. -/
theorem returns_mapM_ofFn {step : α → Fuelled β} {count : ℕ} {values : Fin count → α}
    {results : List β} :
    ((List.ofFn values).mapM step).Returns results ↔
      ∃ family, results = List.ofFn family ∧
        ∀ index, (step (values index)).Returns (family index) := by
  rw [returns_mapM, List.forall₂_iff_get]
  constructor
  · rintro ⟨hlength, hentries⟩
    rw [List.length_ofFn] at hlength
    subst hlength
    refine ⟨results.get, (List.ofFn_get results).symm, fun index ↦ ?_⟩
    have hentry := hentries index (by rw [List.length_ofFn]; exact index.isLt) index.isLt
    rwa [List.get_ofFn] at hentry
  · rintro ⟨family, rfl, hfamily⟩
    refine ⟨by rw [List.length_ofFn, List.length_ofFn], fun index hvalues hresults ↦ ?_⟩
    rw [List.get_ofFn, List.get_ofFn]
    exact hfamily _

/-! ### Loops -/

/-- The result of a loop within a number of iterations. -/
def runIterate (body : σ → σ ⊕ α) : (fuel : ℕ) → (state : σ) → Option α
  | 0, _ => none
  | fuel + 1, state =>
    match body state with
    | .inl next => runIterate body fuel next
    | .inr value => some value

/-- An iteration that goes on. -/
theorem runIterate_next {body : σ → σ ⊕ α} {state next : σ} (hbody : body state = .inl next)
    (fuel : ℕ) : runIterate body (fuel + 1) state = runIterate body fuel next := by
  rw [runIterate, hbody]

/-- An iteration that is done. -/
theorem runIterate_done {body : σ → σ ⊕ α} {state : σ} {value : α}
    (hbody : body state = .inr value) (fuel : ℕ) :
    runIterate body (fuel + 1) state = some value := by
  rw [runIterate, hbody]

theorem runIterate_mono {body : σ → σ ⊕ α} {value : α} {fuel fuel' : ℕ} (hfuel : fuel ≤ fuel')
    {state : σ} (hvalue : runIterate body fuel state = some value) :
    runIterate body fuel' state = some value := by
  induction fuel generalizing fuel' state with
  | zero => exact absurd hvalue (Option.some_ne_none value).symm
  | succ fuel ih =>
    obtain ⟨more, rfl⟩ := Nat.exists_eq_add_of_le hfuel
    rw [Nat.succ_add]
    rcases hbody : body state with next | result
    · rw [runIterate_next hbody] at hvalue ⊢
      exact ih (Nat.le_add_right fuel more) hvalue
    · rw [runIterate_done hbody] at hvalue ⊢
      exact hvalue

/-- The loop that repeats a body until it is done with a value. -/
def iterate (body : σ → σ ⊕ α) (state : σ) : Fuelled α where
  run fuel := runIterate body fuel state
  run_mono hfuel hvalue := runIterate_mono hfuel hvalue

/-- A body that goes on. -/
theorem returns_iterate_next {body : σ → σ ⊕ α} {state next : σ} (hbody : body state = .inl next)
    {value : α} : (iterate body state).Returns value ↔ (iterate body next).Returns value := by
  constructor
  · rintro ⟨fuel, hfuel⟩
    exact ⟨fuel, (runIterate_next hbody fuel).symm.trans (runIterate_mono (Nat.le_succ fuel) hfuel)⟩
  · rintro ⟨fuel, hfuel⟩
    exact ⟨fuel + 1, (runIterate_next hbody fuel).trans hfuel⟩

/-- A body that is done. -/
theorem returns_iterate_done {body : σ → σ ⊕ α} {state : σ} {value : α}
    (hbody : body state = .inr value) : (iterate body state).Returns value :=
  ⟨1, runIterate_done hbody 0⟩

/-- The induction over the iterations of a loop that returned. -/
theorem Returns.iterate_induction {body : σ → σ ⊕ α} {value : α} {motive : σ → Prop} {state : σ}
    (hreturns : (iterate body state).Returns value)
    (hdone : ∀ state, body state = .inr value → motive state)
    (hnext : ∀ state next, body state = .inl next → motive next → motive state) :
    motive state := by
  obtain ⟨fuel, hfuel⟩ := hreturns
  change runIterate body fuel state = some value at hfuel
  induction fuel generalizing state with
  | zero => exact absurd hfuel (Option.some_ne_none value).symm
  | succ fuel ih =>
    rcases hbody : body state with next | result
    · rw [runIterate_next hbody] at hfuel
      exact hnext state next hbody (ih hfuel)
    · rw [runIterate_done hbody] at hfuel
      exact hdone state (Option.some.inj hfuel ▸ hbody)

end Fuelled

end SoftwareKeyCore
