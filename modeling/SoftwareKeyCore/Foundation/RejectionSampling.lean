import Mathlib

/-!
# Rejection sampling

A source answers requests with a value or not at all, and a test takes a result off some of the
values. `firstAccepted` asks the source at most a number of times until the test takes a result.

`firstAccepted_isDraw` says what a run does: it ends at the first answer that is not rejected, with
the result taken off it, or without a result when the source does not answer or all the attempts
are rejected (`IsDraw`). `ncard_draws_eq` is that a run has no bias when an attempt has none:
results taken off equally many values are drawn from equally many sequences of values.
-/

set_option autoImplicit false
set_option relaxedAutoImplicit false

namespace SoftwareKeyCore.RejectionSampling

variable {α β σ : Type} (fill : σ → Option β × σ) (accept : β → Option α)

/-- The result taken off the first accepted of at most a number of answers. -/
def firstAccepted : (attempts : ℕ) → (state : σ) → Option α × σ
  | 0, state => (none, state)
  | attempts + 1, state =>
    match fill state with
    | (none, state) => (none, state)
    | (some value, state) =>
      match accept value with
      | some result => (some result, state)
      | none => firstAccepted attempts state

/-- The state after a number of requests. -/
def stateAfter (state : σ) : (count : ℕ) → σ
  | 0 => state
  | count + 1 => stateAfter (fill state).2 count

/-- The answer to the request at a position. -/
def answerAt (state : σ) (index : ℕ) : Option β :=
  (fill (stateAfter fill state index)).1

/-- The request at a position is answered with a value that is rejected. -/
def RejectsAt (state : σ) (index : ℕ) : Prop :=
  ∃ value, answerAt fill state index = some value ∧ accept value = none

/-- How a run ends. -/
def IsDraw (attempts : ℕ) (state : σ) : (result : Option α) → (state' : σ) → Prop
  | some result, state' => ∃ index < attempts,
      (∀ earlier < index, RejectsAt fill accept state earlier) ∧
        (∃ value, answerAt fill state index = some value ∧ accept value = some result) ∧
          state' = stateAfter fill state (index + 1)
  | none, state' =>
      (∃ index < attempts, (∀ earlier < index, RejectsAt fill accept state earlier) ∧
        answerAt fill state index = none ∧ state' = stateAfter fill state (index + 1)) ∨
      (∀ index < attempts, RejectsAt fill accept state index) ∧
        state' = stateAfter fill state attempts

variable {fill accept} {attempts : ℕ} {state state' : σ}

/-- A rejected answer goes before rejected answers. -/
theorem rejectsAt_succ {value : β} {next : σ} (hfill : fill state = (some value, next))
    (hrejected : accept value = none) {bound : ℕ}
    (hrest : ∀ index < bound, RejectsAt fill accept next index) :
    ∀ index < bound + 1, RejectsAt fill accept state index := by
  intro index hindex
  cases index with
  | zero => exact ⟨value, congrArg Prod.fst hfill, hrejected⟩
  | succ index =>
    obtain ⟨later, hlater, hnone⟩ := hrest index (Nat.lt_of_succ_lt_succ hindex)
    refine ⟨later, ?_, hnone⟩
    rw [answerAt, stateAfter, hfill]
    exact hlater

/-- A rejected answer goes before a run. -/
theorem IsDraw.cons {value : β} {next : σ} (hfill : fill state = (some value, next))
    (hrejected : accept value = none) {result : Option α}
    (hdraw : IsDraw fill accept attempts next result state') :
    IsDraw fill accept (attempts + 1) state result state' := by
  have hafter : ∀ count, stateAfter fill state (count + 1) = stateAfter fill next count := by
    intro count
    rw [stateAfter, hfill]
  have hanswer : ∀ index, answerAt fill state (index + 1) = answerAt fill next index := by
    intro index
    rw [answerAt, hafter, answerAt]
  cases result with
  | some result =>
    obtain ⟨index, hindex, hearlier, hvalue, hstate⟩ := hdraw
    refine ⟨index + 1, Nat.succ_lt_succ hindex, rejectsAt_succ hfill hrejected hearlier, ?_, ?_⟩
    · rwa [hanswer]
    · rwa [hafter]
  | none =>
    rcases hdraw with ⟨index, hindex, hearlier, hnone, hstate⟩ | ⟨hall, hstate⟩
    · refine Or.inl ⟨index + 1, Nat.succ_lt_succ hindex,
        rejectsAt_succ hfill hrejected hearlier, ?_, ?_⟩
      · rwa [hanswer]
      · rwa [hafter]
    · refine Or.inr ⟨rejectsAt_succ hfill hrejected hall, ?_⟩
      rwa [hafter]

/-- A run ends at the first answer that is not rejected. -/
theorem firstAccepted_isDraw (fill : σ → Option β × σ) (accept : β → Option α) (attempts : ℕ)
    (state : σ) :
    IsDraw fill accept attempts state (firstAccepted fill accept attempts state).1
      (firstAccepted fill accept attempts state).2 := by
  induction attempts generalizing state with
  | zero => exact Or.inr ⟨fun index hindex ↦ absurd hindex (Nat.not_lt_zero index), rfl⟩
  | succ attempts ih =>
    have hnone : ∀ earlier < 0, RejectsAt fill accept state earlier := fun earlier hearlier ↦
      absurd hearlier (Nat.not_lt_zero earlier)
    rcases hfill : fill state with ⟨- | value, next⟩
    · simp only [firstAccepted, hfill]
      exact Or.inl ⟨0, Nat.succ_pos attempts, hnone, congrArg Prod.fst hfill,
        (congrArg Prod.snd hfill).symm⟩
    · cases haccept : accept value with
      | some result =>
        simp only [firstAccepted, hfill, haccept]
        exact ⟨0, Nat.succ_pos attempts, hnone, ⟨value, congrArg Prod.fst hfill, haccept⟩,
          (congrArg Prod.snd hfill).symm⟩
      | none =>
        simp only [firstAccepted, hfill, haccept]
        exact (ih next).cons hfill haccept

/-! ### Counting runs -/

/-- On a source that answers every request the run draws from the sequence of its answers. -/
theorem firstAccepted_eq_findSome? {values : List β} {state : σ}
    (hanswers : ∀ index < values.length, answerAt fill state index = values[index]?) :
    (firstAccepted fill accept values.length state).1 = values.findSome? accept := by
  induction values generalizing state with
  | nil => rfl
  | cons value values ih =>
    have hfill : (fill state).1 = some value := hanswers 0 (Nat.succ_pos _)
    have hrest := ih fun index hindex ↦ hanswers (index + 1) (Nat.succ_lt_succ hindex)
    rw [List.length_cons, firstAccepted, List.findSome?_cons]
    rcases hnext : fill state with ⟨answer, next⟩
    rw [hnext] at hfill hrest
    obtain rfl : answer = some value := hfill
    cases haccept : accept value with
    | some result => simp only [haccept]
    | none =>
      simp only [haccept]
      exact hrest

section Counting

variable (accept)

/-- The sequences of values that a result is drawn from. -/
def drawsOf (attempts : ℕ) (result : α) : Set (List.Vector β attempts) :=
  {values | values.toList.findSome? accept = some result}

theorem cons_injective {attempts : ℕ} : Function.Injective
    (fun pair : β × List.Vector β attempts ↦ pair.1 ::ᵥ pair.2) := by
  rintro ⟨first, others⟩ ⟨first', others'⟩ hcons
  have hhead := congrArg List.Vector.head hcons
  have htail := congrArg List.Vector.tail hcons
  rw [List.Vector.head_cons, List.Vector.head_cons] at hhead
  rw [List.Vector.tail_cons, List.Vector.tail_cons] at htail
  exact Prod.ext hhead htail

/-- A result is drawn from the first value, or from the others after a rejected one. -/
theorem drawsOf_succ (attempts : ℕ) (result : α) :
    drawsOf accept (attempts + 1) result =
      (fun pair : β × List.Vector β attempts ↦ pair.1 ::ᵥ pair.2) ''
        ({value | accept value = some result} ×ˢ Set.univ ∪
          {value | accept value = none} ×ˢ drawsOf accept attempts result) := by
  ext values
  obtain ⟨value, rest, rfl⟩ := List.Vector.exists_eq_cons values
  have hmem : value ::ᵥ rest ∈ drawsOf accept (attempts + 1) result ↔
      accept value = some result ∨ accept value = none ∧ rest ∈ drawsOf accept attempts result := by
    change (value ::ᵥ rest).toList.findSome? accept = some result ↔ _
    rw [List.Vector.toList_cons, List.findSome?_cons]
    cases haccept : accept value with
    | some other => simp
    | none => simp [drawsOf]
  rw [hmem]
  constructor
  · rintro (hvalue | ⟨hvalue, hrest⟩)
    · exact ⟨(value, rest), Or.inl ⟨hvalue, Set.mem_univ rest⟩, rfl⟩
    · exact ⟨(value, rest), Or.inr ⟨hvalue, hrest⟩, rfl⟩
  · rintro ⟨pair, hpair, hcons⟩
    obtain rfl : pair = (value, rest) := cons_injective hcons
    exact hpair.imp (fun hvalue ↦ hvalue.1) id

/-- How many sequences a result is drawn from, in one attempt more. -/
theorem ncard_drawsOf_succ [Finite β] (attempts : ℕ) (result : α) :
    (drawsOf accept (attempts + 1) result).ncard =
      {value | accept value = some result}.ncard * Nat.card (List.Vector β attempts) +
        {value | accept value = none}.ncard * (drawsOf accept attempts result).ncard := by
  have hdisjoint : Disjoint
      ({value | accept value = some result} ×ˢ (Set.univ : Set (List.Vector β attempts)))
      ({value | accept value = none} ×ˢ drawsOf accept attempts result) := by
    rw [Set.disjoint_left]
    rintro ⟨value, rest⟩ ⟨hsome, -⟩ ⟨hnone, -⟩
    exact Option.some_ne_none result (hsome.symm.trans hnone)
  rw [drawsOf_succ, Set.ncard_image_of_injective _ cons_injective, Set.ncard_union_eq hdisjoint,
    Set.ncard_prod, Set.ncard_prod, Set.ncard_univ]

/-- Results that are taken off equally many values are drawn from equally many sequences. -/
theorem ncard_draws_eq [Finite β] {result result' : α}
    (hvalues : {value | accept value = some result}.ncard =
      {value | accept value = some result'}.ncard) (attempts : ℕ) :
    (drawsOf accept attempts result).ncard = (drawsOf accept attempts result').ncard := by
  induction attempts with
  | zero =>
    have hempty : ∀ other : α, drawsOf accept 0 other = ∅ := by
      intro other
      refine Set.eq_empty_of_forall_notMem fun values hvalues ↦ ?_
      rw [List.Vector.eq_nil values] at hvalues
      exact Option.some_ne_none other (Eq.symm hvalues)
    rw [hempty, hempty]
  | succ attempts ih => rw [ncard_drawsOf_succ, ncard_drawsOf_succ, hvalues, ih]

end Counting

end SoftwareKeyCore.RejectionSampling
