import SoftwareKeyCore.Foundation.RejectionSampling

/-!
# Random tapes

A tape is a list of letters from which buffers are read off the front; a tape that is too short
answers nothing. The chance of a property is the part of the tapes of a length that have it.

A buffer that is read is as random as the tape, and so is the rest of the tape: `chance_le_of_read`
is the rule of the average over the buffers. `chance_firstAccepted_le` is the rule for rejection
sampling from a tape: what a result does to the chance of what follows is averaged over the accepted
buffers only, however many attempts are left. `chance_mul_of_decidedBy` is the exact chance of a
property that is decided by the first attempt that is not rejected.
-/

set_option autoImplicit false
set_option relaxedAutoImplicit false

namespace SoftwareKeyCore.RandomTape

open RejectionSampling

variable {α β : Type}

/-- Reads a buffer off the front of a tape. -/
def readTape (length : ℕ) (tape : List β) : Option (List.Vector β length) × List β :=
  if hlength : length ≤ tape.length then
    (some ⟨tape.take length, List.length_take_of_le hlength⟩, tape.drop length)
  else (none, tape)

/-- The rest follows a buffer that is read. -/
theorem readTape_append {length : ℕ} (buffer : List.Vector β length) (rest : List β) :
    readTape length (buffer.toList ++ rest) = (some buffer, rest) := by
  have hbuffer := buffer.toList_length
  rw [readTape, dif_pos (by rw [List.length_append]; omega)]
  refine Prod.ext (congrArg some (Subtype.ext ?_)) ?_
  · exact List.take_left' hbuffer
  · exact List.drop_left' hbuffer

/-- A tape that is too short is not read. -/
theorem readTape_of_lt {length : ℕ} {tape : List β} (hlength : tape.length < length) :
    readTape length tape = (none, tape) :=
  dif_neg (not_le.mpr hlength)

/-! ### Chances -/

section

variable [Fintype β]

/-- The part of the tapes of a length that have a property. -/
noncomputable def chance (β : Type) [Fintype β] (length : ℕ) (property : List β → Prop) : ℚ :=
  {tape : List.Vector β length | property tape.toList}.ncard / Fintype.card β ^ length

variable {length : ℕ} {property property' : List β → Prop}

/-- A property that implies another is at most as likely. -/
theorem chance_mono (himp : ∀ tape, property tape → property' tape) :
    chance β length property ≤ chance β length property' := by
  refine div_le_div_of_nonneg_right (Nat.cast_le.mpr ?_) (by positivity)
  exact Set.ncard_le_ncard (fun tape ↦ himp tape.toList) (Set.toFinite _)

theorem chance_le_one : chance β length property ≤ 1 := by
  unfold chance
  refine div_le_one_of_le₀ ?_ (by positivity)
  calc (({tape : List.Vector β length | property tape.toList}.ncard : ℕ) : ℚ)
      ≤ (Nat.card (List.Vector β length) : ℕ) := by
        exact_mod_cast Set.ncard_le_card _
    _ = (Fintype.card β : ℚ) ^ length := by
        rw [Nat.card_eq_fintype_card, card_vector, Nat.cast_pow]

theorem chance_eq_zero (hnever : ∀ tape : List.Vector β length, ¬ property tape.toList) :
    chance β length property = 0 := by
  have hempty : {tape : List.Vector β length | property tape.toList} = ∅ :=
    Set.eq_empty_of_forall_notMem hnever
  rw [chance, hempty, Set.ncard_empty, Nat.cast_zero, zero_div]

/-- The tapes with a property, by the buffer that comes first. -/
theorem ncard_tapes_add (first length : ℕ) (property : List β → Prop) :
    {tape : List.Vector β (first + length) | property tape.toList}.ncard =
      ∑ buffer : List.Vector β first,
        {rest : List.Vector β length | property (buffer.toList ++ rest.toList)}.ncard := by
  have hlength : ∀ (buffer : List.Vector β first) (rest : List.Vector β length),
      (buffer.toList ++ rest.toList).length = first + length := by
    intro buffer rest
    rw [List.length_append, buffer.toList_length, rest.toList_length]
  have hjoin : Function.Bijective
      (fun pair : Σ buffer : List.Vector β first,
          {rest : List.Vector β length // property (buffer.toList ++ rest.toList)} ↦
        (⟨⟨pair.1.toList ++ pair.2.1.toList, hlength pair.1 pair.2.1⟩, pair.2.2⟩ :
          {tape : List.Vector β (first + length) // property tape.toList})) := by
    constructor
    · rintro ⟨buffer, rest, hrest⟩ ⟨buffer', rest', hrest'⟩ heq
      have hlists : buffer.toList ++ rest.toList = buffer'.toList ++ rest'.toList :=
        congrArg (fun tape ↦ tape.1.toList) heq
      obtain ⟨hfirst, hsecond⟩ := List.append_inj hlists
        (buffer.toList_length.trans buffer'.toList_length.symm)
      obtain rfl := List.Vector.eq _ _ hfirst
      obtain rfl := List.Vector.eq _ _ hsecond
      rfl
    · rintro ⟨tape, htape⟩
      have htotal := tape.toList_length
      have hjoined := List.take_append_drop first tape.toList
      have hfirst : (tape.toList.take first).length = first := List.length_take_of_le (by omega)
      have hsecond : (tape.toList.drop first).length = length := by
        rw [List.length_drop]
        omega
      refine ⟨⟨⟨_, hfirst⟩, ⟨_, hsecond⟩, ?_⟩, Subtype.ext (List.Vector.eq _ _ hjoined)⟩
      change property (tape.toList.take first ++ tape.toList.drop first)
      rwa [hjoined]
  have hcard := Nat.card_eq_of_bijective _ hjoin
  rw [Nat.card_sigma] at hcard
  exact hcard.symm

/-- The chance of a property is the average of its chances over the buffers that come first. -/
theorem chance_add (first length : ℕ) (property : List β → Prop) :
    chance β (first + length) property =
      (∑ buffer : List.Vector β first,
        chance β length fun rest ↦ property (buffer.toList ++ rest)) /
          Fintype.card β ^ first := by
  simp only [chance]
  rw [ncard_tapes_add, pow_add, ← Finset.sum_div, div_div, mul_comm (_ ^ first), Nat.cast_sum]

/-- The average over all buffers of a weight of the accepted ones and a bound of the others is at
most the bound when the average over the accepted ones is. -/
theorem sum_elim_le {ι : Type} [Fintype ι] {accept : ι → Option α} {weight : α → ℚ} {bound : ℚ}
    (haverage : ∑ buffer, (accept buffer).elim 0 weight ≤
      ∑ buffer, (accept buffer).elim 0 fun _ ↦ bound) :
    ∑ buffer, (accept buffer).elim bound weight ≤ bound * Fintype.card ι := by
  have hsplit : ∀ (weight : α → ℚ) (answer : Option α),
      answer.elim bound weight = answer.elim 0 weight + answer.elim bound fun _ ↦ 0 := by
    intro weight answer
    cases answer with
    | none => exact (zero_add bound).symm
    | some result => exact (add_zero (weight result)).symm
  have hconstant : ∀ answer : Option α, (answer.elim bound fun _ ↦ bound) = bound := by
    intro answer
    cases answer with
    | none => rfl
    | some result => rfl
  calc ∑ buffer, (accept buffer).elim bound weight
      = ∑ buffer, (accept buffer).elim 0 weight +
          ∑ buffer, (accept buffer).elim bound fun _ ↦ 0 := by
        rw [← Finset.sum_add_distrib]
        exact Finset.sum_congr rfl fun buffer _ ↦ hsplit weight _
    _ ≤ (∑ buffer, (accept buffer).elim 0 fun _ ↦ bound) +
          ∑ buffer, (accept buffer).elim bound fun _ ↦ 0 := by gcongr
    _ = ∑ buffer, (accept buffer).elim bound fun _ ↦ bound := by
        rw [← Finset.sum_add_distrib]
        exact Finset.sum_congr rfl fun buffer _ ↦ (hsplit _ _).symm
    _ = bound * Fintype.card ι := by
        simp only [hconstant, Finset.sum_const, Finset.card_univ, nsmul_eq_mul, mul_comm]

/-- Rejection sampling from a tape: when the chance of what follows a result, averaged over the
buffers that are accepted, is at most a bound, so is the chance of a run. -/
theorem chance_firstAccepted_le {size : ℕ} {accept : List.Vector β size → Option α}
    {follows : α → List β → Prop} {weight : α → ℚ} {bound : ℚ} (hbound : 0 ≤ bound)
    (hfollows : ∀ result length, chance β length (follows result) ≤ weight result)
    (haverage : ∑ buffer, (accept buffer).elim 0 weight ≤
      ∑ buffer, (accept buffer).elim 0 fun _ ↦ bound) (attempts length : ℕ) :
    chance β length (fun tape ↦ ∃ result rest,
      firstAccepted (readTape size) accept attempts tape = (some result, rest) ∧
        follows result rest) ≤ bound := by
  induction attempts generalizing length with
  | zero =>
    rw [chance_eq_zero]
    · exact hbound
    · rintro tape ⟨result, rest, hresult, -⟩
      exact absurd (congrArg Prod.fst hresult) (Option.some_ne_none result).symm
  | succ attempts ih =>
    rcases Nat.lt_or_ge length size with hshort | hle
    · rw [chance_eq_zero]
      · exact hbound
      · rintro tape ⟨result, rest, hresult, -⟩
        rw [firstAccepted, readTape_of_lt (by rwa [tape.toList_length])] at hresult
        exact absurd (congrArg Prod.fst hresult) (Option.some_ne_none result).symm
    · obtain ⟨rest, rfl⟩ := Nat.exists_eq_add_of_le hle
      rw [chance_add]
      refine div_le_of_le_mul₀ (by positivity) hbound ?_
      have hsum := sum_elim_le haverage
      rw [card_vector, Nat.cast_pow] at hsum
      refine le_trans (Finset.sum_le_sum fun buffer _ ↦ ?_) hsum
      simp only [firstAccepted, readTape_append]
      cases haccept : accept buffer with
      | none => exact ih rest
      | some result =>
        refine le_trans (chance_mono ?_) (hfollows result rest)
        rintro tape ⟨result', others, hresult, hproperty⟩
        obtain ⟨hsame, rfl⟩ := Prod.mk.inj hresult
        obtain rfl := Option.some.inj hsame
        exact hproperty

/-- A sum over the accepted buffers, when every result is accepted from equally many. -/
theorem sum_elim_eq {ι : Type} [Fintype ι] {accept : ι → Option α} {results : Finset α}
    {copies : ℕ} (hresults : ∀ buffer result, accept buffer = some result → result ∈ results)
    (hcopies : ∀ result ∈ results, {buffer | accept buffer = some result}.ncard = copies)
    (weight : α → ℚ) :
    ∑ buffer, (accept buffer).elim 0 weight = copies * ∑ result ∈ results, weight result := by
  classical
  have hbuffer : ∀ buffer, (accept buffer).elim 0 weight =
      ∑ result ∈ results, if accept buffer = some result then weight result else 0 := by
    intro buffer
    cases haccept : accept buffer with
    | none => simp
    | some result => simp [hresults buffer result haccept]
  simp only [hbuffer]
  rw [Finset.sum_comm, Finset.mul_sum]
  refine Finset.sum_congr rfl fun result hresult ↦ ?_
  rw [← hcopies result hresult, ← Finset.sum_filter, Finset.sum_const, nsmul_eq_mul,
    ← Set.ncard_coe_finset, Finset.coe_filter_univ]

/-- Rejection sampling without bias: the average is one over the results. -/
theorem chance_firstAccepted_le_of_unbiased {size copies : ℕ}
    {accept : List.Vector β size → Option α} {results : Finset α} {follows : α → List β → Prop}
    {weight : α → ℚ} {bound : ℚ} (hbound : 0 ≤ bound)
    (hresults : ∀ buffer result, accept buffer = some result → result ∈ results)
    (hcopies : ∀ result ∈ results, {buffer | accept buffer = some result}.ncard = copies)
    (hfollows : ∀ result length, chance β length (follows result) ≤ weight result)
    (haverage : ∑ result ∈ results, weight result ≤ bound * results.card)
    (attempts length : ℕ) :
    chance β length (fun tape ↦ ∃ result rest,
      firstAccepted (readTape size) accept attempts tape = (some result, rest) ∧
        follows result rest) ≤ bound := by
  refine chance_firstAccepted_le hbound hfollows ?_ attempts length
  rw [sum_elim_eq hresults hcopies, sum_elim_eq hresults hcopies, Finset.sum_const, nsmul_eq_mul,
    mul_comm _ bound]
  gcongr

end

/-! ### Repeated attempts -/

section

variable [Fintype β] {size : ℕ} {attempt : List.Vector β size → Option Bool}
  {property : List β → Prop}

/-- A property of tapes that attempts on buffers decide: an attempt says whether the tape has the
property or leaves it to the rest of the tape. -/
def DecidedBy (attempt : List.Vector β size → Option Bool) (property : List β → Prop) : Prop :=
  ∀ (buffer : List.Vector β size) (rest : List β),
    property (buffer.toList ++ rest) ↔ (attempt buffer).elim (property rest) (· = true)

/-- The part of the buffers that an attempt answers in a way. -/
noncomputable def share (attempt : List.Vector β size → Option Bool) (outcome : Option Bool) : ℚ :=
  {buffer | attempt buffer = outcome}.ncard / Fintype.card β ^ size

theorem chance_eq_one [Nonempty β] {length : ℕ}
    (halways : ∀ tape : List.Vector β length, property tape.toList) :
    chance β length property = 1 := by
  have huniv : {tape : List.Vector β length | property tape.toList} = Set.univ :=
    Set.eq_univ_of_forall halways
  rw [chance, huniv, Set.ncard_univ, Nat.card_eq_fintype_card, card_vector, Nat.cast_pow,
    div_self (pow_ne_zero length (Nat.cast_ne_zero.mpr Fintype.card_ne_zero))]

/-- A sum over the buffers by the answers of the attempt. -/
theorem sum_elim_outcome (follows : ℚ) :
    ∑ buffer, (attempt buffer).elim follows (fun held ↦ if held then 1 else 0) =
      {buffer | attempt buffer = some true}.ncard +
        {buffer | attempt buffer = none}.ncard * follows := by
  classical
  have hbuffer : ∀ outcome : Option Bool, outcome.elim follows (fun held ↦ if held then 1 else 0) =
      (if outcome = some true then 1 else 0) + if outcome = none then follows else 0 := by
    rintro (- | - | -) <;> simp
  simp only [hbuffer]
  rw [Finset.sum_add_distrib, ← Finset.sum_filter, ← Finset.sum_filter, Finset.sum_const,
    Finset.sum_const, nsmul_eq_mul, nsmul_eq_mul, mul_one, ← Set.ncard_coe_finset,
    ← Set.ncard_coe_finset, Finset.coe_filter_univ, Finset.coe_filter_univ]

/-- One attempt: the property holds at once, or the attempt leaves it to the rest. -/
theorem chance_add_of_decidedBy [Nonempty β] (hdecided : DecidedBy attempt property) (length : ℕ) :
    chance β (size + length) property =
      share attempt (some true) + share attempt none * chance β length property := by
  have hbuffer : ∀ buffer : List.Vector β size,
      (chance β length fun rest ↦ property (buffer.toList ++ rest)) =
        (attempt buffer).elim (chance β length property) (fun held ↦ if held then 1 else 0) := by
    intro buffer
    have hiff := hdecided buffer
    cases hattempt : attempt buffer with
    | none =>
      simp only [hattempt, Option.elim_none] at hiff
      simp only [hiff, Option.elim_none]
    | some held =>
      simp only [hattempt, Option.elim_some] at hiff
      simp only [hiff, Option.elim_some]
      cases held with
      | true => exact chance_eq_one fun _ ↦ rfl
      | false => exact chance_eq_zero fun _ ↦ Bool.false_ne_true
  rw [chance_add]
  simp only [hbuffer]
  rw [sum_elim_outcome, share, share, add_div, mul_div_right_comm]

/-- The chance of a property after a number of attempts. -/
theorem chance_mul_of_decidedBy [Nonempty β] (hdecided : DecidedBy attempt property)
    (attempts : ℕ) :
    chance β (size * attempts) property =
      share attempt (some true) * ∑ index ∈ Finset.range attempts, share attempt none ^ index +
        share attempt none ^ attempts * chance β 0 property := by
  induction attempts with
  | zero => rw [mul_zero, Finset.sum_range_zero, mul_zero, zero_add, pow_zero, one_mul]
  | succ attempts ih =>
    rw [Nat.mul_succ, add_comm, chance_add_of_decidedBy hdecided, ih,
      Finset.sum_range_succ' _ attempts, pow_zero, pow_succ]
    simp only [pow_succ, ← Finset.sum_mul]
    ring

end

end SoftwareKeyCore.RandomTape
