import SoftwareKeyCore.Foundation.ResidueUnits

/-!
# Strong liars

A residue passes a strong probable-prime test with the exponent `m` and `a` squarings when its
`m`-th power is one or one of the next `a` squares, the power itself included, is minus one. A
residue that passes although the modulus is composite is a strong liar.

In a group that is a product of groups with a minus one, the liars are few because the signs of
their components agree. At the highest level at which minus one is a power, a power of a liar is
one or minus one, while its components can be given any signs; this is
`two_pow_mul_ncard_isStrongLiar_le`. `four_mul_ncard_isStrongLiar_le` is the bound for an odd
composite modulus other than nine: at most every fourth unit is a liar.
-/

set_option autoImplicit false
set_option relaxedAutoImplicit false

namespace SoftwareKeyCore.StrongLiars

open ResidueUnits

/-! ### Products of groups with signs -/

/-- The element passes the strong test with the exponent `m` and `a` squarings. -/
def IsStrongLiar {G : Type*} [Monoid G] [Neg G] (m a : ℕ) (element : G) : Prop :=
  element ^ m = 1 ∨ ∃ level < a, element ^ (m * 2 ^ level) = -1

section

variable {G : Type*} [CommGroup G] [HasDistribNeg G] {m a : ℕ}

/-- Minus one passes. -/
theorem isStrongLiar_neg_one (hm : Odd m) (ha : a ≠ 0) : IsStrongLiar m a (-1 : G) := by
  refine Or.inr ⟨0, Nat.pos_of_ne_zero ha, ?_⟩
  rw [pow_zero, mul_one, hm.neg_one_pow]

/-- Minus one is a power at a highest level below `a`. -/
theorem exists_highest_level (G : Type*) [CommGroup G] [HasDistribNeg G] (hm : Odd m)
    (ha : a ≠ 0) :
    ∃ level < a, (∃ element : G, element ^ (m * 2 ^ level) = -1) ∧
      ∀ other < a, (∃ element : G, element ^ (m * 2 ^ other) = -1) → other ≤ level := by
  classical
  have hzero : ∃ element : G, element ^ (m * 2 ^ 0) = -1 :=
    ⟨-1, by rw [pow_zero, mul_one, hm.neg_one_pow]⟩
  refine ⟨Nat.findGreatest (fun level ↦ ∃ element : G, element ^ (m * 2 ^ level) = -1) (a - 1),
    ?_, ?_, ?_⟩
  · have hle := Nat.findGreatest_le
      (P := fun level ↦ ∃ element : G, element ^ (m * 2 ^ level) = -1) (a - 1)
    omega
  · exact Nat.findGreatest_spec (P := fun level ↦ ∃ element : G, element ^ (m * 2 ^ level) = -1)
      (Nat.zero_le _) hzero
  · exact fun other hother hpower ↦ Nat.le_findGreatest (by omega) hpower

/-- At a level that is at least as high, a power of a liar is one or minus one. -/
theorem IsStrongLiar.pow_eq {element : G} (hliar : IsStrongLiar m a element) {level : ℕ}
    (hhighest : ∀ other < a, (∃ element : G, element ^ (m * 2 ^ other) = -1) → other ≤ level) :
    element ^ (m * 2 ^ level) = 1 ∨ element ^ (m * 2 ^ level) = -1 := by
  rcases hliar with hone | ⟨met, hmet, hminus⟩
  · exact Or.inl (by rw [pow_mul, hone, one_pow])
  · obtain ⟨extra, rfl⟩ := Nat.exists_eq_add_of_le (hhighest met hmet ⟨element, hminus⟩)
    have hpower : element ^ (m * 2 ^ (met + extra)) = (-1) ^ 2 ^ extra := by
      rw [pow_add, ← mul_assoc, pow_mul, hminus]
    rw [hpower]
    exact neg_one_pow_eq_or G _

end

section

variable {ι : Type*} {G : Type*} {H : ι → Type*} [CommGroup G] [∀ i, CommGroup (H i)]
  [∀ i, HasDistribNeg (H i)]

/-- The elements with components whose power is a sign. -/
def signPowers (components : G ≃* ∀ i, H i) (exponent : ℕ) : Subgroup G where
  carrier := {element | ∀ i, components element i ^ exponent = 1 ∨
    components element i ^ exponent = -1}
  one_mem' i := by
    rw [map_one, Pi.one_apply, one_pow]
    exact Or.inl rfl
  mul_mem' {first second} hfirst hsecond i := by
    rw [map_mul, Pi.mul_apply, mul_pow]
    rcases hfirst i with hone | hone <;> rcases hsecond i with htwo | htwo <;> simp [hone, htwo]
  inv_mem' {element} helement i := by
    rw [map_inv, Pi.inv_apply, inv_pow]
    rcases helement i with hone | hone <;> simp [hone]

variable {components : G ≃* ∀ i, H i} {m a : ℕ}

/-- Twice the exponent annihilates an element with signs. -/
theorem pow_eq_one_of_mem_signPowers {exponent : ℕ} {element : G}
    (hmem : element ∈ signPowers components exponent) : element ^ (exponent * 2) = 1 := by
  apply components.injective
  funext i
  rw [map_pow, map_one, Pi.pow_apply, pow_mul, Pi.one_apply]
  rcases hmem i with hone | hone
  · rw [hone, one_pow]
  · rw [hone, neg_one_sq]

variable [DecidableEq ι]

/-- The element with the components of another on some of the indices. -/
def restrictTo (components : G ≃* ∀ i, H i) (indices : Finset ι) (element : G) : G :=
  components.symm fun i ↦ if i ∈ indices then components element i else 1

variable [HasDistribNeg G] (hneg : components (-1) = -1)

include hneg

/-- A power of a restricted root of minus one has minus signs on the indices. -/
theorem components_restrictTo_pow {exponent : ℕ} {root : G} (hroot : root ^ exponent = -1)
    (indices : Finset ι) (i : ι) :
    components (restrictTo components indices root) i ^ exponent =
      if i ∈ indices then -1 else 1 := by
  have hminus : components root i ^ exponent = -1 := by
    rw [← Pi.pow_apply, ← map_pow, hroot, hneg, Pi.neg_apply, Pi.one_apply]
  rw [restrictTo, components.apply_symm_apply]
  split_ifs with hmem
  · exact hminus
  · exact one_pow exponent

/-- The product of a liar and a restricted root of minus one has signs. -/
theorem mul_restrictTo_mem_signPowers {exponent : ℕ} {root liar : G} (hroot : root ^ exponent = -1)
    (hliar : liar ^ exponent = 1 ∨ liar ^ exponent = -1) (indices : Finset ι) :
    liar * restrictTo components indices root ∈ signPowers components exponent := by
  refine mul_mem (fun i ↦ ?_) fun i ↦ ?_
  · rw [← Pi.pow_apply, ← map_pow]
    rcases hliar with hone | hone
    · exact Or.inl (by rw [hone, map_one, Pi.one_apply])
    · exact Or.inr (by rw [hone, hneg, Pi.neg_apply, Pi.one_apply])
  · rw [components_restrictTo_pow hneg hroot]
    split_ifs
    · exact Or.inr rfl
    · exact Or.inl rfl

/-- The signs of the product tell the liar and the indices, when an index is left out. -/
theorem mul_restrictTo_inj (hsigns : ∀ i, (-1 : H i) ≠ 1) {exponent : ℕ} {root : G}
    (hroot : root ^ exponent = -1) {index : ι} {liar liar' : G} {indices indices' : Finset ι}
    (hliar : liar ^ exponent = 1 ∨ liar ^ exponent = -1)
    (hliar' : liar' ^ exponent = 1 ∨ liar' ^ exponent = -1)
    (hindices : index ∉ indices) (hindices' : index ∉ indices')
    (heq : liar * restrictTo components indices root =
      liar' * restrictTo components indices' root) :
    liar = liar' ∧ indices = indices' := by
  have hcomponents : ∀ i, components (liar ^ exponent) i * (if i ∈ indices then -1 else 1) =
      components (liar' ^ exponent) i * (if i ∈ indices' then -1 else 1) := by
    intro i
    rw [← components_restrictTo_pow hneg hroot, ← components_restrictTo_pow hneg hroot,
      map_pow, map_pow, Pi.pow_apply, Pi.pow_apply, ← mul_pow, ← mul_pow, ← Pi.mul_apply,
      ← Pi.mul_apply, ← map_mul, ← map_mul, heq]
  have hsign : liar ^ exponent = liar' ^ exponent := by
    have hindex := hcomponents index
    rw [if_neg hindices, if_neg hindices', mul_one, mul_one] at hindex
    have hother : components (-1) index = (-1 : H index) := by
      rw [hneg, Pi.neg_apply, Pi.one_apply]
    rcases hliar with hone | hone <;> rcases hliar' with htwo | htwo <;>
      rw [hone, htwo] at hindex ⊢
    · rw [map_one, Pi.one_apply, hother] at hindex
      exact absurd hindex.symm (hsigns index)
    · rw [map_one, Pi.one_apply, hother] at hindex
      exact absurd hindex (hsigns index)
  have hsame : indices = indices' := by
    ext i
    have hi := hcomponents i
    rw [hsign, mul_right_inj] at hi
    by_cases hmem : i ∈ indices <;> by_cases hmem' : i ∈ indices'
    · exact iff_of_true hmem hmem'
    · rw [if_pos hmem, if_neg hmem'] at hi
      exact absurd hi (hsigns i)
    · rw [if_neg hmem, if_pos hmem'] at hi
      exact absurd hi.symm (hsigns i)
    · exact iff_of_false hmem hmem'
  subst hsame
  exact ⟨mul_right_cancel heq, rfl⟩

/-- Every liar of a product of groups comes with as many elements with signs as there are signs of
the other components. -/
theorem two_pow_mul_ncard_isStrongLiar_le [Fintype ι] [Nonempty ι] [Finite G]
    (hsigns : ∀ i, (-1 : H i) ≠ 1) (hm : Odd m) (ha : a ≠ 0) :
    ∃ level < a, 2 ^ (Fintype.card ι - 1) * {element : G | IsStrongLiar m a element}.ncard ≤
      Nat.card (signPowers components (m * 2 ^ level)) := by
  obtain ⟨level, hlevel, ⟨root, hroot⟩, hhighest⟩ := exists_highest_level G hm ha
  refine ⟨level, hlevel, ?_⟩
  obtain ⟨index⟩ := ‹Nonempty ι›
  have hcount : 2 ^ (Fintype.card ι - 1) * {element : G | IsStrongLiar m a element}.ncard =
      Set.ncard (((Finset.univ.erase index).powerset : Set (Finset ι)) ×ˢ
        {element : G | IsStrongLiar m a element}) := by
    rw [Set.ncard_prod, Set.ncard_coe_finset, Finset.card_powerset,
      Finset.card_erase_of_mem (Finset.mem_univ index), Finset.card_univ]
  have hsubset : ∀ indices ∈ (Finset.univ.erase index).powerset, index ∉ indices :=
    fun indices hindices hmem ↦
      (Finset.mem_erase.mp (Finset.mem_powerset.mp hindices hmem)).1 rfl
  rw [hcount, ← SetLike.coe_sort_coe, Nat.card_coe_set_eq]
  refine Set.ncard_le_ncard_of_injOn
    (fun pair ↦ pair.2 * restrictTo components pair.1 root) ?_ ?_ (Set.toFinite _)
  · rintro ⟨indices, liar⟩ ⟨-, hliar⟩
    exact mul_restrictTo_mem_signPowers hneg hroot (hliar.pow_eq hhighest) indices
  · rintro ⟨indices, liar⟩ ⟨hindices, hliar⟩ ⟨indices', liar'⟩ ⟨hindices', hliar'⟩ heq
    obtain ⟨hsame, hsame'⟩ := mul_restrictTo_inj hneg hsigns hroot (hliar.pow_eq hhighest)
      (hliar'.pow_eq hhighest) (hsubset _ hindices) (hsubset _ hindices') heq
    exact Prod.ext hsame' hsame

end

/-! ### Residues modulo an odd number -/

section

variable {n m a : ℕ}

/-- Minus one is not one modulo an odd number from three on. -/
theorem neg_one_ne_one (hn : 2 < n) : (-1 : (ZMod n)ˣ) ≠ 1 := by
  have : Fact (2 < n) := ⟨hn⟩
  intro hsame
  exact ZMod.neg_one_ne_one (by simpa using congrArg Units.val hsame)

theorem two_lt_primePow (hodd : Odd n) (p : n.primeFactors) :
    2 < (p : ℕ) ^ n.factorization p := by
  obtain ⟨hprime, hdvd, hn⟩ := Nat.mem_primeFactors.mp p.2
  have hne : (p : ℕ) ≠ 2 := by
    intro htwo
    rw [htwo] at hdvd
    exact absurd hodd (Nat.not_odd_iff_even.mpr (even_iff_two_dvd.mpr hdvd))
  have htwo := hprime.two_le
  have hpower := Nat.le_self_pow (hprime.factorization_pos_of_dvd hn hdvd).ne' (p : ℕ)
  omega

/-- When the `n - 1`-th power of every unit is one, the modulus has no square factor and `p - 1`
divides `n - 1` for every prime factor. -/
theorem sub_one_dvd_of_pow_eq_one (hn : 1 < n) (hodd : Odd n)
    (hpower : ∀ unit : (ZMod n)ˣ, unit ^ (n - 1) = 1) {p k : ℕ} (hp : p.Prime) (hk : k ≠ 0)
    (hdvd : p ^ k ∣ n) : k = 1 ∧ p - 1 ∣ n - 1 := by
  have hne : p ≠ 2 := by
    rintro rfl
    have heven := even_iff_two_dvd.mpr ((dvd_pow_self 2 hk).trans hdvd)
    exact absurd hodd (Nat.not_odd_iff_even.mpr heven)
  have hexponent : ArithmeticFunction.carmichael n ∣ n - 1 := by
    rw [ArithmeticFunction.carmichael_eq_exponent (by omega)]
    exact Monoid.exponent_dvd_of_forall_pow_eq_one hpower
  have htotient : p ^ (k - 1) * (p - 1) ∣ n - 1 := by
    have hcarmichael := (ArithmeticFunction.carmichael_dvd hdvd).trans hexponent
    rwa [ArithmeticFunction.carmichael_pow_of_prime_ne_two k hp hne,
      Nat.totient_prime_pow hp (Nat.pos_of_ne_zero hk)] at hcarmichael
  refine ⟨?_, (Dvd.intro_left _ rfl).trans htotient⟩
  by_contra hsquare
  have hpn : p ∣ n := (dvd_pow_self p hk).trans hdvd
  have hpn' : p ∣ n - 1 := ((dvd_pow_self p (by omega)).mul_right _).trans htotient
  exact hp.one_lt.ne' (Nat.eq_one_of_dvd_one
    ((Nat.dvd_add_right hpn').mp (by rwa [Nat.sub_add_cancel hn.le])))

/-- A product of two distinct primes has a unit with another `n - 1`-th power. -/
theorem exists_pow_ne_one (hn : 1 < n) (hodd : Odd n) (htwo : n.primeFactors.card = 2) :
    ∃ unit : (ZMod n)ˣ, unit ^ (n - 1) ≠ 1 := by
  by_contra hpower
  push Not at hpower
  obtain ⟨p, q, hne, hfactors⟩ := Finset.card_eq_two.mp htwo
  have hprime : ∀ r ∈ n.primeFactors, r.Prime := fun r ↦ Nat.prime_of_mem_primeFactors
  have hp : p.Prime := hprime p (by rw [hfactors]; simp)
  have hq : q.Prime := hprime q (by rw [hfactors]; simp)
  have hpos : ∀ r : ℕ, r.Prime → r ∣ n → n.factorization r = 1 ∧ r - 1 ∣ n - 1 := by
    intro r hr hdvd
    exact sub_one_dvd_of_pow_eq_one hn hodd hpower hr
      (hr.factorization_pos_of_dvd (by omega) hdvd).ne' (Nat.ordProj_dvd n r)
  have hpn : p ∣ n := Nat.dvd_of_mem_primeFactors (by rw [hfactors]; simp)
  have hqn : q ∣ n := Nat.dvd_of_mem_primeFactors (by rw [hfactors]; simp)
  have hproduct : n = p * q := by
    have hprod := Nat.prod_factorization_pow_eq_self (by omega : n ≠ 0)
    rw [Finsupp.prod, Nat.support_factorization, hfactors, Finset.prod_pair hne,
      (hpos p hp hpn).1, (hpos q hq hqn).1, pow_one, pow_one] at hprod
    exact hprod.symm
  have hdvd : ∀ r s : ℕ, r.Prime → s.Prime → n = r * s → r - 1 ∣ n - 1 → r - 1 ∣ s - 1 := by
    intro r s hr hs hrs hsub
    have hsplit : n - 1 = (r - 1) * s + (s - 1) := by
      rw [hrs, Nat.sub_mul, one_mul]
      have hle : s ≤ r * s := Nat.le_mul_of_pos_left s hr.pos
      have hone := hs.one_le
      omega
    rw [hsplit] at hsub
    exact (Nat.dvd_add_right (Dvd.intro s rfl)).mp hsub
  have hpq := hdvd p q hp hq hproduct (hpos p hp hpn).2
  have hqp := hdvd q p hq hp (hproduct.trans (mul_comm p q)) (hpos q hq hqn).2
  have hsame := Nat.dvd_antisymm hpq hqp
  have hpone := hp.one_le
  have hqone := hq.one_le
  exact hne (by omega)

/-! ### The bound -/

/-- At most every fourth unit is a liar when the modulus has two prime factors or more. -/
theorem four_mul_ncard_le_of_two_le_card (hn : 1 < n) (hodd : Odd n) (hm : Odd m) (ha : a ≠ 0)
    (hsplit : n - 1 = m * 2 ^ a) (hfactors : 2 ≤ n.primeFactors.card) :
    4 * {unit : (ZMod n)ˣ | IsStrongLiar m a unit}.ncard ≤ n.totient := by
  have hzero : n ≠ 0 := by omega
  have : NeZero n := ⟨hzero⟩
  have hcard : Fintype.card n.primeFactors = n.primeFactors.card := Fintype.card_coe _
  have : Nonempty n.primeFactors := Fintype.card_pos_iff.mp (by omega)
  obtain ⟨level, hlevel, hliars⟩ := two_pow_mul_ncard_isStrongLiar_le
    (unitComponents_neg_one hzero) (fun p ↦ neg_one_ne_one (two_lt_primePow hodd p)) hm ha
  rw [hcard] at hliars
  generalize hsigns : signPowers (unitComponents hzero) (m * 2 ^ level) = signs at hliars
  have htotient : Nat.card signs * signs.index = n.totient := by
    rw [Subgroup.card_mul_index, Nat.card_eq_fintype_card, ZMod.card_units_eq_totient]
  have hindex : signs.index ≠ 0 := Subgroup.index_ne_zero_of_finite
  by_cases hthree : 3 ≤ n.primeFactors.card
  · have hpower : 2 ^ 2 ≤ 2 ^ (n.primeFactors.card - 1) :=
      Nat.pow_le_pow_right Nat.two_pos (by omega)
    calc 4 * {unit : (ZMod n)ˣ | IsStrongLiar m a unit}.ncard
        ≤ 2 ^ (n.primeFactors.card - 1) * {unit : (ZMod n)ˣ | IsStrongLiar m a unit}.ncard :=
          Nat.mul_le_mul_right _ hpower
      _ ≤ Nat.card signs := hliars
      _ ≤ Nat.card signs * signs.index := Nat.le_mul_of_pos_right _ (Nat.pos_of_ne_zero hindex)
      _ = n.totient := htotient
  · have htwo : n.primeFactors.card = 2 := by omega
    obtain ⟨unit, hunit⟩ := exists_pow_ne_one hn hodd htwo
    have hproper : signs.index ≠ 1 := by
      intro hone
      rw [Subgroup.index_eq_one] at hone
      have hmem : unit ∈ signPowers (unitComponents hzero) (m * 2 ^ level) := by
        rw [hsigns, hone]
        exact Subgroup.mem_top unit
      have hlast := pow_eq_one_of_mem_signPowers hmem
      rw [mul_assoc, ← pow_succ] at hlast
      obtain ⟨extra, hextra⟩ := Nat.exists_eq_add_of_le (Nat.succ_le_of_lt hlevel)
      refine hunit ?_
      rw [hsplit, hextra, Nat.succ_eq_add_one, pow_add, ← mul_assoc, pow_mul, hlast, one_pow]
    rw [htwo, pow_one] at hliars
    calc 4 * {unit : (ZMod n)ˣ | IsStrongLiar m a unit}.ncard
        = 2 * {unit : (ZMod n)ˣ | IsStrongLiar m a unit}.ncard * 2 := by ring
      _ ≤ Nat.card signs * signs.index := Nat.mul_le_mul hliars (by omega)
      _ = n.totient := htotient

/-- The liars of a power of an odd prime are at most `p - 1`. -/
theorem ncard_isStrongLiar_primePow_le {p k : ℕ} (hp : p.Prime) (hne : p ≠ 2) (hk : k ≠ 0)
    (hsplit : p ^ k - 1 = m * 2 ^ a) :
    {unit : (ZMod (p ^ k))ˣ | IsStrongLiar m a unit}.ncard ≤ p - 1 := by
  have : NeZero (p ^ k) := ⟨(pow_pos hp.pos k).ne'⟩
  have : IsCyclic (ZMod (p ^ k))ˣ := ZMod.isCyclic_units_of_prime_pow p hp hne k
  have hpower : ∀ unit : (ZMod (p ^ k))ˣ, IsStrongLiar m a unit → unit ^ (p - 1) = 1 := by
    intro unit hliar
    have hfull : unit ^ (p ^ k - 1) = 1 := by
      rcases hliar with hone | ⟨level, hlevel, hminus⟩
      · rw [hsplit, pow_mul, hone, one_pow]
      · obtain ⟨extra, rfl⟩ := Nat.exists_eq_add_of_le (Nat.succ_le_of_lt hlevel)
        rw [hsplit, Nat.succ_eq_add_one, pow_add, pow_succ, mul_assoc, ← mul_assoc m, pow_mul,
          hminus, pow_mul, neg_one_sq, one_pow]
    have htotient : unit ^ (p ^ (k - 1) * (p - 1)) = 1 := by
      rw [← Nat.totient_prime_pow hp (Nat.pos_of_ne_zero hk)]
      exact ZMod.pow_totient unit
    have hgcd := pow_gcd_eq_one.mpr ⟨hfull, htotient⟩
    have hcoprime : (p ^ k - 1).Coprime (p ^ (k - 1)) := by
      apply Nat.Coprime.pow_right
      have hdvd : p ∣ p ^ k := dvd_pow_self p hk
      refine (Nat.Prime.coprime_iff_not_dvd hp).mpr ?_ |>.symm
      intro hsub
      have hone := (Nat.dvd_sub hdvd hsub)
      rw [Nat.sub_sub_self (Nat.one_le_pow _ _ hp.pos)] at hone
      exact hp.one_lt.ne' (Nat.dvd_one.mp hone)
    rw [Nat.Coprime.gcd_mul_left_cancel_right (p - 1) hcoprime.symm] at hgcd
    obtain ⟨multiple, hmultiple⟩ := Nat.gcd_dvd_right (p ^ k - 1) (p - 1)
    rw [hmultiple, pow_mul, hgcd, one_pow]
  have hsub := hp.one_lt
  calc {unit : (ZMod (p ^ k))ˣ | IsStrongLiar m a unit}.ncard
      ≤ ((Finset.univ.filter fun unit : (ZMod (p ^ k))ˣ ↦ unit ^ (p - 1) = 1 :
          Finset (ZMod (p ^ k))ˣ) : Set (ZMod (p ^ k))ˣ).ncard := by
        refine Set.ncard_le_ncard (fun unit hliar ↦ ?_) (Set.toFinite _)
        simpa using hpower unit hliar
    _ ≤ p - 1 := by
        rw [Set.ncard_coe_finset]
        exact IsCyclic.card_pow_eq_one_le (by omega)

/-- At most every fourth unit of an odd composite modulus other than nine is a strong liar. -/
theorem four_mul_ncard_isStrongLiar_le (hn : 1 < n) (hodd : Odd n) (hcomposite : ¬ n.Prime)
    (hnine : n ≠ 9) (hm : Odd m) (ha : a ≠ 0) (hsplit : n - 1 = m * 2 ^ a) :
    4 * {unit : (ZMod n)ˣ | IsStrongLiar m a unit}.ncard ≤ n.totient := by
  by_cases hfactors : 2 ≤ n.primeFactors.card
  · exact four_mul_ncard_le_of_two_le_card hn hodd hm ha hsplit hfactors
  · have hpositive := Finset.card_pos.mpr (Nat.nonempty_primeFactors.mpr hn)
    have hprimePow : IsPrimePow n := by
      rw [isPrimePow_iff_card_primeFactors_eq_one]
      omega
    obtain ⟨p, k, hp, hk, rfl⟩ := (isPrimePow_nat_iff n).mp hprimePow
    have hne : p ≠ 2 := by
      rintro rfl
      exact absurd hodd (Nat.not_odd_iff_even.mpr (even_two.pow_of_ne_zero hk.ne'))
    have hexponent : k ≠ 1 := by
      rintro rfl
      exact hcomposite (by rwa [pow_one])
    rw [Nat.totient_prime_pow hp hk]
    refine Nat.mul_le_mul ?_ (ncard_isStrongLiar_primePow_le hp hne hk.ne' hsplit)
    rcases hp.two_le.lt_or_eq with hthree | htwo
    · by_cases hsquare : p = 3 ∧ k = 2
      · obtain ⟨rfl, rfl⟩ := hsquare
        exact absurd rfl hnine
      · have hfour : p ≠ 4 := by
          rintro rfl
          exact absurd hp (by decide)
        rcases Nat.lt_or_ge 4 p with hfive | hle
        · exact hfive.le.trans (Nat.le_self_pow (by omega) p)
        · obtain rfl : p = 3 := by omega
          calc 4 ≤ 3 ^ 2 := by decide
            _ ≤ 3 ^ (k - 1) := Nat.pow_le_pow_right (by decide) (by omega)
    · exact absurd htwo.symm hne

end

end SoftwareKeyCore.StrongLiars
