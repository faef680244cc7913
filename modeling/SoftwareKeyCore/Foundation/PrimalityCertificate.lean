import SoftwareKeyCore.Foundation.ModularPower

/-!
# Certificates of primality

Certificates that prove a large number prime by Lucas's test. A `PrattEntry` lists a number with a
primitive root and the prime factors of its predecessor. A list of entries, each of which rests on
known primes and on earlier entries, proves all its numbers prime (`prime_of_checkPratt`). The
check is a computation with modular powers.
-/

set_option autoImplicit false
set_option relaxedAutoImplicit false

namespace SoftwareKeyCore.PrimalityCertificate

open ModularPower

/-- A number, a primitive root of it, and the prime factors of its predecessor. -/
structure PrattEntry where
  number : ℕ
  root : ℕ
  factors : List ℕ

/-- The entry rests on the known primes and passes Lucas's test. -/
def PrattEntry.check (entry : PrattEntry) (known : List ℕ) : Bool :=
  decide (1 < entry.number) && decide (entry.factors.prod + 1 = entry.number) &&
    entry.factors.all (fun factor ↦ known.contains factor) &&
    modpow entry.root (entry.number - 1) entry.number == 1 &&
    entry.factors.all fun factor ↦
      modpow entry.root ((entry.number - 1) / factor) entry.number != 1

/-- The entries rest on known primes and earlier entries. -/
def checkPratt (known : List ℕ) : List PrattEntry → Bool
  | [] => true
  | entry :: entries => entry.check known && checkPratt (entry.number :: known) entries

/-- A power is one modulo a number when its residue is. -/
theorem cast_pow_eq_one_iff {number : ℕ} (hnumber : 1 < number) (base exponent : ℕ) :
    (base : ZMod number) ^ exponent = 1 ↔ modpow base exponent number = 1 := by
  rw [← Nat.cast_pow, ← Nat.cast_one, ZMod.natCast_eq_natCast_iff, Nat.ModEq, modpow_eq,
    Nat.mod_eq_of_lt hnumber]

/-- An entry that rests on primes is prime. -/
theorem PrattEntry.prime {entry : PrattEntry} {known : List ℕ}
    (hcheck : entry.check known = true) (hknown : ∀ prime ∈ known, prime.Prime) :
    entry.number.Prime := by
  simp only [PrattEntry.check, Bool.and_eq_true, decide_eq_true_eq, List.all_eq_true,
    List.contains_iff_mem, beq_iff_eq, bne_iff_ne] at hcheck
  obtain ⟨⟨⟨⟨hone, hprod⟩, hfactors⟩, hpow⟩, hne⟩ := hcheck
  have hpred : entry.number - 1 = entry.factors.prod := by omega
  refine lucas_primality entry.number entry.root ((cast_pow_eq_one_iff hone _ _).mpr hpow) ?_
  intro prime hprime hdvd
  rw [hpred] at hdvd
  obtain ⟨factor, hmem, hfactor⟩ := (Nat.Prime.prime hprime).dvd_prod_iff.mp hdvd
  have hsame := (Nat.prime_dvd_prime_iff_eq hprime (hknown factor (hfactors factor hmem))).mp
    hfactor
  rw [hsame, Ne, cast_pow_eq_one_iff hone]
  exact hne factor hmem

/-- The numbers of checked entries are prime. -/
theorem prime_of_checkPratt {entries : List PrattEntry} {known : List ℕ}
    (hcheck : checkPratt known entries = true) (hknown : ∀ prime ∈ known, prime.Prime) :
    ∀ entry ∈ entries, entry.number.Prime := by
  induction entries generalizing known with
  | nil => exact fun _ hmem ↦ absurd hmem List.not_mem_nil
  | cons entry entries ih =>
    rw [checkPratt, Bool.and_eq_true] at hcheck
    have hprime := PrattEntry.prime hcheck.1 hknown
    rw [List.forall_mem_cons]
    exact ⟨hprime, ih hcheck.2 (List.forall_mem_cons.mpr ⟨hprime, hknown⟩)⟩

/-- A list of the numbers of checked entries is a list of primes. -/
theorem prime_of_mem_of_checkPratt {entries : List PrattEntry} {known numbers : List ℕ}
    (hcheck : checkPratt known entries = true) (hknown : ∀ prime ∈ known, prime.Prime)
    (hnumbers : entries.map PrattEntry.number = numbers) : ∀ number ∈ numbers, number.Prime := by
  intro number hmem
  rw [← hnumbers] at hmem
  obtain ⟨entry, hentry, rfl⟩ := List.mem_map.mp hmem
  exact prime_of_checkPratt hcheck hknown entry hentry

end SoftwareKeyCore.PrimalityCertificate
