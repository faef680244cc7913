import SoftwareKeyCore.Foundation.CounterStream
import SoftwareKeyCore.SecureChannel

/-!
# The derivations of a secure channel

`secure_channel.rs`: `scp03_key` and `scp03_cryptogram`, and the derivations of a channel under one key
taken together. A `Derivation` holds the arguments of `scp03_kdf` besides the key.

The input of CMAC holds the constant, the number of bits and the counter at fixed places before the
context, so that two derivations never share an input (`scp03Input_inj`). `derivations_independent`
says what follows for a whole channel: all inputs are distinct as long as no derivation is repeated,
an output depends on CMAC at the inputs of its own derivation only, and all outputs together can be
any byte strings of their lengths.
-/

set_option autoImplicit false
set_option relaxedAutoImplicit false

namespace SoftwareKeyCore.SecureChannel

open ByteString CheckedSlice Cmac CounterStream FallibleResult SoftwareSymmetric

/-- `scp03_key`. -/
def scp03Key (cmac : AesCmac) (key : ByteString) (derivationConstant : UInt8)
    (context : ByteString) : Except SecureChannelCryptoError (List.Vector UInt8 aesBlockSize) := do
  let output ← scp03Kdf cmac key derivationConstant context 128
  orError .invalidDataLength (tryInto aesBlockSize output)

/-- `scp03_cryptogram`. -/
def scp03Cryptogram (cmac : AesCmac) (key : ByteString) (derivationConstant : UInt8)
    (context : ByteString) : Except SecureChannelCryptoError (List.Vector UInt8 8) := do
  let output ← scp03Kdf cmac key derivationConstant context 64
  orError .invalidDataLength (tryInto 8 output)

/-- The arguments of a derivation besides the key. -/
structure Derivation where
  derivationConstant : UInt8
  context : ByteString
  outputBits : UInt16
  deriving DecidableEq

namespace Derivation

variable (derivation : Derivation)

/-- The derivation under a key. -/
def run (cmac : AesCmac) (key : ByteString) : Except SecureChannelCryptoError ByteString :=
  scp03Kdf cmac key derivation.derivationConstant derivation.context derivation.outputBits

/-- The number of bytes that are derived. -/
def outputLength : ℕ :=
  derivation.outputBits.toNat / 8

/-- The number of calls of CMAC. -/
def iterations : ℕ :=
  derivation.outputLength ⌈/⌉ aesBlockSize

/-- The input of CMAC at a counter. -/
def input (counter : ℕ) : ByteString :=
  scp03Input derivation.derivationConstant derivation.context derivation.outputBits counter

/-- The inputs of CMAC, in the order of the calls. -/
def inputs : List ByteString :=
  (List.range' 1 derivation.iterations).map derivation.input

/-- The arguments that `scp03_kdf` takes. -/
structure IsAccepted : Prop where
  outputBits_ne_zero : derivation.outputBits ≠ 0
  dvd_outputBits : 8 ∣ derivation.outputBits.toNat
  iterations_le : derivation.iterations ≤ 255

end Derivation

/-! ### Inputs -/

section

variable {derivation derivation' : Derivation} {counter counter' : ℕ}

/-- An input tells the derivation and the counter. -/
theorem scp03Input_inj (hcounter : counter < 256) (hcounter' : counter' < 256)
    (hinput : derivation.input counter = derivation'.input counter') :
    derivation = derivation' ∧ counter = counter' := by
  unfold Derivation.input scp03Input at hinput
  obtain ⟨hfields, hcontext⟩ := List.append_inj hinput (by simp)
  obtain ⟨hfields, hlast⟩ := List.append_inj' hfields rfl
  obtain ⟨hfields, hbits⟩ := List.append_inj' hfields (by simp)
  obtain ⟨hfields, -⟩ := List.append_inj' hfields rfl
  obtain ⟨-, hconstant⟩ := List.append_inj' hfields rfl
  have hnumber : derivation.outputBits.toNat = derivation'.outputBits.toNat := by
    have hnumbers := congrArg fromBeBytes hbits
    rwa [fromBeBytes_toBeBytes_of_lt derivation.outputBits.toNat_lt,
      fromBeBytes_toBeBytes_of_lt derivation'.outputBits.toNat_lt] at hnumbers
  have hbyte := congrArg UInt8.toNat (List.singleton_inj.mp hlast)
  rw [UInt8.toNat_ofNat', UInt8.toNat_ofNat', Nat.mod_eq_of_lt hcounter,
    Nat.mod_eq_of_lt hcounter'] at hbyte
  refine ⟨?_, hbyte⟩
  obtain ⟨derivationConstant, context, outputBits⟩ := derivation
  obtain ⟨derivationConstant', context', outputBits'⟩ := derivation'
  obtain rfl := List.singleton_inj.mp hconstant
  obtain rfl := UInt16.toNat_inj.mp hnumber
  obtain rfl := hcontext
  rfl

theorem mem_inputs {input : ByteString} :
    input ∈ derivation.inputs ↔
      ∃ counter, (1 ≤ counter ∧ counter ≤ derivation.iterations) ∧
        derivation.input counter = input := by
  rw [Derivation.inputs, List.mem_map]
  refine exists_congr fun counter ↦ and_congr_left fun _ ↦ ?_
  rw [List.mem_range'_1]
  omega

/-- Derivations that share an input are the same. -/
theorem eq_of_mem_inputs {input : ByteString} (haccepted : derivation.IsAccepted)
    (haccepted' : derivation'.IsAccepted) (hinput : input ∈ derivation.inputs)
    (hinput' : input ∈ derivation'.inputs) : derivation = derivation' := by
  obtain ⟨counter, hcounter, rfl⟩ := mem_inputs.mp hinput
  obtain ⟨counter', hcounter', hsame⟩ := mem_inputs.mp hinput'
  have hle := haccepted.iterations_le
  have hle' := haccepted'.iterations_le
  exact (scp03Input_inj (by omega) (by omega) hsame.symm).1

/-- A derivation does not repeat an input. -/
theorem nodup_inputs (haccepted : derivation.IsAccepted) : derivation.inputs.Nodup := by
  refine List.Nodup.map_on ?_ List.nodup_range'
  intro counter hcounter counter' hcounter' hsame
  have hle := haccepted.iterations_le
  rw [List.mem_range'_1] at hcounter hcounter'
  exact (scp03Input_inj (by omega) (by omega) hsame).2

/-- A derivation calls CMAC. -/
theorem exists_mem_inputs (haccepted : derivation.IsAccepted) :
    ∃ input, input ∈ derivation.inputs := by
  have hpositive : 0 < derivation.iterations :=
    iterations_pos haccepted.outputBits_ne_zero haccepted.dvd_outputBits
  exact ⟨derivation.input 1, mem_inputs.mpr ⟨1, ⟨le_rfl, hpositive⟩, rfl⟩⟩

/-- The inputs of a channel are distinct when its derivations are. -/
theorem nodup_flatMap_inputs_iff {derivations : List Derivation}
    (haccepted : ∀ derivation ∈ derivations, derivation.IsAccepted) :
    (derivations.flatMap Derivation.inputs).Nodup ↔ derivations.Nodup := by
  have heach : ∀ derivation ∈ derivations, derivation.inputs.Nodup :=
    fun derivation hmem ↦ nodup_inputs (haccepted derivation hmem)
  rw [List.nodup_flatMap, and_iff_right heach]
  constructor
  · intro hdisjoint
    refine hdisjoint.imp_of_mem ?_
    rintro derivation derivation' hmem - hapart rfl
    obtain ⟨input, hinput⟩ := exists_mem_inputs (haccepted derivation hmem)
    exact hapart hinput hinput
  · intro hnodup
    refine hnodup.imp_of_mem ?_
    intro derivation derivation' hmem hmem' hne input hinput hinput'
    exact hne (eq_of_mem_inputs (haccepted derivation hmem) (haccepted derivation' hmem') hinput
      hinput')

end

/-! ### Outputs -/

section

variable {derivation : Derivation} {cmac cmac' : AesCmac} {key : ByteString}

/-- A derivation sees CMAC at its inputs only. -/
theorem run_congr (hcmac : ∀ input ∈ derivation.inputs, cmac key input = cmac' key input) :
    derivation.run cmac key = derivation.run cmac' key := by
  unfold Derivation.run scp03Kdf
  dsimp only
  by_cases hkey : IsAesKey key
  · have hstream : ∀ counter ∈ List.range' 1 derivation.iterations,
        (cmac key (derivation.input counter)).toList =
          (cmac' key (derivation.input counter)).toList :=
      fun counter hcounter ↦ congrArg _ (hcmac _ (List.mem_map_of_mem hcounter))
    rw [foldlM_scp03Step hkey, foldlM_scp03Step hkey]
    have hsame := List.flatMap_congr hstream
    unfold Derivation.iterations Derivation.outputLength Derivation.input at hsame
    rw [hsame]
  · -- Every call fails, whatever CMAC is.
    have hstep : scp03Step cmac key = scp03Step cmac' key := by
      funext derivationConstant context outputBits output counter
      have hrefused : ∀ cmac : AesCmac, ∀ data,
          aesCmac cmac key data = .error .invalidKeyLength := fun cmac data ↦ if_neg hkey
      rw [scp03Step, scp03Step, hrefused, hrefused]
    rw [hstep]

theorem outputLength_le (derivation : Derivation) :
    derivation.outputLength ≤ derivation.iterations * aesBlockSize :=
  le_ceilDiv_mul (by decide) derivation.outputLength

variable (derivation cmac key) in
/-- The blocks of the iterations, cut to the length of the output, are the start of their stream. -/
theorem isStreamPrefix_blocks :
    IsStreamPrefix (fun counter ↦ (cmac key (derivation.input counter)).toList) 1 aesBlockSize
      derivation.outputLength
      ((counterStream (fun counter ↦ (cmac key (derivation.input counter)).toList) 1
        derivation.iterations).take derivation.outputLength) :=
  isStreamPrefix_take (fun _ ↦ List.Vector.toList_length _) 1 (outputLength_le derivation)

/-- An accepted derivation returns the start of the stream of its blocks. -/
theorem run_eq_ok_iff (hkey : IsAesKey key) (haccepted : derivation.IsAccepted)
    {output : ByteString} :
    derivation.run cmac key = .ok output ↔
      IsStreamPrefix (fun counter ↦ (cmac key (derivation.input counter)).toList) 1 aesBlockSize
        derivation.outputLength output := by
  have hstream := isStreamPrefix_blocks derivation cmac key
  constructor
  · intro hrun
    rw [← (scp03Kdf_eq_ok_iff_stream.mp hrun).2.2.2]
    exact hstream
  · intro houtput
    exact scp03Kdf_eq_ok_iff_stream.mpr ⟨⟨haccepted.outputBits_ne_zero, haccepted.dvd_outputBits⟩,
      haccepted.iterations_le, hkey, hstream.eq houtput⟩

/-- The block that a counter adds to an output. -/
def outputBlock (output : ByteString) (counter : ℕ) : List.Vector UInt8 aesBlockSize :=
  ⟨resize (output.drop ((counter - 1) * aesBlockSize)) aesBlockSize 0, length_resize _ _ _⟩

theorem getElem?_outputBlock {output : ByteString} {index : ℕ} (hindex : index < output.length) :
    (outputBlock output (1 + index / aesBlockSize)).toList[index % aesBlockSize]? =
      output[index]? := by
  have hsplit := Nat.div_add_mod' index aesBlockSize
  have hremainder : index % aesBlockSize < aesBlockSize := Nat.mod_lt _ (by decide)
  change (resize (output.drop ((1 + index / aesBlockSize - 1) * aesBlockSize)) aesBlockSize
    0)[index % aesBlockSize]? = _
  rw [Nat.add_sub_cancel_left, resize, List.getElem?_append_left, List.getElem?_take_of_lt hremainder,
    List.getElem?_drop, hsplit]
  rw [List.length_take, List.length_drop]
  omega

open Classical in
/-- A CMAC that answers the blocks of given outputs. -/
noncomputable def assigningCmac (outputs : Derivation → ByteString) : AesCmac := fun _ input ↦
  if hinput : ∃ call : Derivation × ℕ, call.2 < 256 ∧ call.1.input call.2 = input then
    outputBlock (outputs hinput.choose.1) hinput.choose.2
  else List.Vector.replicate aesBlockSize 0

theorem assigningCmac_input (outputs : Derivation → ByteString) (derivation : Derivation)
    {counter : ℕ} (hcounter : counter < 256) :
    assigningCmac outputs key (derivation.input counter) =
      outputBlock (outputs derivation) counter := by
  have hinput : ∃ call : Derivation × ℕ, call.2 < 256 ∧
      call.1.input call.2 = derivation.input counter := ⟨(derivation, counter), hcounter, rfl⟩
  obtain ⟨hderivation, hsame⟩ :=
    scp03Input_inj hinput.choose_spec.1 hcounter hinput.choose_spec.2
  rw [assigningCmac, dif_pos hinput, hderivation, hsame]

/-- The derivations return the outputs that their blocks were taken from. -/
theorem run_assigningCmac (hkey : IsAesKey key) {outputs : Derivation → ByteString}
    (haccepted : derivation.IsAccepted)
    (hlength : (outputs derivation).length = derivation.outputLength) :
    derivation.run (assigningCmac outputs) key = .ok (outputs derivation) := by
  refine (run_eq_ok_iff hkey haccepted).mpr ⟨hlength, fun index hindex ↦ ?_⟩
  have hle := haccepted.iterations_le
  have hquotient : index / aesBlockSize < derivation.iterations := by
    refine Nat.div_lt_of_lt_mul ?_
    rw [mul_comm]
    exact hindex.trans_le (outputLength_le derivation)
  rw [assigningCmac_input outputs derivation (by omega), getElem?_outputBlock (by rwa [hlength])]

end

/-! ### Keys and cryptograms -/

section

variable {derivation : Derivation} {key : ByteString} {length : ℕ}

/-- A derivation of the bits of an array fills it. -/
theorem exists_run_tryInto (cmac : AesCmac) (hkey : IsAesKey key) (haccepted : derivation.IsAccepted)
    (hlength : derivation.outputLength = length) :
    ∃ array : List.Vector UInt8 length, derivation.run cmac key = .ok array.toList ∧
      (derivation.run cmac key >>= fun output ↦
        orError SecureChannelCryptoError.invalidDataLength (tryInto length output)) =
          .ok array := by
  obtain ⟨output, hrun⟩ : ∃ output, derivation.run cmac key = .ok output :=
    ⟨_, (run_eq_ok_iff hkey haccepted).mpr (isStreamPrefix_blocks derivation cmac key)⟩
  have houtput := ((run_eq_ok_iff hkey haccepted).mp hrun).length_eq.trans hlength
  obtain ⟨array, rfl⟩ : ∃ array : List.Vector UInt8 length, array.toList = output :=
    ⟨⟨output, houtput⟩, rfl⟩
  refine ⟨array, hrun, ?_⟩
  rw [hrun, ok_bind, tryInto_eq_some_iff.mpr rfl, orError_some]

/-- The derivations of session keys and of cryptograms are accepted. -/
theorem isAccepted_of_key_or_cryptogram (derivationConstant : UInt8) (context : ByteString) :
    (Derivation.mk derivationConstant context 128).IsAccepted ∧
      (Derivation.mk derivationConstant context 64).IsAccepted := by
  have hkey : (128 : UInt16) ≠ 0 ∧ 8 ∣ (128 : UInt16).toNat ∧
      (128 : UInt16).toNat / 8 ⌈/⌉ 16 ≤ 255 := by decide
  have hcryptogram : (64 : UInt16) ≠ 0 ∧ 8 ∣ (64 : UInt16).toNat ∧
      (64 : UInt16).toNat / 8 ⌈/⌉ 16 ≤ 255 := by decide
  exact ⟨⟨hkey.1, hkey.2.1, hkey.2.2⟩, ⟨hcryptogram.1, hcryptogram.2.1, hcryptogram.2.2⟩⟩

end

/-- The derivations of a channel are independent. Under an AES key, for derivations that are accepted:
no input of CMAC occurs twice unless a derivation does; an output depends on CMAC at the inputs of its
own derivation only; and there is a CMAC for all outputs of the right lengths. Session keys and
cryptograms are such derivations, of 128 and of 64 bits, and never fail.

AES-CMAC is any function from a key and an input to a block. No bound on the number of the
derivations is assumed. -/
theorem derivations_independent {key : ByteString} (hkey : IsAesKey key)
    {derivations : List Derivation}
    (haccepted : ∀ derivation ∈ derivations, derivation.IsAccepted) :
    ((derivations.flatMap Derivation.inputs).Nodup ↔ derivations.Nodup) ∧
    (∀ (cmac cmac' : AesCmac) (derivation : Derivation),
      (∀ input ∈ derivation.inputs, cmac key input = cmac' key input) →
        derivation.run cmac key = derivation.run cmac' key) ∧
    (∀ outputs : Derivation → ByteString,
      (∀ derivation ∈ derivations, (outputs derivation).length = derivation.outputLength) →
        ∃ cmac, ∀ derivation ∈ derivations,
          derivation.run cmac key = .ok (outputs derivation)) ∧
    ∀ (cmac : AesCmac) (derivationConstant : UInt8) (context : ByteString),
      (∃ sessionKey, scp03Key cmac key derivationConstant context = .ok sessionKey ∧
        (Derivation.mk derivationConstant context 128).run cmac key = .ok sessionKey.toList) ∧
      ∃ cryptogram, scp03Cryptogram cmac key derivationConstant context = .ok cryptogram ∧
        (Derivation.mk derivationConstant context 64).run cmac key = .ok cryptogram.toList := by
  refine ⟨nodup_flatMap_inputs_iff haccepted, fun cmac cmac' derivation ↦ run_congr, ?_, ?_⟩
  · intro outputs houtputs
    refine ⟨assigningCmac outputs, fun derivation hmem ↦ ?_⟩
    exact run_assigningCmac hkey (haccepted derivation hmem) (houtputs derivation hmem)
  · intro cmac derivationConstant context
    obtain ⟨hforKey, hforCryptogram⟩ := isAccepted_of_key_or_cryptogram derivationConstant context
    have hkeyLength : (128 : UInt16).toNat / 8 = aesBlockSize := by decide
    have hcryptogramLength : (64 : UInt16).toNat / 8 = 8 := by decide
    obtain ⟨sessionKey, hrun, hsession⟩ := exists_run_tryInto cmac hkey hforKey hkeyLength
    obtain ⟨cryptogram, hrun', hcryptogram⟩ :=
      exists_run_tryInto cmac hkey hforCryptogram hcryptogramLength
    exact ⟨⟨sessionKey, hsession, hrun⟩, ⟨cryptogram, hcryptogram, hrun'⟩⟩

/-- The session keys and the cryptograms of a channel with these challenges. -/
def channelDerivations (challenges : ByteString) : List Derivation :=
  [⟨0x04, challenges, 128⟩, ⟨0x06, challenges, 128⟩, ⟨0x07, challenges, 128⟩,
    ⟨0x00, challenges, 64⟩, ⟨0x01, challenges, 64⟩]

/-- The inputs of a channel are distinct, and its outputs can be any. -/
theorem derivations_independent_channel :
    ((channelDerivations [0x11, 0x22]).flatMap Derivation.inputs).Nodup ∧
    ∀ outputs : Derivation → ByteString,
      (∀ derivation ∈ channelDerivations [0x11, 0x22],
        (outputs derivation).length = derivation.outputLength) →
        ∃ cmac, ∀ derivation ∈ channelDerivations [0x11, 0x22],
          derivation.run cmac (List.replicate 16 0x40) = .ok (outputs derivation) := by
  have hkey : IsAesKey (List.replicate 16 0x40) := by decide
  have haccepted : ∀ derivation ∈ channelDerivations [0x11, 0x22], derivation.IsAccepted := by
    simp only [channelDerivations, List.forall_mem_cons, (isAccepted_of_key_or_cryptogram _ _).1,
      (isAccepted_of_key_or_cryptogram _ _).2, true_and]
    exact fun derivation hmem ↦ absurd hmem List.not_mem_nil
  obtain ⟨hinputs, -, houtputs, -⟩ := derivations_independent hkey haccepted
  exact ⟨hinputs.mpr (by decide), houtputs⟩

end SoftwareKeyCore.SecureChannel
