-- Integers through `tryNumber` and `tryChar`. The value is cut to the width of
-- `*dest`, and the call says `true` also when it did not fit.
import Lopack.TryAccess

open calls

namespace osc

/-! ## The destinations -/

/-- The functions with a `*dest` that is an integer. -/
inductive IntegerDest where
  | int
  | unsigned
  | char
deriving DecidableEq, Repr

abbrev IntegerDest.function : IntegerDest → Try
  | .int => .tryNumberInt
  | .unsigned => .tryNumberUnsigned
  | .char => .tryChar

/-- The number in `*dest`. C++ leaves it to the platform whether `char` is signed. -/
def IntegerDest.number (signedChar : Bool) : (k : IntegerDest) → k.function.Dest → ℤ
  | .int, v => Int32.toInt v
  | .unsigned, v => UInt32.toNat v
  | .char, v => if signedChar then (UInt8.toInt8 v).toInt else UInt8.toNat v

/-- The type of `*dest` has this number. -/
def IntegerDest.Fits (signedChar : Bool) : IntegerDest → ℤ → Prop
  | .int, n => -2 ^ 31 ≤ n ∧ n < 2 ^ 31
  | .unsigned, n => 0 ≤ n ∧ n < 2 ^ 32
  | .char, n => if signedChar then -2 ^ 7 ≤ n ∧ n < 2 ^ 7 else 0 ≤ n ∧ n < 2 ^ 8

/-- The value of an argument that is an integer. -/
def lo_arg.integer : lo_arg → Option ℤ
  | .i v => some v.toInt
  | .h v => some v.toInt
  | _ => none

/-- The read keeps the value: with `true` the number in `*dest` is the argument, and when the
argument does not fit the call gives `false` and leaves `*dest` alone. -/
def IntegerKept (signedChar : Bool) (msg : ReceivedMessage) (at' : Nat) (n : ℤ) (k : IntegerDest)
    (dest : k.function.Dest) : Prop :=
  (∀ dest', msg.tryInto at' k.function dest = .returned true dest' →
      k.number signedChar dest' = n) ∧
    (¬ k.Fits signedChar n → msg.tryInto at' k.function dest = .returned false dest)

/-! ## What is left of the value -/

theorem toNat_eq_toInt_emod {w : Nat} (x : BitVec w) : (x.toNat : ℤ) = x.toInt % 2 ^ w := by
  rw [BitVec.toInt_eq_toNat_bmod]
  have hmod := Int.bmod_emod (x := (x.toNat : ℤ)) (m := 2 ^ w)
  push_cast at hmod
  rw [hmod]
  exact_mod_cast (Nat.mod_eq_of_lt x.isLt).symm

theorem toNat_toUInt32 (v : Int32) : (v.toUInt32.toNat : ℤ) = v.toInt % 2 ^ 32 :=
  toNat_eq_toInt_emod v.toBitVec

theorem toNat_toUInt64 (v : Int64) : (v.toUInt64.toNat : ℤ) = v.toInt % 2 ^ 64 :=
  toNat_eq_toInt_emod v.toBitVec

/-- The byte of a `char` holds the number when this fits. -/
theorem char_number_eq_iff (signedChar : Bool) {b : UInt8} {n : ℤ} (h : (b.toNat : ℤ) = n % 2 ^ 8) :
    IntegerDest.number signedChar .char b = n ↔ IntegerDest.Fits signedChar .char n := by
  have hsigned : b.toInt8.toInt = (b.toNat : ℤ).bmod (2 ^ 8) :=
    BitVec.toInt_eq_toNat_bmod b.toBitVec
  unfold IntegerDest.number IntegerDest.Fits
  cases signedChar with
  | true =>
    simp only [↓reduceIte, hsigned, h, Int.bmod_def]
    omega
  | false =>
    simp only [Bool.false_eq_true, ↓reduceIte, h]
    omega

/-- What is in `*dest` is the argument exactly when this fits. -/
theorem number_eq_iff (signedChar : Bool) {k : IntegerDest} {a : lo_arg} {n : ℤ}
    (hn : a.integer = some n) :
    ∃ d, k.function.ofArg a = some (some d) ∧
      (k.number signedChar d = n ↔ k.Fits signedChar n) := by
  cases a with
  | i v =>
    cases hn
    have hlow := toNat_toUInt32 v
    cases k with
    | int => exact ⟨_, rfl, iff_of_true rfl ⟨v.le_toInt, v.toInt_lt⟩⟩
    | unsigned =>
      refine ⟨_, rfl, ?_⟩
      simp only [IntegerDest.number, IntegerDest.Fits, toUnsigned, hlow]
      omega
    | char =>
      refine ⟨_, rfl, char_number_eq_iff signedChar ?_⟩
      rw [UInt32.toNat_toUInt8]
      omega
  | h v =>
    cases hn
    have hlow := toNat_toUInt64 v
    cases k with
    | int =>
      refine ⟨_, rfl, ?_⟩
      simp only [IntegerDest.number, IntegerDest.Fits, toInt, Int64.toInt_toInt32, Int.bmod_def]
      omega
    | unsigned =>
      refine ⟨_, rfl, ?_⟩
      simp only [IntegerDest.number, IntegerDest.Fits, toUnsigned, UInt64.toNat_toUInt32]
      omega
    | char =>
      refine ⟨_, rfl, char_number_eq_iff signedChar ?_⟩
      rw [UInt64.toNat_toUInt8]
      omega
  | _ => cases hn

/-- For every message with an `int32` or `int64` at the index, whatever its value, the read keeps
the value exactly when it fits in `*dest`. -/
theorem an_integer_is_kept_iff_it_fits (signedChar : Bool) (msg : ReceivedMessage) (at' : Nat)
    (n : ℤ) (hn : msg.m_message.argv[at']?.bind lo_arg.integer = some n) (k : IntegerDest)
    (dest : k.function.Dest) :
    IntegerKept signedChar msg at' n k dest ↔ k.Fits signedChar n := by
  obtain ⟨a, ha, hn⟩ := Option.bind_eq_some_iff.mp hn
  obtain ⟨d, hd, hnumber⟩ := number_eq_iff signedChar (k := k) hn
  have hend : msg.tryInto at' k.function dest = .returned true d := by
    rw [tryInto_of_arg ha, hd]
    rfl
  unfold IntegerKept
  rw [hend, ← hnumber]
  constructor
  · rintro ⟨hkept, _⟩
    exact hkept d rfl
  · intro hfits
    refine ⟨?_, fun h => absurd hfits h⟩
    intro dest' hdest'
    cases hdest'
    exact hfits

/-- The `int64` 7 is read as the `int` 7. -/
theorem seven_is_kept :
    IntegerKept true ⟨[47, 97], ⟨[.h 7], LO_TT_IMMEDIATE⟩⟩ 0 7 .int (0 : Int32) :=
  (an_integer_is_kept_iff_it_fits true ⟨[47, 97], ⟨[.h 7], LO_TT_IMMEDIATE⟩⟩ 0 7 rfl .int
    (0 : Int32)).mpr ⟨by decide, by decide⟩

/-- The `int64` 2^32 is read as the `int` 0, and -1 as the `unsigned int` 2^32 - 1. -/
theorem large_integers_are_cut :
    ReceivedMessage.tryInto ⟨[47, 97], ⟨[.h 4294967296], LO_TT_IMMEDIATE⟩⟩ 0 .tryNumberInt
        (5 : Int32) = .returned true (0 : Int32) ∧
      ¬ IntegerKept true ⟨[47, 97], ⟨[.h 4294967296], LO_TT_IMMEDIATE⟩⟩ 0 4294967296 .int
        (5 : Int32) ∧
      ReceivedMessage.tryInto ⟨[47, 97], ⟨[.i (-1)], LO_TT_IMMEDIATE⟩⟩ 0 .tryNumberUnsigned
        (5 : UInt32) = .returned true (4294967295 : UInt32) ∧
      ¬ IntegerKept true ⟨[47, 97], ⟨[.i (-1)], LO_TT_IMMEDIATE⟩⟩ 0 (-1) .unsigned
        (5 : UInt32) := by
  refine ⟨by decide +kernel, ?_, by decide +kernel, ?_⟩
  · rintro ⟨hkept, _⟩
    exact absurd (hkept (0 : Int32) (by decide +kernel)) (by decide)
  · rintro ⟨hkept, _⟩
    exact absurd (hkept (4294967295 : UInt32) (by decide +kernel)) (by decide)

end osc
