-- Numbers that are not integers, as C++ converts them. A number is an exact rational
-- here, or a float of the standard library's model of IEEE 754.
import Mathlib.Algebra.Order.Floor.Ring
import Mathlib.Data.Rat.Floor

namespace floats

/-! ## Conversion to an integer -/

/-- The integer part: the fraction is discarded. -/
def truncate (q : ℚ) : ℤ := if q < 0 then ⌈q⌉ else ⌊q⌋

theorem truncate_of_nonneg {q : ℚ} (h : 0 ≤ q) : truncate q = ⌊q⌋ := by
  unfold truncate
  rw [if_neg (not_lt.mpr h)]

/-- The conversion to an integer type with the values `lo` to `hi`. It has no defined behaviour
when the integer part is not one of them. -/
def convert? (lo hi : ℤ) (q : ℚ) : Option ℤ :=
  if lo ≤ truncate q ∧ truncate q ≤ hi then some (truncate q) else none

theorem convert?_eq_some_iff {lo hi : ℤ} {q : ℚ} {n : ℤ} :
    convert? lo hi q = some n ↔ truncate q = n ∧ lo ≤ n ∧ n ≤ hi := by
  unfold convert?
  split
  · rename_i h
    simp only [Option.some.injEq]
    constructor
    · rintro rfl
      exact ⟨rfl, h⟩
    · exact And.left
  · rename_i h
    simp only [reduceCtorEq, false_iff]
    rintro ⟨rfl, hb⟩
    exact h hb

/-! ## Floats -/

open Float.Model Float.Model.UnpackedFloat

/-- The number that a float stands for. Infinities and NaN stand for none. -/
def exactValue : UnpackedFloat → Option ℚ
  | .finite s m e _ => some ((s.apply m : ℚ) * 2 ^ e)
  | .zero _ => some 0
  | .infinity _ => none
  | .notANumber => none

/-- The conversion of a float to an integer type with the values `lo` to `hi`. -/
def toInteger? (lo hi : ℤ) (x : UnpackedFloat) : Option ℤ := (exactValue x).bind (convert? lo hi)

/-- The integer part of the float is between `lo` and `hi`. -/
def HasIntegerPart (lo hi : ℤ) (x : UnpackedFloat) : Prop :=
  ∃ q, exactValue x = some q ∧ lo ≤ truncate q ∧ truncate q ≤ hi

theorem toInteger?_isSome_iff (lo hi : ℤ) (x : UnpackedFloat) :
    (toInteger? lo hi x).isSome ↔ HasIntegerPart lo hi x := by
  unfold toInteger? HasIntegerPart
  cases exactValue x with
  | none => simp
  | some q =>
    simp only [Option.bind_some, Option.some.injEq, exists_eq_left']
    unfold convert?
    split
    · rename_i h
      simpa using h
    · rename_i h
      simpa using h

/-- The conversion to `bool`: only the two zeros are false. -/
def nonzero : UnpackedFloat → Bool
  | .zero _ => false
  | _ => true

/-- The conversion to another format, to the nearest number, ties to even. -/
def toFormat (spec : Format) : UnpackedFloat → UnpackedFloat
  | .finite s m e _ => UnpackedFloat.round spec s m e
  | x => x

end floats
