-- `TimeTag::add`. A time tag is one number of 1/2^32nds of a second in two fields.
-- The milliseconds are added to each field on its own, without a carry.
import Mathlib.Data.Int.ModEq
import Mathlib.Tactic.Linarith
import Mathlib.Tactic.NormNum
import Lopack.Floats
import Lopack.OscTypes
import Lopack.Runs

open calls floats

namespace osc

/-- A floating-point number was converted to an integer type that does not have its value. -/
inductive BadConversion where
  | outOfRange
deriving DecidableEq, Repr

abbrev TimeTagMethod (α : Type) := Code Empty BadConversion TimeTag α

/-- The `double` expression of `add`, as the exact number that it denotes. -/
def TimeTag.fracIncrement (ms : UInt32) : ℚ :=
  (((ms.toNat % 1000 : Nat) : ℚ) * 0.001) / 0.00000000023283064365

/-- `tag.frac += increment`: the sum is no integer, and is converted back to `uint32_t`. -/
def TimeTag.addFrac (increment : ℚ) : TimeTagMethod Unit := do
  let t ← read
  match convert? 0 (2 ^ 32 - 1) (t.tag.frac.toNat + increment) with
  | none => undefinedBy .outOfRange
  | some frac =>
    update (fun t => { t with tag := { t.tag with frac := UInt32.ofNat frac.toNat } })

def TimeTag.add (ms : UInt32) : TimeTagMethod Unit := do
  update (fun t => { t with tag := { t.tag with sec := t.tag.sec + ms / 1000 } })
  TimeTag.addFrac (TimeTag.fracIncrement ms)

/-- `TimeTag(unsigned int ms)`, when the clock shows `now`. -/
def TimeTag.ofMilliseconds (now : lo_timetag) (ms : UInt32) : TimeTagMethod Unit := do
  update (fun _ => ⟨now⟩)
  TimeTag.add ms

/-- One call in a sequence of `add` calls. -/
def addStep (t : TimeTag) (ms : UInt32) : Outcome Empty BadConversion TimeTag Unit :=
  TimeTag.add ms t

/-! ## A time tag as one number -/

/-- The time tag in 1/2^32nds of a second. -/
def TimeTag.units (t : TimeTag) : ℤ := t.sec.toNat * 2 ^ 32 + t.frac.toNat

/-- `t'` is `t` moved on by the milliseconds, modulo 2^64 and up to an error of `slack` units. -/
def Advances (t t' : TimeTag) (ms slack : ℚ) : Prop :=
  ∃ δ : ℤ, t'.units ≡ t.units + δ [ZMOD 2 ^ 64] ∧ |(δ : ℚ) - ms * 2 ^ 32 / 1000| ≤ slack

theorem Advances.refl (t : TimeTag) : Advances t t 0 0 := ⟨0, by simp [Int.ModEq.refl], by simp⟩

theorem Advances.trans {t t' t'' : TimeTag} {ms ms' slack slack' : ℚ}
    (h : Advances t t' ms slack) (h' : Advances t' t'' ms' slack') :
    Advances t t'' (ms' + ms) (slack' + slack) := by
  obtain ⟨δ, hunits, herror⟩ := h
  obtain ⟨δ', hunits', herror'⟩ := h'
  refine ⟨δ + δ', ?_, ?_⟩
  · calc t''.units ≡ t'.units + δ' [ZMOD 2 ^ 64] := hunits'
      _ ≡ t.units + δ + δ' [ZMOD 2 ^ 64] := hunits.add_right δ'
      _ = t.units + (δ + δ') := by ring
  · have hsplit : ((δ + δ' : ℤ) : ℚ) - (ms' + ms) * 2 ^ 32 / 1000 =
        ((δ' : ℚ) - ms' * 2 ^ 32 / 1000) + ((δ : ℚ) - ms * 2 ^ 32 / 1000) := by
      push_cast
      ring
    rw [hsplit]
    exact (abs_add_le _ _).trans (add_le_add herror' herror)

/-! ## One call -/

/-- The increment of `frac` is the fraction of a second that the milliseconds are, and a little
more, because of the rounded constant. -/
theorem fracIncrement_bounds (ms : UInt32) :
    ((ms.toNat % 1000 : Nat) : ℚ) * 2 ^ 32 / 1000 ≤ TimeTag.fracIncrement ms ∧
      TimeTag.fracIncrement ms < ((ms.toNat % 1000 : Nat) : ℚ) * 2 ^ 32 / 1000 + 1 := by
  have hr : ((ms.toNat % 1000 : Nat) : ℚ) ≤ 999 := by
    exact_mod_cast Nat.le_of_lt_succ (Nat.mod_lt _ (by decide))
  have h0 : (0 : ℚ) ≤ ((ms.toNat % 1000 : Nat) : ℚ) := Nat.cast_nonneg _
  unfold TimeTag.fracIncrement
  generalize ((ms.toNat % 1000 : Nat) : ℚ) = r at *
  constructor
  · rw [le_div_iff₀ (by norm_num)]
    norm_num
    linarith
  · rw [div_lt_iff₀ (by norm_num)]
    norm_num
    linarith

/-- The sum of `frac` and the increment has an integer part that fits in `frac`. -/
def FracFits (t : TimeTag) (ms : UInt32) : Prop :=
  t.frac.toNat + ⌊TimeTag.fracIncrement ms⌋ < 2 ^ 32

instance (t : TimeTag) (ms : UInt32) : Decidable (FracFits t ms) :=
  inferInstanceAs (Decidable (_ < _))

theorem fracIncrement_nonneg (ms : UInt32) : 0 ≤ TimeTag.fracIncrement ms := by
  refine le_trans ?_ (fracIncrement_bounds ms).1
  positivity

theorem truncate_sum (t : TimeTag) (ms : UInt32) :
    truncate (t.frac.toNat + TimeTag.fracIncrement ms) =
      t.frac.toNat + ⌊TimeTag.fracIncrement ms⌋ := by
  have h := fracIncrement_nonneg ms
  rw [truncate_of_nonneg (by positivity), Int.floor_natCast_add]

theorem add_eq (t : TimeTag) (ms : UInt32) :
    TimeTag.add ms t =
      match convert? 0 (2 ^ 32 - 1) (t.frac.toNat + TimeTag.fracIncrement ms) with
      | none => .undefined .outOfRange
      | some frac => .returned () ⟨⟨t.sec + ms / 1000, UInt32.ofNat frac.toNat⟩⟩ := by
  unfold TimeTag.add TimeTag.addFrac
  rw [bind_of_returned _ (update_exec _ t), bind_of_returned _ (read_exec _)]
  unfold TimeTag.frac
  cases convert? 0 (2 ^ 32 - 1) (t.tag.frac.toNat + TimeTag.fracIncrement ms) with
  | none => rfl
  | some frac => rfl

/-- `add` when the sum fits. -/
theorem add_exec {t : TimeTag} {ms : UInt32} (h : FracFits t ms) :
    TimeTag.add ms t = .returned ()
      ⟨⟨t.sec + ms / 1000, UInt32.ofNat (t.frac.toNat + ⌊TimeTag.fracIncrement ms⌋).toNat⟩⟩ := by
  have hfloor : 0 ≤ ⌊TimeTag.fracIncrement ms⌋ := Int.floor_nonneg.mpr (fracIncrement_nonneg ms)
  have hconvert : convert? 0 (2 ^ 32 - 1) (t.frac.toNat + TimeTag.fracIncrement ms) =
      some (t.frac.toNat + ⌊TimeTag.fracIncrement ms⌋) := by
    unfold FracFits at h
    rw [convert?_eq_some_iff, truncate_sum]
    refine ⟨rfl, ?_, ?_⟩
    · omega
    · omega
  rw [add_eq, hconvert]

/-- `add` when it does not. -/
theorem add_overflow {t : TimeTag} {ms : UInt32} (h : ¬ FracFits t ms) :
    TimeTag.add ms t = .undefined .outOfRange := by
  have hconvert : convert? 0 (2 ^ 32 - 1) (t.frac.toNat + TimeTag.fracIncrement ms) = none := by
    unfold convert?
    rw [truncate_sum, if_neg]
    rintro ⟨_, hle⟩
    unfold FracFits at h
    omega
  rw [add_eq, hconvert]

/-- When the sum fits, the fields together are moved on by the whole seconds and the increment. -/
theorem add_units {t : TimeTag} {ms : UInt32} (h : FracFits t ms) :
    (⟨⟨t.sec + ms / 1000,
        UInt32.ofNat (t.frac.toNat + ⌊TimeTag.fracIncrement ms⌋).toNat⟩⟩ : TimeTag).units ≡
      t.units + ((ms.toNat / 1000 : Nat) * 2 ^ 32 + ⌊TimeTag.fracIncrement ms⌋) [ZMOD 2 ^ 64] := by
  have hfloor : 0 ≤ ⌊TimeTag.fracIncrement ms⌋ := Int.floor_nonneg.mpr (fracIncrement_nonneg ms)
  unfold FracFits at h
  unfold Int.ModEq TimeTag.units TimeTag.sec TimeTag.frac at *
  generalize ⌊TimeTag.fracIncrement ms⌋ = k at *
  have hfrac : (UInt32.ofNat (t.tag.frac.toNat + k).toNat).toNat =
      (t.tag.frac.toNat + k).toNat := by
    rw [UInt32.toNat_ofNat', Nat.mod_eq_of_lt]
    omega
  have hsec : (t.tag.sec + ms / 1000).toNat = (t.tag.sec.toNat + ms.toNat / 1000) % 2 ^ 32 := by
    rw [UInt32.toNat_add, UInt32.toNat_div]
    rfl
  simp only [hfrac, hsec]
  omega

/-- The call is right: it has a defined behaviour and moves the time on by the milliseconds, up to
one unit. -/
def AddsRight (t : TimeTag) (ms : UInt32) (o : Outcome Empty BadConversion TimeTag Unit) : Prop :=
  ∃ t', o = .returned () t' ∧ Advances t t' ms.toNat 1

theorem add_advances {t : TimeTag} {ms : UInt32} (h : FracFits t ms) :
    AddsRight t ms (TimeTag.add ms t) := by
  refine ⟨_, add_exec h, _, add_units h, ?_⟩
  obtain ⟨hlo, hhi⟩ := fracIncrement_bounds ms
  have hfloor := Int.floor_le (TimeTag.fracIncrement ms)
  have hnext := Int.lt_floor_add_one (TimeTag.fracIncrement ms)
  have hms : (ms.toNat : ℚ) = (ms.toNat / 1000 : Nat) * 1000 + (ms.toNat % 1000 : Nat) := by
    exact_mod_cast (Nat.div_add_mod' ms.toNat 1000).symm
  rw [hms, abs_le]
  simp only [Int.cast_add, Int.cast_mul, Int.cast_natCast, Int.cast_pow, Int.cast_ofNat]
  constructor
  · linarith
  · linarith

theorem addsRight_iff (t : TimeTag) (ms : UInt32) :
    AddsRight t ms (TimeTag.add ms t) ↔ FracFits t ms := by
  constructor
  · rintro ⟨t', ht', _⟩
    by_contra h
    rw [add_overflow h] at ht'
    cases ht'
  · exact add_advances

/-! ## Sequences of calls -/

/-- After a sequence of `add` calls: each had a defined behaviour, and the time is moved on by the
sum of the milliseconds, up to one unit for each call. -/
def AdvancedIn (start : TimeTag) (r : Run Empty BadConversion TimeTag UInt32) : Prop :=
  r.ended = false ∧
    Advances start r.state ((r.trace.map (fun c => (c.op.toNat : ℚ))).sum) r.trace.length

theorem advancedIn_call_iff {start : TimeTag} {r : Run Empty BadConversion TimeTag UInt32}
    (h : AdvancedIn start r) (ms : UInt32) :
    AdvancedIn start (r.call addStep ms) ↔ FracFits r.state ms := by
  obtain ⟨hopen, hadvances⟩ := h
  rw [Run.call_of_open addStep hopen]
  constructor
  · rintro ⟨hdefined, _⟩
    by_contra hno
    simp [addStep, add_overflow hno] at hdefined
  · intro hfits
    obtain ⟨t', ht', hnext⟩ := add_advances hfits
    refine ⟨by simp [addStep, ht'], ?_⟩
    simpa [addStep, ht', add_comm] using hadvances.trans hnext

/-- `add` is right exactly when the sum of `frac` and the increment fits in `frac`. So is the
constructor that takes milliseconds, and so is a sequence of calls, when the sum fits at each. -/
theorem add_is_right_iff_frac_does_not_overflow (t : TimeTag) (ms : UInt32) (mss : List UInt32) :
    (AddsRight t ms (TimeTag.add ms t) ↔ FracFits t ms) ∧
      (∀ self, AddsRight t ms (TimeTag.ofMilliseconds t.tag ms self) ↔ FracFits t ms) ∧
      ((∀ q, q <+: mss → AdvancedIn t (run addStep t q)) ↔
        ∀ c ∈ (run addStep t mss).trace, FracFits c.before c.op) := by
  refine ⟨addsRight_iff t ms, fun self => ?_, ?_⟩
  · -- the clock is written over whatever was there
    exact addsRight_iff t ms
  · apply always_iff addStep (P := AdvancedIn t) (C := fun c => FracFits c.before c.op)
    · exact ⟨rfl, by simpa using Advances.refl t⟩
    · intro ops ms _ hP _
      exact advancedIn_call_iff (hP ops (List.prefix_refl _)) ms

/-- One millisecond after the last unit of a second: the carry into `sec` is lost. -/
theorem add_loses_the_carry :
    ¬ AddsRight ⟨⟨7, 4294967295⟩⟩ 1 (TimeTag.add 1 ⟨⟨7, 4294967295⟩⟩) ∧
      TimeTag.add 1 ⟨⟨7, 4294967295⟩⟩ = .undefined .outOfRange := by
  have hno : ¬ FracFits ⟨⟨7, 4294967295⟩⟩ 1 := by decide +kernel
  exact ⟨fun h => hno ((addsRight_iff _ _).mp h), add_overflow hno⟩

end osc
