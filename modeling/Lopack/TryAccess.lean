-- The `try*` functions: they test the type of an argument and write it, converted,
-- to `*dest`. The five that read numbers have the same branches.
import Lopack.Calls
import Lopack.Floats
import Lopack.TypedAccess

open calls floats
open Float.Model (UnpackedFloat)

namespace osc

/-! ## Reading and converting -/

/-- How a read has no defined behaviour. -/
inductive BadRead where
  /-- a member of the union that the argument does not have -/
  | misread
  /-- a conversion of a number to a type that does not have it, or of NULL to a string -/
  | badConversion
deriving DecidableEq, Repr

/-- A method that writes to `*dest`. The state is what `*dest` holds. -/
abbrev TryMethod (δ α : Type) := Code AccessFailure BadRead δ α

/-- Call an accessor. -/
def access {δ α : Type} : Access α → TryMethod δ α
  | .ok v => pure v
  | .error .misread => undefinedBy .misread
  | .error e => raise e

/-- `*dest = value; return true;` with the conversion to the type of `*dest`. -/
def store {δ α : Type} (convert : α → Option δ) (value : Access α) : TryMethod δ Bool := do
  let v ← access value
  match convert v with
  | none => undefinedBy .badConversion
  | some d =>
    update (fun _ => d)
    pure true

/-- The conversions from the types of the arguments that are numbers to another type. Floats come
as bits. Their conversions can be undefined. -/
structure Conversions (δ : Type) where
  ofBool : Bool → δ
  ofInt32 : Int32 → δ
  ofInt64 : Int64 → δ
  ofFloat : UInt32 → Option δ
  ofDouble : UInt64 → Option δ

/-- The `float` with these bits. -/
def float (bits : UInt32) : UnpackedFloat := .unpack .binary32 bits.toBitVec

/-- The `double` with these bits. -/
def double (bits : UInt64) : UnpackedFloat := .unpack .binary64 bits.toBitVec

def floatBits (x : UnpackedFloat) : UInt32 := .ofBitVec (x.pack .binary32)

def doubleBits (x : UnpackedFloat) : UInt64 := .ofBitVec (x.pack .binary64)

/-- To `bool`: a number is true when it is not zero. -/
def toBool : Conversions Bool where
  ofBool v := v
  ofInt32 v := v != 0
  ofInt64 v := v != 0
  ofFloat bits := some (nonzero (float bits))
  ofDouble bits := some (nonzero (double bits))

/-- To `int`. A wider integer keeps its low bits. -/
def toInt : Conversions Int32 where
  ofBool v := if v then 1 else 0
  ofInt32 v := v
  ofInt64 v := v.toInt32
  ofFloat bits := (toInteger? (-2 ^ 31) (2 ^ 31 - 1) (float bits)).map Int32.ofInt
  ofDouble bits := (toInteger? (-2 ^ 31) (2 ^ 31 - 1) (double bits)).map Int32.ofInt

/-- To `unsigned int`. An integer keeps its low bits. -/
def toUnsigned : Conversions UInt32 where
  ofBool v := if v then 1 else 0
  ofInt32 v := v.toUInt32
  ofInt64 v := v.toUInt64.toUInt32
  ofFloat bits := (toInteger? 0 (2 ^ 32 - 1) (float bits)).map UInt32.ofInt
  ofDouble bits := (toInteger? 0 (2 ^ 32 - 1) (double bits)).map UInt32.ofInt

/-- To the bits of a `float`. C++ leaves open which NaN a NaN becomes. -/
def toFloat : Conversions UInt32 where
  ofBool v := floatBits (.ofInt .binary32 (if v then 1 else 0))
  ofInt32 v := floatBits (.ofInt .binary32 v.toInt)
  ofInt64 v := floatBits (.ofInt .binary32 v.toInt)
  ofFloat bits := some bits
  ofDouble bits := some (floatBits (toFormat .binary32 (double bits)))

/-- To the bits of a `double`. -/
def toDouble : Conversions UInt64 where
  ofBool v := doubleBits (.ofInt .binary64 (if v then 1 else 0))
  ofInt32 v := doubleBits (.ofInt .binary64 v.toInt)
  ofInt64 v := doubleBits (.ofInt .binary64 v.toInt)
  ofFloat bits := some (doubleBits (toFormat .binary64 (float bits)))
  ofDouble bits := some bits

namespace ReceivedMessage

/-! ## The functions -/

/-- The branches of `tryBool` and of `tryNumber`. -/
def tryWith {δ : Type} (into : Conversions δ) (msg : ReceivedMessage) (at' : Nat) :
    TryMethod δ Bool :=
  if msg.isBool at' then store (fun v => some (into.ofBool v)) (msg.asBool at')
  else if msg.isInt32 at' then store (fun v => some (into.ofInt32 v)) (msg.asInt32 at')
  else if msg.isInt64 at' then store (fun v => some (into.ofInt64 v)) (msg.asInt64 at')
  else if msg.isFloat at' then store into.ofFloat (msg.asFloat at')
  else if msg.isDouble at' then store into.ofDouble (msg.asDouble at')
  else pure false

def tryBool : ReceivedMessage → Nat → TryMethod Bool Bool := tryWith toBool

/-- `tryNumber(int *dest, unsigned int at)`. -/
def tryNumberInt : ReceivedMessage → Nat → TryMethod Int32 Bool := tryWith toInt

/-- `tryNumber(unsigned int *dest, unsigned int at)`. -/
def tryNumberUnsigned : ReceivedMessage → Nat → TryMethod UInt32 Bool := tryWith toUnsigned

/-- `tryNumber(float *dest, unsigned int at)`. -/
def tryNumberFloat : ReceivedMessage → Nat → TryMethod UInt32 Bool := tryWith toFloat

/-- `tryNumber(double *dest, unsigned int at)`. -/
def tryNumberDouble : ReceivedMessage → Nat → TryMethod UInt64 Bool := tryWith toDouble

/-- `*dest` is the byte of the `char`. An integer keeps its low bits. -/
def tryChar (msg : ReceivedMessage) (at' : Nat) : TryMethod UInt8 Bool :=
  if msg.isChar at' then store some (msg.asChar at')
  else if msg.isInt32 at' then store (fun v => some v.toUInt32.toUInt8) (msg.asInt32 at')
  else if msg.isInt64 at' then store (fun v => some v.toUInt64.toUInt8) (msg.asInt64 at')
  else pure false

def tryString (msg : ReceivedMessage) (at' : Nat) : TryMethod Str Bool :=
  if msg.isString at' then store some (msg.asString at')
  else if msg.isSymbol at' then
    store (fun symbol : Symbol => symbol.value.map CString.bytes) (msg.asSymbol at')
  else pure false

end ReceivedMessage

/-- The functions. -/
inductive Try where
  | tryBool
  | tryChar
  | tryNumberInt
  | tryNumberUnsigned
  | tryNumberFloat
  | tryNumberDouble
  | tryString
deriving DecidableEq, Repr

/-- The type of `*dest`. -/
abbrev Try.Dest : Try → Type
  | .tryBool => Bool
  | .tryChar => UInt8
  | .tryNumberInt => Int32
  | .tryNumberUnsigned => UInt32
  | .tryNumberFloat => UInt32
  | .tryNumberDouble => UInt64
  | .tryString => Str

/-- Call one of the functions. -/
def ReceivedMessage.tryInto (msg : ReceivedMessage) (at' : Nat) : (t : Try) → TryMethod t.Dest Bool
  | .tryBool => msg.tryBool at'
  | .tryChar => msg.tryChar at'
  | .tryNumberInt => msg.tryNumberInt at'
  | .tryNumberUnsigned => msg.tryNumberUnsigned at'
  | .tryNumberFloat => msg.tryNumberFloat at'
  | .tryNumberDouble => msg.tryNumberDouble at'
  | .tryString => msg.tryString at'

/-! ## What they should do -/

/-- The type tags that a function takes. -/
def Try.tags : Try → List Char
  | .tryChar => ['c', 'i', 'h']
  | .tryString => ['s', 'S']
  | _ => ['T', 'F', 'i', 'h', 'f', 'd']

/-- The accessor whose result has the type of `*dest`. None gives an `unsigned int`. -/
def Try.accessor : Try → Option As
  | .tryBool => some .asBool
  | .tryChar => some .asChar
  | .tryNumberInt => some .asInt32
  | .tryNumberUnsigned => none
  | .tryNumberFloat => some .asFloat
  | .tryNumberDouble => some .asDouble
  | .tryString => some .asString

/-- What is in `*dest`, as a result of this accessor. -/
def Try.value : (t : Try) → t.Dest → Option Value
  | .tryBool, v => some (.bool v)
  | .tryChar, v => some (.char v)
  | .tryNumberInt, v => some (.int32 v)
  | .tryNumberUnsigned, _ => none
  | .tryNumberFloat, bits => some (.float bits)
  | .tryNumberDouble, bits => some (.double bits)
  | .tryString, v => some (.string v)

/-- The call is right: it returns, with `true` exactly for an argument with one of the tags. With
`false` it has left `*dest` alone. When there is an accessor with the type of `*dest` and the
argument has its tag, `*dest` is what the accessor gives. -/
def TryRight (msg : ReceivedMessage) (at' : Nat) (t : Try) (dest : t.Dest) : Prop :=
  ∃ taken dest', msg.tryInto at' t dest = .returned taken dest' ∧
    (taken = true ↔ at' < msg.numArgs ∧ msg.typeTag at' ∈ t.tags) ∧
    (taken = false → dest' = dest) ∧
    ∀ acc, t.accessor = some acc → msg.typeTag at' ∈ acc.tags →
      ∃ v, t.value dest' = some v ∧ msg.as at' acc = .ok v

/-! ## What they do -/

theorem store_of_ok {δ α : Type} (convert : α → Option δ) {value : Access α} {v : α}
    (h : value = .ok v) (dest : δ) :
    store convert value dest = match convert v with
      | none => .undefined .badConversion
      | some d => .returned true d := by
  have haccess : (access (.ok v) : TryMethod δ α) dest = .returned v dest := rfl
  unfold store
  rw [h, bind_of_returned _ haccess]
  cases convert v with
  | none => rfl
  | some d => rfl

/-- What the conversions make of an argument, when its tag is one of theirs. -/
def Conversions.ofArg {δ : Type} (into : Conversions δ) : lo_arg → Option (Option δ)
  | .T => some (some (into.ofBool true))
  | .F => some (some (into.ofBool false))
  | .i v => some (some (into.ofInt32 v))
  | .h v => some (some (into.ofInt64 v))
  | .f bits => some (into.ofFloat bits)
  | .d bits => some (into.ofDouble bits)
  | _ => none

/-- What a function makes of an argument, when its tag is one of the function's. The inner `none`
is a conversion that is not defined. -/
def Try.ofArg : (t : Try) → lo_arg → Option (Option t.Dest)
  | .tryBool, a => toBool.ofArg a
  | .tryNumberInt, a => toInt.ofArg a
  | .tryNumberUnsigned, a => toUnsigned.ofArg a
  | .tryNumberFloat, a => toFloat.ofArg a
  | .tryNumberDouble, a => toDouble.ofArg a
  | .tryChar, .c v => some (some v)
  | .tryChar, .i v => some (some v.toUInt32.toUInt8)
  | .tryChar, .h v => some (some v.toUInt64.toUInt8)
  | .tryChar, _ => none
  | .tryString, .s v => some (some v.bytes)
  | .tryString, .S v => some (some v.bytes)
  | .tryString, _ => none

/-- The end of a call for what became of the argument. -/
def tryEnd {δ : Type} (dest : δ) : Option (Option δ) → Outcome AccessFailure BadRead δ Bool
  | none => .returned false dest
  | some none => .undefined .badConversion
  | some (some d) => .returned true d

section

variable {msg : ReceivedMessage} {at' : Nat} {a : lo_arg}

open ReceivedMessage

theorem tryWith_of_arg {δ : Type} (into : Conversions δ) (ha : msg.m_message.argv[at']? = some a)
    (dest : δ) : msg.tryWith into at' dest = tryEnd dest (into.ofArg a) := by
  have htag := typeTag_of_arg ha
  simp only [tryWith, isBool, isInt32, isInt64, isFloat, isDouble, htag]
  cases a with
  | T =>
    simp [lo_arg.type, store_of_ok _ (asBool_of_arg (v := true) ha), Conversions.ofArg, tryEnd]
  | F =>
    simp [lo_arg.type, store_of_ok _ (asBool_of_arg (v := false) ha), Conversions.ofArg, tryEnd]
  | i v => simp [lo_arg.type, store_of_ok _ (asInt32_of_arg ha), Conversions.ofArg, tryEnd]
  | h v => simp [lo_arg.type, store_of_ok _ (asInt64_of_arg ha), Conversions.ofArg, tryEnd]
  | f bits =>
    simp only [lo_arg.type, store_of_ok _ (asFloat_of_arg ha), Conversions.ofArg, Char.reduceBEq,
      Bool.or_self, Bool.false_eq_true, ↓reduceIte]
    cases into.ofFloat bits <;> rfl
  | d bits =>
    simp only [lo_arg.type, store_of_ok _ (asDouble_of_arg ha), Conversions.ofArg, Char.reduceBEq,
      Bool.or_self, Bool.false_eq_true, ↓reduceIte]
    cases into.ofDouble bits <;> rfl
  | _ => rfl

theorem tryChar_of_arg (ha : msg.m_message.argv[at']? = some a) (dest : UInt8) :
    msg.tryChar at' dest = tryEnd dest (Try.ofArg .tryChar a) := by
  have htag := typeTag_of_arg ha
  simp only [tryChar, isChar, isInt32, isInt64, htag]
  cases a with
  | c v => simp [lo_arg.type, store_of_ok _ (asChar_of_arg ha), Try.ofArg, tryEnd]
  | i v => simp [lo_arg.type, store_of_ok _ (asInt32_of_arg ha), Try.ofArg, tryEnd]
  | h v => simp [lo_arg.type, store_of_ok _ (asInt64_of_arg ha), Try.ofArg, tryEnd]
  | _ => rfl

theorem tryString_of_arg (ha : msg.m_message.argv[at']? = some a) (dest : Str) :
    msg.tryString at' dest = tryEnd dest (Try.ofArg .tryString a) := by
  have htag := typeTag_of_arg ha
  simp only [tryString, isString, isSymbol, htag]
  cases a with
  | s v => simp [lo_arg.type, store_of_ok _ (asString_of_arg ha), Try.ofArg, tryEnd]
  | S v => simp [lo_arg.type, store_of_ok _ (asSymbol_of_arg ha), Try.ofArg, tryEnd]
  | _ => rfl

/-- A call with an argument. -/
theorem tryInto_of_arg (ha : msg.m_message.argv[at']? = some a) (t : Try) (dest : t.Dest) :
    msg.tryInto at' t dest = tryEnd dest (t.ofArg a) := by
  cases t with
  | tryBool => exact tryWith_of_arg toBool ha dest
  | tryChar => exact tryChar_of_arg ha dest
  | tryNumberInt => exact tryWith_of_arg toInt ha dest
  | tryNumberUnsigned => exact tryWith_of_arg toUnsigned ha dest
  | tryNumberFloat => exact tryWith_of_arg toFloat ha dest
  | tryNumberDouble => exact tryWith_of_arg toDouble ha dest
  | tryString => exact tryString_of_arg ha dest

/-- A call with an index out of range. -/
theorem tryInto_of_out_of_range (h : msg.numArgs ≤ at') (t : Try) (dest : t.Dest) :
    msg.tryInto at' t dest = .returned false dest := by
  have htag := typeTag_of_out_of_range h
  cases t <;> simp [tryInto, tryBool, tryNumberInt, tryNumberUnsigned, tryNumberFloat,
    tryNumberDouble, tryWith, tryChar, tryString, isBool, isChar, isInt32, isInt64, isFloat,
    isDouble, isString, isSymbol, htag]

theorem ofArg_isSome_iff (t : Try) (a : lo_arg) : (t.ofArg a).isSome ↔ a.type ∈ t.tags := by
  cases t <;> cases a <;> simp [Try.ofArg, Conversions.ofArg, lo_arg.type, Try.tags]

/-- An argument of the type of `*dest` is taken as it is. -/
theorem ofArg_of_accessor {t : Try} {acc : As} (ht : t.accessor = some acc)
    (ha : a.accessor = some acc) : ∃ d v, t.ofArg a = some (some d) ∧ t.value d = some v ∧
      a.read = some v := by
  cases t <;> cases ht <;> cases a <;> cases ha <;> exact ⟨_, _, rfl, rfl, rfl⟩

/-- What is taken is what the accessor gives. -/
theorem ofArg_eq_as (ha : msg.m_message.argv[at']? = some a) {t : Try} {acc : As}
    (hacc : t.accessor = some acc) (hmem : a.type ∈ acc.tags) :
    ∃ d v, t.ofArg a = some (some d) ∧ t.value d = some v ∧ msg.as at' acc = .ok v := by
  rw [type_mem_tags_iff] at hmem
  obtain ⟨d, v, hd, hv, hread⟩ := ofArg_of_accessor hacc hmem
  obtain ⟨v', hread', has⟩ := as_of_accessor ha hmem
  rw [hread] at hread'
  cases hread'
  exact ⟨d, v, hd, hv, has⟩

end

/-! ## Every call -/

/-- The conversion of the argument to the type of `*dest` is defined: a `float` or a `double` that
is read as an `int` or an `unsigned int` has an integer part of this type. -/
def Try.Converts : Try → lo_arg → Prop
  | .tryNumberInt, .f bits => HasIntegerPart (-2 ^ 31) (2 ^ 31 - 1) (float bits)
  | .tryNumberInt, .d bits => HasIntegerPart (-2 ^ 31) (2 ^ 31 - 1) (double bits)
  | .tryNumberUnsigned, .f bits => HasIntegerPart 0 (2 ^ 32 - 1) (float bits)
  | .tryNumberUnsigned, .d bits => HasIntegerPart 0 (2 ^ 32 - 1) (double bits)
  | _, _ => True

theorem converts_iff (t : Try) (a : lo_arg) : t.Converts a ↔ t.ofArg a ≠ some none := by
  cases t <;> cases a <;> simp [Try.Converts, Try.ofArg, Conversions.ofArg, toBool, toInt,
    toUnsigned, toFloat, toDouble, ← toInteger?_isSome_iff, Option.isSome_iff_ne_none]

/-- A call with an argument whose conversion is defined. -/
theorem tryEnd_right {msg : ReceivedMessage} {at' : Nat} {a : lo_arg} {t : Try} {dest : t.Dest}
    (ha : msg.m_message.argv[at']? = some a) (h : t.ofArg a ≠ some none) :
    ∃ taken dest', tryEnd dest (t.ofArg a) = .returned taken dest' ∧
      (taken = true ↔ at' < msg.numArgs ∧ msg.typeTag at' ∈ t.tags) ∧
      (taken = false → dest' = dest) ∧
      ∀ acc, t.accessor = some acc → msg.typeTag at' ∈ acc.tags →
        ∃ v, t.value dest' = some v ∧ msg.as at' acc = .ok v := by
  have hlt : at' < msg.numArgs := (List.getElem?_eq_some_iff.mp ha).1
  have hsome := ofArg_isSome_iff t a
  rw [ReceivedMessage.typeTag_of_arg ha]
  cases ho : t.ofArg a with
  | none =>
    rw [ho] at hsome
    refine ⟨false, dest, rfl, by simp [hlt, ← hsome], fun _ => rfl, ?_⟩
    intro acc hacc hmem
    obtain ⟨d, v, hd, _⟩ := ofArg_eq_as ha hacc hmem
    rw [ho] at hd
    cases hd
  | some o =>
    cases o with
    | none => exact absurd ho h
    | some d =>
      rw [ho] at hsome
      refine ⟨true, d, rfl, by simp [hlt, ← hsome], by simp, ?_⟩
      intro acc hacc hmem
      obtain ⟨d', v, hd, hv, has⟩ := ofArg_eq_as ha hacc hmem
      rw [ho] at hd
      cases hd
      exact ⟨v, hv, has⟩

/-- For every message, index and function, and whatever `*dest` holds, the call is right exactly
when the conversion of the argument, if there is one, is defined. -/
theorem try_is_right_iff_the_conversion_is_defined (msg : ReceivedMessage) (at' : Nat) (t : Try)
    (dest : t.Dest) :
    TryRight msg at' t dest ↔ ∀ a, msg.m_message.argv[at']? = some a → t.Converts a := by
  rcases Nat.lt_or_ge at' msg.numArgs with hlt | hge
  · have ha : msg.m_message.argv[at']? = some msg.m_message.argv[at'] :=
      List.getElem?_eq_getElem hlt
    have htag := ReceivedMessage.typeTag_of_arg ha
    generalize msg.m_message.argv[at'] = a at ha htag
    have hcond : (∀ b, msg.m_message.argv[at']? = some b → t.Converts b) ↔
        t.ofArg a ≠ some none := by
      rw [← converts_iff, ha]
      simp
    rw [hcond, TryRight, tryInto_of_arg ha]
    constructor
    · rintro ⟨taken, dest', hend, _⟩ hnone
      rw [hnone] at hend
      cases hend
    · intro hdefined
      exact tryEnd_right ha hdefined
  · refine iff_of_true ?_ ?_
    · refine ⟨false, dest, tryInto_of_out_of_range hge t dest, ?_, fun _ => rfl, ?_⟩
      · simp [Nat.not_lt.mpr hge]
      · intro acc _ hmem
        rw [typeTag_of_out_of_range hge] at hmem
        exact absurd hmem (star_not_mem_tags acc)
    · intro a ha
      rw [List.getElem?_eq_none hge] at ha
      cases ha

/-- `tryNumber(int*)` on the float 3000000000. -/
theorem a_large_float_does_not_convert :
    ¬ TryRight ⟨[47, 97], ⟨[.f 0x4F32D05E], LO_TT_IMMEDIATE⟩⟩ 0 .tryNumberInt (0 : Int32) ∧
      ReceivedMessage.tryInto ⟨[47, 97], ⟨[.f 0x4F32D05E], LO_TT_IMMEDIATE⟩⟩ 0 .tryNumberInt
        (0 : Int32) = .undefined .badConversion := by
  have hend : ReceivedMessage.tryInto ⟨[47, 97], ⟨[.f 0x4F32D05E], LO_TT_IMMEDIATE⟩⟩ 0
      .tryNumberInt (0 : Int32) = .undefined .badConversion := by decide +kernel
  refine ⟨?_, hend⟩
  rintro ⟨taken, dest', hreturned, _⟩
  rw [hend] at hreturned
  cases hreturned

end osc
