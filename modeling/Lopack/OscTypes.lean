-- The values of OscTypes.h: what a caller hands to the sender and what the
-- receiver gives back.
import Lopack.Liblo

namespace osc

/-! ## TimeTag -/

/-- `TimeTag` is a union: `sec` and `frac` are the two fields of `tag`. -/
structure TimeTag where
  tag : lo_timetag
deriving DecidableEq, Repr

def TimeTag.sec (t : TimeTag) : UInt32 := t.tag.sec

def TimeTag.frac (t : TimeTag) : UInt32 := t.tag.frac

/-- `TimeTag(uint32_t sec_, uint32_t frac_)`. -/
def TimeTag.ofFields (sec_ frac_ : UInt32) : TimeTag := ⟨⟨sec_, frac_⟩⟩

/-- `TimeTag(lo_timetag timetag)`. The constructor runs on storage that nothing has
written yet: `self` is what that storage happens to hold. Its body is `tag = tag`. -/
def TimeTag.ofTimetag (self : TimeTag) (_timetag : lo_timetag) : TimeTag :=
  { self with tag := self.tag }

/-! ## MidiMessage -/

structure MidiMessage where
  bytes : Bytes4
deriving DecidableEq, Repr

/-- `MidiMessage(uint8_t bytes_[4], bool reverse)`. -/
def MidiMessage.ofBytes (bytes_ : Bytes4) (reverse : Bool) : MidiMessage :=
  if reverse then ⟨⟨bytes_.b3, bytes_.b2, bytes_.b1, bytes_.b0⟩⟩
  else ⟨⟨bytes_.b0, bytes_.b1, bytes_.b2, bytes_.b3⟩⟩

/-! ## Symbol and Blob -/

/-- `Symbol()` holds NULL. -/
structure Symbol where
  value : Option CString
deriving DecidableEq

/-- `data` stands for the `size` bytes behind the pointer. `Blob()` has none. -/
structure Blob where
  data : List UInt8
  size_lt : data.length < 2 ^ 32
deriving DecidableEq

def Blob.size (b : Blob) : UInt32 := UInt32.ofNatLT b.data.length b.size_lt

/-- The `uint32_t` size of a `Blob` as the `int32_t` parameter of `lo_blob_new`. -/
theorem Blob.toInt32_size (b : Blob) : b.size.toInt32.toInt =
    if b.data.length < 2 ^ 31 then (b.data.length : Int) else b.data.length - 2 ^ 32 := by
  have hsize : b.size.toNat = b.data.length := UInt32.toNat_ofNatLT ..
  have hval : b.size.toInt32.toInt =
      if 2 * b.size.toNat < 2 ^ 32 then (b.size.toNat : Int) else b.size.toNat - 2 ^ 32 :=
    BitVec.toInt_eq_toNat_cond b.size.toBitVec
  rw [hval, hsize]
  split <;> split <;> omega

/-- `Blob(lo_blob_dataptr(b), lo_blob_datasize(b))`. -/
def Blob.ofBlob (b : lo_blob) : Blob := ⟨b.data, Nat.lt_trans b.size_lt (by decide)⟩

/-- liblo makes a blob of the bytes of a `Blob`, unless these are too few or too many. -/
theorem lo_blob_new_eq_some_iff [LibloApi] {b : Blob} {x : lo_blob} :
    lo_blob_new b.size.toInt32 b.data = some x ↔ 0 < b.data.length ∧ x.data = b.data := by
  have hsize := b.toInt32_size
  have hlt := b.size_lt
  constructor
  · intro h
    by_cases hnull : b.size.toInt32.toInt < 1
    · rw [LibloApi.blob_null _ _ hnull] at h
      cases h
    · have hlength : b.data.length = b.size.toInt32.toInt := by
        split at hsize <;> omega
      obtain ⟨blob, hblob, hdata⟩ := LibloApi.blob_new _ _ (Int.not_lt.mp hnull) hlength
      rw [hblob] at h
      cases h
      exact ⟨by omega, hdata⟩
  · rintro ⟨hpos, hdata⟩
    have hmax := x.size_lt
    rw [hdata] at hmax
    rw [if_pos hmax] at hsize
    obtain ⟨blob, hblob, hbytes⟩ := LibloApi.blob_new b.size.toInt32 b.data (by omega) hsize.symm
    obtain ⟨data, _⟩ := blob
    obtain ⟨data', _⟩ := x
    subst hdata hbytes
    exact hblob

/-- A blob that liblo holds can be given to liblo again, unless it is empty. -/
theorem lo_blob_new_ofBlob [LibloApi] {b : lo_blob} (h : b.data ≠ []) :
    lo_blob_new (Blob.ofBlob b).size.toInt32 (Blob.ofBlob b).data = some b :=
  lo_blob_new_eq_some_iff.mpr ⟨List.length_pos_iff.mpr h, rfl⟩

end osc
