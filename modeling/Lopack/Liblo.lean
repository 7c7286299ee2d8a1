-- The part of liblo that lopack calls. liblo is not part of this repository, so its
-- functions are parameters: `LibloApi` has them together with what lopack relies on. A
-- message is a cell with its typed arguments, and a bundle is a cell with a time tag and
-- links to its elements.
import Mathlib.Data.List.TakeWhile
import Lopack.Calls
import Lopack.LinkedCells

open calls rose linked store

namespace osc

/-! ## Text -/

/-- The bytes of a `std::string`. -/
abbrev Str := List UInt8

/-- The text behind a `const char *`: it ends at its first NUL byte. -/
structure CString where
  bytes : Str
  no_nul : 0 ∉ bytes
deriving DecidableEq

/-- `s.c_str()`, as a reader of C strings sees it. -/
def cStr (s : Str) : CString :=
  ⟨s.takeWhile (· ≠ 0), fun h => by simpa using List.mem_takeWhile_imp h⟩

@[simp] theorem cStr_bytes (s : CString) : cStr s.bytes = s := by
  obtain ⟨bytes, h⟩ := s
  simp only [cStr, CString.mk.injEq, List.takeWhile_eq_self_iff, decide_eq_true_eq]
  intro x hx h0
  exact h (h0 ▸ hx)

/-! ## Arguments -/

structure lo_timetag where
  sec : UInt32
  frac : UInt32
deriving DecidableEq, Repr

def LO_TT_IMMEDIATE : lo_timetag := ⟨0, 1⟩

/-- A blob: the size is an `int32_t` that is not negative. `lo_blob_new` makes no empty blob, but
one can come from the network. -/
structure lo_blob where
  data : List UInt8
  size_lt : data.length < 2 ^ 31
deriving DecidableEq

/-- `uint8_t[4]`. -/
structure Bytes4 where
  b0 : UInt8
  b1 : UInt8
  b2 : UInt8
  b3 : UInt8
deriving DecidableEq, Repr

/-- One argument with its type. The floats are bit patterns. -/
inductive lo_arg where
  | T
  | F
  | c (v : UInt8)
  | N
  | I
  | i (v : Int32)
  | h (v : Int64)
  | f (bits : UInt32)
  | d (bits : UInt64)
  | s (v : CString)
  | S (v : CString)
  | m (v : Bytes4)
  | t (v : lo_timetag)
  | b (v : lo_blob)
deriving DecidableEq

/-- The character of an argument in the type string. -/
def lo_arg.type : lo_arg → Char
  | .T => 'T'
  | .F => 'F'
  | .c _ => 'c'
  | .N => 'N'
  | .I => 'I'
  | .i _ => 'i'
  | .h _ => 'h'
  | .f _ => 'f'
  | .d _ => 'd'
  | .s _ => 's'
  | .S _ => 'S'
  | .m _ => 'm'
  | .t _ => 't'
  | .b _ => 'b'

/-- `lo_address`: a host and a port, as text. -/
structure lo_address where
  host : CString
  port : CString
deriving DecidableEq

/-! ## Packets -/

/-- A message of a packet: the address pattern and the arguments. -/
structure Message where
  path : CString
  args : List lo_arg
deriving DecidableEq

/-- An OSC packet: a message, or a bundle with a time tag and elements of any depth. -/
abbrev Packet := RoseTree Message lo_timetag

/-- A packet with the handles of its messages and bundles. -/
abbrev HeldPacket := Held (List lo_arg) lo_timetag CString

/-- The packet without its handles. -/
def HeldPacket.packet (t : HeldPacket) : Packet :=
  t.map (fun l => ⟨l.edge, l.content⟩) NodeAt.label

/-! ## The functions of liblo -/

/-- What can be told of the state of liblo: the messages and bundles that are in use, and what
was handed over to be sent. -/
structure Liblo where
  cells : Cells (List lo_arg) lo_timetag CString
  sent : List (lo_address × HeldPacket)

def Liblo.empty : Liblo := ⟨⟨Store.empty, Store.empty⟩, []⟩

/-- Why a call has no defined behaviour. -/
inductive Undefined where
  /-- `lo_message_add_*` on a NULL message -/
  | nullMessage
  /-- `back()` of an empty vector -/
  | emptyBack
  /-- a NULL `const char *` where text is read -/
  | nullText
  /-- `lo_message_add_blob` with the NULL of a failed `lo_blob_new` -/
  | nullBlob
  /-- a message or bundle that was freed -/
  | dangling
deriving DecidableEq, Repr

/-- A call of a function of liblo. It throws nothing. -/
abbrev LoCall (α : Type) := Code Empty Undefined Liblo α

/-- The functions of liblo that a sender calls, and what lopack relies on. A handle is new each
time. Of a handle that is not in use nothing is known. -/
class LibloApi where
  lo_address_new : CString → CString → lo_address
  /-- `lo_blob_new(size, data)`. NULL is `none`. -/
  lo_blob_new : Int32 → List UInt8 → Option lo_blob
  lo_message_new : LoCall Nat
  /-- the functions `lo_message_add_*`, with the argument that they add -/
  lo_message_add : Option Nat → lo_arg → LoCall Unit
  lo_message_free : Nat → LoCall Unit
  lo_bundle_new : lo_timetag → LoCall Nat
  lo_bundle_add_message : Nat → CString → Option Nat → LoCall Unit
  lo_bundle_add_bundle : Nat → Nat → LoCall Unit
  lo_bundle_free_recursive : Nat → LoCall Unit
  lo_send_bundle : lo_address → Nat → LoCall Unit
  lo_send_message : lo_address → CString → Nat → LoCall Unit
  /-- there is no blob of a size below 1 -/
  blob_null : ∀ size data, size.toInt < 1 → lo_blob_new size data = none
  /-- any other blob has the bytes that it was made of -/
  blob_new : ∀ (size : Int32) (data : List UInt8), 1 ≤ size.toInt → data.length = size.toInt →
    ∃ blob, lo_blob_new size data = some blob ∧ blob.data = data
  /-- a new message has no arguments -/
  message_new : ∀ lo, lo_message_new lo =
    .returned lo.cells.leaves.next { lo with cells.leaves := lo.cells.leaves.alloc [] }
  message_add_null : ∀ a lo, lo_message_add none a lo = .undefined .nullMessage
  /-- an argument comes after those that are there -/
  message_add : ∀ {m : Nat} {lo : Liblo} {s} (a : lo_arg),
    lo.cells.leaves.modify m (· ++ [a]) = some s →
    lo_message_add (some m) a lo = .returned () { lo with cells.leaves := s }
  message_free : ∀ {m : Nat} {lo : Liblo} {s}, lo.cells.leaves.free m = some s →
    lo_message_free m lo = .returned () { lo with cells.leaves := s }
  /-- a new bundle has its time tag and no elements -/
  bundle_new : ∀ tag lo, lo_bundle_new tag lo =
    .returned lo.cells.nodes.next { lo with cells.nodes := lo.cells.nodes.alloc (tag, []) }
  /-- a NULL message adds nothing -/
  bundle_add_null : ∀ {b : Nat} {lo : Liblo} {x} (path : CString),
    lo.cells.nodes.cell b = some x → lo_bundle_add_message b path none lo = .returned () lo
  bundle_add_message : ∀ {b m : Nat} {path : CString} {lo : Liblo} {c},
    lo.cells.addLink b (.leaf path m) = some c →
    lo_bundle_add_message b path (some m) lo = .returned () { lo with cells := c }
  bundle_add_bundle : ∀ {b n : Nat} {lo : Liblo} {c}, lo.cells.addLink b (.node n) = some c →
    lo_bundle_add_bundle b n lo = .returned () { lo with cells := c }
  /-- the bundle goes with everything under it -/
  bundle_free_recursive : ∀ {b : Nat} {lo : Liblo} {c}, lo.cells.release (.node b) = some c →
    lo_bundle_free_recursive b lo = .returned () { lo with cells := c }
  /-- what is sent is the whole tree under the bundle, as it is at that time -/
  send_bundle : ∀ {b : Nat} {lo : Liblo} {t} (address : lo_address),
    lo.cells.read (.node b) = some t →
    lo_send_bundle address b lo = .returned () { lo with sent := lo.sent ++ [(address, t)] }
  send_message : ∀ {m : Nat} {path : CString} {lo : Liblo} {t} (address : lo_address),
    lo.cells.read (.leaf path m) = some t →
    lo_send_message address path m lo = .returned () { lo with sent := lo.sent ++ [(address, t)] }

export LibloApi (lo_address_new lo_blob_new lo_message_new lo_message_add lo_message_free
  lo_bundle_new lo_bundle_add_message lo_bundle_add_bundle lo_bundle_free_recursive
  lo_send_bundle lo_send_message)

/-! ## An instance -/

/-- The cells after an operation on a handle that is in use. -/
def withCells : Option (Cells (List lo_arg) lo_timetag CString) → LoCall Unit
  | none => undefinedBy .dangling
  | some cells => update (fun lo => { lo with cells })

/-- Hand the packet under a link over to be sent. -/
def handOver (address : lo_address) (l : Link CString) : LoCall Unit := do
  let lo ← read
  match lo.cells.read l with
  | none => undefinedBy .dangling
  | some t => update (fun lo => { lo with sent := lo.sent ++ [(address, t)] })

/-- The laws can be met. Here a handle that is not in use is undefined. -/
instance reference : LibloApi where
  lo_address_new host port := ⟨host, port⟩
  lo_blob_new size data :=
    if h : 1 ≤ size.toInt ∧ data.length < 2 ^ 31 then some ⟨data, h.2⟩ else none
  lo_message_new := do
    let lo ← read
    update (fun lo => { lo with cells.leaves := lo.cells.leaves.alloc [] })
    pure lo.cells.leaves.next
  lo_message_add
    | none, _ => undefinedBy .nullMessage
    | some m, a => do
      let lo ← read
      withCells ((lo.cells.leaves.modify m (· ++ [a])).map ({ lo.cells with leaves := · }))
  lo_message_free m := do
    let lo ← read
    withCells ((lo.cells.leaves.free m).map ({ lo.cells with leaves := · }))
  lo_bundle_new tag := do
    let lo ← read
    update (fun lo => { lo with cells.nodes := lo.cells.nodes.alloc (tag, []) })
    pure lo.cells.nodes.next
  lo_bundle_add_message
    | _, _, none => pure ()
    | b, path, some m => do
      let lo ← read
      withCells (lo.cells.addLink b (.leaf path m))
  lo_bundle_add_bundle b n := do
    let lo ← read
    withCells (lo.cells.addLink b (.node n))
  lo_bundle_free_recursive b := do
    let lo ← read
    withCells (lo.cells.release (.node b))
  lo_send_bundle address b := handOver address (.node b)
  lo_send_message address path m := handOver address (.leaf path m)
  blob_null size data h := dif_neg (fun hsize => absurd hsize.1 (Int.not_le.mpr h))
  blob_new size data hsize hlength := by
    have hlt : data.length < 2 ^ 31 := by
      have hmax := size.toInt_lt
      omega
    exact ⟨⟨data, hlt⟩, dif_pos ⟨hsize, hlt⟩, rfl⟩
  message_new _ := rfl
  message_add_null _ _ := rfl
  message_add a h := by simp [bind_exec, h, withCells]
  message_free h := by simp [bind_exec, h, withCells]
  bundle_new _ _ := rfl
  bundle_add_null _ _ := rfl
  bundle_add_message h := by simp [bind_exec, h, withCells]
  bundle_add_bundle h := by simp [bind_exec, h, withCells]
  bundle_free_recursive h := by simp [bind_exec, h, withCells]
  send_bundle address h := by simp [handOver, bind_exec, h]
  send_message address h := by simp [handOver, bind_exec, h]

/-! ## On handles in use -/

variable [LibloApi] {lo : Liblo} {m : Nat} {args : List lo_arg}

theorem lo_message_add.spec (a : lo_arg) (h : lo.cells.leaves.cell m = some args) :
    ∃ s, lo_message_add (some m) a lo = .returned () { lo with cells.leaves := s } ∧
      s.next = lo.cells.leaves.next ∧ s.cell m = some (args ++ [a]) ∧
      ∀ j, j ≠ m → s.cell j = lo.cells.leaves.cell j := by
  obtain ⟨s, hs, hnext, hself, hother⟩ := Store.modify_of_some (· ++ [a]) h
  exact ⟨s, LibloApi.message_add a hs, hnext, hself, hother⟩

theorem lo_message_free.spec (h : lo.cells.leaves.cell m = some args) :
    ∃ s, lo_message_free m lo = .returned () { lo with cells.leaves := s } ∧
      s.next = lo.cells.leaves.next ∧ s.cell m = none ∧
      ∀ j, j ≠ m → s.cell j = lo.cells.leaves.cell j := by
  obtain ⟨s, hs, hnext, hself, hother⟩ := Store.free_of_some h
  exact ⟨s, LibloApi.message_free hs, hnext, hself, hother⟩

end osc
