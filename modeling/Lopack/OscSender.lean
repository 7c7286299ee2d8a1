-- The sender of OscSender.cpp: its members, its methods and its stream
-- operators, each as the code has it.
import Lopack.Runs
import Lopack.OscTypes

open calls rose linked store

namespace osc

/-! ## The object -/

inductive OscException where
  | SendException
  | BundleNotInProgressException
  | MessageInProgressException
  | MessageNotInProgressException
deriving DecidableEq, Repr

/-- The members. NULL is `none`. The end of `m_bundles` is its back. -/
structure OscSender where
  m_address : Option lo_address
  m_message : Option Nat
  m_bundles : List Nat
  m_addressPattern : Str
  m_messageInProgress : Bool
  m_bundleInProgress : Bool
deriving DecidableEq

/-- A sender and the objects that liblo keeps for it. -/
structure World where
  sender : OscSender
  lo : Liblo

/-- A method of the sender. -/
abbrev Method (α : Type) := Code OscException Undefined World α

/-- A call into liblo. -/
def onLo {α : Type} (x : LoCall α) : Method α := within World.lo (fun w lo => { w with lo }) x

/-- Write members of the sender. -/
def setMembers (f : OscSender → OscSender) : Method Unit :=
  update (fun w => { w with sender := f w.sender })

section Methods

variable [LibloApi]

namespace OscSender

/-- `OscSender()`. -/
def new : OscSender := ⟨none, none, [], [], false, false⟩

/-! ## Setup, send and clear -/

/-- `stream << port`. -/
def portText (port : UInt32) : Str :=
  (Nat.toDigits 10 port.toNat).map (fun c => UInt8.ofNat c.toNat)

/-- The address that `setup` makes. -/
def addressOf (address : Str) (port : UInt32) : lo_address :=
  lo_address_new (cStr address) (cStr (portText port))

def setup (address : Str) (port : UInt32) : Method Unit :=
  setMembers (fun s => { s with m_address := some (addressOf address port) })

def clear : Method Unit := do
  let w ← read
  match w.sender.m_bundles with
  | front :: _ =>
    onLo (lo_bundle_free_recursive front)
    setMembers (fun s => { s with m_bundles := [] })
  | [] => match w.sender.m_message with
    | some m => onLo (lo_message_free m)
    | none => pure ()
  setMembers (fun s => { s with m_addressPattern := [], m_message := none })

/-- `~OscSender()`. An address is a value here, so `lo_address_free` has nothing to do. -/
def destroy : Method Unit := clear

def send : Method Unit := do
  let w ← read
  match w.sender.m_address with
  | none => raise .SendException
  | some address =>
    if w.sender.m_bundleInProgress || w.sender.m_messageInProgress then
      raise .SendException
    else
      match w.sender.m_bundles with
      | front :: _ => onLo (lo_send_bundle address front)
      | [] => match w.sender.m_message with
        | none => raise .SendException
        | some m => onLo (lo_send_message address (cStr w.sender.m_addressPattern) m)
      clear

/-! ## Message building -/

def beginMessage (addressPattern : Str) : Method Unit := do
  let w ← read
  if w.sender.m_messageInProgress then
    raise .MessageInProgressException
  else
    let m ← onLo lo_message_new
    setMembers (fun s => { s with
      m_message := some m
      m_messageInProgress := true
      m_addressPattern := addressPattern })

/-- The methods `add*`: the guard, then one call into liblo on `m_message`. -/
def addWith (add : Option Nat → LoCall Unit) : Method Unit := do
  let w ← read
  if !w.sender.m_messageInProgress then
    raise .MessageNotInProgressException
  else
    onLo (add w.sender.m_message)

/-- Text that liblo reads up to its NUL byte. -/
def lo_message_add_text (type : CString → lo_arg) (text : Option CString) (m : Option Nat) :
    LoCall Unit :=
  match text with
  | none => undefinedBy .nullText
  | some s => lo_message_add m (type s)

def addBool (var : Bool) : Method Unit :=
  addWith (fun m => if var then lo_message_add m .T else lo_message_add m .F)

/-- A `char` is an `int8_t` here. liblo keeps it as the `unsigned char` of the argument. -/
def addChar (var : Int8) : Method Unit := addWith (lo_message_add · (.c var.toUInt8))

def addNil : Method Unit := addWith (lo_message_add · .N)

def addInfinitum : Method Unit := addWith (lo_message_add · .I)

def addInt32 (var : Int32) : Method Unit := addWith (lo_message_add · (.i var))

def addInt64 (var : Int64) : Method Unit := addWith (lo_message_add · (.h var))

def addFloat (var : UInt32) : Method Unit := addWith (lo_message_add · (.f var))

def addDouble (var : UInt64) : Method Unit := addWith (lo_message_add · (.d var))

/-- `addString(char *var)`. -/
def addCString (var : Option CString) : Method Unit := addWith (lo_message_add_text .s var)

/-- `addString(std::string var)`. -/
def addString (var : Str) : Method Unit := addWith (lo_message_add_text .s (some (cStr var)))

def addSymbol (var : Symbol) : Method Unit := addWith (lo_message_add_text .S var.value)

def addMidiMessage (var : MidiMessage) : Method Unit := addWith (lo_message_add · (.m var.bytes))

def addTimeTag (var : TimeTag) : Method Unit := addWith (lo_message_add · (.t var.tag))

def addBlob (var : Blob) : Method Unit :=
  addWith (fun m => match lo_blob_new var.size.toInt32 var.data with
    | none => undefinedBy .nullBlob
    | some blob => lo_message_add m (.b blob))

def endMessage : Method Unit := do
  let w ← read
  if !w.sender.m_messageInProgress then
    raise .MessageNotInProgressException
  else
    if w.sender.m_bundleInProgress then
      match w.sender.m_bundles.getLast? with
      | none => undefinedBy .emptyBack
      | some back =>
        onLo (lo_bundle_add_message back (cStr w.sender.m_addressPattern) w.sender.m_message)
        setMembers (fun s => { s with m_message := none, m_addressPattern := [] })
    setMembers (fun s => { s with m_messageInProgress := false })

/-! ## Bundle building -/

/-- What both overloads of `beginBundle` do after their guard. -/
def openBundle (tag : lo_timetag) : Method Unit := do
  let w ← read
  let b ← onLo (lo_bundle_new tag)
  match w.sender.m_bundles.getLast? with
  | some back => onLo (lo_bundle_add_bundle back b)
  | none => pure ()
  setMembers (fun s => { s with m_bundles := s.m_bundles ++ [b], m_bundleInProgress := true })

/-- `beginBundle()`. Its guard reads `m_bundleInProgress`. -/
def beginBundle : Method Unit := do
  let w ← read
  if w.sender.m_bundleInProgress then
    raise .MessageInProgressException
  else
    openBundle LO_TT_IMMEDIATE

/-- `beginBundle(const TimeTag &tag)`. Its guard reads `m_messageInProgress`. -/
def beginBundleAt (tag : TimeTag) : Method Unit := do
  let w ← read
  if w.sender.m_messageInProgress then
    raise .MessageInProgressException
  else
    openBundle tag.tag

def endBundle : Method Unit := do
  let w ← read
  if !w.sender.m_bundleInProgress then
    raise .BundleNotInProgressException
  else if w.sender.m_bundles.length > 1 then
    setMembers (fun s => { s with m_bundles := s.m_bundles.dropLast })
  else
    setMembers (fun s => { s with m_bundleInProgress := false })

end OscSender

/-! ## The calls of a program -/

/-- The `add*` methods with their values. -/
inductive Add where
  | bool (var : Bool)
  | char (var : Int8)
  | nil
  | infinitum
  | int32 (var : Int32)
  | int64 (var : Int64)
  | float (var : UInt32)
  | double (var : UInt64)
  | cString (var : Option CString)
  | string (var : Str)
  | symbol (var : Symbol)
  | midiMessage (var : MidiMessage)
  | timeTag (var : TimeTag)
  | blob (var : Blob)
deriving DecidableEq

def Add.method : Add → Method Unit
  | .bool var => OscSender.addBool var
  | .char var => OscSender.addChar var
  | .nil => OscSender.addNil
  | .infinitum => OscSender.addInfinitum
  | .int32 var => OscSender.addInt32 var
  | .int64 var => OscSender.addInt64 var
  | .float var => OscSender.addFloat var
  | .double var => OscSender.addDouble var
  | .cString var => OscSender.addCString var
  | .string var => OscSender.addString var
  | .symbol var => OscSender.addSymbol var
  | .midiMessage var => OscSender.addMidiMessage var
  | .timeTag var => OscSender.addTimeTag var
  | .blob var => OscSender.addBlob var

/-- What stands after a `<<`: a manipulator, or a value. The values are those of `Add`, where
`cString` is the overload for `const char *`. -/
inductive Item where
  | BeginMessage (addressPattern : Str)
  | EndMessage
  | value (var : Add)
  | BeginBundle (timetag : TimeTag)
  | EndBundle
deriving DecidableEq

/-- `operator<<`. A `const char *` is not a `char *`, so it becomes a `std::string` for
`addString`: a NULL pointer is read before `addString` runs. -/
def Item.method : Item → Method Unit
  | .BeginMessage addressPattern => OscSender.beginMessage addressPattern
  | .EndMessage => OscSender.endMessage
  | .value (.cString none) => undefinedBy .nullText
  | .value (.cString (some s)) => OscSender.addString s.bytes
  | .value var => var.method
  | .BeginBundle timetag => OscSender.beginBundleAt timetag
  | .EndBundle => OscSender.endBundle

/-- One public call on a sender. -/
inductive Op where
  | setup (address : Str) (port : UInt32)
  | send
  | clear
  | beginMessage (addressPattern : Str)
  | add (var : Add)
  | endMessage
  | beginBundle
  | beginBundleAt (tag : TimeTag)
  | endBundle
  | stream (item : Item)
deriving DecidableEq

def Op.method : Op → Method Unit
  | .setup address port => OscSender.setup address port
  | .send => OscSender.send
  | .clear => OscSender.clear
  | .beginMessage addressPattern => OscSender.beginMessage addressPattern
  | .add var => var.method
  | .endMessage => OscSender.endMessage
  | .beginBundle => OscSender.beginBundle
  | .beginBundleAt tag => OscSender.beginBundleAt tag
  | .endBundle => OscSender.endBundle
  | .stream item => item.method

def step (w : World) (op : Op) : Outcome OscException Undefined World Unit := op.method w

/-- A new sender: `OscSender()`, or `OscSender(address, port)`. -/
def constructed : Option (Str × UInt32) → World
  | none => ⟨OscSender.new, Liblo.empty⟩
  | some (address, port) =>
    ⟨{ OscSender.new with m_address := some (OscSender.addressOf address port) }, Liblo.empty⟩

end Methods

/-! ## The stream form of a call -/

/-- The method that a `<<` calls. A NULL `const char *` reaches no method. -/
def Item.direct : Item → Op
  | .BeginMessage addressPattern => .beginMessage addressPattern
  | .EndMessage => .endMessage
  | .value (.cString none) => .stream (.value (.cString none))
  | .value (.cString (some s)) => .add (.string s.bytes)
  | .value var => .add var
  | .BeginBundle timetag => .beginBundleAt timetag
  | .EndBundle => .endBundle

def Op.direct : Op → Op
  | .stream item => item.direct
  | op => op

/-- Only a NULL `const char *` has no method behind its `<<`. -/
theorem direct_stream {op : Op} {item : Item} (h : op.direct = .stream item) :
    item = .value (.cString none) := by
  cases op with
  | stream item' =>
    cases item' with
    | value var =>
      cases var with
      | cString s =>
        cases s with
        | none => cases h; rfl
        | some s => cases h
      | _ => cases h
    | _ => cases h
  | _ => cases h

/-- No `<<` stands for `clear()`. -/
@[simp] theorem direct_clear_iff (op : Op) : op.direct = .clear ↔ op = .clear := by
  cases op with
  | stream item =>
    cases item with
    | value var =>
      cases var with
      | cString s => cases s <;> simp [Op.direct, Item.direct]
      | _ => simp [Op.direct, Item.direct]
    | _ => simp [Op.direct, Item.direct]
  | _ => simp [Op.direct]

section Direct

variable [LibloApi]

/-- A call through a stream is the call of its method. -/
theorem step_direct (w : World) (op : Op) : step w op = step w op.direct := by
  cases op with
  | stream item =>
    cases item with
    | value var =>
      cases var with
      | cString s => cases s <;> rfl
      | _ => rfl
    | _ => rfl
  | _ => rfl

/-- The argument that an `add*` method hands to liblo. -/
def Add.arg : Add → Except Undefined lo_arg
  | .bool var => .ok (if var then .T else .F)
  | .char var => .ok (.c var.toUInt8)
  | .nil => .ok .N
  | .infinitum => .ok .I
  | .int32 var => .ok (.i var)
  | .int64 var => .ok (.h var)
  | .float var => .ok (.f var)
  | .double var => .ok (.d var)
  | .cString none => .error .nullText
  | .cString (some s) => .ok (.s s)
  | .string var => .ok (.s (cStr var))
  | .symbol ⟨none⟩ => .error .nullText
  | .symbol ⟨some s⟩ => .ok (.S s)
  | .midiMessage var => .ok (.m var.bytes)
  | .timeTag var => .ok (.t var.tag)
  | .blob var => match lo_blob_new var.size.toInt32 var.data with
    | none => .error .nullBlob
    | some x => .ok (.b x)

def lo_message_add_arg (a : Except Undefined lo_arg) (m : Option Nat) : LoCall Unit :=
  match a with
  | .error u => undefinedBy u
  | .ok x => lo_message_add m x

/-- Every `add*` method is the one guard and one argument for liblo. -/
theorem Add.method_eq (a : Add) : a.method = OscSender.addWith (lo_message_add_arg a.arg) := by
  cases a with
  | bool var => cases var <;> rfl
  | cString var => cases var <;> rfl
  | symbol var =>
    obtain ⟨value⟩ := var
    cases value <;> rfl
  | blob var =>
    simp only [Add.method, OscSender.addBlob, Add.arg]
    cases lo_blob_new var.size.toInt32 var.data <;> rfl
  | _ => rfl

end Direct

end osc
