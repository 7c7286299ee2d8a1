-- The receiver's view of a message, as OscTypes.cpp has it: the type string, the
-- predicates `is*` and the accessors `as*`. liblo delivers the messages of a packet.
import Lopack.OscTypes

open rose

namespace osc

/-! ## The message -/

/-- A message as liblo delivers it. -/
structure lo_message where
  argv : List lo_arg
  timestamp : lo_timetag
deriving DecidableEq

structure ReceivedMessage where
  m_addressPattern : Str
  m_message : lo_message
deriving DecidableEq

/-- How an accessor fails. The two exceptions are thrown. `misread` is a read of a member of
the union `lo_arg` that the argument does not have. -/
inductive AccessFailure where
  | TypeException
  | ArgException
  | misread
deriving DecidableEq, Repr

abbrev Access (α : Type) := Except AccessFailure α

namespace ReceivedMessage

/-! ## Info -/

def address (msg : ReceivedMessage) : Str := msg.m_addressPattern

def types (msg : ReceivedMessage) : List Char := msg.m_message.argv.map lo_arg.type

def checkAddressAndTypes (msg : ReceivedMessage) (address : Str) (types : List Char) : Bool :=
  address == msg.m_addressPattern && types == msg.types

def numArgs (msg : ReceivedMessage) : Nat := msg.m_message.argv.length

def typeTag (msg : ReceivedMessage) (at' : Nat) : Char :=
  if at' < msg.numArgs then msg.types.getD at' '*' else '*'

/-- `self` is the storage of the `TimeTag` that is returned. -/
def getTimeTag (self : TimeTag) (msg : ReceivedMessage) : TimeTag :=
  TimeTag.ofTimetag self msg.m_message.timestamp

/-! ## The types of the arguments -/

def isBool (msg : ReceivedMessage) (at' : Nat) : Bool :=
  msg.typeTag at' == 'T' || msg.typeTag at' == 'F'

def isChar (msg : ReceivedMessage) (at' : Nat) : Bool := msg.typeTag at' == 'c'

def isNil (msg : ReceivedMessage) (at' : Nat) : Bool := msg.typeTag at' == 'N'

def isInfinitum (msg : ReceivedMessage) (at' : Nat) : Bool := msg.typeTag at' == 'I'

def isInt (msg : ReceivedMessage) (at' : Nat) : Bool :=
  msg.typeTag at' == 'i' || msg.typeTag at' == 'h'

def isInt32 (msg : ReceivedMessage) (at' : Nat) : Bool := msg.typeTag at' == 'i'

def isInt64 (msg : ReceivedMessage) (at' : Nat) : Bool := msg.typeTag at' == 'h'

def isFloat (msg : ReceivedMessage) (at' : Nat) : Bool := msg.typeTag at' == 'f'

def isDouble (msg : ReceivedMessage) (at' : Nat) : Bool := msg.typeTag at' == 'd'

def isText (msg : ReceivedMessage) (at' : Nat) : Bool :=
  msg.typeTag at' == 's' || msg.typeTag at' == 'S'

def isString (msg : ReceivedMessage) (at' : Nat) : Bool := msg.typeTag at' == 's'

def isSymbol (msg : ReceivedMessage) (at' : Nat) : Bool := msg.typeTag at' == 'S'

def isMidiMessage (msg : ReceivedMessage) (at' : Nat) : Bool := msg.typeTag at' == 'm'

def isTimeTag (msg : ReceivedMessage) (at' : Nat) : Bool := msg.typeTag at' == 't'

def isBlob (msg : ReceivedMessage) (at' : Nat) : Bool := msg.typeTag at' == 'b'

end ReceivedMessage

/-! ## The members of the union -/

/-- Read a member of the union. -/
def lo_arg.member {α : Type} (get : lo_arg → Option α) (a : lo_arg) : Access α :=
  match get a with
  | some v => .ok v
  | none => .error .misread

def lo_arg.c? : lo_arg → Option UInt8
  | .c v => some v
  | _ => none

def lo_arg.i? : lo_arg → Option Int32
  | .i v => some v
  | _ => none

def lo_arg.h? : lo_arg → Option Int64
  | .h v => some v
  | _ => none

def lo_arg.f? : lo_arg → Option UInt32
  | .f bits => some bits
  | _ => none

def lo_arg.d? : lo_arg → Option UInt64
  | .d bits => some bits
  | _ => none

def lo_arg.s? : lo_arg → Option CString
  | .s v => some v
  | _ => none

def lo_arg.S? : lo_arg → Option CString
  | .S v => some v
  | _ => none

def lo_arg.m? : lo_arg → Option Bytes4
  | .m v => some v
  | _ => none

def lo_arg.t? : lo_arg → Option lo_timetag
  | .t v => some v
  | _ => none

def lo_arg.b? : lo_arg → Option lo_blob
  | .b v => some v
  | _ => none

namespace ReceivedMessage

/-! ## The values of the arguments -/

/-- `argv[at]`, where `at` is checked against `numArgs()`. -/
def arg (msg : ReceivedMessage) (at' : Nat) : Access lo_arg :=
  match msg.m_message.argv[at']? with
  | some a => .ok a
  | none => .error .ArgException

/-- The accessors that check the type first and then read one member. -/
def asWith {α β : Type} (is : ReceivedMessage → Nat → Bool) (get : lo_arg → Option α)
    (make : α → β) (msg : ReceivedMessage) (at' : Nat) : Access β := do
  if !is msg at' then throw .TypeException
  let a ← msg.arg at'
  let v ← a.member get
  return make v

/-- The value is in the type tag, so no member is read. -/
def asBool (msg : ReceivedMessage) (at' : Nat) : Access Bool := do
  if !msg.isBool at' then throw .TypeException
  return msg.typeTag at' == 'T'

def asChar : ReceivedMessage → Nat → Access UInt8 := asWith isChar lo_arg.c? id

def asInt32 : ReceivedMessage → Nat → Access Int32 := asWith isInt32 lo_arg.i? id

def asInt64 : ReceivedMessage → Nat → Access Int64 := asWith isInt64 lo_arg.h? id

def asFloat : ReceivedMessage → Nat → Access UInt32 := asWith isFloat lo_arg.f? id

def asDouble : ReceivedMessage → Nat → Access UInt64 := asWith isDouble lo_arg.d? id

def asString : ReceivedMessage → Nat → Access Str := asWith isString lo_arg.s? CString.bytes

/-- The four bytes are handed to `MidiMessage` with `reverse` set. -/
def asMidiMessage : ReceivedMessage → Nat → Access MidiMessage :=
  asWith isMidiMessage lo_arg.m? (MidiMessage.ofBytes · true)

def asSymbol : ReceivedMessage → Nat → Access Symbol :=
  asWith isSymbol lo_arg.S? (fun s => ⟨some s⟩)

def asTimeTag : ReceivedMessage → Nat → Access TimeTag :=
  asWith isTimeTag lo_arg.t? (fun t => TimeTag.ofFields t.sec t.frac)

/-- The one accessor that does not check the type. -/
def asBlob (msg : ReceivedMessage) (at' : Nat) : Access Blob := do
  let a ← msg.arg at'
  let b ← a.member lo_arg.b?
  return Blob.ofBlob b

/-! ## What they give -/

theorem typeTag_of_arg {msg : ReceivedMessage} {at' : Nat} {a : lo_arg}
    (h : msg.m_message.argv[at']? = some a) : msg.typeTag at' = a.type := by
  have hlt : at' < msg.numArgs := (List.getElem?_eq_some_iff.mp h).1
  unfold typeTag types
  rw [if_pos hlt, List.getD_eq_getElem?_getD, List.getElem?_map, h]
  rfl

theorem arg_of_some {msg : ReceivedMessage} {at' : Nat} {a : lo_arg}
    (h : msg.m_message.argv[at']? = some a) : msg.arg at' = .ok a := by
  unfold arg
  rw [h]

theorem asWith_of_some {α β : Type} {is : ReceivedMessage → Nat → Bool}
    {get : lo_arg → Option α} {msg : ReceivedMessage} {at' : Nat} {a : lo_arg} {v : α}
    (make : α → β) (h : msg.m_message.argv[at']? = some a) (his : is msg at' = true)
    (hget : get a = some v) : asWith is get make msg at' = .ok (make v) := by
  unfold asWith
  rw [arg_of_some h]
  simp [his, lo_arg.member, hget, pure, Except.pure, bind, Except.bind]

variable {msg : ReceivedMessage} {at' : Nat}

theorem asBool_of_arg {v : Bool} (h : msg.m_message.argv[at']? = some (if v then .T else .F)) :
    msg.asBool at' = .ok v := by
  have htag := typeTag_of_arg h
  cases v
  · simp [asBool, isBool, htag, lo_arg.type, pure, Except.pure]
  · simp [asBool, isBool, htag, lo_arg.type, pure, Except.pure]

theorem asChar_of_arg {v : UInt8} (h : msg.m_message.argv[at']? = some (.c v)) :
    msg.asChar at' = .ok v :=
  asWith_of_some id h (by simp [isChar, typeTag_of_arg h, lo_arg.type]) rfl

theorem asInt32_of_arg {v : Int32} (h : msg.m_message.argv[at']? = some (.i v)) :
    msg.asInt32 at' = .ok v :=
  asWith_of_some id h (by simp [isInt32, typeTag_of_arg h, lo_arg.type]) rfl

theorem asInt64_of_arg {v : Int64} (h : msg.m_message.argv[at']? = some (.h v)) :
    msg.asInt64 at' = .ok v :=
  asWith_of_some id h (by simp [isInt64, typeTag_of_arg h, lo_arg.type]) rfl

theorem asFloat_of_arg {bits : UInt32} (h : msg.m_message.argv[at']? = some (.f bits)) :
    msg.asFloat at' = .ok bits :=
  asWith_of_some id h (by simp [isFloat, typeTag_of_arg h, lo_arg.type]) rfl

theorem asDouble_of_arg {bits : UInt64} (h : msg.m_message.argv[at']? = some (.d bits)) :
    msg.asDouble at' = .ok bits :=
  asWith_of_some id h (by simp [isDouble, typeTag_of_arg h, lo_arg.type]) rfl

theorem asString_of_arg {v : CString} (h : msg.m_message.argv[at']? = some (.s v)) :
    msg.asString at' = .ok v.bytes :=
  asWith_of_some CString.bytes h (by simp [isString, typeTag_of_arg h, lo_arg.type]) rfl

theorem asSymbol_of_arg {v : CString} (h : msg.m_message.argv[at']? = some (.S v)) :
    msg.asSymbol at' = .ok ⟨some v⟩ :=
  asWith_of_some _ h (by simp [isSymbol, typeTag_of_arg h, lo_arg.type]) rfl

theorem asMidiMessage_of_arg {v : Bytes4} (h : msg.m_message.argv[at']? = some (.m v)) :
    msg.asMidiMessage at' = .ok (MidiMessage.ofBytes v true) :=
  asWith_of_some _ h (by simp [isMidiMessage, typeTag_of_arg h, lo_arg.type]) rfl

theorem asTimeTag_of_arg {v : lo_timetag} (h : msg.m_message.argv[at']? = some (.t v)) :
    msg.asTimeTag at' = .ok ⟨v⟩ :=
  asWith_of_some _ h (by simp [isTimeTag, typeTag_of_arg h, lo_arg.type]) rfl

theorem asBlob_of_arg {v : lo_blob} (h : msg.m_message.argv[at']? = some (.b v)) :
    msg.asBlob at' = .ok (Blob.ofBlob v) := by
  unfold asBlob
  rw [arg_of_some h]
  rfl

end ReceivedMessage

/-! ## Delivery -/

mutual

/-- The messages of a packet whose bundle has the time tag `tag`, in order. -/
def deliverIn (tag : lo_timetag) : Packet → List ReceivedMessage
  | .leaf m => [⟨m.path.bytes, ⟨m.args, tag⟩⟩]
  | .node inner ps => deliverAll inner ps

def deliverAll (tag : lo_timetag) : List Packet → List ReceivedMessage
  | [] => []
  | p :: ps => deliverIn tag p ++ deliverAll tag ps

end

/-- What the receiver is called with for a packet. Outside a bundle the time tag of a message is
the immediate one. -/
def deliver (p : Packet) : List ReceivedMessage := deliverIn LO_TT_IMMEDIATE p

end osc
