-- From the `add*` methods of the sender to the `as*` methods of the receiver: every
-- argument list is read back as it was added.
import Lopack.PacketStream
import Lopack.ReceivedMessage

open calls rose linked store

namespace osc

/-! ## A message built with the methods -/

/-- `beginMessage`, one `add*` for each value, `endMessage`, `send`. -/
def sendMessage (pattern : Str) (vars : List Add) : List Op :=
  .beginMessage pattern :: vars.map .add ++ [.endMessage, .send]

theorem adds_add [LibloApi] {vars : List Add} {args : List lo_arg}
    (h : vars.map Add.arg = args.map .ok) :
    List.Forall₂ (fun op a => ∀ d : Draft, d.step op = d.add (.ok a)) (vars.map .add) args := by
  rw [List.forall₂_map_left_iff]
  rw [← List.forall₂_eq_eq_eq, List.forall₂_map_left_iff, List.forall₂_map_right_iff] at h
  refine h.imp ?_
  intro var a ha d
  simp only [Draft.step, Op.direct, ha]

/-- An idle sender hands over the message with the arguments of the values. -/
theorem sendMessage_sends [LibloApi] {w : World} {address : lo_address}
    (h : w.sender = idleMembers address) (pattern : Str) {vars : List Add} {args : List lo_arg}
    (hargs : vars.map Add.arg = args.map .ok) :
    ∃ w', perform step (sendMessage pattern vars) w = .returned () w' ∧
      w'.sender = idleMembers address ∧
      packets w' = packets w ++ [(address, .leaf ⟨cStr pattern, args⟩)] := by
  let nm := w.lo.cells.leaves.next
  let nb := w.lo.cells.nodes.next
  have hbegin : Draft.step ⟨some address, none, [], [], false, false, nm, nb, w.lo.sent⟩
      (.beginMessage pattern) = .returned ()
        ⟨some address, some (nm, []), [], pattern, true, false, nm + 1, nb, w.lo.sent⟩ := rfl
  have hrun : perform Draft.step (sendMessage pattern vars)
      ⟨some address, none, [], [], false, false, nm, nb, w.lo.sent⟩ = .returned ()
        ⟨some address, none, [], [], false, false, nm + 1, nb,
          w.lo.sent ++ [(address, .leaf ⟨cStr pattern, nm, args⟩)]⟩ := by
    unfold sendMessage
    rw [List.cons_append, perform_cons _ _ hbegin,
      perform_append _ _ (draft_adds _ _ _ (adds_add hargs) _ _ _ _ _ _)]
    rfl
  obtain ⟨w', hw', hr⟩ := perform_simulates step step_refines (idle_refines h) hrun
  refine ⟨w', hw', hr.members, ?_⟩
  unfold packets
  rw [hr.sent, List.map_append]
  rfl

/-! ## The kinds of arguments -/

/-- The predicates `is*`. -/
inductive Is where
  | isBool | isChar | isNil | isInfinitum | isInt | isInt32 | isInt64 | isFloat | isDouble
  | isText | isString | isSymbol | isMidiMessage | isTimeTag | isBlob
deriving DecidableEq, Repr

def ReceivedMessage.is (msg : ReceivedMessage) : Is → Nat → Bool
  | .isBool => msg.isBool
  | .isChar => msg.isChar
  | .isNil => msg.isNil
  | .isInfinitum => msg.isInfinitum
  | .isInt => msg.isInt
  | .isInt32 => msg.isInt32
  | .isInt64 => msg.isInt64
  | .isFloat => msg.isFloat
  | .isDouble => msg.isDouble
  | .isText => msg.isText
  | .isString => msg.isString
  | .isSymbol => msg.isSymbol
  | .isMidiMessage => msg.isMidiMessage
  | .isTimeTag => msg.isTimeTag
  | .isBlob => msg.isBlob

/-- The type tag of a value. -/
def Add.tag : Add → Char
  | .bool var => if var then 'T' else 'F'
  | .char _ => 'c'
  | .nil => 'N'
  | .infinitum => 'I'
  | .int32 _ => 'i'
  | .int64 _ => 'h'
  | .float _ => 'f'
  | .double _ => 'd'
  | .cString _ => 's'
  | .string _ => 's'
  | .symbol _ => 'S'
  | .midiMessage _ => 'm'
  | .timeTag _ => 't'
  | .blob _ => 'b'

/-- The predicates that are documented to hold for a value: `isInt` is either integer, `isText`
is a string or a symbol, and the others are one type each. -/
def Add.kinds : Add → List Is
  | .bool _ => [.isBool]
  | .char _ => [.isChar]
  | .nil => [.isNil]
  | .infinitum => [.isInfinitum]
  | .int32 _ => [.isInt, .isInt32]
  | .int64 _ => [.isInt, .isInt64]
  | .float _ => [.isFloat]
  | .double _ => [.isDouble]
  | .cString _ => [.isText, .isString]
  | .string _ => [.isText, .isString]
  | .symbol _ => [.isText, .isSymbol]
  | .midiMessage _ => [.isMidiMessage]
  | .timeTag _ => [.isTimeTag]
  | .blob _ => [.isBlob]

/-- The accessor of the value's type gives the value back. A nil and an infinitum have no value,
and a `char` comes back as the `unsigned char` that it converts to. -/
def ReadsBack (msg : ReceivedMessage) (i : Nat) : Add → Prop
  | .bool var => msg.asBool i = .ok var
  | .char var => msg.asChar i = .ok var.toUInt8
  | .nil => True
  | .infinitum => True
  | .int32 var => msg.asInt32 i = .ok var
  | .int64 var => msg.asInt64 i = .ok var
  | .float var => msg.asFloat i = .ok var
  | .double var => msg.asDouble i = .ok var
  | .cString none => False
  | .cString (some s) => msg.asString i = .ok s.bytes
  | .string var => msg.asString i = .ok var
  | .symbol var => msg.asSymbol i = .ok var
  | .midiMessage var => msg.asMidiMessage i = .ok var
  | .timeTag var => msg.asTimeTag i = .ok var
  | .blob var => msg.asBlob i = .ok var

/-- The values of the round trip: text without NUL bytes that is not NULL, and blobs that are
not empty and smaller than 2^31 bytes. MIDI messages come back in another byte order. -/
def Add.RoundTrips : Add → Prop
  | .cString var => var ≠ none
  | .string var => 0 ∉ var
  | .symbol var => var.value ≠ none
  | .midiMessage _ => False
  | .blob var => 0 < var.data.length ∧ var.data.length < 2 ^ 31
  | _ => True

/-! ## One argument -/

theorem lo_blob_new_of_size [LibloApi] {b : Blob} (h : 0 < b.data.length ∧ b.data.length < 2 ^ 31) :
    ∃ x, lo_blob_new b.size.toInt32 b.data = some x ∧ Blob.ofBlob x = b :=
  ⟨⟨b.data, h.2⟩, lo_blob_new_eq_some_iff.mpr ⟨h.1, rfl⟩, rfl⟩

theorem cStr_of_no_nul {s : Str} (h : 0 ∉ s) : (cStr s).bytes = s :=
  congrArg CString.bytes (cStr_bytes ⟨s, h⟩)

/-- The type tags of a predicate. -/
def Is.tags : Is → List Char
  | .isBool => ['T', 'F']
  | .isChar => ['c']
  | .isNil => ['N']
  | .isInfinitum => ['I']
  | .isInt => ['i', 'h']
  | .isInt32 => ['i']
  | .isInt64 => ['h']
  | .isFloat => ['f']
  | .isDouble => ['d']
  | .isText => ['s', 'S']
  | .isString => ['s']
  | .isSymbol => ['S']
  | .isMidiMessage => ['m']
  | .isTimeTag => ['t']
  | .isBlob => ['b']

theorem is_iff (msg : ReceivedMessage) (p : Is) (i : Nat) :
    msg.is p i = true ↔ msg.typeTag i ∈ p.tags := by
  cases p <;> simp [ReceivedMessage.is, Is.tags, ReceivedMessage.isBool, ReceivedMessage.isChar,
    ReceivedMessage.isNil, ReceivedMessage.isInfinitum, ReceivedMessage.isInt,
    ReceivedMessage.isInt32, ReceivedMessage.isInt64, ReceivedMessage.isFloat,
    ReceivedMessage.isDouble, ReceivedMessage.isText, ReceivedMessage.isString,
    ReceivedMessage.isSymbol, ReceivedMessage.isMidiMessage, ReceivedMessage.isTimeTag,
    ReceivedMessage.isBlob]

theorem mem_kinds_iff (var : Add) (p : Is) : p ∈ var.kinds ↔ var.tag ∈ p.tags := by
  cases var with
  | bool var => cases var <;> cases p <;> simp [Add.kinds, Add.tag, Is.tags]
  | _ => cases p <;> simp [Add.kinds, Add.tag, Is.tags]

/-- A value of the round trip has an argument of its type in liblo. -/
theorem Add.RoundTrips.arg [LibloApi] {var : Add} (h : var.RoundTrips) :
    ∃ a, var.arg = .ok a ∧ a.type = var.tag := by
  cases var with
  | bool var => cases var <;> exact ⟨_, rfl, rfl⟩
  | cString var =>
    cases var with
    | none => exact absurd rfl h
    | some s => exact ⟨_, rfl, rfl⟩
  | symbol var =>
    obtain ⟨value⟩ := var
    cases value with
    | none => exact absurd rfl h
    | some s => exact ⟨_, rfl, rfl⟩
  | midiMessage var => exact h.elim
  | blob var =>
    obtain ⟨x, hx, _⟩ := lo_blob_new_of_size h
    exact ⟨.b x, by simp [Add.arg, hx], rfl⟩
  | _ => exact ⟨_, rfl, rfl⟩

/-- The receiver gets a value of the round trip back from its argument. -/
theorem Add.RoundTrips.readsBack [LibloApi] {var : Add} (h : var.RoundTrips) {a : lo_arg}
    (ha : var.arg = .ok a) {msg : ReceivedMessage} {i : Nat}
    (hi : msg.m_message.argv[i]? = some a) : ReadsBack msg i var := by
  cases var with
  | bool var => cases ha; exact ReceivedMessage.asBool_of_arg hi
  | char var => cases ha; exact ReceivedMessage.asChar_of_arg hi
  | nil => trivial
  | infinitum => trivial
  | int32 var => cases ha; exact ReceivedMessage.asInt32_of_arg hi
  | int64 var => cases ha; exact ReceivedMessage.asInt64_of_arg hi
  | float var => cases ha; exact ReceivedMessage.asFloat_of_arg hi
  | double var => cases ha; exact ReceivedMessage.asDouble_of_arg hi
  | cString var =>
    cases var with
    | none => exact absurd rfl h
    | some s => cases ha; exact ReceivedMessage.asString_of_arg hi
  | string var =>
    cases ha
    have hread := ReceivedMessage.asString_of_arg hi
    rwa [cStr_of_no_nul h] at hread
  | symbol var =>
    obtain ⟨value⟩ := var
    cases value with
    | none => exact absurd rfl h
    | some s => cases ha; exact ReceivedMessage.asSymbol_of_arg hi
  | midiMessage var => exact h.elim
  | timeTag var => cases ha; exact ReceivedMessage.asTimeTag_of_arg hi
  | blob var =>
    obtain ⟨x, hx, hback⟩ := lo_blob_new_of_size h
    simp only [Add.arg, hx] at ha
    cases ha
    have hread := ReceivedMessage.asBlob_of_arg hi
    rwa [hback] at hread

/-! ## Every argument list -/

theorem args_of_roundTrips [LibloApi] {vars : List Add} (h : ∀ var ∈ vars, var.RoundTrips) :
    ∃ args : List lo_arg, vars.map Add.arg = args.map .ok ∧
      args.map lo_arg.type = vars.map Add.tag := by
  induction vars with
  | nil => exact ⟨[], rfl, rfl⟩
  | cons var vars ih =>
    rw [List.forall_mem_cons] at h
    obtain ⟨a, ha, htype⟩ := h.1.arg
    obtain ⟨args, hargs, htypes⟩ := ih h.2
    exact ⟨a :: args, by simp [ha, hargs], by simp [htype, htypes]⟩

/-- A message built with the `add*` calls and received: the number of arguments, the type string,
the predicates and the values are those of what was added. -/
theorem every_argument_is_read_back [LibloApi] (w : World) (address : lo_address)
    (h : w.sender = idleMembers address) (pattern : Str) (vars : List Add)
    (hvars : ∀ var ∈ vars, var.RoundTrips) :
    ∃ w' p msg, perform step (sendMessage pattern vars) w = .returned () w' ∧
      packets w' = packets w ++ [(address, p)] ∧ deliver p = [msg] ∧
      msg.numArgs = vars.length ∧ msg.types = vars.map Add.tag ∧
      ∀ i var, vars[i]? = some var → msg.typeTag i = var.tag ∧
        (∀ p, msg.is p i = true ↔ p ∈ var.kinds) ∧ ReadsBack msg i var := by
  obtain ⟨args, hargs, htypes⟩ := args_of_roundTrips hvars
  obtain ⟨w', hw', _, hp⟩ := sendMessage_sends h pattern hargs
  refine ⟨w', _, ⟨(cStr pattern).bytes, ⟨args, LO_TT_IMMEDIATE⟩⟩, hw', hp, rfl, ?_, htypes, ?_⟩
  · simpa [ReceivedMessage.numArgs] using congrArg List.length htypes
  intro i var hi
  have hround := hvars var (List.mem_of_getElem? hi)
  obtain ⟨a, ha, htype⟩ := hround.arg
  have harg : args[i]? = some a := by
    have hmap := congrArg (fun l : List (Except Undefined lo_arg) => l[i]?) hargs
    simpa [hi, ha, eq_comm] using hmap
  have htag : ReceivedMessage.typeTag ⟨(cStr pattern).bytes, ⟨args, LO_TT_IMMEDIATE⟩⟩ i =
      var.tag := by
    rw [ReceivedMessage.typeTag_of_arg harg, htype]
  refine ⟨htag, fun p => ?_, hround.readsBack ha harg⟩
  rw [is_iff, mem_kinds_iff, htag]

theorem one_of_each_kind_is_read_back :
    ∃ w' p msg, perform step (sendMessage [47, 97] [.bool true, .char (-1), .nil, .infinitum,
        .int32 (-5), .int64 7, .float 1065353216, .double 0, .string [102, 111], .symbol
        ⟨some ⟨[120], by decide⟩⟩, .timeTag ⟨⟨7, 5⟩⟩, .blob ⟨[1, 0, 2], by decide⟩])
        (constructed (some ([104], 9990))) = .returned () w' ∧
      packets w' = [(OscSender.addressOf [104] 9990, p)] ∧ deliver p = [msg] ∧
      msg.numArgs = 12 ∧ msg.types = "TcNIihfdsStb".toList ∧ msg.asChar 1 = .ok 255 ∧
      msg.asInt32 4 = .ok (-5) ∧ msg.asString 8 = .ok [102, 111] ∧ msg.isText 9 = true := by
  obtain ⟨w', p, msg, hw', hp, hmsg, hnum, htypes, hargs⟩ := every_argument_is_read_back
    (constructed (some ([104], 9990))) (OscSender.addressOf [104] 9990) rfl [47, 97]
    [.bool true, .char (-1), .nil, .infinitum, .int32 (-5), .int64 7, .float 1065353216,
      .double 0, .string [102, 111], .symbol ⟨some ⟨[120], by decide⟩⟩, .timeTag ⟨⟨7, 5⟩⟩,
      .blob ⟨[1, 0, 2], by decide⟩] (by simp [Add.RoundTrips])
  refine ⟨w', p, msg, hw', hp, hmsg, hnum, htypes, (hargs 1 _ rfl).2.2, (hargs 4 _ rfl).2.2,
    (hargs 8 _ rfl).2.2, ?_⟩
  exact ((hargs 9 _ rfl).2.1 .isText).mpr (by decide)

end osc
