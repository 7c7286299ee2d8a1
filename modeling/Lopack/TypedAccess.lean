-- The accessors `as*` against the type tags. An accessor gives the value of the
-- argument or throws. One of them does not look at the tag.
import Lopack.ReceivedMessage

namespace osc

/-! ## The accessors -/

/-- The accessors. -/
inductive As where
  | asBool
  | asChar
  | asInt32
  | asInt64
  | asFloat
  | asDouble
  | asString
  | asSymbol
  | asMidiMessage
  | asTimeTag
  | asBlob
deriving DecidableEq, Repr

/-- What an accessor returns. -/
inductive Value where
  | bool (v : Bool)
  | char (v : UInt8)
  | int32 (v : Int32)
  | int64 (v : Int64)
  | float (bits : UInt32)
  | double (bits : UInt64)
  | string (v : Str)
  | symbol (v : Symbol)
  | midiMessage (v : MidiMessage)
  | timeTag (v : TimeTag)
  | blob (v : Blob)
deriving DecidableEq

/-- Call an accessor. -/
def ReceivedMessage.as (msg : ReceivedMessage) (at' : Nat) : As → Access Value
  | .asBool => .bool <$> msg.asBool at'
  | .asChar => .char <$> msg.asChar at'
  | .asInt32 => .int32 <$> msg.asInt32 at'
  | .asInt64 => .int64 <$> msg.asInt64 at'
  | .asFloat => .float <$> msg.asFloat at'
  | .asDouble => .double <$> msg.asDouble at'
  | .asString => .string <$> msg.asString at'
  | .asSymbol => .symbol <$> msg.asSymbol at'
  | .asMidiMessage => .midiMessage <$> msg.asMidiMessage at'
  | .asTimeTag => .timeTag <$> msg.asTimeTag at'
  | .asBlob => .blob <$> msg.asBlob at'

/-- The type tags of an accessor. -/
def As.tags : As → List Char
  | .asBool => ['T', 'F']
  | .asChar => ['c']
  | .asInt32 => ['i']
  | .asInt64 => ['h']
  | .asFloat => ['f']
  | .asDouble => ['d']
  | .asString => ['s']
  | .asSymbol => ['S']
  | .asMidiMessage => ['m']
  | .asTimeTag => ['t']
  | .asBlob => ['b']

/-- The value of an argument under its own tag. Nil and infinitum have none. The value of a MIDI
message is the one of `asMidiMessage`, with the four bytes in reverse. -/
def lo_arg.read : lo_arg → Option Value
  | .T => some (.bool true)
  | .F => some (.bool false)
  | .c v => some (.char v)
  | .N => none
  | .I => none
  | .i v => some (.int32 v)
  | .h v => some (.int64 v)
  | .f bits => some (.float bits)
  | .d bits => some (.double bits)
  | .s v => some (.string v.bytes)
  | .S v => some (.symbol ⟨some v⟩)
  | .m v => some (.midiMessage (MidiMessage.ofBytes v true))
  | .t v => some (.timeTag ⟨v⟩)
  | .b v => some (.blob (Blob.ofBlob v))

/-- The access is right: it throws exactly when there is no such argument or its tag is not one of
the accessor's, it gives the value of the argument otherwise, and it never reads an argument as
another type. -/
structure AccessRight (msg : ReceivedMessage) (at' : Nat) (acc : As) : Prop where
  throws_iff : (msg.as at' acc = .error .TypeException ∨ msg.as at' acc = .error .ArgException) ↔
    msg.numArgs ≤ at' ∨ msg.typeTag at' ∉ acc.tags
  reads : at' < msg.numArgs → msg.typeTag at' ∈ acc.tags →
    ∃ a v, msg.m_message.argv[at']? = some a ∧ a.read = some v ∧ msg.as at' acc = .ok v
  no_misread : msg.as at' acc ≠ .error .misread

/-! ## What each access gives -/

theorem typeTag_of_out_of_range {msg : ReceivedMessage} {at' : Nat} (h : msg.numArgs ≤ at') :
    msg.typeTag at' = '*' := by
  unfold ReceivedMessage.typeTag
  rw [if_neg (Nat.not_lt.mpr h)]

theorem star_not_mem_tags (acc : As) : '*' ∉ acc.tags := by cases acc <;> decide

/-- The accessor for an argument. -/
def lo_arg.accessor : lo_arg → Option As
  | .T => some .asBool
  | .F => some .asBool
  | .c _ => some .asChar
  | .N => none
  | .I => none
  | .i _ => some .asInt32
  | .h _ => some .asInt64
  | .f _ => some .asFloat
  | .d _ => some .asDouble
  | .s _ => some .asString
  | .S _ => some .asSymbol
  | .m _ => some .asMidiMessage
  | .t _ => some .asTimeTag
  | .b _ => some .asBlob

theorem type_mem_tags_iff (a : lo_arg) (acc : As) :
    a.type ∈ acc.tags ↔ a.accessor = some acc := by
  cases a <;> cases acc <;> simp [lo_arg.type, As.tags, lo_arg.accessor]

open ReceivedMessage in
/-- The accessor for an argument gives its value. -/
theorem as_of_accessor {msg : ReceivedMessage} {at' : Nat} {a : lo_arg} {acc : As}
    (ha : msg.m_message.argv[at']? = some a) (h : a.accessor = some acc) :
    ∃ v, a.read = some v ∧ msg.as at' acc = .ok v := by
  cases a with
  | T => cases h; exact ⟨_, rfl, congrArg (Value.bool <$> ·) (asBool_of_arg (v := true) ha)⟩
  | F => cases h; exact ⟨_, rfl, congrArg (Value.bool <$> ·) (asBool_of_arg (v := false) ha)⟩
  | c v => cases h; exact ⟨_, rfl, congrArg (Value.char <$> ·) (asChar_of_arg ha)⟩
  | N => cases h
  | I => cases h
  | i v => cases h; exact ⟨_, rfl, congrArg (Value.int32 <$> ·) (asInt32_of_arg ha)⟩
  | h v => cases h; exact ⟨_, rfl, congrArg (Value.int64 <$> ·) (asInt64_of_arg ha)⟩
  | f bits => cases h; exact ⟨_, rfl, congrArg (Value.float <$> ·) (asFloat_of_arg ha)⟩
  | d bits => cases h; exact ⟨_, rfl, congrArg (Value.double <$> ·) (asDouble_of_arg ha)⟩
  | s v => cases h; exact ⟨_, rfl, congrArg (Value.string <$> ·) (asString_of_arg ha)⟩
  | S v => cases h; exact ⟨_, rfl, congrArg (Value.symbol <$> ·) (asSymbol_of_arg ha)⟩
  | m v => cases h; exact ⟨_, rfl, congrArg (Value.midiMessage <$> ·) (asMidiMessage_of_arg ha)⟩
  | t v => cases h; exact ⟨_, rfl, congrArg (Value.timeTag <$> ·) (asTimeTag_of_arg ha)⟩
  | b v => cases h; exact ⟨_, rfl, congrArg (Value.blob <$> ·) (asBlob_of_arg ha)⟩

/-- An accessor with a check throws where the check fails. -/
theorem asWith_of_not_is {α β : Type} {is : ReceivedMessage → Nat → Bool}
    (get : lo_arg → Option α) (make : α → β) (value : β → Value) {msg : ReceivedMessage}
    {at' : Nat} (h : is msg at' = false) :
    value <$> ReceivedMessage.asWith is get make msg at' = .error .TypeException := by
  unfold ReceivedMessage.asWith
  rw [h]
  rfl

open ReceivedMessage in
/-- Every accessor but `asBlob` throws on a tag that is not its own. -/
theorem as_of_tag_not_mem {msg : ReceivedMessage} {at' : Nat} {acc : As} (hacc : acc ≠ .asBlob)
    (h : msg.typeTag at' ∉ acc.tags) : msg.as at' acc = .error .TypeException := by
  cases acc with
  | asBool =>
    have his : msg.isBool at' = false := by simpa [isBool, As.tags] using h
    simp [ReceivedMessage.as, asBool, his]
    rfl
  | asBlob => exact absurd rfl hacc
  | asChar => exact asWith_of_not_is _ _ _ (by simpa [isChar, As.tags] using h)
  | asInt32 => exact asWith_of_not_is _ _ _ (by simpa [isInt32, As.tags] using h)
  | asInt64 => exact asWith_of_not_is _ _ _ (by simpa [isInt64, As.tags] using h)
  | asFloat => exact asWith_of_not_is _ _ _ (by simpa [isFloat, As.tags] using h)
  | asDouble => exact asWith_of_not_is _ _ _ (by simpa [isDouble, As.tags] using h)
  | asString => exact asWith_of_not_is _ _ _ (by simpa [isString, As.tags] using h)
  | asSymbol => exact asWith_of_not_is _ _ _ (by simpa [isSymbol, As.tags] using h)
  | asMidiMessage => exact asWith_of_not_is _ _ _ (by simpa [isMidiMessage, As.tags] using h)
  | asTimeTag => exact asWith_of_not_is _ _ _ (by simpa [isTimeTag, As.tags] using h)

/-- `asBlob` looks at the index only. -/
theorem asBlob_of_out_of_range {msg : ReceivedMessage} {at' : Nat} (h : msg.numArgs ≤ at') :
    msg.as at' .asBlob = .error .ArgException := by
  have hnone : msg.m_message.argv[at']? = none := List.getElem?_eq_none h
  simp only [ReceivedMessage.as, ReceivedMessage.asBlob, ReceivedMessage.arg, hnone]
  rfl

/-- It reads every argument as a blob. -/
theorem asBlob_of_other {msg : ReceivedMessage} {at' : Nat} {a : lo_arg}
    (ha : msg.m_message.argv[at']? = some a) (h : a.type ≠ 'b') :
    msg.as at' .asBlob = .error .misread := by
  simp only [ReceivedMessage.as, ReceivedMessage.asBlob, ReceivedMessage.arg_of_some ha]
  cases a with
  | b v => exact absurd rfl h
  | _ => rfl

/-! ## Every access -/

theorem accessRight_of_reads {msg : ReceivedMessage} {at' : Nat} {acc : As} {a : lo_arg}
    (ha : msg.m_message.argv[at']? = some a) (h : a.type ∈ acc.tags) :
    AccessRight msg at' acc := by
  have hlt : at' < msg.numArgs := (List.getElem?_eq_some_iff.mp ha).1
  obtain ⟨v, hv, has⟩ := as_of_accessor ha ((type_mem_tags_iff a acc).mp h)
  rw [← ReceivedMessage.typeTag_of_arg ha] at h
  refine ⟨?_, fun _ _ => ⟨a, v, ha, hv, has⟩, by simp [has]⟩
  simp [has, h, hlt]

theorem accessRight_of_throws {msg : ReceivedMessage} {at' : Nat} {acc : As}
    (h : msg.typeTag at' ∉ acc.tags) {e : AccessFailure} (he : e ≠ .misread)
    (has : msg.as at' acc = .error e) : AccessRight msg at' acc := by
  refine ⟨?_, fun _ hmem => absurd hmem h, by simp [has, he]⟩
  simp only [has, h, not_false_eq_true, or_true, iff_true, Except.error.injEq]
  cases e with
  | TypeException => exact .inl rfl
  | ArgException => exact .inr rfl
  | misread => exact absurd rfl he

/-- For every message, index and accessor, the access is right exactly when it is not `asBlob` on
an argument that is no blob. -/
theorem access_is_right_iff_a_blob_is_read_as_one (msg : ReceivedMessage) (at' : Nat) (acc : As) :
    AccessRight msg at' acc ↔
      (acc = .asBlob → msg.numArgs ≤ at' ∨ msg.typeTag at' = 'b') := by
  rcases Nat.lt_or_ge at' msg.numArgs with hlt | hge
  · have ha : msg.m_message.argv[at']? = some msg.m_message.argv[at'] :=
      List.getElem?_eq_getElem hlt
    have htag := ReceivedMessage.typeTag_of_arg ha
    generalize msg.m_message.argv[at'] = a at ha htag
    by_cases hmem : a.type ∈ acc.tags
    · refine iff_of_true (accessRight_of_reads ha hmem) ?_
      rintro rfl
      exact .inr (by simpa [As.tags, htag] using hmem)
    · by_cases hacc : acc = .asBlob
      · subst hacc
        have hb : a.type ≠ 'b' := by simpa [As.tags] using hmem
        refine iff_of_false (fun h => h.no_misread (asBlob_of_other ha hb)) ?_
        simp [htag, hb, hlt]
      · rw [← htag] at hmem
        refine iff_of_true ?_ (fun h => absurd h hacc)
        exact accessRight_of_throws hmem (by simp) (as_of_tag_not_mem hacc hmem)
  · have hmem : msg.typeTag at' ∉ acc.tags := by
      rw [typeTag_of_out_of_range hge]
      exact star_not_mem_tags acc
    refine iff_of_true ?_ (fun _ => .inl hge)
    by_cases hacc : acc = .asBlob
    · subst hacc
      exact accessRight_of_throws hmem (by simp) (asBlob_of_out_of_range hge)
    · exact accessRight_of_throws hmem (by simp) (as_of_tag_not_mem hacc hmem)

/-- `asBlob(0)` on a message with the integer 5. -/
theorem asBlob_reads_an_integer :
    ¬ AccessRight ⟨[47, 97], ⟨[.i 5], LO_TT_IMMEDIATE⟩⟩ 0 .asBlob ∧
      ReceivedMessage.as ⟨[47, 97], ⟨[.i 5], LO_TT_IMMEDIATE⟩⟩ 0 .asBlob = .error .misread := by
  refine ⟨?_, rfl⟩
  intro h
  exact h.no_misread rfl

end osc
