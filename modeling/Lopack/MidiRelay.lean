-- A relay receives a message, rebuilds it argument by argument and sends it on. Every
-- value arrives as it was, but `asMidiMessage` reverses the four bytes of a MIDI
-- message, so each hop turns them around.
import Mathlib.Algebra.Group.Nat.Even
import Lopack.ArgumentRoundTrip

open calls rose linked store

namespace osc

/-! ## The relay -/

/-- Read argument `i` with the accessor of its type tag. -/
def ReceivedMessage.readArg (msg : ReceivedMessage) (i : Nat) : Access Add :=
  match msg.typeTag i with
  | 'T' => .bool <$> msg.asBool i
  | 'F' => .bool <$> msg.asBool i
  | 'c' => (fun v => .char v.toInt8) <$> msg.asChar i
  | 'N' => .ok .nil
  | 'I' => .ok .infinitum
  | 'i' => .int32 <$> msg.asInt32 i
  | 'h' => .int64 <$> msg.asInt64 i
  | 'f' => .float <$> msg.asFloat i
  | 'd' => .double <$> msg.asDouble i
  | 's' => .string <$> msg.asString i
  | 'S' => .symbol <$> msg.asSymbol i
  | 'm' => .midiMessage <$> msg.asMidiMessage i
  | 't' => .timeTag <$> msg.asTimeTag i
  | 'b' => .blob <$> msg.asBlob i
  | _ => .error .TypeException

def ReceivedMessage.readArgs (msg : ReceivedMessage) : Access (List Add) :=
  (List.range msg.numArgs).mapM msg.readArg

/-- One hop: what the next receiver gets when the sender `w` sends the message on. -/
def relay [LibloApi] (w : World) (msg : ReceivedMessage) : Option ReceivedMessage :=
  match msg.readArgs with
  | .error _ => none
  | .ok vars =>
    match perform step (sendMessage msg.address vars) w with
    | .returned _ w' => (packets w').getLast?.bind (fun x => (deliver x.2).head?)
    | _ => none

/-- One hop after the other, each with its own sender. -/
def relayAll [LibloApi] : List World → ReceivedMessage → Option ReceivedMessage
  | [], msg => some msg
  | w :: ws, msg => (relay w msg).bind (relayAll ws)

/-! ## What a hop does to an argument -/

def Bytes4.reverse (v : Bytes4) : Bytes4 := ⟨v.b3, v.b2, v.b1, v.b0⟩

/-- The argument with its bytes reversed if it is a MIDI message. -/
def flipMidi : lo_arg → lo_arg
  | .m v => .m v.reverse
  | a => a

@[simp] theorem flipMidi_flipMidi (a : lo_arg) : flipMidi (flipMidi a) = a := by
  cases a <;> rfl

@[simp] theorem flipMidi_type (a : lo_arg) : (flipMidi a).type = a.type := by
  cases a <;> rfl

theorem flipMidi_writable {a : lo_arg} (h : a.Writable) : (flipMidi a).Writable := by
  cases a with
  | m v => trivial
  | _ => exact h

/-- An argument is read as the value of itself, or of its reverse. -/
theorem readArg_of_arg {msg : ReceivedMessage} {i : Nat} {a : lo_arg}
    (h : msg.m_message.argv[i]? = some a) : msg.readArg i = .ok (flipMidi a).value := by
  unfold ReceivedMessage.readArg
  rw [msg.typeTag_of_arg h]
  cases a with
  | T => simp only [lo_arg.type, ReceivedMessage.asBool_of_arg (v := true) h]; rfl
  | F => simp only [lo_arg.type, ReceivedMessage.asBool_of_arg (v := false) h]; rfl
  | c v => simp only [lo_arg.type, ReceivedMessage.asChar_of_arg h]; rfl
  | N => rfl
  | I => rfl
  | i v => simp only [lo_arg.type, ReceivedMessage.asInt32_of_arg h]; rfl
  | h v => simp only [lo_arg.type, ReceivedMessage.asInt64_of_arg h]; rfl
  | f bits => simp only [lo_arg.type, ReceivedMessage.asFloat_of_arg h]; rfl
  | d bits => simp only [lo_arg.type, ReceivedMessage.asDouble_of_arg h]; rfl
  | s v => simp only [lo_arg.type, ReceivedMessage.asString_of_arg h]; rfl
  | S v => simp only [lo_arg.type, ReceivedMessage.asSymbol_of_arg h]; rfl
  | m v => simp only [lo_arg.type, ReceivedMessage.asMidiMessage_of_arg h]; rfl
  | t v => simp only [lo_arg.type, ReceivedMessage.asTimeTag_of_arg h]; rfl
  | b v => simp only [lo_arg.type, ReceivedMessage.asBlob_of_arg h]; rfl

theorem mapM_of_ok {α β : Type} {f : α → Access β} {g : α → β} {l : List α}
    (h : ∀ x ∈ l, f x = .ok (g x)) : l.mapM f = .ok (l.map g) := by
  induction l with
  | nil => rfl
  | cons x l ih =>
    rw [List.forall_mem_cons] at h
    rw [List.mapM_cons, h.1, ih h.2]
    rfl

theorem readArgs_eq (msg : ReceivedMessage) :
    msg.readArgs = .ok (msg.m_message.argv.map (fun a => (flipMidi a).value)) := by
  unfold ReceivedMessage.readArgs
  rw [mapM_of_ok (g := fun i => (msg.m_message.argv.map (fun a => (flipMidi a).value)).getD i .nil)]
  · congr 1
    refine List.ext_getElem (by simp [ReceivedMessage.numArgs]) ?_
    intro i h1 h2
    simp at h2
    simp [h2]
  · intro i hi
    have hlt : i < msg.m_message.argv.length := List.mem_range.mp hi
    rw [readArg_of_arg (List.getElem?_eq_getElem hlt)]
    simp [hlt]

/-! ## Hops -/

/-- One hop through an idle sender. -/
theorem relay_eq [LibloApi] {w : World} {address : lo_address} (h : w.sender = idleMembers address)
    (path : CString) {argv : List lo_arg} (hargv : ∀ a ∈ argv, a.Writable)
    (timestamp : lo_timetag) :
    relay w ⟨path.bytes, ⟨argv, timestamp⟩⟩ =
      some ⟨path.bytes, ⟨argv.map flipMidi, LO_TT_IMMEDIATE⟩⟩ := by
  have hargs : (argv.map (fun a => (flipMidi a).value)).map Add.arg =
      (argv.map flipMidi).map .ok := by
    rw [List.map_map, List.map_map]
    refine List.map_congr_left (fun a ha => ?_)
    exact lo_arg.value_arg (flipMidi_writable (hargv a ha))
  obtain ⟨w', hw', _, hp⟩ := sendMessage_sends h path.bytes hargs
  unfold relay
  rw [readArgs_eq]
  simp only [ReceivedMessage.address, hw', hp, cStr_bytes, List.getLast?_append]
  rfl

theorem relayAll_eq [LibloApi] {ws : List World}
    (h : ∀ w ∈ ws, ∃ address, w.sender = idleMembers address)
    (path : CString) {argv : List lo_arg} (hargv : ∀ a ∈ argv, a.Writable)
    (timestamp : lo_timetag) :
    ∃ timestamp', relayAll ws ⟨path.bytes, ⟨argv, timestamp⟩⟩ =
      some ⟨path.bytes, ⟨if Even ws.length then argv else argv.map flipMidi, timestamp'⟩⟩ := by
  induction ws generalizing argv timestamp with
  | nil => exact ⟨timestamp, rfl⟩
  | cons w ws ih =>
    rw [List.forall_mem_cons] at h
    obtain ⟨address, hw⟩ := h.1
    have hflipped : ∀ a ∈ argv.map flipMidi, a.Writable := by
      rw [List.forall_mem_map]
      exact fun a ha => flipMidi_writable (hargv a ha)
    obtain ⟨timestamp', hrest⟩ := ih h.2 hflipped LO_TT_IMMEDIATE
    refine ⟨timestamp', ?_⟩
    rw [relayAll, relay_eq hw path hargv, Option.bind_some, hrest, List.length_cons]
    by_cases hn : Even ws.length
    · rw [if_pos hn, if_neg (by simpa [Nat.even_add_one] using hn)]
    · rw [if_neg hn, if_pos (by simpa [Nat.even_add_one] using hn)]
      simp [Function.comp_def]

theorem map_flipMidi_eq_iff (argv : List lo_arg) :
    argv.map flipMidi = argv ↔ ∀ v, .m v ∈ argv → v.reverse = v := by
  induction argv with
  | nil => simp
  | cons a argv ih =>
    rw [List.map_cons, List.cons.injEq, ih]
    cases a with
    | m v => simp [flipMidi, or_imp, forall_and]
    | _ => simp [flipMidi]

/-- The relay law. A message of any arguments with no empty blob passes through any number of
relays with idle senders. The address and the type string stay the same, and so does every
argument, except that each hop reverses the four bytes of a MIDI message. So the message is
unchanged after an even number of hops, and after an odd number exactly when every MIDI message
reads the same in both orders. -/
theorem a_relay_reverses_midi_bytes_only [LibloApi] (ws : List World)
    (h : ∀ w ∈ ws, ∃ address, w.sender = idleMembers address) (path : CString)
    (argv : List lo_arg) (hargv : ∀ a ∈ argv, a.Writable) (timestamp : lo_timetag) :
    ∃ msg, relayAll ws ⟨path.bytes, ⟨argv, timestamp⟩⟩ = some msg ∧
      msg.address = path.bytes ∧ msg.types = argv.map lo_arg.type ∧
      msg.m_message.argv = (if Even ws.length then argv else argv.map flipMidi) ∧
      (msg.m_message.argv = argv ↔
        Even ws.length ∨ ∀ v, .m v ∈ argv → v.reverse = v) := by
  obtain ⟨timestamp', hrelay⟩ := relayAll_eq h path hargv timestamp
  refine ⟨_, hrelay, rfl, ?_, rfl, ?_⟩
  · by_cases hn : Even ws.length
    · simp [ReceivedMessage.types, hn]
    · simp [ReceivedMessage.types, hn, Function.comp_def]
  · by_cases hn : Even ws.length
    · simp [hn]
    · simp [hn, map_flipMidi_eq_iff]

/-- Two hops of a message with a MIDI message and an integer. -/
theorem two_hops_restore_a_midi_message :
    ∃ msg, relayAll [constructed (some ([104], 9990)), constructed (some ([104], 9991))]
        ⟨[47, 97], ⟨[.m ⟨1, 2, 3, 4⟩, .i 5], LO_TT_IMMEDIATE⟩⟩ = some msg ∧
      msg.m_message.argv = [.m ⟨1, 2, 3, 4⟩, .i 5] := by
  obtain ⟨msg, hrelay, _, _, hargv, _⟩ := a_relay_reverses_midi_bytes_only
    [constructed (some ([104], 9990)), constructed (some ([104], 9991))]
    (by
      intro w hw
      rcases List.mem_cons.mp hw with rfl | hw
      · exact ⟨_, rfl⟩
      · rcases List.mem_singleton.mp hw with rfl
        exact ⟨_, rfl⟩)
    ⟨[47, 97], by decide⟩ [.m ⟨1, 2, 3, 4⟩, .i 5] (by decide) LO_TT_IMMEDIATE
  exact ⟨msg, hrelay, by rw [hargv]; rfl⟩

/-- One hop turns the MIDI bytes 1 2 3 4 into 4 3 2 1. -/
theorem one_hop_reverses_a_midi_message :
    relay (constructed (some ([104], 9990)))
        ⟨[47, 97], ⟨[.m ⟨1, 2, 3, 4⟩], LO_TT_IMMEDIATE⟩⟩ =
      some ⟨[47, 97], ⟨[.m ⟨4, 3, 2, 1⟩], LO_TT_IMMEDIATE⟩⟩ ∧
      ([.m ⟨4, 3, 2, 1⟩] : List lo_arg) ≠ [.m ⟨1, 2, 3, 4⟩] :=
  ⟨by decide +kernel, by decide⟩

end osc
