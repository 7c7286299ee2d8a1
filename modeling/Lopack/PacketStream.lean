-- A program writes packets through the stream operators and sends each one.
-- Every list of packets, of any depth and width, reaches liblo as it was
-- written, and each send leaves the sender as new.
import Mathlib.Data.List.Forall2
import Lopack.SenderRefinement

open calls rose linked store

namespace osc

/-! ## The program for a packet -/

/-- The C++ value that is written for an argument. -/
def lo_arg.value : lo_arg → Add
  | .T => .bool true
  | .F => .bool false
  | .c v => .char v.toInt8
  | .N => .nil
  | .I => .infinitum
  | .i v => .int32 v
  | .h v => .int64 v
  | .f bits => .float bits
  | .d bits => .double bits
  | .s v => .string v.bytes
  | .S v => .symbol ⟨some v⟩
  | .m v => .midiMessage ⟨v⟩
  | .t v => .timeTag ⟨v⟩
  | .b v => .blob (Blob.ofBlob v)

/-- An argument that can be written: no blob is empty. -/
def lo_arg.Writable : lo_arg → Prop
  | .b v => v.data ≠ []
  | _ => True

instance : DecidablePred lo_arg.Writable
  | .b v => inferInstanceAs (Decidable (v.data ≠ []))
  | .T | .F | .c _ | .N | .I | .i _ | .h _ | .f _ | .d _ | .s _ | .S _ | .m _ | .t _ =>
    isTrue trivial

/-- All arguments of all messages can be written. -/
def Packet.Writable (p : Packet) : Prop := ∀ m ∈ p.leaves, ∀ a ∈ m.args, a.Writable

instance (p : Packet) : Decidable p.Writable :=
  inferInstanceAs (Decidable (∀ m ∈ p.leaves, ∀ a ∈ m.args, a.Writable))

theorem Packet.Writable.child {tag : lo_timetag} {ps : List Packet}
    (h : Packet.Writable (.node tag ps)) {p : Packet} (hp : p ∈ ps) : p.Writable := by
  intro m hm
  refine h m ?_
  rw [RoseTree.leaves_node, List.mem_flatMap]
  exact ⟨p, hp, hm⟩

theorem lo_arg.value_arg [LibloApi] {a : lo_arg} (h : a.Writable) : a.value.arg = .ok a := by
  cases a with
  | b v => simp [lo_arg.value, Add.arg, lo_blob_new_ofBlob h]
  | s v => simp [lo_arg.value, Add.arg]
  | c v => simp [lo_arg.value, Add.arg]
  | _ => rfl

mutual

/-- `<< BeginMessage(path) << args << EndMessage()` for a message, and
`<< BeginBundle(tag) << elements << EndBundle()` for a bundle. -/
def emit : Packet → List Op
  | .leaf m => .stream (.BeginMessage m.path.bytes) ::
      m.args.map (fun a => .stream (.value a.value)) ++ [.stream .EndMessage]
  | .node tag ps => .stream (.BeginBundle ⟨tag⟩) :: emitAll ps ++ [.stream .EndBundle]

def emitAll : List Packet → List Op
  | [] => []
  | p :: ps => emit p ++ emitAll ps

end

/-- Write each packet and send it. -/
def transmit (ps : List Packet) : List Op := ps.flatMap (fun p => emit p ++ [.send])

/-! ## The draft takes a packet -/

/-- A `<<` of a value adds its argument. -/
theorem draft_step_value [LibloApi] (d : Draft) {a : lo_arg} (h : a.Writable) :
    d.step (.stream (.value a.value)) = d.add (.ok a) := by
  have harg := lo_arg.value_arg h
  cases a <;> simp only [lo_arg.value] at harg ⊢ <;> simp only [Draft.step, Op.direct,
    Item.direct, harg]

/-- Calls that each add one argument to the message in progress. -/
theorem draft_adds [LibloApi] (address : Option lo_address) (m : Nat) (before : List lo_arg)
    {ops : List Op} {args : List lo_arg}
    (h : List.Forall₂ (fun op a => ∀ d : Draft, d.step op = d.add (.ok a)) ops args)
    (path : List BundleFrame) (pattern : Str) (bundleOpen : Bool) (nm nb : Nat)
    (sent : List (lo_address × HeldPacket)) :
    perform Draft.step ops
        ⟨address, some (m, before), path, pattern, true, bundleOpen, nm, nb, sent⟩ =
      .returned () ⟨address, some (m, before ++ args), path, pattern, true, bundleOpen, nm, nb,
        sent⟩ := by
  induction h generalizing before with
  | nil => simp
  | @cons op a ops args hop _ ih =>
    have hadd : Draft.step ⟨address, some (m, before), path, pattern, true, bundleOpen, nm, nb,
        sent⟩ op = .returned () ⟨address, some (m, before ++ [a]), path, pattern, true, bundleOpen,
        nm, nb, sent⟩ := by
      rw [hop]
      rfl
    rw [perform_cons _ _ hadd, ih]
    simp

theorem values_add [LibloApi] {args : List lo_arg} (h : ∀ a ∈ args, a.Writable) :
    List.Forall₂ (fun op a => ∀ d : Draft, d.step op = d.add (.ok a))
      (args.map (fun a => .stream (.value a.value))) args := by
  rw [List.forall₂_map_left_iff, List.forall₂_same]
  intro a ha d
  exact draft_step_value d (h a ha)

/-- A message written anywhere: afterwards it is in the slot, and its end decides where it
goes. -/
theorem draft_message [LibloApi] (address : Option lo_address) (slot : Option (Nat × List lo_arg))
    (path : List BundleFrame) (old : Str) (bundleOpen : Bool) (nm nb : Nat)
    (sent : List (lo_address × HeldPacket)) {m : Message} (hm : ∀ a ∈ m.args, a.Writable) :
    perform Draft.step (emit (.leaf m))
        ⟨address, slot, path, old, false, bundleOpen, nm, nb, sent⟩ =
      perform Draft.step [.stream .EndMessage]
        ⟨address, some (nm, m.args), path, m.path.bytes, true, bundleOpen, nm + 1, nb, sent⟩ := by
  have hbegin : Draft.step ⟨address, slot, path, old, false, bundleOpen, nm, nb, sent⟩
      (.stream (.BeginMessage m.path.bytes)) = .returned ()
        ⟨address, some (nm, []), path, m.path.bytes, true, bundleOpen, nm + 1, nb, sent⟩ := rfl
  unfold emit
  rw [List.cons_append, perform_cons _ _ hbegin,
    perform_append _ _ (draft_adds _ _ _ (values_add hm) _ _ _ _ _ _), List.nil_append]

/-- A packet written into an open bundle is one more child of that bundle. -/
def TakesChild [LibloApi] (p : Packet) : Prop :=
  ∀ (address : Option lo_address) (f : BundleFrame) (fs : List BundleFrame) (nm nb : Nat)
    (sent : List (lo_address × HeldPacket)),
    ∃ t nm' nb',
      perform Draft.step (emit p) ⟨address, none, f :: fs, [], false, true, nm, nb, sent⟩ =
        .returned () ⟨address, none, f.add t :: fs, [], false, true, nm', nb', sent⟩ ∧
      HeldPacket.packet t = p

theorem takes_children [LibloApi] {ps : List Packet} (h : ∀ p ∈ ps, TakesChild p)
    (address : Option lo_address) (f : BundleFrame) (fs : List BundleFrame) (nm nb : Nat)
    (sent : List (lo_address × HeldPacket)) :
    ∃ ts nm' nb',
      perform Draft.step (emitAll ps) ⟨address, none, f :: fs, [], false, true, nm, nb, sent⟩ =
        .returned () ⟨address, none, ⟨f.label, f.closed ++ ts⟩ :: fs, [], false, true, nm', nb',
          sent⟩ ∧
      ts.map HeldPacket.packet = ps := by
  induction ps generalizing f nm nb with
  | nil => exact ⟨[], nm, nb, by simp [emitAll], rfl⟩
  | cons p ps ih =>
    obtain ⟨t, nm1, nb1, hrun, hp⟩ := h p (by simp) address f fs nm nb sent
    obtain ⟨ts, nm2, nb2, hrun2, hps⟩ := ih (fun q hq => h q (by simp [hq])) (f.add t) nm1 nb1
    refine ⟨t :: ts, nm2, nb2, ?_, by simp [hp, hps]⟩
    rw [emitAll, perform_append _ _ hrun, hrun2]
    simp [Frame.add]

/-- A bundle written anywhere: its elements are in its frame when `EndBundle` comes. -/
theorem draft_bundle [LibloApi] {ps : List Packet} (h : ∀ p ∈ ps, TakesChild p) (tag : lo_timetag)
    (address : Option lo_address) (path : List BundleFrame) (bundleOpen : Bool) (nm nb : Nat)
    (sent : List (lo_address × HeldPacket)) :
    ∃ ts nm' nb',
      perform Draft.step (emit (.node tag ps))
          ⟨address, none, path, [], false, bundleOpen, nm, nb, sent⟩ =
        perform Draft.step [.stream .EndBundle]
          ⟨address, none, ⟨⟨nb, tag⟩, ts⟩ :: path, [], false, true, nm', nb', sent⟩ ∧
      ts.map HeldPacket.packet = ps := by
  obtain ⟨ts, nm', nb', hrun, hps⟩ :=
    takes_children h address ⟨⟨nb, tag⟩, []⟩ path nm (nb + 1) sent
  have hbegin : Draft.step ⟨address, none, path, [], false, bundleOpen, nm, nb, sent⟩
      (.stream (.BeginBundle ⟨tag⟩)) = .returned ()
        ⟨address, none, ⟨⟨nb, tag⟩, []⟩ :: path, [], false, true, nm, nb + 1, sent⟩ := rfl
  refine ⟨ts, nm', nb', ?_, hps⟩
  rw [emit, List.cons_append, perform_cons _ _ hbegin, perform_append _ _ hrun]
  rfl

theorem packet_node (n : NodeAt lo_timetag) (ts : List HeldPacket) :
    HeldPacket.packet (.node n ts) = .node n.label (ts.map HeldPacket.packet) := by
  unfold HeldPacket.packet
  rw [RoseTree.map_node]

/-- Every packet, whatever its depth, is taken by an open bundle. -/
theorem takesChild [LibloApi] {p : Packet} (h : p.Writable) : TakesChild p := by
  induction p using RoseTree.ind with
  | leaf m =>
    intro address f fs nm nb sent
    refine ⟨.leaf ⟨m.path, nm, m.args⟩, nm + 1, nb, ?_, rfl⟩
    rw [draft_message _ _ _ _ _ _ _ _ (h m (by simp))]
    simp [perform, Draft.step, Op.direct, Item.direct, Draft.endMessage, Draft.place,
      Draft.slotLeaf]
  | node tag ps ih =>
    intro address f fs nm nb sent
    obtain ⟨ts, nm', nb', hrun, hps⟩ :=
      draft_bundle (fun q hq => ih q hq (h.child hq)) tag address (f :: fs) true nm nb sent
    refine ⟨.node ⟨nb, tag⟩ ts, nm', nb', ?_, by rw [packet_node, hps]⟩
    rw [hrun]
    rfl

/-- A packet written to an idle draft and sent: it is handed over, and the draft is idle
again. -/
theorem draft_transmit [LibloApi] {p : Packet} (h : p.Writable) (address : lo_address) (nm nb : Nat)
    (sent : List (lo_address × HeldPacket)) :
    ∃ t nm' nb',
      perform Draft.step (emit p ++ [.send])
          ⟨some address, none, [], [], false, false, nm, nb, sent⟩ =
        .returned () ⟨some address, none, [], [], false, false, nm', nb',
          sent ++ [(address, t)]⟩ ∧
      HeldPacket.packet t = p := by
  cases p with
  | leaf m =>
    refine ⟨.leaf ⟨m.path, nm, m.args⟩, nm + 1, nb, ?_, rfl⟩
    have hend : perform Draft.step (emit (.leaf m))
        ⟨some address, none, [], [], false, false, nm, nb, sent⟩ = .returned ()
          ⟨some address, some (nm, m.args), [], m.path.bytes, false, false, nm + 1, nb, sent⟩ := by
      rw [draft_message _ _ _ _ _ _ _ _ (h m (by simp))]
      rfl
    rw [perform_append _ _ hend]
    simp [perform, Draft.step, Op.direct, Draft.send, Draft.outgoing, whole, Draft.slotLeaf,
      Draft.clear]
  | node tag ps =>
    obtain ⟨ts, nm', nb', hrun, hps⟩ :=
      draft_bundle (fun q hq => takesChild (h.child hq)) tag (some address) [] false nm nb sent
    refine ⟨.node ⟨nb, tag⟩ ts, nm', nb', ?_, by rw [packet_node, hps]⟩
    have hend : perform Draft.step (emit (.node tag ps))
        ⟨some address, none, [], [], false, false, nm, nb, sent⟩ = .returned ()
          ⟨some address, none, [⟨⟨nb, tag⟩, ts⟩], [], false, false, nm', nb', sent⟩ := by
      rw [hrun]
      rfl
    rw [perform_append _ _ hend]
    rfl

/-! ## The sender takes a packet -/

/-- The members of a sender that was set up and has nothing begun: those of a new sender
with this address. -/
def idleMembers (address : lo_address) : OscSender :=
  { OscSender.new with m_address := some address }

/-- The packets that were handed to liblo, oldest first. -/
def packets (w : World) : List (lo_address × Packet) :=
  w.lo.sent.map (fun x => (x.1, HeldPacket.packet x.2))

theorem idle_refines {w : World} {address : lo_address} (h : w.sender = idleMembers address) :
    Refines w ⟨some address, none, [], [], false, false, w.lo.cells.leaves.next,
      w.lo.cells.nodes.next, w.lo.sent⟩ :=
  ⟨h, rfl, rfl, rfl, (fun x hx => by cases hx), trivial, distinct_nil rfl⟩

theorem transmit_one [LibloApi] {w : World} {address : lo_address}
    (h : w.sender = idleMembers address) {p : Packet} (hp : p.Writable) :
    ∃ w', perform step (emit p ++ [.send]) w = .returned () w' ∧
      w'.sender = idleMembers address ∧ packets w' = packets w ++ [(address, p)] := by
  obtain ⟨t, nm', nb', hrun, ht⟩ := draft_transmit hp address w.lo.cells.leaves.next
    w.lo.cells.nodes.next w.lo.sent
  obtain ⟨w', hw', hr⟩ := perform_simulates step step_refines (idle_refines h) hrun
  refine ⟨w', hw', hr.members, ?_⟩
  unfold packets
  rw [hr.sent]
  simp [ht]

theorem transmit_all [LibloApi] {w : World} {address : lo_address}
    (h : w.sender = idleMembers address) {ps : List Packet} (hps : ∀ p ∈ ps, Packet.Writable p) :
    ∃ w', perform step (transmit ps) w = .returned () w' ∧ w'.sender = idleMembers address ∧
      packets w' = packets w ++ ps.map (fun p => (address, p)) := by
  induction ps generalizing w with
  | nil => exact ⟨w, rfl, h, by simp⟩
  | cons p ps ih =>
    rw [List.forall_mem_cons] at hps
    obtain ⟨w1, hw1, h1, hp1⟩ := transmit_one h hps.1
    obtain ⟨w2, hw2, h2, hp2⟩ := ih h1 hps.2
    refine ⟨w2, ?_, h2, by simp [hp2, hp1]⟩
    unfold transmit at hw2 ⊢
    rw [List.flatMap_cons, perform_append _ _ hw1, hw2]

/-- Every list of packets with no empty blob arrives as it was written. From a sender that was set
up and is idle, the program that writes and sends the packets raises nothing. After each `send`,
that is after the packets `done` of `done ++ rest`, liblo has got exactly these packets in this
order, and the members are those of a new sender with the same address. -/
theorem every_packet_list_is_sent_as_written [LibloApi] (w : World) (address : lo_address)
    (h : w.sender = idleMembers address) (done rest : List Packet)
    (hps : ∀ p ∈ done ++ rest, Packet.Writable p) :
    ∃ w1 w2, perform step (transmit done) w = .returned () w1 ∧
      w1.sender = idleMembers address ∧
      packets w1 = packets w ++ done.map (fun p => (address, p)) ∧
      perform step (transmit rest) w1 = .returned () w2 ∧
      perform step (transmit (done ++ rest)) w = .returned () w2 ∧
      w2.sender = idleMembers address ∧
      packets w2 = packets w ++ (done ++ rest).map (fun p => (address, p)) := by
  rw [List.forall_mem_append] at hps
  obtain ⟨w1, hw1, h1, hp1⟩ := transmit_all h hps.1
  obtain ⟨w2, hw2, h2, hp2⟩ := transmit_all h1 hps.2
  refine ⟨w1, w2, hw1, h1, hp1, hw2, ?_, h2, by simp [hp2, hp1]⟩
  unfold transmit at hw1 hw2 ⊢
  rw [List.flatMap_append, perform_append _ _ hw1, hw2]

/-- `/a` with two arguments, next to a bundle with the message `/b` in it. -/
def nestedBundle : Packet :=
  .node LO_TT_IMMEDIATE
    [.leaf ⟨⟨[47, 97], by decide⟩, [.F, .i 100]⟩,
      .node ⟨7, 5⟩ [.leaf ⟨⟨[47, 98], by decide⟩, [.s ⟨[102, 111, 111], by decide⟩]⟩]]

theorem a_bundle_in_a_bundle_is_sent_as_written :
    ∃ w1 w2, perform step (transmit [nestedBundle]) (constructed (some ([104], 9990))) =
        .returned () w1 ∧
      w1.sender = idleMembers (OscSender.addressOf [104] 9990) ∧
      packets w1 = [(OscSender.addressOf [104] 9990, nestedBundle)] ∧
      perform step (transmit [nestedBundle]) w1 = .returned () w2 := by
  obtain ⟨w1, w2, h1, hs, hp, h2, _⟩ := every_packet_list_is_sent_as_written
    (constructed (some ([104], 9990))) (OscSender.addressOf [104] 9990) rfl
    [nestedBundle] [nestedBundle] (by decide +kernel)
  exact ⟨w1, w2, h1, hs, hp, h2⟩

end osc
