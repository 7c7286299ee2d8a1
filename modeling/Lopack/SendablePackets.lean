-- Which packets a program can send at all. Whatever is called, in whatever order, liblo gets
-- packets with no empty blob, to addresses of a setup, and every list of these can be sent.
import Lopack.DraftCalls
import Lopack.PacketStream

open calls rose linked store

namespace osc

/-- An address that `setup` can make. -/
def lo_address.Made [LibloApi] (a : lo_address) : Prop :=
  ∃ host port, a = OscSender.addressOf host port

/-- A packet that can be sent, with its address. -/
def Sendable [LibloApi] (q : lo_address × Packet) : Prop := q.1.Made ∧ q.2.Writable

/-! ## What a draft can hold -/

theorem Add.arg_writable [LibloApi] {var : Add} {x : lo_arg}
    (h : var.arg = .ok x) : x.Writable := by
  cases var with
  | blob b =>
    simp only [Add.arg] at h
    cases hb : lo_blob_new b.size.toInt32 b.data with
    | none =>
      rw [hb] at h
      cases h
    | some blob =>
      rw [hb] at h
      cases h
      -- liblo makes no empty blob
      obtain ⟨hpos, hdata⟩ := lo_blob_new_eq_some_iff.mp hb
      rw [← hdata] at hpos
      exact List.length_pos_iff.mp hpos
  | bool b => cases b <;> (cases h; trivial)
  | cString s =>
    cases s with
    | none => cases h
    | some s => cases h; trivial
  | symbol s =>
    obtain ⟨_ | s⟩ := s
    · cases h
    · cases h; trivial
  | _ => cases h; trivial

/-- All that the draft holds and has sent can be sent. -/
structure Draft.Clean [LibloApi] (d : Draft) : Prop where
  address : ∀ a, d.address = some a → a.Made
  slot : ∀ x, d.slot = some x → ∀ a ∈ x.2, a.Writable
  path : ∀ l ∈ pathLeaves d.path, ∀ a ∈ l.content, a.Writable
  sent : ∀ x ∈ d.sent, Sendable (x.1, HeldPacket.packet x.2)

theorem packet_leaves (t : HeldPacket) :
    (HeldPacket.packet t).leaves = t.leaves.map (fun l => ⟨l.edge, l.content⟩) := by
  induction t using RoseTree.ind with
  | leaf l => rfl
  | node n ts ih =>
    rw [packet_node, RoseTree.leaves_node, RoseTree.leaves_node, List.map_flatMap,
      List.flatMap_map]
    exact List.flatMap_congr ih

/-- A packet can be written when its messages can. -/
theorem packet_writable {t : HeldPacket} (h : ∀ l ∈ t.leaves, ∀ a ∈ l.content, a.Writable) :
    (HeldPacket.packet t).Writable := by
  intro m hm
  rw [packet_leaves] at hm
  obtain ⟨l, hl, rfl⟩ := List.mem_map.mp hm
  exact h l hl

theorem Draft.Clean.outgoing [LibloApi] {d : Draft} (h : d.Clean) {t : HeldPacket}
    (ht : d.outgoing = some t) : (HeldPacket.packet t).Writable := by
  apply packet_writable
  unfold Draft.outgoing at ht
  cases hw : whole d.path with
  | none =>
    rw [hw] at ht
    obtain ⟨x, hx, rfl⟩ := Option.map_eq_some_iff.mp ht
    intro l hl
    rw [RoseTree.leaves_leaf, List.mem_singleton] at hl
    subst hl
    exact h.slot x hx
  | some t' =>
    rw [hw] at ht
    cases ht
    rw [whole_leaves hw]
    exact h.path

theorem Draft.Clean.clear [LibloApi] {d : Draft} (h : d.Clean) : d.clear.Clean :=
  ⟨h.address, fun x hx => (by cases hx), fun l hl => (by cases hl), h.sent⟩

theorem Draft.Clean.openBundle [LibloApi] {d : Draft} (h : d.Clean) (tag : lo_timetag) :
    (d.openBundle tag).Clean := by
  refine ⟨h.address, h.slot, ?_, h.sent⟩
  simpa [Draft.openBundle] using h.path

theorem Draft.Clean.place [LibloApi] {d : Draft} (h : d.Clean) {f : BundleFrame}
    {fs : List BundleFrame} (hp : d.path = f :: fs) : (d.place f fs).Clean := by
  refine ⟨h.address, fun x hx => (by cases hx), ?_, h.sent⟩
  intro l hl
  rw [Draft.place_leaves, ← hp, List.mem_append] at hl
  rcases hl with hl | hl
  · exact h.path l hl
  · obtain ⟨x, hx, rfl⟩ : ∃ x, d.slot = some x ∧ (⟨cStr d.pattern, x.1, x.2⟩ : LeafAt _ _) = l := by
      simpa using hl
    exact h.slot x hx

theorem Draft.Clean.next [LibloApi] {d : Draft} (h : d.Clean) (op : Op) :
    ((d.step op).state?.getD d).Clean := by
  have hends := d.step_ends op
  generalize d.step op = o at hends ⊢
  generalize op.direct = op at hends ⊢
  cases hends with
  | setup address port =>
    refine ⟨?_, h.slot, h.path, h.sent⟩
    rintro a ⟨⟩
    exact ⟨address, port, rfl⟩
  | @send address t ha hb hm ht =>
    refine ⟨h.clear.address, h.clear.slot, h.clear.path, ?_⟩
    intro x hx
    rcases List.mem_append.mp hx with hx | hx
    · exact h.sent x hx
    · rw [List.mem_singleton.mp hx]
      exact ⟨h.address address ha, h.outgoing ht⟩
  | clear => exact h.clear
  | beginMessage pattern hm =>
    refine ⟨h.address, ?_, h.path, h.sent⟩
    rintro x ⟨⟩
    simp
  | @add var x m args hm ha hs =>
    refine ⟨h.address, ?_, h.path, h.sent⟩
    rintro y ⟨⟩ a hin
    rcases List.mem_append.mp hin with hin | hin
    · exact h.slot _ hs a hin
    · rw [List.mem_singleton.mp hin]
      exact Add.arg_writable ha
  | endInBundle hm hb hp => exact h.place hp
  | endAlone hm hb => exact ⟨h.address, h.slot, h.path, h.sent⟩
  | beginBundle hb => exact h.openBundle _
  | beginBundleAt tag hm => exact h.openBundle _
  | endInner hb hp =>
    refine ⟨h.address, h.slot, ?_, h.sent⟩
    simp only [Outcome.state?_returned, Option.getD_some, pathLeaves_close, ← hp]
    exact h.path
  | endRoot hb hp => exact ⟨h.address, h.slot, h.path, h.sent⟩
  | _ => exact h

theorem Draft.constructed_clean [LibloApi] (address : Option (Str × UInt32)) :
    (Draft.constructed address).Clean := by
  refine ⟨?_, fun x hx => (by cases hx), fun l hl => (by cases hl), fun x hx => (by cases hx)⟩
  intro a ha
  rcases address with _ | ⟨host, port⟩
  · cases ha
  · cases ha
    exact ⟨host, port, rfl⟩

/-- Nothing else is ever sent. -/
theorem packets_sendable [LibloApi] (address : Option (Str × UInt32)) (ops : List Op) :
    ∀ q ∈ packets (run step (constructed address) ops).state, Sendable q := by
  obtain ⟨d, hd, hclean⟩ := run_history step step_refines (constructed.refines address)
    (H := fun _ d => d.Clean) (C := fun _ => True) (Draft.constructed_clean address)
    (fun c d trace _ _ _ h => h.next c.op) ops (fun _ _ => trivial)
  intro q hq
  unfold packets at hq
  rw [hd.sent] at hq
  obtain ⟨x, hx, rfl⟩ := List.mem_map.mp hq
  exact hclean.sent x hx

/-! ## A program for every list -/

/-- A sender with nothing begun, with or without an address. -/
def Unused (w : World) : Prop := ∃ a, w.sender = { OscSender.new with m_address := a }

/-- Set the address, write the packet and send it: whatever the address was. -/
theorem post_one [LibloApi] {w : World} (h : Unused w) {q : lo_address × Packet} (hq : Sendable q) :
    ∃ ops w', perform step ops w = .returned () w' ∧ Unused w' ∧
      packets w' = packets w ++ [q] := by
  obtain ⟨a, ha⟩ := h
  obtain ⟨address, p⟩ := q
  obtain ⟨⟨host, port, rfl⟩, hp⟩ := hq
  have hsetup : step w (.setup host port) = .returned ()
      { w with sender := idleMembers (OscSender.addressOf host port) } := by
    simp [step, Op.method, OscSender.setup, ha, idleMembers]
  obtain ⟨w', hw', hidle, hpackets⟩ := transmit_one (w := { w with
    sender := idleMembers (OscSender.addressOf host port) }) rfl hp
  refine ⟨.setup host port :: (emit p ++ [.send]), w', ?_, ⟨_, hidle⟩, hpackets⟩
  rw [perform_cons step _ hsetup, hw']

theorem post_all [LibloApi] (address : Option (Str × UInt32)) {qs : List (lo_address × Packet)}
    (hqs : ∀ q ∈ qs, Sendable q) :
    ∃ ops, (run step (constructed address) ops).ended = false ∧
      Unused (run step (constructed address) ops).state ∧
      packets (run step (constructed address) ops).state = qs := by
  induction qs using List.reverseRecOn with
  | nil =>
    refine ⟨[], rfl, ?_, ?_⟩
    · rcases address with _ | ⟨host, port⟩
      · exact ⟨none, rfl⟩
      · exact ⟨some (OscSender.addressOf host port), rfl⟩
    · rcases address with _ | ⟨host, port⟩
      · rfl
      · rfl
  | append_singleton qs q ih =>
    rw [List.forall_mem_append] at hqs
    obtain ⟨ops, hopen, hunused, hpackets⟩ := ih hqs.1
    obtain ⟨more, w', hmore, hunused', hpackets'⟩ := post_one hunused (hqs.2 q (by simp))
    obtain ⟨hstate, hended⟩ := run_append_of_perform step hopen rfl hmore
    refine ⟨ops ++ more, hended, ?_, ?_⟩
    · rw [hstate]
      exact hunused'
    · rw [hstate, hpackets', hpackets]

/-- The lists of packets that programs can send are exactly those without an empty blob and to
addresses that `setup` makes. No other packet leaves a sender, whatever is called on it and
whatever is thrown, and each list is sent by some program, from any new sender. -/
theorem the_packets_that_can_be_sent [LibloApi] (address : Option (Str × UInt32))
    (qs : List (lo_address × Packet)) :
    (∃ ops, packets (run step (constructed address) ops).state = qs) ↔ ∀ q ∈ qs, Sendable q := by
  constructor
  · rintro ⟨ops, rfl⟩
    exact packets_sendable address ops
  · intro hqs
    obtain ⟨ops, _, _, hpackets⟩ := post_all address hqs
    exact ⟨ops, hpackets⟩

end osc
