-- The time tags of bundles on their way to the receiver. The sender and liblo carry them
-- to every message, but `TimeTag(lo_timetag)` assigns its own member to itself, so
-- `getTimeTag()` returns whatever its storage held before.
import Lopack.PacketStream
import Lopack.ReceivedMessage

open calls rose linked store

namespace osc

/-! ## The tag of the innermost bundle -/

mutual

/-- For each message, in order, the time tag given to its innermost bundle. A packet that is a
message takes the tag around it. -/
def innermostTags (around : lo_timetag) : Packet → List lo_timetag
  | .leaf _ => [around]
  | .node tag ps => innermostTagsAll tag ps

def innermostTagsAll (around : lo_timetag) : List Packet → List lo_timetag
  | [] => []
  | p :: ps => innermostTags around p ++ innermostTagsAll around ps

end

theorem deliverAll_eq (tag : lo_timetag) (ps : List Packet) :
    deliverAll tag ps = ps.flatMap (deliverIn tag) := by
  induction ps with
  | nil => rfl
  | cons p ps ih => rw [deliverAll, ih, List.flatMap_cons]

theorem innermostTagsAll_eq (tag : lo_timetag) (ps : List Packet) :
    innermostTagsAll tag ps = ps.flatMap (innermostTags tag) := by
  induction ps with
  | nil => rfl
  | cons p ps ih => rw [innermostTagsAll, ih, List.flatMap_cons]

/-- liblo hands each message over with the tag of its innermost bundle. -/
theorem deliverIn_timestamps (p : Packet) (around : lo_timetag) :
    (deliverIn around p).map (fun msg => msg.m_message.timestamp) = innermostTags around p := by
  induction p using RoseTree.ind generalizing around with
  | leaf m => rfl
  | node tag ps ih =>
    rw [deliverIn, innermostTags, deliverAll_eq, innermostTagsAll_eq, List.map_flatMap]
    exact List.flatMap_congr (fun p hp => ih p hp tag)

theorem innermostTags_eq_nil_iff (p : Packet) (around : lo_timetag) :
    innermostTags around p = [] ↔ p.leaves = [] := by
  induction p using RoseTree.ind generalizing around with
  | leaf m => simp [innermostTags]
  | node tag ps ih =>
    rw [innermostTags, innermostTagsAll_eq, RoseTree.leaves_node, List.flatMap_eq_nil_iff,
      List.flatMap_eq_nil_iff]
    exact forall₂_congr (fun p hp => ih p hp tag)

/-! ## What `getTimeTag()` returns -/

theorem length_deliver (p : Packet) :
    (deliver p).length = (innermostTags LO_TT_IMMEDIATE p).length := by
  rw [deliver, ← deliverIn_timestamps, List.length_map]

/-- The results are the storages. -/
theorem zipWith_getTimeTag {selves : List TimeTag} {msgs : List ReceivedMessage}
    (h : selves.length = msgs.length) :
    List.zipWith ReceivedMessage.getTimeTag selves msgs = selves := by
  induction selves generalizing msgs with
  | nil => rfl
  | cons self selves ih =>
    cases msgs with
    | nil => cases h
    | cons msg msgs => exact congrArg (self :: ·) (ih (Nat.succ.inj h))

/-- With a storage for each message, the results are right where each storage already held the tag
of its message. -/
theorem getTimeTag_each_right_iff (p : Packet) {selves : List TimeTag}
    (h : selves.length = (deliver p).length) :
    List.zipWith ReceivedMessage.getTimeTag selves (deliver p) =
        (innermostTags LO_TT_IMMEDIATE p).map TimeTag.mk ↔
      selves.map TimeTag.tag = innermostTags LO_TT_IMMEDIATE p := by
  rw [zipWith_getTimeTag h]
  constructor
  · rintro rfl
    simp [Function.comp_def]
  · intro htags
    rw [← htags]
    simp [Function.comp_def]

/-- With the same storage for all messages. -/
theorem getTimeTag_right_iff (p : Packet) (self : TimeTag) :
    (deliver p).map (ReceivedMessage.getTimeTag self) =
        (innermostTags LO_TT_IMMEDIATE p).map TimeTag.mk ↔
      ∀ tag ∈ innermostTags LO_TT_IMMEDIATE p, tag = self.tag := by
  have hone : (deliver p).map (ReceivedMessage.getTimeTag self) =
      List.zipWith ReceivedMessage.getTimeTag (List.replicate (deliver p).length self)
        (deliver p) := by
    rw [zipWith_getTimeTag (List.length_replicate ..)]
    exact List.map_const' ..
  rw [hone, getTimeTag_each_right_iff p (List.length_replicate ..), List.map_replicate, eq_comm,
    List.eq_replicate_iff, length_deliver]
  simp

theorem getTimeTag_always_right_iff (p : Packet) :
    (∀ self, (deliver p).map (ReceivedMessage.getTimeTag self) =
        (innermostTags LO_TT_IMMEDIATE p).map TimeTag.mk) ↔ p.leaves = [] := by
  rw [← innermostTags_eq_nil_iff p LO_TT_IMMEDIATE]
  constructor
  · intro h
    cases htags : innermostTags LO_TT_IMMEDIATE p with
    | nil => rfl
    | cons tag tags =>
      -- a storage with another tag in it
      have hall := (getTimeTag_right_iff p ⟨⟨tag.sec + 1, tag.frac⟩⟩).mp (h _)
      have hright := hall tag (by simp [htags])
      have hsec : tag.sec = tag.sec + 1 := congrArg lo_timetag.sec hright
      simp at hsec
  · intro h self
    rw [getTimeTag_right_iff, h]
    simp

/-! ## Every bundle tree -/

/-- A bundle tree of any depth, with no empty blob, is built with `beginBundle(TimeTag)`,
`<< BeginBundle(TimeTag)` or both, and sent. It reaches liblo with its tags, and every message is
delivered with the tag of its innermost bundle. But `getTimeTag()` gives these tags exactly when
the storage of each result already held the tag of its message. With one storage it gives them
exactly when that held the tag of every message, and for all storages exactly when there is no
message. -/
theorem time_tags_arrive_iff_there_is_no_message [LibloApi] (w : World) (address : lo_address)
    (h : w.sender = idleMembers address) (tag : lo_timetag) (ps : List Packet)
    (hps : Packet.Writable (.node tag ps)) (ops : List Op)
    (hops : ops.map Op.direct = (emit (.node tag ps) ++ [Op.send]).map Op.direct) :
    ∃ w', perform step ops w = .returned () w' ∧
      packets w' = packets w ++ [(address, .node tag ps)] ∧
      (∀ selves : List TimeTag, selves.length = (deliver (.node tag ps)).length →
        (List.zipWith ReceivedMessage.getTimeTag selves (deliver (.node tag ps)) =
            (innermostTags LO_TT_IMMEDIATE (.node tag ps)).map TimeTag.mk ↔
          selves.map TimeTag.tag = innermostTags LO_TT_IMMEDIATE (.node tag ps))) ∧
      (∀ self, (deliver (.node tag ps)).map (ReceivedMessage.getTimeTag self) =
          (innermostTags LO_TT_IMMEDIATE (.node tag ps)).map TimeTag.mk ↔
        ∀ inner ∈ innermostTags LO_TT_IMMEDIATE (.node tag ps), inner = self.tag) ∧
      ((∀ self, (deliver (.node tag ps)).map (ReceivedMessage.getTimeTag self) =
          (innermostTags LO_TT_IMMEDIATE (.node tag ps)).map TimeTag.mk) ↔
        (RoseTree.node tag ps : Packet).leaves = []) := by
  obtain ⟨w', hw', _, hp⟩ := transmit_one h hps
  refine ⟨w', ?_, hp, fun _ => getTimeTag_each_right_iff _, getTimeTag_right_iff _,
    getTimeTag_always_right_iff _⟩
  rw [← perform_map_congr step step_direct ops, hops, perform_map_congr step step_direct, hw']

/-- A bundle in a bundle, with one message. -/
theorem an_inner_time_tag_is_sent :
    ∃ w', perform step [.beginBundleAt ⟨⟨7, 5⟩⟩, .stream (.BeginBundle ⟨⟨8, 0⟩⟩),
        .beginMessage [47, 97], .endMessage, .endBundle, .stream .EndBundle, .send]
        (constructed (some ([104], 9990))) = .returned () w' ∧
      packets w' = [(OscSender.addressOf [104] 9990,
        .node ⟨7, 5⟩ [.node ⟨8, 0⟩ [.leaf ⟨⟨[47, 97], by decide⟩, []⟩]])] := by
  obtain ⟨w', hw', hp, _⟩ := time_tags_arrive_iff_there_is_no_message
    (constructed (some ([104], 9990))) (OscSender.addressOf [104] 9990) rfl ⟨7, 5⟩
    [.node ⟨8, 0⟩ [.leaf ⟨⟨[47, 97], by decide⟩, []⟩]] (by decide +kernel)
    [.beginBundleAt ⟨⟨7, 5⟩⟩, .stream (.BeginBundle ⟨⟨8, 0⟩⟩), .beginMessage [47, 97], .endMessage,
      .endBundle, .stream .EndBundle, .send] rfl
  exact ⟨w', hw', hp⟩

/-- A message in a bundle with the time tag 7, 5. With zeros in the storage, `getTimeTag()` of
the message returns zeros. -/
theorem a_time_tag_is_not_received :
    (∃ w', perform step [.beginBundleAt ⟨⟨7, 5⟩⟩, .beginMessage [47, 97], .endMessage, .endBundle,
        .send] (constructed (some ([104], 9990))) = .returned () w' ∧
      packets w' = [(OscSender.addressOf [104] 9990,
        .node ⟨7, 5⟩ [.leaf ⟨⟨[47, 97], by decide⟩, []⟩])]) ∧
      (deliver (.node ⟨7, 5⟩ [.leaf ⟨⟨[47, 97], by decide⟩, []⟩])).map
        (ReceivedMessage.getTimeTag ⟨⟨0, 0⟩⟩) = [⟨⟨0, 0⟩⟩] ∧
      (⟨⟨0, 0⟩⟩ : TimeTag) ≠ ⟨⟨7, 5⟩⟩ :=
  ⟨⟨_, rfl, rfl⟩, rfl, by decide⟩

end osc
