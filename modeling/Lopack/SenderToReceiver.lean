-- From one program to the other. What a program writes into its sender and sends is what
-- the callbacks of a receiver are asked about, whatever order liblo hands it over in.
import Lopack.PacketStream
import Lopack.Reception

open calls graphs rose

namespace osc

/-! ## What liblo does in between -/

/-- What a message is about: its address and its arguments. -/
def Incoming.written (m : Incoming) : CString × List lo_arg := (m.path, m.msg.argv)

/-- The messages in packets, in the order in which they were written. -/
def writtenIn (ps : List Packet) : List (CString × List lo_arg) :=
  (ps.flatMap RoseTree.leaves).map (fun m => (m.path, m.args))

/-- liblo loses no message of the packets, doubles none and changes none. It may hand them over in
any order. -/
def Carried (ps : List Packet) (ms : List Incoming) : Prop :=
  (ms.map Incoming.written).Perm (writtenIn ps)

/-! ## A receiver that does not ignore messages -/

/-- Messages are not ignored, and no cycle of objects can be reached. -/
structure Reception.Heeds (v : Reception) : Prop where
  heeds : v.station.receiver.m_ignoreMessages = false
  attached : v.attached.Attached
  acyclic : AcyclicFrom v.attached.next .receiver

/-- Each of these deliveries, oldest first, asked the callbacks in the post-order of the objects, up
to the first that accepts. The callbacks know what was delivered before. -/
inductive Answered (cb : List Delivery → Callbacks) (a : Attachments) :
    List Delivery → List Delivery → Prop
  | nil (earlier : List Delivery) : Answered cb a earlier []
  | cons {earlier : List Delivery} {d : Delivery} {ds : List Delivery}
      (first : FirstAccepted ((cb earlier).accepts d.incoming.message d.incoming.messageSource)
        (postOrder a.next .receiver) d.invoked d.handled)
      (rest : Answered cb a (d :: earlier) ds) : Answered cb a earlier (d :: ds)

section Answers

variable [LibloServers] {cb : List Delivery → Callbacks}

/-- One call of `messageCB` returns, and only the deliveries have changed. -/
theorem messageCB_answers {v : Reception} (h : v.Heeds) (m : Incoming) :
    ∃ d n, (∀ fuel, n ≤ fuel → receptionStep cb fuel v (.messageCB m) =
        .returned () { v with delivered := d :: v.delivered }) ∧ d.incoming = m ∧
      FirstAccepted ((cb v.delivered).accepts m.message m.messageSource)
        (postOrder v.attached.next .receiver) d.invoked d.handled := by
  obtain ⟨handled, s, ⟨n, hn⟩, hfirst, hs⟩ := processMessage_first h.attached h.acyclic h.heeds
  refine ⟨⟨m, s.invoked, handled⟩, n, fun fuel hfuel => ?_, rfl, hfirst⟩
  simp only [receptionStep, OscReceiver.messageCB, hn fuel hfuel, hs]

/-- The messages `ms`, one after the other. -/
theorem messages_answered {v : Reception} (h : v.Heeds) (ms : List Incoming) :
    ∃ new n, (∀ fuel, n ≤ fuel → perform (receptionStep cb fuel) (ms.map .messageCB) v =
        .returned () { v with delivered := new.reverse ++ v.delivered }) ∧
      new.map Delivery.incoming = ms ∧ Answered cb v.attached v.delivered new := by
  induction ms generalizing v with
  | nil => exact ⟨[], 0, fun _ _ => rfl, rfl, .nil _⟩
  | cons m ms ih =>
    obtain ⟨d, n1, hn1, hd, hfirst⟩ := messageCB_answers h m
    obtain ⟨new, n2, hn2, hnew, hanswered⟩ :=
      ih (v := { v with delivered := d :: v.delivered }) ⟨h.heeds, h.attached, h.acyclic⟩
    refine ⟨d :: new, max n1 n2, fun fuel hfuel => ?_, by rw [List.map_cons, hd, hnew],
      .cons (hd ▸ hfirst) hanswered⟩
    rw [List.map_cons, perform_cons _ _ (hn1 fuel (le_of_max_le_left hfuel)),
      hn2 fuel (le_of_max_le_right hfuel)]
    simp

end Answers

/-! ## From the sender to the callbacks -/

/-- A program writes any list of packets with no empty blob into an idle sender and sends them. A
receiver has done anything so far, but messages are not ignored now and no cycle of objects can be
reached from it. liblo hands the messages over in any order. Then every call returns, with enough
fuel, and the callbacks are asked about exactly the messages that were written, with their
addresses and arguments: each in the post-order of the objects, up to the first callback that
accepts it. -/
theorem what_is_sent_is_answered [LibloApi] [LibloServers] (w : World) (address : lo_address)
    (hw : w.sender = idleMembers address) (ps : List Packet) (hps : ∀ p ∈ ps, Packet.Writable p)
    (cb : List Delivery → Callbacks) (bound : Nat) (ops : List ReceptionOp)
    (hheeds : ignoring (run (receptionStep cb bound) Reception.new ops).trace = false)
    (hacyclic : AcyclicFrom
      (run (receptionStep cb bound) Reception.new ops).state.attached.next .receiver)
    (ms : List Incoming) (hms : Carried ps ms) :
    let v := (run (receptionStep cb bound) Reception.new ops).state
    (∃ w', perform step (transmit ps) w = .returned () w' ∧
      packets w' = packets w ++ ps.map (fun p => (address, p))) ∧
    ∃ new n, (∀ fuel, n ≤ fuel → perform (receptionStep cb fuel) (ms.map .messageCB) v =
        .returned () { v with delivered := new.reverse ++ v.delivered }) ∧
      (new.map (fun d => d.incoming.written)).Perm (writtenIn ps) ∧
      Answered cb v.attached v.delivered new := by
  intro v
  obtain ⟨w', hw', _, hpackets⟩ := transmit_all hw hps
  refine ⟨⟨w', hw', hpackets⟩, ?_⟩
  have hheard := run_heard cb bound ops
  have hv : v.Heeds := ⟨hheard.ignoring.trans hheeds, hheard.sound.attached, hacyclic⟩
  obtain ⟨new, n, hn, hnew, hanswered⟩ := messages_answered hv ms
  refine ⟨new, n, hn, ?_, hanswered⟩
  have hwritten : new.map (fun d => d.incoming.written) = ms.map Incoming.written := by
    rw [← hnew, List.map_map]
    rfl
  rw [hwritten]
  exact hms

/-- A receiver that ignored messages until `stop()`, with object 2 attached to it and to
object 1. -/
def heedsAgain : List ReceptionOp :=
  [.call (.setup 9990 none), .call (.ignoreMessages true), .call .stop] ++
    sharedObject.map .change

/-- A bundle with two messages. -/
def twoMessages : Packet :=
  .node ⟨0, 1⟩ [.leaf ⟨cStr [47, 97], []⟩, .leaf ⟨cStr [47, 98], [.i 7]⟩]

/-- liblo hands the two messages over with the second one first. -/
def secondFirst : List Incoming :=
  [⟨cStr [47, 98], ⟨[.i 7], ⟨0, 1⟩⟩, ⟨cStr [], cStr []⟩⟩,
    ⟨cStr [47, 97], ⟨[], ⟨0, 1⟩⟩, ⟨cStr [], cStr []⟩⟩]

theorem two_messages_are_answered :
    let v := (run (receptionStep (fun _ => secondAccepts) 9) Reception.new heedsAgain).state
    Carried [twoMessages] secondFirst ∧
    ∃ new n, (∀ fuel, n ≤ fuel → perform (receptionStep (fun _ => secondAccepts) fuel)
        (secondFirst.map .messageCB) v =
          .returned () { v with delivered := new.reverse ++ v.delivered }) ∧
      (new.map (fun d => d.incoming.written)).Perm (writtenIn [twoMessages]) ∧
      Answered (fun _ => secondAccepts) v.attached v.delivered new := by
  have hcarried : Carried [twoMessages] secondFirst := List.Perm.swap _ _ []
  have hattached : (run (receptionStep (fun _ => secondAccepts) 9) Reception.new
      heedsAgain).state.attached = (run listStep Attachments.empty sharedObject).state := rfl
  exact ⟨hcarried, (what_is_sent_is_answered (constructed (some ([104], 9990)))
    (OscSender.addressOf [104] 9990) rfl [twoMessages] (by decide +kernel)
    (fun _ => secondAccepts) 9 heedsAgain rfl (hattached ▸ sharedObject_acyclic) secondFirst
    hcarried).2⟩

end osc
