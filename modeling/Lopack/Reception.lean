-- A receiver at work. Between the calls of the program liblo calls `messageCB`, whenever it
-- has a message and from whatever thread. When it does so is left open.
import Lopack.DispatchOrder
import Lopack.ObjectRemoval
import Lopack.ReceiverLifecycle

open calls graphs

namespace osc

/-! ## Deliveries -/

/-- What liblo calls `messageCB` with. -/
structure Incoming where
  path : CString
  msg : lo_message
  source : lo_address
deriving DecidableEq

def Incoming.message (m : Incoming) : ReceivedMessage := ⟨m.path.bytes, m.msg⟩

def Incoming.messageSource (m : Incoming) : MessageSource := ⟨m.source⟩

/-- A call of `messageCB` that has returned: the holders whose callbacks it called, and its
result. -/
structure Delivery where
  incoming : Incoming
  invoked : List Holder
  handled : Bool
deriving DecidableEq

/-- A receiver with its lists and the deliveries so far, newest first. -/
structure Reception where
  station : Station
  attached : Attachments
  delivered : List Delivery

/-- A new receiver. -/
def Reception.new : Reception := ⟨Station.new, Attachments.empty, []⟩

/-- Why there is no state after an event. -/
inductive Trouble where
  | noServer
  /-- a dispatch goes on for longer than the fuel lasts -/
  | endless
deriving DecidableEq, Repr

/-- What happens to a receiver: the program calls a method or changes a list, or liblo calls
`messageCB`. A call that a callback makes comes after its message here: `processMessage` reads the
members of the receiver once, at its start. -/
inductive ReceptionOp where
  | call (op : ReceiverOp)
  | change (op : ListOp)
  | messageCB (m : Incoming)

/-- `OscReceiver::messageCB`. -/
def OscReceiver.messageCB (cb : Callbacks) (m : Incoming) (self : OscReceiver) (fuel : Nat)
    (a : Attachments) : Option (Bool × Dispatch) :=
  self.processMessage cb m.message m.messageSource fuel (.start a)

/-- One event. The callbacks of the program know what was delivered before. -/
def receptionStep [LibloServers] (cb : List Delivery → Callbacks) (fuel : Nat) (w : Reception) :
    ReceptionOp → Outcome ReceiveException Trouble Reception Unit
  | .call op => match receiverStep w.station op with
    | .returned _ station => .returned () { w with station }
    | .threw e station => .threw e { w with station }
    | .undefined _ => .undefined .noServer
  | .change op =>
    .returned () { w with attached := (listStep w.attached op).state?.getD w.attached }
  | .messageCB m =>
    match OscReceiver.messageCB (cb w.delivered) m w.station.receiver fuel w.attached with
    | none => .undefined .endless
    | some (handled, s) => .returned () { w with
        attached := s.attached
        delivered := ⟨m, s.invoked, handled⟩ :: w.delivered }

/-- One event of a run. -/
abbrev ReceptionCall := Call ReceiveException Trouble Reception ReceptionOp

/-! ## Each event -/

/-- Lists that have only lost entries. -/
theorem Attachments.Attached.sublists {a a' : Attachments} (ha : a.Attached)
    (h : ∀ self, (a'.m_objects self).Sublist (a.m_objects self)) : a'.Attached := by
  refine ⟨fun self hnull => ha.no_null self ((h self).subset hnull), ha.finite.subset ?_⟩
  intro self hself hnone
  apply hself
  have hsub := (h self).filterMap (Option.map Holder.object)
  unfold Attachments.next at hnone ⊢
  rw [hnone] at hsub
  exact List.sublist_nil.mp hsub

theorem receptionStep_call [LibloServers] {w : Reception} {op : ReceiverOp} {station : Station}
    (cb : List Delivery → Callbacks) (fuel : Nat)
    (h : (receiverStep w.station op).state? = some station) :
    (receptionStep cb fuel w (.call op)).state? = some { w with station } := by
  simp only [receptionStep]
  cases ho : receiverStep w.station op with
  | returned a station' => rw [ho] at h; cases h; rfl
  | threw e station' => rw [ho] at h; cases h; rfl
  | undefined u => rw [ho] at h; cases h

section Events

variable [LibloServers] {cb : List Delivery → Callbacks} {fuel : Nat}

/-- What an event leaves behind. -/
inductive Reception.Leaves (cb : List Delivery → Callbacks) (fuel : Nat) (w : Reception) :
    ReceptionOp → Reception → Prop
  | called (op : ReceiverOp) (station : Station) :
      (receiverStep w.station op).state? = some station →
      w.Leaves cb fuel (.call op) { w with station }
  | changed (op : ListOp) :
      w.Leaves cb fuel (.change op) { w with attached := op.apply w.attached }
  | delivered (m : Incoming) (handled : Bool) (s : Dispatch) :
      OscReceiver.messageCB (cb w.delivered) m w.station.receiver fuel w.attached =
        some (handled, s) →
      w.Leaves cb fuel (.messageCB m) { w with
        attached := s.attached
        delivered := ⟨m, s.invoked, handled⟩ :: w.delivered }

theorem receptionStep_leaves {w w' : Reception} {op : ReceptionOp}
    (h : (receptionStep cb fuel w op).state? = some w') : w.Leaves cb fuel op w' := by
  cases op with
  | call op =>
    cases hs : (receiverStep w.station op).state? with
    | some station =>
      rw [receptionStep_call cb fuel hs] at h
      cases h
      exact .called op station hs
    | none =>
      simp only [receptionStep] at h
      cases ho : receiverStep w.station op with
      | returned a station => rw [ho] at hs; cases hs
      | threw e station => rw [ho] at hs; cases hs
      | undefined u => rw [ho] at h; cases h
  | change op =>
    simp only [receptionStep, listStep_eq] at h
    cases h
    exact .changed op
  | messageCB m =>
    simp only [receptionStep] at h
    split at h
    · cases h
    · rename_i handled s hs
      cases h
      exact .delivered m handled s hs

/-- The flags are in step with the server, and the lists are those of attached objects. -/
structure Reception.Sound (w : Reception) : Prop where
  inStep : w.station.InStep
  attached : w.attached.Attached

theorem Reception.Sound.next {w w' : Reception} (hw : w.Sound) {op : ReceptionOp}
    (h : w.Leaves cb fuel op w') : w'.Sound := by
  cases h with
  | called op station hs =>
    exact ⟨hw.inStep.next (receiverStep_ends hw.inStep.sound op) hs, hw.attached⟩
  | changed op => exact ⟨hw.inStep, attached_apply hw.attached op⟩
  | delivered m handled s hs =>
    exact ⟨hw.inStep, hw.attached.sublists (processMessage_follows hs).lists⟩

end Events

theorem new_sound : Reception.new.Sound :=
  ⟨(inStep_iff_of_null rfl).mpr ⟨rfl, rfl⟩, run_attached []⟩

/-! ## Which messages are offered to the callbacks -/

/-- What an event makes of `ignoreMessages`. `stop()`, and `clear()` with it, resets it, but only
with a server. -/
def setsIgnoring (w : Reception) : ReceptionOp → Option Bool
  | .call (.ignoreMessages yesno) => some yesno
  | .call .stop => if w.station.receiver.m_serverThread.isSome then some false else none
  | .call .clear => if w.station.receiver.m_serverThread.isSome then some false else none
  | _ => none

/-- Messages are ignored after these events, the newest first. -/
def ignoring (trace : List ReceptionCall) : Bool :=
  (trace.findSome? (fun c => setsIgnoring c.before c.op)).getD false

/-- The messages that `messageCB` has returned for, newest first, each with whether messages were
ignored when it came. -/
def handedOver : List ReceptionCall → List (Incoming × Bool)
  | [] => []
  | c :: earlier => match c.op, c.outcome with
    | .messageCB m, .returned _ _ => (m, ignoring earlier) :: handedOver earlier
    | _, _ => handedOver earlier

/-- What is seen of a delivery: the message, and whether no callback was called. -/
def Delivery.seen (d : Delivery) : Incoming × Bool := (d.incoming, d.invoked.isEmpty)

theorem ignoring_cons (c : ReceptionCall) (trace : List ReceptionCall) :
    ignoring (c :: trace) = (setsIgnoring c.before c.op).getD (ignoring trace) := by
  unfold ignoring
  rw [List.findSome?_cons]
  cases setsIgnoring c.before c.op <;> rfl

theorem Station.Ends.ignoring {w : Reception} {station : Station} {op : ReceiverOp}
    {o : Outcome ReceiveException NoServer Station Unit} (ho : w.station.Ends op o)
    (hs : o.state? = some station) :
    station.receiver.m_ignoreMessages =
      (setsIgnoring w (.call op)).getD w.station.receiver.m_ignoreMessages := by
  cases ho with
  | logged _ line hop =>
    cases hs
    cases op with
    | setup port refusal => rfl
    | setupMulticast group port refusal => rfl
    | start => rfl
    | handleMessages timeoutMS reply => rfl
    | _ => cases hop
  | refused _ e hop =>
    cases hs
    rcases hop with ⟨port, refusal, rfl⟩ | ⟨group, port, refusal, rfl⟩ <;> rfl
  | stop t servers ht hre =>
    cases hs
    simp [setsIgnoring, ht]
  | stopIdle ht =>
    cases hs
    simp [setsIgnoring, ht]
  | clear t servers ht hre =>
    cases hs
    simp [setsIgnoring, ht, OscReceiver.new]
  | clearIdle ht =>
    cases hs
    simp [setsIgnoring, ht]
  | _ => cases hs; rfl

/-- A loop that has handled the message has called a callback. -/
theorem processObjects_invoked {cb : Callbacks} {message : ReceivedMessage}
    {source : MessageSource} {self : Holder} {fuel iter : Nat} {s s' : Dispatch}
    (h : processObjects cb message source self fuel iter s = some (true, s')) :
    s'.invoked ≠ [] := by
  have hloop : ∀ self iter s handled s',
      processObjects cb message source self fuel iter s = some (handled, s') →
      handled = true → s'.invoked ≠ [] :=
    (process_induction (L := fun _ _ _ _ handled s' => handled = true → s'.invoked ≠ [])
      (O := fun _ _ _ _ s' => s'.invoked ≠ [])
      (by simp) (by simp) (by simp_all) (by simp_all) (by simp_all)
      (by simp [Dispatch.invoke]) fuel).1
  exact hloop _ _ _ _ _ h rfl

/-- A message that is not ignored is offered to someone. -/
theorem messageCB_invoked {cb : Callbacks} {m : Incoming} {self : OscReceiver} {fuel : Nat}
    {a : Attachments} {handled : Bool} {s : Dispatch}
    (h : self.messageCB cb m fuel a = some (handled, s)) :
    s.invoked.isEmpty = self.m_ignoreMessages := by
  unfold OscReceiver.messageCB OscReceiver.processMessage at h
  split at h
  · rename_i hignore
    cases h
    exact hignore.symm
  · rename_i hignore
    rw [Bool.eq_false_iff.mpr hignore, List.isEmpty_eq_false_iff]
    split at h
    · cases h
    · rename_i s' hs'
      cases h
      exact processObjects_invoked hs'
    · cases h
      simp [Dispatch.invoke]

/-- The members and the deliveries agree with the events so far. -/
structure Heard (r : Run ReceiveException Trouble Reception ReceptionOp) : Prop where
  sound : r.state.Sound
  ignoring : r.state.station.receiver.m_ignoreMessages = ignoring r.trace
  delivered : r.state.delivered.map Delivery.seen = handedOver r.trace

theorem Heard.call [LibloServers] {cb : List Delivery → Callbacks} {fuel : Nat}
    {r : Run ReceiveException Trouble Reception ReceptionOp} (h : Heard r) (he : r.ended = false)
    (op : ReceptionOp) : Heard (r.call (receptionStep cb fuel) op) := by
  rw [Run.call_of_open _ he]
  cases op with
  | call op =>
    have hends := receiverStep_ends h.sound.inStep.sound op
    obtain ⟨station, hs⟩ := hends.state
    have hw' := receptionStep_call cb fuel hs
    simp only [hw', Option.getD_some]
    refine ⟨h.sound.next (receptionStep_leaves hw'), ?_, h.delivered⟩
    rw [ignoring_cons, ← h.ignoring]
    exact hends.ignoring hs
  | change op =>
    have hw' : (receptionStep cb fuel r.state (.change op)).state? = some _ := rfl
    simp only [hw', Option.getD_some]
    exact ⟨h.sound.next (receptionStep_leaves hw'), h.ignoring, h.delivered⟩
  | messageCB m =>
    cases hm : OscReceiver.messageCB (cb r.state.delivered) m r.state.station.receiver fuel
        r.state.attached with
    | none =>
      have hstep : receptionStep cb fuel r.state (.messageCB m) = .undefined .endless := by
        simp only [receptionStep, hm]
      rw [hstep]
      exact ⟨h.sound, h.ignoring, h.delivered⟩
    | some result =>
      obtain ⟨handled, s⟩ := result
      have hstep : receptionStep cb fuel r.state (.messageCB m) = .returned () { r.state with
          attached := s.attached
          delivered := ⟨m, s.invoked, handled⟩ :: r.state.delivered } := by
        simp only [receptionStep, hm]
      rw [hstep]
      refine ⟨h.sound.next (.delivered m handled s hm), h.ignoring, ?_⟩
      simp only [Outcome.state?_returned, Option.getD_some, List.map_cons, h.delivered, handedOver,
        ← h.ignoring, Delivery.seen, messageCB_invoked hm]

theorem run_heard [LibloServers] (cb : List Delivery → Callbacks) (fuel : Nat)
    (ops : List ReceptionOp) : Heard (run (receptionStep cb fuel) Reception.new ops) := by
  apply run_induction (receptionStep cb fuel) (P := Heard)
  · exact ⟨new_sound, rfl, rfl⟩
  · intro r op he h
    exact h.call he op

end osc
