-- A dispatch while the callbacks change the lists. `processOsc` and `processMessage`
-- hold an iterator into a `std::vector` across each call, and a callback may attach
-- and remove objects. Some changes leave such an iterator invalid.
import Lopack.ObjectRemoval
import Lopack.DispatchOrder

open calls graphs

namespace osc

/-! ## Changes and iterators -/

/-- A change that a callback makes to a list. `moved` is what the vector does when an object is
added: it may need new memory for its elements. -/
structure Edit where
  op : ListOp
  moved : Bool
deriving DecidableEq

/-- The list that a change hits, with the first position where iterators are no longer valid:
`push_back` spoils all of them when the elements move, `erase` those from its place on and `clear`
all. -/
def Edit.invalidates (a : Attachments) (e : Edit) : Option (Holder × Nat) :=
  match e.op with
  | .addOscObject self (some _) => if e.moved then some (self, 0) else none
  | .addOscObject _ none => none
  | .removeOscObject self (some object) =>
    ((a.m_objects self).idxOf? (some object)).map (fun iter => (self, iter))
  | .removeOscObject _ none => none
  | .removeAllOscObjects self => some (self, 0)

/-- The holder whose list a call is about. -/
def ListOp.holder : ListOp → Holder
  | .addOscObject self _ => self
  | .removeOscObject self _ => self
  | .removeAllOscObjects self => self

theorem Edit.invalidates_holder {a : Attachments} {e : Edit} {self : Holder} {position : Nat}
    (h : e.invalidates a = some (self, position)) : self = e.op.holder := by
  unfold invalidates at h
  split at h
  · rename_i holder object hop
    split at h
    · cases h
      rw [hop]
      rfl
    · cases h
  · cases h
  · rename_i holder object hop
    obtain ⟨iter, _, hiter⟩ := Option.map_eq_some_iff.mp h
    cases hiter
    rw [hop]
    rfl
  · cases h
  · rename_i holder hop
    cases h
    rw [hop]
    rfl

/-- The iterator of a loop that is running. -/
structure Iterator where
  holder : Holder
  position : Nat
  valid : Bool
deriving DecidableEq

/-- The iterators of a list from a position on become invalid. -/
def Iterator.hit (self : Holder) (position : Nat) (it : Iterator) : Iterator :=
  if it.holder = self ∧ position ≤ it.position then { it with valid := false } else it

/-- One call of a callback: its answer and its changes, and the iterators before and after it. -/
structure Invocation where
  holder : Holder
  accepted : Bool
  edits : List Edit
  before : List Iterator
  after : List Iterator
deriving DecidableEq

/-- A message on its way, with the iterators of the loops that are running, innermost first, and
the calls of callbacks so far, oldest first. -/
structure Live where
  dispatch : Dispatch
  running : List Iterator
  log : List Invocation

/-- Nothing is called yet. -/
def Live.start (a : Attachments) : Live := ⟨.start a, [], []⟩

def Live.attached (s : Live) : Attachments := s.dispatch.attached

/-- A callback changes a list. -/
def Live.edit (s : Live) (e : Edit) : Live :=
  { s with
    dispatch := { s.dispatch with attached := e.op.apply s.attached }
    running := match e.invalidates s.attached with
      | none => s.running
      | some (self, position) => s.running.map (Iterator.hit self position) }

/-- The callback of a holder is called: it makes its changes and answers. -/
def Live.call (s : Live) (self : Holder) (answer : Bool × List Edit) : Live :=
  let s' := answer.2.foldl Live.edit { s with dispatch := s.dispatch.invoke self }
  { s' with log := s'.log ++ [⟨self, answer.1, answer.2, s.running, s'.running⟩] }

/-- The loop of a holder calls `processOsc` of the object at its iterator. -/
def Live.enter (s : Live) (self : Holder) (iter object : Nat) : Live :=
  { s with dispatch := s.dispatch.pass self object, running := ⟨self, iter, true⟩ :: s.running }

/-- The call has returned to the loop. -/
def Live.leave (s : Live) : Live := { s with running := s.running.tail }

/-- The iterator of the innermost loop can be used. -/
def Live.usable (s : Live) : Bool := (s.running.head?.map Iterator.valid).getD false

/-- The loop takes a NULL out and goes on with the iterator that `erase` gives. -/
def Live.eraseNull (s : Live) (self : Holder) (iter : Nat) : Live :=
  let erased := s.attached.set self ((s.attached.m_objects self).eraseIdx iter)
  { s with
    dispatch := { s.dispatch with
      attached := erased.warn (self.className ++ ": removed NULL object") }
    running := s.running.map (Iterator.hit self iter) }

/-! ## The dispatch -/

/-- Callbacks that change lists: what they return, and their changes in order. -/
structure EditingCallbacks where
  /-- `processOscMessage` of an object -/
  processOscMessage : Nat → ReceivedMessage → MessageSource → List Holder → Bool × List Edit
  /-- `process` of the receiver -/
  process : ReceivedMessage → MessageSource → List Holder → Bool × List Edit

/-- What the callback of a holder answers after those of `earlier`. -/
def EditingCallbacks.answer (cb : EditingCallbacks) (message : ReceivedMessage)
    (source : MessageSource) (earlier : List Holder) : Holder → Bool × List Edit
  | .receiver => cb.process message source earlier
  | .object self => cb.processOscMessage self message source earlier

/-- How a dispatch ends: it returns, or a loop uses an iterator that is not valid. -/
inductive LiveEnd where
  | returned (handled : Bool) (s : Live)
  | undefined (s : Live)

def LiveEnd.state : LiveEnd → Live
  | .returned _ s => s
  | .undefined s => s

section Processing

variable (cb : EditingCallbacks) (message : ReceivedMessage) (source : MessageSource)

mutual

/-- The loop over `m_objects` of both classes. After a call that returned true the iterator is not
used again. After one that returned false it is incremented. -/
def liveObjects (self : Holder) : Nat → Nat → Live → Option LiveEnd
  | 0, _, _ => none
  | fuel + 1, iter, s =>
    match (s.attached.m_objects self)[iter]? with
    | none => some (.returned false s)
    | some none => liveObjects self fuel iter (s.eraseNull self iter)
    | some (some object) =>
      match liveProcessOsc object fuel (s.enter self iter object) with
      | none => none
      | some (.undefined s') => some (.undefined s')
      | some (.returned true s') => some (.returned true s'.leave)
      | some (.returned false s') =>
        if s'.usable then liveObjects self fuel (iter + 1) s'.leave
        else some (.undefined s')

/-- `OscObject::processOsc`. -/
def liveProcessOsc (self : Nat) : Nat → Live → Option LiveEnd
  | 0, _ => none
  | fuel + 1, s =>
    match liveObjects (.object self) fuel 0 s with
    | some (.returned false s') =>
      let answer := cb.processOscMessage self message source s'.dispatch.invoked
      some (.returned answer.1 (s'.call (.object self) answer))
    | ended => ended

end

/-- `OscReceiver::processMessage`. -/
def liveProcessMessage (self : OscReceiver) (fuel : Nat) (s : Live) : Option LiveEnd :=
  if self.m_ignoreMessages then some (.returned false s)
  else match liveObjects cb message source .receiver fuel 0 s with
    | some (.returned false s') =>
      let answer := cb.process message source s'.dispatch.invoked
      some (.returned answer.1 (s'.call .receiver answer))
    | ended => ended

variable {cb message source}

/-- Induction over the calls of a dispatch that has ended. `L` is about the loop of a holder and
`O` about an object, each with what it was called with and how it ended. -/
theorem live_induction {L : Holder → Nat → Live → LiveEnd → Prop} {O : Nat → Live → LiveEnd → Prop}
    (atEnd : ∀ self iter s, (s.attached.m_objects self)[iter]? = none →
      L self iter s (.returned false s))
    (erased : ∀ self iter s ended, (s.attached.m_objects self)[iter]? = some none →
      L self iter (s.eraseNull self iter) ended → L self iter s ended)
    (taken : ∀ self iter s object s',
      (s.attached.m_objects self)[iter]? = some (some object) →
      O object (s.enter self iter object) (.returned true s') →
      L self iter s (.returned true s'.leave))
    (passed : ∀ self iter s object s' ended,
      (s.attached.m_objects self)[iter]? = some (some object) →
      O object (s.enter self iter object) (.returned false s') → s'.usable = true →
      L self (iter + 1) s'.leave ended → L self iter s ended)
    (unusable : ∀ self iter s object s',
      (s.attached.m_objects self)[iter]? = some (some object) →
      O object (s.enter self iter object) (.returned false s') → s'.usable = false →
      L self iter s (.undefined s'))
    (inner : ∀ self iter s object s',
      (s.attached.m_objects self)[iter]? = some (some object) →
      O object (s.enter self iter object) (.undefined s') → L self iter s (.undefined s'))
    (below : ∀ object s s', L (.object object) 0 s (.returned true s') →
      O object s (.returned true s'))
    (loop : ∀ object s s', L (.object object) 0 s (.undefined s') → O object s (.undefined s'))
    (own : ∀ object s s', L (.object object) 0 s (.returned false s') →
      O object s (.returned (cb.processOscMessage object message source s'.dispatch.invoked).1
        (s'.call (.object object)
          (cb.processOscMessage object message source s'.dispatch.invoked))))
    (fuel : Nat) :
    (∀ self iter s ended, liveObjects cb message source self fuel iter s = some ended →
      L self iter s ended) ∧
    (∀ object s ended, liveProcessOsc cb message source object fuel s = some ended →
      O object s ended) := by
  induction fuel with
  | zero =>
    refine ⟨fun self iter s ended h => ?_, fun object s ended h => ?_⟩
    · simp [liveObjects] at h
    · simp [liveProcessOsc] at h
  | succ fuel ih =>
    obtain ⟨ihLoop, ihObject⟩ := ih
    refine ⟨fun self iter s ended h => ?_, fun object s ended h => ?_⟩
    · unfold liveObjects at h
      split at h
      · rename_i hend
        cases h
        exact atEnd _ _ _ hend
      · rename_i hnull
        exact erased _ _ _ _ hnull (ihLoop _ _ _ _ h)
      · rename_i object hobject
        split at h
        · cases h
        · rename_i s' ho
          cases h
          exact inner _ _ _ _ _ hobject (ihObject _ _ _ ho)
        · rename_i s' ho
          cases h
          exact taken _ _ _ _ _ hobject (ihObject _ _ _ ho)
        · rename_i s' ho
          split at h
          · rename_i husable
            exact passed _ _ _ _ _ _ hobject (ihObject _ _ _ ho) husable (ihLoop _ _ _ _ h)
          · rename_i husable
            cases h
            exact unusable _ _ _ _ _ hobject (ihObject _ _ _ ho) (Bool.eq_false_iff.mpr husable)
    · unfold liveProcessOsc at h
      split at h
      · rename_i s' hloop
        cases h
        exact own _ _ _ (ihLoop _ _ _ _ hloop)
      · rename_i hother
        have hloop := ihLoop _ _ _ _ h
        cases ended with
        | undefined s' => exact loop _ _ _ hloop
        | returned handled s' =>
          cases handled with
          | true => exact below _ _ _ hloop
          | false => exact absurd h (hother s')

end Processing

end osc
