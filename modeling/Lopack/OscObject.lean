-- The object lists of OscObject.cpp and OscReceiver.cpp: how objects are attached
-- and removed, and how a message is passed on to them.
import Lopack.Runs
import Lopack.ReceivedMessage

open calls

namespace osc

/-! ## Log lines -/

inductive Level where
  | LOG_LEVEL_WARN
  | LOG_LEVEL_ERROR
deriving DecidableEq, Repr

/-- A line that a `Log` prints. -/
structure LogLine where
  m_level : Level
  m_line : String
deriving DecidableEq, Repr

def LOG_WARN (line : String) : LogLine := ⟨.LOG_LEVEL_WARN, line⟩

def LOG_ERROR (line : String) : LogLine := ⟨.LOG_LEVEL_ERROR, line⟩

/-! ## The lists of objects -/

/-- What has a list `m_objects`: the receiver, or an object, named by its address. -/
inductive Holder where
  | receiver
  | object (self : Nat)
deriving DecidableEq, Repr

/-- The class as the log lines write it. -/
def Holder.className : Holder → String
  | .receiver => "OscReceiver"
  | .object _ => "OscObject"

/-- The list `m_objects` of the receiver and of every object. NULL is `none`. The lines logged so
far are kept, newest first. -/
structure Attachments where
  m_objects : Holder → List (Option Nat)
  log : List LogLine

/-- Nothing is attached. -/
def Attachments.empty : Attachments := ⟨fun _ => [], []⟩

/-- Another list for one holder. -/
def Attachments.set (a : Attachments) (self : Holder) (objects : List (Option Nat)) :
    Attachments :=
  { a with m_objects := fun h => if h = self then objects else a.m_objects h }

def Attachments.warn (a : Attachments) (line : String) : Attachments :=
  { a with log := LOG_WARN line :: a.log }

@[simp] theorem Attachments.set_self (a : Attachments) (self : Holder)
    (objects : List (Option Nat)) : (a.set self objects).m_objects self = objects := by
  simp [Attachments.set]

theorem Attachments.set_of_ne (a : Attachments) {self h : Holder} (objects : List (Option Nat))
    (hne : h ≠ self) : (a.set self objects).m_objects h = a.m_objects h := by
  simp [Attachments.set, hne]

@[simp] theorem Attachments.warn_m_objects (a : Attachments) (line : String) :
    (a.warn line).m_objects = a.m_objects := rfl

/-- A method on the lists. It neither throws nor goes wrong. -/
abbrev ListMethod := Code Empty Empty Attachments Unit

/-- The body of `addOscObject` of both classes. -/
def addTo (self : Holder) : Option Nat → ListMethod
  | none => update (fun a => a.warn (self.className ++ ": cannot add NULL object"))
  | some object => update (fun a => a.set self (a.m_objects self ++ [some object]))

/-- `find` and `erase` on a vector. -/
def findErase (objects : List (Option Nat)) (object : Nat) : List (Option Nat) :=
  match objects.idxOf? (some object) with
  | some iter => objects.eraseIdx iter
  | none => objects

/-- The body of `removeOscObject` of both classes. -/
def removeFrom (self : Holder) : Option Nat → ListMethod
  | none => update (fun a => a.warn (self.className ++ ": cannot remove NULL object"))
  | some object => update (fun a => a.set self (findErase (a.m_objects self) object))

/-- The body of `removeAllOscObjects` of both classes. -/
def removeAllFrom (self : Holder) : ListMethod := update (fun a => a.set self [])

namespace OscReceiver

def addOscObject (object : Option Nat) : ListMethod := addTo .receiver object

def removeOscObject (object : Option Nat) : ListMethod := removeFrom .receiver object

def removeAllOscObjects : ListMethod := removeAllFrom .receiver

end OscReceiver

namespace OscObject

def addOscObject (self : Nat) (object : Option Nat) : ListMethod := addTo (.object self) object

def removeOscObject (self : Nat) (object : Option Nat) : ListMethod :=
  removeFrom (.object self) object

def removeAllOscObjects (self : Nat) : ListMethod := removeAllFrom (.object self)

end OscObject

/-- One call on the list of a holder. -/
inductive ListOp where
  | addOscObject (self : Holder) (object : Option Nat)
  | removeOscObject (self : Holder) (object : Option Nat)
  | removeAllOscObjects (self : Holder)
deriving DecidableEq

def ListOp.method : ListOp → ListMethod
  | .addOscObject .receiver object => OscReceiver.addOscObject object
  | .addOscObject (.object self) object => OscObject.addOscObject self object
  | .removeOscObject .receiver object => OscReceiver.removeOscObject object
  | .removeOscObject (.object self) object => OscObject.removeOscObject self object
  | .removeAllOscObjects .receiver => OscReceiver.removeAllOscObjects
  | .removeAllOscObjects (.object self) => OscObject.removeAllOscObjects self

def listStep (a : Attachments) (op : ListOp) : Outcome Empty Empty Attachments Unit := op.method a

/-- A run of calls on the lists. -/
abbrev ListRun := Run Empty Empty Attachments ListOp

/-- `find` and `erase` take the first occurrence out. -/
theorem findErase_eq (objects : List (Option Nat)) (object : Nat) :
    findErase objects object = objects.erase (some object) := by
  unfold findErase
  rw [List.erase_eq_eraseIdx]
  cases objects.idxOf? (some object) <;> rfl

/-- The lists after a call. -/
def ListOp.apply (a : Attachments) : ListOp → Attachments
  | .addOscObject self none => a.warn (self.className ++ ": cannot add NULL object")
  | .addOscObject self (some object) => a.set self (a.m_objects self ++ [some object])
  | .removeOscObject self none => a.warn (self.className ++ ": cannot remove NULL object")
  | .removeOscObject self (some object) => a.set self ((a.m_objects self).erase (some object))
  | .removeAllOscObjects self => a.set self []

/-- Every call on the lists returns. -/
theorem listStep_eq (a : Attachments) (op : ListOp) :
    listStep a op = .returned () (op.apply a) := by
  cases op with
  | addOscObject self object => cases self <;> cases object <;> rfl
  | removeOscObject self object =>
    cases object with
    | none => cases self <;> rfl
    | some object =>
      rw [ListOp.apply, ← findErase_eq]
      cases self <;> rfl
  | removeAllOscObjects self => cases self <;> rfl

/-! ## Passing a message on -/

/-- The address that a message came from. -/
structure MessageSource where
  m_address : lo_address
deriving DecidableEq

/-- What the callbacks of the program return. A callback may keep a state of its own, so its result
may depend on the callbacks that were called before it. -/
structure Callbacks where
  /-- `processOscMessage` of an object -/
  processOscMessage : Nat → ReceivedMessage → MessageSource → List Holder → Bool
  /-- `process` of the receiver -/
  process : ReceivedMessage → MessageSource → List Holder → Bool

/-- A message on its way: the lists, the holders whose callbacks were called, oldest first, and
the calls of `processOsc` so far, each with the holder of the list that it came from. -/
structure Dispatch where
  attached : Attachments
  invoked : List Holder
  passed : List (Holder × Nat)

/-- Nothing is called yet. -/
def Dispatch.start (a : Attachments) : Dispatch := ⟨a, [], []⟩

/-- The loop of a holder calls `processOsc` of an object. -/
def Dispatch.pass (s : Dispatch) (self : Holder) (object : Nat) : Dispatch :=
  { s with passed := s.passed ++ [(self, object)] }

@[simp] theorem Dispatch.pass_invoked (s : Dispatch) (self : Holder) (object : Nat) :
    (s.pass self object).invoked = s.invoked := rfl

/-- The callback of a holder is called. -/
def Dispatch.invoke (s : Dispatch) (self : Holder) : Dispatch :=
  { s with invoked := s.invoked ++ [self] }

section Processing

variable (cb : Callbacks) (message : ReceivedMessage) (source : MessageSource)

mutual

/-- The loop over `m_objects` that `OscObject::processOsc` and `OscReceiver::processMessage` both
have. It returns true as soon as an object handles the message. `iter` is the position of the
iterator: `erase` leaves it where it is. The fuel bounds the calls; without it there is no
result. -/
def processObjects (self : Holder) : Nat → Nat → Dispatch → Option (Bool × Dispatch)
  | 0, _, _ => none
  | fuel + 1, iter, s =>
    match (s.attached.m_objects self)[iter]? with
    | none => some (false, s)
    | some none =>
      -- bad object, so erase it
      let erased := s.attached.set self ((s.attached.m_objects self).eraseIdx iter)
      processObjects self fuel iter
        { s with attached := erased.warn (self.className ++ ": removed NULL object") }
    | some (some object) =>
      match OscObject.processOsc object fuel (s.pass self object) with
      | none => none
      | some (true, s') => some (true, s')
      | some (false, s') => processObjects self fuel (iter + 1) s'

/-- `OscObject::processOsc`. -/
def OscObject.processOsc (self : Nat) : Nat → Dispatch → Option (Bool × Dispatch)
  | 0, _ => none
  | fuel + 1, s =>
    match processObjects (.object self) fuel 0 s with
    | none => none
    | some (true, s') => some (true, s')
    | some (false, s') =>
      some (cb.processOscMessage self message source s'.invoked, s'.invoke (.object self))

end

variable {cb message source} {self : Holder} {fuel iter : Nat} {s s' : Dispatch}

theorem processObjects_end (h : (s.attached.m_objects self)[iter]? = none) :
    processObjects cb message source self (fuel + 1) iter s = some (false, s) := by
  simp only [processObjects, h]

theorem processObjects_taken {object : Nat}
    (h : (s.attached.m_objects self)[iter]? = some (some object))
    (ho : OscObject.processOsc cb message source object fuel (s.pass self object) =
      some (true, s')) :
    processObjects cb message source self (fuel + 1) iter s = some (true, s') := by
  simp only [processObjects, h, ho]

theorem processObjects_passed {object : Nat}
    (h : (s.attached.m_objects self)[iter]? = some (some object))
    (ho : OscObject.processOsc cb message source object fuel (s.pass self object) =
      some (false, s')) :
    processObjects cb message source self (fuel + 1) iter s =
      processObjects cb message source self fuel (iter + 1) s' := by
  simp only [processObjects, h, ho]

theorem processObjects_erased (h : (s.attached.m_objects self)[iter]? = some none) :
    processObjects cb message source self (fuel + 1) iter s =
      processObjects cb message source self fuel iter
        { s with
          attached := (s.attached.set self ((s.attached.m_objects self).eraseIdx iter)).warn
            (self.className ++ ": removed NULL object") } := by
  simp only [processObjects, h]

theorem processOsc_below {object : Nat}
    (h : processObjects cb message source (.object object) fuel 0 s = some (true, s')) :
    OscObject.processOsc cb message source object (fuel + 1) s = some (true, s') := by
  simp only [OscObject.processOsc, h]

theorem processOsc_own {object : Nat}
    (h : processObjects cb message source (.object object) fuel 0 s = some (false, s')) :
    OscObject.processOsc cb message source object (fuel + 1) s =
      some (cb.processOscMessage object message source s'.invoked,
        s'.invoke (.object object)) := by
  simp only [OscObject.processOsc, h]

/-- Induction over the calls of a dispatch that has a result. `L` is about the loop of a holder
and `O` about an object, each with its fuel, what it was called with and its result. -/
theorem process_induction {L : Nat → Holder → Nat → Dispatch → Bool → Dispatch → Prop}
    {O : Nat → Nat → Dispatch → Bool → Dispatch → Prop}
    (atEnd : ∀ fuel self iter s, (s.attached.m_objects self)[iter]? = none →
      L (fuel + 1) self iter s false s)
    (erased : ∀ fuel self iter s handled s', (s.attached.m_objects self)[iter]? = some none →
      L fuel self iter
        { s with
          attached := (s.attached.set self ((s.attached.m_objects self).eraseIdx iter)).warn
            (self.className ++ ": removed NULL object") } handled s' →
      L (fuel + 1) self iter s handled s')
    (taken : ∀ fuel self iter s object s',
      (s.attached.m_objects self)[iter]? = some (some object) →
      O fuel object (s.pass self object) true s' → L (fuel + 1) self iter s true s')
    (passed : ∀ fuel self iter s object s1 handled s',
      (s.attached.m_objects self)[iter]? = some (some object) →
      O fuel object (s.pass self object) false s1 → L fuel self (iter + 1) s1 handled s' →
      L (fuel + 1) self iter s handled s')
    (below : ∀ fuel object s s', L fuel (.object object) 0 s true s' →
      O (fuel + 1) object s true s')
    (own : ∀ fuel object s s', L fuel (.object object) 0 s false s' →
      O (fuel + 1) object s (cb.processOscMessage object message source s'.invoked)
        (s'.invoke (.object object)))
    (fuel : Nat) :
    (∀ self iter s handled s', processObjects cb message source self fuel iter s =
      some (handled, s') → L fuel self iter s handled s') ∧
    (∀ object s handled s', OscObject.processOsc cb message source object fuel s =
      some (handled, s') → O fuel object s handled s') := by
  induction fuel with
  | zero =>
    refine ⟨fun self iter s handled s' h => ?_, fun object s handled s' h => ?_⟩
    · simp [processObjects] at h
    · simp [OscObject.processOsc] at h
  | succ fuel ih =>
    obtain ⟨ihLoop, ihObject⟩ := ih
    refine ⟨fun self iter s handled s' h => ?_, fun object s handled s' h => ?_⟩
    · unfold processObjects at h
      split at h
      · rename_i hend
        cases h
        exact atEnd _ _ _ _ hend
      · rename_i hnull
        exact erased _ _ _ _ _ _ hnull (ihLoop _ _ _ _ _ h)
      · rename_i object hobject
        split at h
        · cases h
        · rename_i s1 ho
          cases h
          exact taken _ _ _ _ _ _ hobject (ihObject _ _ _ _ ho)
        · rename_i s1 ho
          exact passed _ _ _ _ _ _ _ _ hobject (ihObject _ _ _ _ ho) (ihLoop _ _ _ _ _ h)
    · unfold OscObject.processOsc at h
      split at h
      · cases h
      · rename_i s1 hloop
        cases h
        exact below _ _ _ _ (ihLoop _ _ _ _ _ hloop)
      · rename_i s1 hloop
        cases h
        exact own _ _ _ _ (ihLoop _ _ _ _ _ hloop)

end Processing

end osc
