-- The references that lopack holds on liblo messages. A `ReceivedMessage` takes one
-- when it is constructed. The compiler writes its copy constructor, its assignment
-- and its destructor, and none of them calls liblo.
import Lopack.Liblo
import Lopack.Runs

open calls store

namespace osc

/-! ## The objects -/

/-- A `ReceivedMessage` object. The liblo message that it wraps is known by its pointer. -/
structure MessageObject where
  m_addressPattern : Str
  m_message : Nat
deriving DecidableEq

/-- A call of lopack that changes the reference count of a liblo message. -/
inductive CountCall where
  | lo_message_incref (m : Nat)
  | lo_message_free (m : Nat)
deriving DecidableEq

/-- The live `ReceivedMessage` objects, those of them that `messageCB` made for a delivery that is
still going on, and the calls that lopack made on reference counts, newest first. -/
structure Wrappers where
  objects : Store MessageObject
  temporaries : List Nat
  calls : List CountCall

/-- What a program must not do with the objects. -/
inductive ObjectMisuse where
  /-- use an object that is not alive -/
  | dead
  /-- assign to the message of a delivery or destroy it: the callbacks get it as `const &` -/
  | notOwned
  /-- return from a delivery that is not going on -/
  | noDelivery
deriving DecidableEq, Repr

/-- A member function of the objects. None of them throws. -/
abbrev ObjectMethod (α : Type) := Code Empty ObjectMisuse Wrappers α

namespace MessageObject

/-- `ReceivedMessage(addressPattern, message)`. It gives the new object. -/
def new (addressPattern : Str) (message : Nat) : ObjectMethod Nat := do
  let w ← read
  update (fun w => { w with objects := w.objects.alloc ⟨addressPattern, message⟩ })
  update (fun w => { w with calls := .lo_message_incref message :: w.calls })
  pure w.objects.next

/-- The copy constructor of the compiler copies the members. -/
def copy (source : Nat) : ObjectMethod Unit := do
  let w ← read
  match w.objects.cell source with
  | none => undefinedBy .dead
  | some o => update (fun w => { w with objects := w.objects.alloc o })

/-- The assignment of the compiler assigns the members. -/
def assign (dest source : Nat) : ObjectMethod Unit := do
  let w ← read
  match w.objects.cell source with
  | none => undefinedBy .dead
  | some o =>
    match w.objects.modify dest (fun _ => o) with
    | none => undefinedBy .dead
    | some objects => update (fun w => { w with objects })

/-- The destructor of the compiler destroys the members, and a pointer has nothing to destroy. -/
def destroy (x : Nat) : ObjectMethod Unit := do
  let w ← read
  match w.objects.free x with
  | none => undefinedBy .dead
  | some objects => update (fun w => { w with objects })

end MessageObject

/-! ## What a program and liblo can do -/

/-- One event. A delivery is two of them: `messageCB` is called and makes its message, and later
it returns and the message dies. In between there can be any others. -/
inductive ObjectOp where
  | construct (addressPattern : Str) (message : Nat)
  | copy (source : Nat)
  | assign (dest source : Nat)
  | destroy (x : Nat)
  | messageCB (path : CString) (message : Nat)
  | messageCBReturns (x : Nat)

def ObjectOp.method : ObjectOp → ObjectMethod Unit
  | .construct addressPattern message => do
    let _ ← MessageObject.new addressPattern message
  | .copy source => MessageObject.copy source
  | .assign dest source => do
    let w ← read
    if dest ∈ w.temporaries then undefinedBy .notOwned
    else MessageObject.assign dest source
  | .destroy x => do
    let w ← read
    if x ∈ w.temporaries then undefinedBy .notOwned
    else MessageObject.destroy x
  | .messageCB path message => do
    let x ← MessageObject.new path.bytes message
    update (fun w => { w with temporaries := x :: w.temporaries })
  | .messageCBReturns x => do
    let w ← read
    if x ∈ w.temporaries then
      MessageObject.destroy x
      update (fun w => { w with temporaries := w.temporaries.erase x })
    else undefinedBy .noDelivery

def objectStep (w : Wrappers) (op : ObjectOp) : Outcome Empty ObjectMisuse Wrappers Unit :=
  op.method w

def Wrappers.none : Wrappers := ⟨Store.empty, [], []⟩

/-! ## The two counts -/

/-- The references that lopack holds on a message. -/
def Wrappers.held (w : Wrappers) (m : Nat) : Int :=
  w.calls.count (.lo_message_incref m) - w.calls.count (.lo_message_free m)

/-- The live objects that wrap a message. -/
def Wrappers.wrapping (w : Wrappers) (m : Nat) : Nat :=
  w.objects.count (fun o => o.m_message = m)

/-- The references balance. In particular there are none when no object is alive. -/
structure Wrappers.Balance (w : Wrappers) : Prop where
  count : ∀ m, w.held m = w.wrapping m
  gone : (∀ x, w.objects.cell x = Option.none) → ∀ m, w.held m = 0

theorem balance_iff (w : Wrappers) : w.Balance ↔ ∀ m, w.held m = w.wrapping m := by
  constructor
  · exact Wrappers.Balance.count
  · intro h
    refine ⟨h, ?_⟩
    intro hgone m
    rw [h m, Wrappers.wrapping, Store.count_eq_zero hgone]
    rfl

/-! ## What an event can do -/

/-- The object that the event makes with the constructor of `ReceivedMessage`. -/
def ObjectOp.made : ObjectOp → Option MessageObject
  | .construct addressPattern message => some ⟨addressPattern, message⟩
  | .messageCB path message => some ⟨path.bytes, message⟩
  | _ => Option.none

/-- The object that the event destroys. -/
def ObjectOp.destroyed : ObjectOp → Option Nat
  | .destroy x => some x
  | .messageCBReturns x => some x
  | _ => Option.none

inductive Wrappers.Ends (w : Wrappers) :
    ObjectOp → Outcome Empty ObjectMisuse Wrappers Unit → Prop where
  | misused (op : ObjectOp) (u : ObjectMisuse) : w.Ends op (.undefined u)
  | made (op : ObjectOp) (o : MessageObject) (temporaries : List Nat) (hop : op.made = some o) :
      w.Ends op (.returned ()
        ⟨w.objects.alloc o, temporaries, .lo_message_incref o.m_message :: w.calls⟩)
  | copied (source : Nat) (o : MessageObject) (h : w.objects.cell source = some o) :
      w.Ends (.copy source) (.returned () { w with objects := w.objects.alloc o })
  | assigned (dest source : Nat) (o old : MessageObject) (objects : Store MessageObject)
      (hs : w.objects.cell source = some o) (hd : w.objects.cell dest = some old)
      (hnext : objects.next = w.objects.next) (hcell : objects.cell dest = some o)
      (hother : ∀ x, x ≠ dest → objects.cell x = w.objects.cell x) :
      w.Ends (.assign dest source) (.returned () { w with objects })
  | destroyed (op : ObjectOp) (x : Nat) (o : MessageObject) (objects : Store MessageObject)
      (temporaries : List Nat) (hop : op.destroyed = some x) (hx : w.objects.cell x = some o)
      (hnext : objects.next = w.objects.next) (hcell : objects.cell x = Option.none)
      (hother : ∀ y, y ≠ x → objects.cell y = w.objects.cell y) :
      w.Ends op (.returned () ⟨objects, temporaries, w.calls⟩)

theorem copy_ends (w : Wrappers) (source : Nat) :
    w.Ends (.copy source) (objectStep w (.copy source)) := by
  unfold objectStep ObjectOp.method MessageObject.copy
  rw [bind_of_returned _ (read_exec w)]
  cases hs : w.objects.cell source with
  | none => exact .misused _ _
  | some o => exact .copied source o hs

theorem assign_exec {w : Wrappers} {dest source : Nat} {o old : MessageObject}
    (hs : w.objects.cell source = some o) (hd : w.objects.cell dest = some old) :
    ∃ objects, objects.next = w.objects.next ∧ objects.cell dest = some o ∧
      (∀ x, x ≠ dest → objects.cell x = w.objects.cell x) ∧
      MessageObject.assign dest source w = .returned () { w with objects } := by
  obtain ⟨objects, hm, hnext, hcell, hother⟩ := Store.modify_of_some (fun _ => o) hd
  refine ⟨objects, hnext, hcell, hother, ?_⟩
  unfold MessageObject.assign
  rw [bind_of_returned _ (read_exec w), hs]
  simp only [hm]
  rfl

theorem assign_ends (w : Wrappers) (dest source : Nat) :
    w.Ends (.assign dest source) (objectStep w (.assign dest source)) := by
  unfold objectStep ObjectOp.method
  simp only
  rw [bind_of_returned _ (read_exec w), code_ite]
  split
  · exact .misused _ _
  · cases hs : w.objects.cell source with
    | none =>
      unfold MessageObject.assign
      rw [bind_of_returned _ (read_exec w), hs]
      exact .misused _ _
    | some o =>
      cases hd : w.objects.cell dest with
      | none =>
        unfold MessageObject.assign
        rw [bind_of_returned _ (read_exec w), hs]
        simp only [Store.modify_of_none _ hd]
        exact .misused _ _
      | some old =>
        obtain ⟨objects, hnext, hcell, hother, hexec⟩ := assign_exec hs hd
        rw [hexec]
        exact .assigned dest source o old objects hs hd hnext hcell hother

/-- The destructor: the object was alive and dies, or this is a misuse. -/
theorem destroy_exec (w : Wrappers) (x : Nat) :
    MessageObject.destroy x w = .undefined .dead ∨
      ∃ o objects, w.objects.cell x = some o ∧ objects.next = w.objects.next ∧
        objects.cell x = Option.none ∧ (∀ y, y ≠ x → objects.cell y = w.objects.cell y) ∧
        MessageObject.destroy x w = .returned () { w with objects } := by
  unfold MessageObject.destroy
  rw [bind_of_returned _ (read_exec w)]
  cases hx : w.objects.cell x with
  | none =>
    left
    rw [Store.free_of_none hx]
    rfl
  | some o =>
    right
    obtain ⟨objects, hf, hnext, hcell, hother⟩ := Store.free_of_some hx
    refine ⟨o, objects, rfl, hnext, hcell, hother, ?_⟩
    rw [hf]
    rfl

theorem destroy_ends (w : Wrappers) (x : Nat) :
    w.Ends (.destroy x) (objectStep w (.destroy x)) := by
  unfold objectStep ObjectOp.method
  simp only
  rw [bind_of_returned _ (read_exec w), code_ite]
  split
  · exact .misused _ _
  · rcases destroy_exec w x with hexec | ⟨o, objects, hx, hnext, hcell, hother, hexec⟩
    · rw [hexec]
      exact .misused _ _
    · rw [hexec]
      exact .destroyed _ x o objects _ rfl hx hnext hcell hother

theorem messageCBReturns_ends (w : Wrappers) (x : Nat) :
    w.Ends (.messageCBReturns x) (objectStep w (.messageCBReturns x)) := by
  unfold objectStep ObjectOp.method
  simp only
  rw [bind_of_returned _ (read_exec w), code_ite]
  split
  · rcases destroy_exec w x with hexec | ⟨o, objects, hx, hnext, hcell, hother, hexec⟩
    · rw [bind_exec, hexec]
      exact .misused _ _
    · rw [bind_of_returned _ hexec]
      exact .destroyed _ x o objects _ rfl hx hnext hcell hother
  · exact .misused _ _

theorem objectStep_ends (w : Wrappers) (op : ObjectOp) : w.Ends op (objectStep w op) := by
  cases op with
  | construct addressPattern message => exact .made _ ⟨addressPattern, message⟩ _ rfl
  | copy source => exact copy_ends w source
  | assign dest source => exact assign_ends w dest source
  | destroy x => exact destroy_ends w x
  | messageCB path message => exact .made _ ⟨path.bytes, message⟩ _ rfl
  | messageCBReturns x => exact messageCBReturns_ends w x

/-! ## Over every run -/

/-- The event makes an object with the constructor, or it assigns between objects that wrap the
same message. It neither copies an object nor destroys one. -/
def ObjectOp.KeepsBalance (w : Wrappers) : ObjectOp → Prop
  | .construct _ _ => True
  | .messageCB _ _ => True
  | .assign dest source =>
    (w.objects.cell dest).map MessageObject.m_message =
      (w.objects.cell source).map MessageObject.m_message
  | .copy _ => False
  | .destroy _ => False
  | .messageCBReturns _ => False

theorem held_incref (w : Wrappers) (objects : Store MessageObject) (temporaries : List Nat)
    (n m : Nat) :
    Wrappers.held ⟨objects, temporaries, .lo_message_incref n :: w.calls⟩ m =
      w.held m + if n = m then 1 else 0 := by
  simp only [Wrappers.held, List.count_cons]
  by_cases h : n = m
  · simp [h]
    omega
  · simp [h]

section

variable {w : Wrappers} (h : ∀ m, w.held m = w.wrapping m)
include h

/-- The constructor takes a reference for the new object. -/
theorem balance_made (o : MessageObject) (temporaries : List Nat) :
    Wrappers.Balance
      ⟨w.objects.alloc o, temporaries, .lo_message_incref o.m_message :: w.calls⟩ := by
  rw [balance_iff]
  intro m
  rw [held_incref, h m]
  simp only [Wrappers.wrapping, Store.count_alloc, decide_eq_true_eq]
  push_cast
  rfl

/-- A copy wraps the message without a reference. -/
theorem not_balance_copied (o : MessageObject) :
    ¬ Wrappers.Balance { w with objects := w.objects.alloc o } := by
  intro hafter
  have hbefore := h o.m_message
  have hnow := hafter.count o.m_message
  simp only [Wrappers.held, Wrappers.wrapping, Store.count_alloc] at hbefore hnow
  simp at hnow
  omega

/-- An assignment moves an object from the message of `old` to that of `o`, and no reference. -/
theorem balance_assigned_iff {dest : Nat} {o old : MessageObject} {objects : Store MessageObject}
    (hd : w.objects.cell dest = some old) (hnext : objects.next = w.objects.next)
    (hcell : objects.cell dest = some o)
    (hother : ∀ x, x ≠ dest → objects.cell x = w.objects.cell x) :
    Wrappers.Balance { w with objects } ↔ old.m_message = o.m_message := by
  have hchange : ∀ m, Wrappers.wrapping { w with objects } m +
      (if old.m_message = m then 1 else 0) =
        w.wrapping m + if o.m_message = m then 1 else 0 := by
    intro m
    simpa [Wrappers.wrapping, hcell, hd] using
      Store.count_change (Store.lt_next hd) hnext hother (fun o => o.m_message = m)
  have hheld : ∀ m, Wrappers.held { w with objects } m = w.held m := fun m => rfl
  rw [balance_iff]
  simp only [hheld, h]
  constructor
  · intro hafter
    by_contra hne
    have hm := hchange o.m_message
    rw [if_neg hne, if_pos rfl, ← Nat.cast_inj.mp (hafter o.m_message)] at hm
    omega
  · intro heq m
    have hm := hchange m
    rw [heq] at hm
    exact congrArg Nat.cast (Nat.add_right_cancel hm).symm

/-- One object fewer wraps the message, and no reference was given back. -/
theorem not_balance_destroyed {x : Nat} {o : MessageObject} {objects : Store MessageObject}
    (temporaries : List Nat) (hx : w.objects.cell x = some o)
    (hnext : objects.next = w.objects.next) (hcell : objects.cell x = Option.none)
    (hother : ∀ y, y ≠ x → objects.cell y = w.objects.cell y) :
    ¬ Wrappers.Balance ⟨objects, temporaries, w.calls⟩ := by
  intro hafter
  have hbefore := h o.m_message
  have hnow := hafter.count o.m_message
  have hchange : objects.count (fun p => p.m_message = o.m_message) + 1 =
      w.objects.count (fun p => p.m_message = o.m_message) := by
    simpa [hcell, hx] using
      Store.count_change (Store.lt_next hx) hnext hother (fun p => p.m_message = o.m_message)
  simp only [Wrappers.held, Wrappers.wrapping] at hbefore hnow
  omega

end

/-- After an event the references balance exactly when it is one of those that keep them so. -/
theorem Wrappers.Balance.next {w w' : Wrappers} (h : w.Balance) {op : ObjectOp}
    {o : Outcome Empty ObjectMisuse Wrappers Unit} (ho : w.Ends op o)
    (hw' : o.state? = some w') : w'.Balance ↔ op.KeepsBalance w := by
  cases ho with
  | misused op u => cases hw'
  | made op o temporaries hop =>
    cases hw'
    refine iff_of_true (balance_made h.count o temporaries) ?_
    cases op <;> simp_all [ObjectOp.made, ObjectOp.KeepsBalance]
  | copied source o hs =>
    cases hw'
    exact iff_of_false (not_balance_copied h.count o) id
  | assigned dest source o old objects hs hd hnext hcell hother =>
    cases hw'
    rw [balance_assigned_iff h.count hd hnext hcell hother, ObjectOp.KeepsBalance, hs, hd]
    simp
  | destroyed op x o objects temporaries hop hx hnext hcell hother =>
    cases hw'
    refine iff_of_false (not_balance_destroyed h.count temporaries hx hnext hcell hother) ?_
    cases op <;> simp_all [ObjectOp.destroyed, ObjectOp.KeepsBalance]

/-- In a run of any events the references balance at every point exactly when no object is copied
or destroyed, and assignments are between objects that wrap the same message. -/
theorem references_balance_iff_no_copy_and_no_destruction (ops : List ObjectOp) :
    (∀ q, q <+: ops → (run objectStep Wrappers.none q).state.Balance) ↔
      ∀ c ∈ (run objectStep Wrappers.none ops).trace,
        c.outcome.Returned → c.op.KeepsBalance c.before := by
  apply always_iff objectStep (P := fun r => r.state.Balance)
    (C := fun c => c.outcome.Returned → c.op.KeepsBalance c.before)
  · rw [balance_iff]
    intro m
    rfl
  intro ops op he hP _
  have hbefore := hP ops (List.prefix_refl _)
  rw [Run.call_of_open objectStep he]
  generalize (run objectStep Wrappers.none ops).state = w at *
  have hends := objectStep_ends w op
  cases ho : objectStep w op with
  | returned a w' =>
    rw [ho] at hends
    simpa using hbefore.next hends rfl
  | threw e w' => cases e
  | undefined u => simpa using hbefore

/-- One delivery: when `messageCB` has returned, no object wraps the message, and the reference
is still held. -/
theorem a_delivery_keeps_its_reference :
    ¬ (run objectStep Wrappers.none
        [.messageCB (cStr [47, 97]) 7, .messageCBReturns 0]).state.Balance ∧
      (run objectStep Wrappers.none
        [.messageCB (cStr [47, 97]) 7, .messageCBReturns 0]).state.wrapping 7 = 0 ∧
      (run objectStep Wrappers.none
        [.messageCB (cStr [47, 97]) 7, .messageCBReturns 0]).state.held 7 = 1 := by
  refine ⟨?_, by decide, by decide⟩
  intro h
  exact absurd (h.count 7) (by decide)

/-! ## No message is gone while an object wraps it -/

/-- One event of a run. -/
abbrev ObjectCall := Call Empty ObjectMisuse Wrappers ObjectOp

/-- The event constructed an object around the message. -/
def Constructs (m : Nat) (c : ObjectCall) : Prop :=
  c.outcome.Returned ∧ c.op.made.map MessageObject.m_message = some m

instance (m : Nat) : DecidablePred (Constructs m) :=
  fun c => inferInstanceAs (Decidable (c.outcome.Returned ∧ _))

/-- How often an object was constructed around the message. -/
def constructions (m : Nat) (trace : List ObjectCall) : Nat :=
  trace.countP (fun c => decide (Constructs m c))

theorem constructions_of_made {c : ObjectCall} {o : MessageObject} (hret : c.outcome.Returned)
    (hop : c.op.made = some o) (m : Nat) (trace : List ObjectCall) :
    constructions m (c :: trace) = constructions m trace + if o.m_message = m then 1 else 0 := by
  have hiff : Constructs m c ↔ o.m_message = m := by
    simp [Constructs, hret, hop]
  simp [constructions, List.countP_cons, hiff]

theorem constructions_of_other {c : ObjectCall} (h : ¬ (c.outcome.Returned ∧ c.op.made.isSome))
    (m : Nat) (trace : List ObjectCall) :
    constructions m (c :: trace) = constructions m trace := by
  have hnot : ¬ Constructs m c := by
    rintro ⟨hret, hmade⟩
    refine h ⟨hret, ?_⟩
    rw [← Option.isSome_map, hmade]
    rfl
  simp [constructions, hnot]

/-- The references are those of the constructions, and whatever object wraps a message, there is a
reference on it. -/
structure Referenced (r : Run Empty ObjectMisuse Wrappers ObjectOp) : Prop where
  count : ∀ m, r.state.held m = constructions m r.trace
  alive : ∀ x o, r.state.objects.cell x = some o → 1 ≤ r.state.held o.m_message

/-- No event gives a reference back, so it is enough to look at the object that the event made or
changed. -/
theorem Referenced.call {r : Run Empty ObjectMisuse Wrappers ObjectOp} (h : Referenced r)
    (he : r.ended = false) (op : ObjectOp) : Referenced (r.call objectStep op) := by
  rw [Run.call_of_open objectStep he]
  have hends := objectStep_ends r.state op
  generalize objectStep r.state op = o at hends
  cases hends with
  | misused op u =>
    refine ⟨fun m => ?_, h.alive⟩
    rw [constructions_of_other (by simp)]
    exact h.count m
  | made op o temporaries hop =>
    have hheld := held_incref r.state (r.state.objects.alloc o) temporaries o.m_message
    refine ⟨fun m => ?_, fun x p hx => ?_⟩
    · rw [constructions_of_made (by simp) hop]
      refine (hheld m).trans ?_
      rw [h.count m]
      push_cast
      rfl
    · refine le_trans ?_ (hheld p.m_message).ge
      rcases Store.alloc_some hx with rfl | hold
      · rw [if_pos rfl, h.count]
        omega
      · have := h.alive x p hold
        split <;> omega
  | copied source o hs =>
    refine ⟨fun m => ?_, fun x p hx => ?_⟩
    · rw [constructions_of_other (by simp [ObjectOp.made])]
      exact h.count m
    · rcases Store.alloc_some hx with rfl | hold
      · exact h.alive source p hs
      · exact h.alive x p hold
  | assigned dest source o old objects hs hd hnext hcell hother =>
    refine ⟨fun m => ?_, fun x p hx => ?_⟩
    · rw [constructions_of_other (by simp [ObjectOp.made])]
      exact h.count m
    · simp only [Outcome.state?_returned, Option.getD_some] at hx
      by_cases hdest : x = dest
      · rw [hdest, hcell] at hx
        cases hx
        exact h.alive source o hs
      · rw [hother x hdest] at hx
        exact h.alive x p hx
  | destroyed op x o objects temporaries hop hx hnext hcell hother =>
    refine ⟨fun m => ?_, fun y p hy => ?_⟩
    · rw [constructions_of_other (by cases op <;> simp_all [ObjectOp.made, ObjectOp.destroyed])]
      exact h.count m
    · simp only [Outcome.state?_returned, Option.getD_some] at hy
      by_cases hdead : y = x
      · rw [hdead, hcell] at hy
        cases hy
      · rw [hother y hdead] at hy
        exact h.alive y p hy

theorem run_referenced (ops : List ObjectOp) : Referenced (run objectStep Wrappers.none ops) := by
  apply run_induction objectStep
  · refine ⟨fun m => rfl, fun x o hx => ?_⟩
    simp [Wrappers.none] at hx
  · intro r op he h
    exact h.call he op

/-- In every run lopack holds one reference for each construction of a `ReceivedMessage`, and it
never gives one back. So whatever object is alive, constructed, copied or assigned, the message
that it wraps is there. -/
theorem a_wrapped_message_stays_referenced (ops : List ObjectOp) :
    let r := run objectStep Wrappers.none ops
    (∀ m, r.state.held m = constructions m r.trace) ∧
      (∀ q, q <+: ops → ∀ m, (run objectStep Wrappers.none q).state.held m ≤ r.state.held m) ∧
      ∀ x o, r.state.objects.cell x = some o → 1 ≤ r.state.held o.m_message := by
  have h := run_referenced ops
  refine ⟨h.count, ?_, h.alive⟩
  rintro q ⟨rest, rfl⟩ m
  rw [(run_referenced q).count, h.count, Nat.cast_le]
  have hsuffix : (run objectStep Wrappers.none q).trace <:+
      (run objectStep Wrappers.none (q ++ rest)).trace := by
    have := trace_suffix objectStep (run objectStep Wrappers.none q) rest
    simpa [run] using this
  exact hsuffix.sublist.countP_le

end osc
