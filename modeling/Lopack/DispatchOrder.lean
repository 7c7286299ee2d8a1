-- The order in which a message is offered. Two nested loops with early exits, in two
-- classes, ask the callbacks in the post-order of the attached objects, up to the
-- first that accepts.
import Lopack.OscReceiver
import Lopack.PostOrder

open calls graphs

namespace osc

/-! ## The graph of the attached objects -/

/-- The objects in the list of a holder, in the order of their attachment. -/
def Attachments.next (a : Attachments) (h : Holder) : List Holder :=
  (a.m_objects h).filterMap (Option.map .object)

theorem Attachments.mem_next {a : Attachments} {h : Holder} {object : Nat}
    (ho : some object ∈ a.m_objects h) : Edge a.next h (.object object) :=
  List.mem_filterMap.mpr ⟨some object, ho, rfl⟩

theorem Attachments.of_edge {a : Attachments} {h below : Holder} (hedge : Edge a.next h below) :
    ∃ object, some object ∈ a.m_objects h ∧ below = .object object := by
  obtain ⟨x, hx, hbelow⟩ := List.mem_filterMap.mp hedge
  obtain ⟨object, rfl, rfl⟩ := Option.map_eq_some_iff.mp hbelow
  exact ⟨object, hx, rfl⟩

def Attachments.NoNull (a : Attachments) : Prop := ∀ h, none ∉ a.m_objects h

/-- The lists of objects that a program attaches hold no NULL, and only finitely many of them hold
anything. -/
structure Attachments.Attached (a : Attachments) : Prop where
  no_null : a.NoNull
  finite : {h | a.next h ≠ []}.Finite

theorem Attachments.Attached.set {a : Attachments} (ha : a.Attached) {self : Holder}
    {objects : List (Option Nat)} (hobjects : none ∉ objects) : (a.set self objects).Attached := by
  constructor
  · intro h
    by_cases hself : h = self
    · rw [hself, set_self]
      exact hobjects
    · rw [a.set_of_ne objects hself]
      exact ha.no_null h
  · apply (ha.finite.insert self).subset
    intro h hh
    by_cases hself : h = self
    · exact .inl hself
    · refine .inr ?_
      simp only [Set.mem_ofPred_eq, next] at hh ⊢
      rwa [a.set_of_ne objects hself] at hh

theorem Attachments.Attached.warn {a : Attachments} (ha : a.Attached) (line : String) :
    (a.warn line).Attached := ⟨ha.no_null, ha.finite⟩

/-- Each call keeps the lists so. -/
theorem attached_apply {a : Attachments} (ha : a.Attached) (op : ListOp) :
    (op.apply a).Attached := by
  cases op with
  | addOscObject self object =>
    cases object with
    | none => exact ha.warn _
    | some object =>
      apply ha.set
      simpa using ha.no_null self
  | removeOscObject self object =>
    cases object with
    | none => exact ha.warn _
    | some object =>
      apply ha.set
      intro hnull
      exact ha.no_null self (List.mem_of_mem_erase hnull)
  | removeAllOscObjects self => exact ha.set List.not_mem_nil

theorem run_attached (ops : List ListOp) :
    (run listStep Attachments.empty ops).state.Attached := by
  apply run_invariant listStep
  · constructor
    · intro h
      exact List.not_mem_nil
    · simp [Attachments.next, Attachments.empty]
  intro a op a' ha ha'
  rw [listStep_eq] at ha'
  cases ha'
  exact attached_apply ha op

/-! ## Enough fuel -/

/-- From some fuel on the result is `b`. -/
def Settles {β : Type} (f : Nat → Option β) (b : β) : Prop :=
  ∃ n, ∀ fuel, n ≤ fuel → f fuel = some b

/-- Where one more unit of fuel keeps a result, each result is the one for all larger fuel. -/
theorem settles_of_kept {β : Type} {f : Nat → Option β}
    (hkept : ∀ fuel b, f fuel = some b → f (fuel + 1) = some b) {n : Nat} {b : β}
    (h : f n = some b) : Settles f b := by
  refine ⟨n, fun fuel hfuel => ?_⟩
  induction hfuel with
  | refl => exact h
  | step _ ih => exact hkept _ b ih

/-! ## The loops ask in post-order -/

section Loops

variable (cb : Callbacks) (message : ReceivedMessage) (source : MessageSource)

/-- What the callback of a holder returns after those of `earlier`. -/
def Callbacks.accepts (earlier : List Holder) : Holder → Bool
  | .receiver => cb.process message source earlier
  | .object self => cb.processOscMessage self message source earlier

/-- The message is offered to the holders of `order`: with enough fuel the code returns whether one
accepts, and it has called the callbacks up to this one. The lists stay as they are. -/
def Offers (f : Nat → Dispatch → Option (Bool × Dispatch)) (a : Attachments)
    (order : List Holder) : Prop :=
  ∀ s : Dispatch, s.attached = a →
    ∃ s', Settles (f · s) ((ask (cb.accepts message source) s.invoked order).2, s') ∧
      s'.attached = a ∧ s'.invoked = (ask (cb.accepts message source) s.invoked order).1

variable {cb message source} {a : Attachments}

/-- The loop from position `iter` on offers the message to the rest of the list. -/
theorem processObjects_offers {h : Holder} (hnull : none ∉ a.m_objects h)
    (hbelow : ∀ object, some object ∈ a.m_objects h →
      Offers cb message source (OscObject.processOsc cb message source object) a
        (postOrder a.next (.object object)))
    (rest : List (Option Nat)) (iter : Nat) (hrest : (a.m_objects h).drop iter = rest) :
    Offers cb message source (fun fuel s => processObjects cb message source h fuel iter s) a
      ((rest.filterMap (Option.map Holder.object)).flatMap (postOrder a.next)) := by
  induction rest generalizing iter with
  | nil =>
    intro s hs
    subst hs
    refine ⟨s, ⟨1, fun fuel hfuel => ?_⟩, rfl, rfl⟩
    obtain ⟨fuel, rfl⟩ := Nat.exists_eq_add_of_le' hfuel
    apply processObjects_end
    rw [List.getElem?_eq_none_iff]
    exact List.drop_eq_nil_iff.mp hrest
  | cons x rest ih =>
    intro s hs
    subst hs
    have hx : (s.attached.m_objects h)[iter]? = some x := by
      rw [← Nat.add_zero iter, ← List.getElem?_drop, hrest]
      rfl
    have hmem : x ∈ s.attached.m_objects h := List.mem_of_getElem? hx
    obtain ⟨object, rfl⟩ : ∃ object, x = some object := by
      rcases x with _ | object
      · exact absurd hmem hnull
      · exact ⟨object, rfl⟩
    have hrest' : (s.attached.m_objects h).drop (iter + 1) = rest := by
      rw [← List.tail_drop, hrest]
      rfl
    obtain ⟨s1, ⟨n1, hn1⟩, hs1, hinvoked1⟩ := hbelow object hmem (s.pass h object) rfl
    simp only [Dispatch.pass_invoked] at hn1 hinvoked1
    simp only [List.filterMap_cons, Option.map_some, List.flatMap_cons]
    rw [ask_append]
    -- either the object takes the message, or the loop goes on
    split
    · rename_i hfound
      refine ⟨s1, ⟨n1 + 1, fun fuel hfuel => ?_⟩, hs1, hinvoked1⟩
      obtain ⟨fuel, rfl⟩ : ∃ k, fuel = k + 1 := ⟨fuel - 1, by omega⟩
      rw [hfound] at hn1 ⊢
      exact processObjects_taken hx (hn1 fuel (by omega))
    · rename_i hfound
      rw [Bool.not_eq_true] at hfound
      obtain ⟨s2, ⟨n2, hn2⟩, hs2, hinvoked2⟩ := ih (iter + 1) hrest' s1 hs1
      rw [hinvoked1] at hn2 hinvoked2
      rw [hfound] at hn1
      refine ⟨s2, ⟨max n1 n2 + 1, fun fuel hfuel => ?_⟩, hs2, hinvoked2⟩
      obtain ⟨fuel, rfl⟩ : ∃ k, fuel = k + 1 := ⟨fuel - 1, by omega⟩
      exact (processObjects_passed hx (hn1 fuel (by omega))).trans (hn2 fuel (by omega))

/-- The loop of a holder, and then its own callback. -/
theorem offers_self {h : Holder} (hends : Ends a.next h)
    {loop f : Nat → Dispatch → Option (Bool × Dispatch)}
    (hloop : Offers cb message source loop a ((a.next h).flatMap (postOrder a.next)))
    (hf : ∀ s s' found, Settles (loop · s) (found, s') →
      Settles (f · s) (if found then (true, s')
        else (cb.accepts message source s'.invoked h, s'.invoke h))) :
    Offers cb message source f a (postOrder a.next h) := by
  intro s hs
  obtain ⟨s1, hsettles, hs1, hinvoked⟩ := hloop s hs
  have hself := hf s s1 _ hsettles
  rw [postOrder_of_ends hends, ask_append]
  split
  · rename_i hfound
    rw [if_pos hfound] at hself
    rw [hfound]
    exact ⟨s1, hself, hs1, hinvoked⟩
  · rename_i hfound
    rw [if_neg hfound, hinvoked] at hself
    rw [ask_singleton]
    refine ⟨s1.invoke h, hself, hs1, ?_⟩
    rw [← hinvoked]
    rfl

/-- An object offers the message to the objects below it and then to itself. -/
theorem processOsc_offers (ha : a.NoNull) {object : Nat} (hends : Ends a.next (.object object)) :
    Offers cb message source (OscObject.processOsc cb message source object) a
      (postOrder a.next (.object object)) := by
  -- the walks below an attached object end too, so the induction is on them
  generalize hh : Holder.object object = h at hends
  induction hends generalizing object with
  | intro h hacc ih =>
    subst hh
    have hends : Ends a.next (.object object) := Acc.intro _ hacc
    apply offers_self hends (processObjects_offers (ha _) (fun below hbelow =>
      ih _ (Attachments.mem_next hbelow) rfl) _ 0 (List.drop_zero ..))
    rintro s s' found ⟨n, hn⟩
    refine ⟨n + 1, fun fuel hfuel => ?_⟩
    obtain ⟨fuel, rfl⟩ : ∃ k, fuel = k + 1 := ⟨fuel - 1, by omega⟩
    cases found with
    | true => exact processOsc_below (hn fuel (by omega))
    | false => exact processOsc_own (hn fuel (by omega))

/-- The receiver offers the message to the attached objects and then to itself. -/
theorem processMessage_offers (ha : a.NoNull) (hends : Ends a.next .receiver)
    {self : OscReceiver} (hself : self.m_ignoreMessages = false) :
    Offers cb message source (OscReceiver.processMessage cb message source self) a
      (postOrder a.next .receiver) := by
  apply offers_self hends (processObjects_offers (ha _) (fun below hbelow =>
    processOsc_offers ha (hends.of_edge (Attachments.mem_next hbelow))) _ 0 (List.drop_zero ..))
  rintro s s' found ⟨n, hn⟩
  refine ⟨n, fun fuel hfuel => ?_⟩
  simp only [OscReceiver.processMessage, hself, Bool.false_eq_true, if_false, hn fuel hfuel]
  cases found <;> rfl

/-- From lists with no cycle `processMessage` returns, with enough fuel. -/
theorem processMessage_first (ha : a.Attached) (hacyclic : AcyclicFrom a.next .receiver)
    {self : OscReceiver} (hself : self.m_ignoreMessages = false) :
    ∃ handled s', Settles (OscReceiver.processMessage cb message source self · (.start a))
        (handled, s') ∧
      FirstAccepted (cb.accepts message source) (postOrder a.next .receiver) s'.invoked handled ∧
      s'.attached = a := by
  have hends : Ends a.next .receiver := ends_of_acyclic ha.finite hacyclic
  obtain ⟨s', hsettles, hs', hinvoked⟩ :=
    processMessage_offers ha.no_null hends hself (Dispatch.start a) rfl
  refine ⟨_, s', hsettles, ?_, hs'⟩
  rw [hinvoked]
  exact ask_spec [] _ (by simp)

end Loops

/-! ## Every acyclic graph of objects -/

/-- Objects are attached and removed in any way, such that no cycle can be reached from the
receiver. Then a message that is not ignored is offered to the callbacks in post-order: with
enough fuel `processMessage` returns, it has called exactly those up to the first that accepts,
it returns whether one accepted, and the lists are as before. An ignored message calls
nothing. -/
theorem dispatch_asks_in_post_order (ops : List ListOp) (cb : Callbacks)
    (message : ReceivedMessage) (source : MessageSource) (self : OscReceiver)
    (hacyclic : AcyclicFrom (run listStep Attachments.empty ops).state.next .receiver) :
    let a := (run listStep Attachments.empty ops).state
    (self.m_ignoreMessages = false →
      ∃ handled s', Settles (OscReceiver.processMessage cb message source self · (.start a))
          (handled, s') ∧
        FirstAccepted (cb.accepts message source) (postOrder a.next .receiver) s'.invoked handled ∧
        s'.attached = a) ∧
    (self.m_ignoreMessages = true →
      ∀ fuel, OscReceiver.processMessage cb message source self fuel (.start a) =
        some (false, .start a)) := by
  intro a
  have ha : a.Attached := run_attached ops
  refine ⟨fun hself => processMessage_first ha hacyclic hself, fun hself fuel => ?_⟩
  · unfold OscReceiver.processMessage
    rw [if_pos hself]

/-- Object 2 is attached to the receiver and to object 1. -/
def sharedObject : List ListOp :=
  [.addOscObject .receiver (some 1), .addOscObject .receiver (some 2),
    .addOscObject (.object 1) (some 2)]

/-- The second of two questions is accepted. -/
def secondAccepts : Callbacks :=
  ⟨fun _ _ _ earlier => earlier.length == 1, fun _ _ _ => false⟩

theorem sharedObject_acyclic :
    AcyclicFrom (run listStep Attachments.empty sharedObject).state.next .receiver := by
  apply acyclicFrom_of_rank (fun h => match h with
    | .receiver => 2
    | .object 1 => 1
    | .object _ => 0)
  intro h below hbelow
  cases h with
  | receiver =>
    have hnext : below ∈ [Holder.object 1, Holder.object 2] := hbelow
    simp only [List.mem_cons, List.not_mem_nil, or_false] at hnext
    rcases hnext with rfl | rfl
    · decide
    · decide
  | object self =>
    by_cases h1 : self = 1
    · subst h1
      have hnext : below ∈ [Holder.object 2] := hbelow
      rw [List.mem_singleton.mp hnext]
      decide
    · simp [Edge, Attachments.next, sharedObject, run, Run.call, listStep_eq, ListOp.apply,
        Attachments.set, Attachments.empty, h1] at hbelow

/-- A message for the shared object, with object 1 accepting it: object 2 is asked first, because
it is attached to object 1, and not again. -/
theorem a_shared_object_is_asked_below_the_first :
    (OscReceiver.processMessage secondAccepts ⟨[47], ⟨[], ⟨0, 1⟩⟩⟩ ⟨⟨cStr [], cStr []⟩⟩ .new 9
        (.start (run listStep Attachments.empty sharedObject).state)).map
          (fun result => (result.1, result.2.invoked)) =
        some (true, [.object 2, .object 1]) ∧
      ∃ handled s', Settles (OscReceiver.processMessage secondAccepts ⟨[47], ⟨[], ⟨0, 1⟩⟩⟩
          ⟨⟨cStr [], cStr []⟩⟩ .new · (.start (run listStep Attachments.empty sharedObject).state))
            (handled, s') ∧
        FirstAccepted (secondAccepts.accepts ⟨[47], ⟨[], ⟨0, 1⟩⟩⟩ ⟨⟨cStr [], cStr []⟩⟩)
          (postOrder (run listStep Attachments.empty sharedObject).state.next .receiver)
          s'.invoked handled ∧
        s'.attached = (run listStep Attachments.empty sharedObject).state :=
  ⟨rfl, (dispatch_asks_in_post_order sharedObject secondAccepts _ _ .new
    sharedObject_acyclic).1 rfl⟩

end osc
