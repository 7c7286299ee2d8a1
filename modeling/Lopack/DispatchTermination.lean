-- When `processOsc` returns. It has no visited set and `addOscObject` lets cycles be
-- built, so with callbacks that all reject it returns exactly where no cycle is reached.
import Lopack.DispatchOrder

open calls graphs

namespace osc

/-! ## More fuel keeps a result -/

section Fuel

variable {cb : Callbacks} {message : ReceivedMessage} {source : MessageSource}

theorem process_kept (fuel : Nat) :
    (∀ self iter s handled s', processObjects cb message source self fuel iter s =
      some (handled, s') →
      processObjects cb message source self (fuel + 1) iter s = some (handled, s')) ∧
    (∀ self s handled s', OscObject.processOsc cb message source self fuel s =
      some (handled, s') →
      OscObject.processOsc cb message source self (fuel + 1) s = some (handled, s')) := by
  refine process_induction
    (L := fun fuel self iter s handled s' =>
      processObjects cb message source self (fuel + 1) iter s = some (handled, s'))
    (O := fun fuel self s handled s' =>
      OscObject.processOsc cb message source self (fuel + 1) s = some (handled, s'))
    ?atEnd ?erased ?taken ?passed ?below ?own fuel
  case atEnd =>
    intro fuel self iter s hend
    exact processObjects_end hend
  case erased =>
    intro fuel self iter s handled s' hnull hrest
    exact (processObjects_erased hnull).trans hrest
  case taken =>
    intro fuel self iter s object s' hobject ho
    exact processObjects_taken hobject ho
  case passed =>
    intro fuel self iter s object s1 handled s' hobject ho hrest
    exact (processObjects_passed hobject ho).trans hrest
  case below =>
    intro fuel object s s' hloop
    exact processOsc_below hloop
  case own =>
    intro fuel object s s' hloop
    exact processOsc_own hloop

/-- The code returns: from some fuel on it has a result, and always the same. -/
def Terminates {β : Type} (f : Nat → Option β) : Prop := ∃ b, Settles f b

/-- One result is enough for `processOsc` to return. -/
theorem processOsc_terminates_iff {object : Nat} {s : Dispatch} :
    Terminates (OscObject.processOsc cb message source object · s) ↔
      ∃ fuel result, OscObject.processOsc cb message source object fuel s = some result := by
  constructor
  · rintro ⟨result, n, hn⟩
    exact ⟨n, result, hn n (Nat.le_refl n)⟩
  · rintro ⟨fuel, result, h⟩
    refine ⟨result, settles_of_kept ?_ h⟩
    intro fuel' result' h'
    exact (process_kept fuel').2 _ _ _ _ h'

end Fuel

/-! ## A result is only there where the walks end -/

section Reject

variable {cb : Callbacks} {message : ReceivedMessage} {source : MessageSource} {a : Attachments}

variable (a) in
/-- A result after all of the objects `tried`: none has taken the message, the lists are as before,
and the walks from each of them end. -/
structure TriedAll (tried : Nat → Prop) (handled : Bool) (s' : Dispatch) : Prop where
  rejected : handled = false
  lists : s'.attached = a
  ends : ∀ object, tried object → Ends a.next (.object object)

/-- With callbacks that reject, a loop with a result has tried all the objects from its position
on. -/
theorem process_triedAll (ha : a.NoNull)
    (hreject : ∀ self earlier, cb.processOscMessage self message source earlier = false)
    (fuel : Nat) :
    (∀ self iter s handled s', processObjects cb message source self fuel iter s =
      some (handled, s') → s.attached = a →
      TriedAll a (fun object => ∃ i, iter ≤ i ∧ (a.m_objects self)[i]? = some (some object))
        handled s') ∧
    (∀ object s handled s', OscObject.processOsc cb message source object fuel s =
      some (handled, s') → s.attached = a → TriedAll a (· = object) handled s') := by
  refine process_induction
    (L := fun _ self iter s handled s' => s.attached = a →
      TriedAll a (fun object => ∃ i, iter ≤ i ∧ (a.m_objects self)[i]? = some (some object))
        handled s')
    (O := fun _ object s handled s' => s.attached = a → TriedAll a (· = object) handled s')
    ?atEnd ?erased ?taken ?passed ?below ?own fuel
  case atEnd =>
    intro _ self iter s hend hs
    subst hs
    refine ⟨rfl, rfl, ?_⟩
    rintro object ⟨i, hi, hobject⟩
    have hlength := List.getElem?_eq_none_iff.mp hend
    rw [List.getElem?_eq_none (by omega)] at hobject
    cases hobject
  case erased =>
    intro _ self iter s handled s' hnull _ hs
    subst hs
    exact absurd (List.mem_of_getElem? hnull) (ha self)
  case taken =>
    -- an object that has a result has rejected the message
    intro _ self iter s object s' _ ho hs
    cases (ho hs).rejected
  case passed =>
    intro _ self iter s object s1 handled s' hobject ho hrest hs
    subst hs
    have htried := ho rfl
    have hafter := hrest htried.lists
    refine ⟨hafter.rejected, hafter.lists, ?_⟩
    rintro object' ⟨i, hi, hobject'⟩
    rcases Nat.eq_or_lt_of_le hi with rfl | hlt
    · rw [hobject] at hobject'
      cases hobject'
      exact htried.ends object rfl
    · exact hafter.ends object' ⟨i, hlt, hobject'⟩
  case below =>
    intro _ object s s' hloop hs
    cases (hloop hs).rejected
  case own =>
    intro _ object s s' hloop hs
    have hall := hloop hs
    refine ⟨hreject object s'.invoked, hall.lists, ?_⟩
    rintro _ rfl
    apply Acc.intro
    intro h hedge
    obtain ⟨attached, hattached, rfl⟩ := Attachments.of_edge hedge
    obtain ⟨i, hi⟩ := List.mem_iff_getElem?.mp hattached
    exact hall.ends attached ⟨i, Nat.zero_le i, hi⟩

/-- Where the walks end `processOsc` returns, whatever the callbacks answer. -/
theorem processOsc_terminates (ha : a.NoNull) {object : Nat}
    (hends : Ends a.next (.object object)) :
    Terminates (OscObject.processOsc cb message source object · (.start a)) := by
  have hoffers : Offers cb message source (OscObject.processOsc cb message source object) a
      (postOrder a.next (.object object)) := processOsc_offers ha hends
  obtain ⟨s', hsettles, _⟩ := hoffers (.start a) rfl
  exact ⟨_, hsettles⟩

end Reject

/-! ## Every graph of objects -/

/-- Objects are attached and removed in any way, and every callback rejects the message. Then
`processOsc` of an object returns exactly when no object that it reaches lies on a cycle. Where
one does there is no result, however much fuel there is. -/
theorem processOsc_returns_iff_no_cycle_is_reached (ops : List ListOp) (object : Nat)
    (cb : Callbacks) (message : ReceivedMessage) (source : MessageSource)
    (hreject : ∀ self earlier, cb.processOscMessage self message source earlier = false) :
    let a := (run listStep Attachments.empty ops).state
    (Terminates (OscObject.processOsc cb message source object · (.start a)) ↔
      AcyclicFrom a.next (.object object)) ∧
    (¬ AcyclicFrom a.next (.object object) →
      ∀ fuel, OscObject.processOsc cb message source object fuel (.start a) = none) := by
  intro a
  have ha : a.Attached := run_attached ops
  have hiff : Terminates (OscObject.processOsc cb message source object · (.start a)) ↔
      AcyclicFrom a.next (.object object) := by
    rw [← ends_iff_acyclic ha.finite]
    constructor
    · intro h
      obtain ⟨fuel, result, hresult⟩ := processOsc_terminates_iff.mp h
      exact ((process_triedAll ha.no_null hreject fuel).2 _ _ _ _ hresult rfl).ends object rfl
    · exact processOsc_terminates ha.no_null
  refine ⟨hiff, fun hcycle fuel => ?_⟩
  by_contra hresult
  obtain ⟨result, hresult⟩ := Option.ne_none_iff_exists'.mp hresult
  exact hcycle (hiff.mp (processOsc_terminates_iff.mpr ⟨fuel, result, hresult⟩))

/-- Object 2 and then object 3 are attached to object 1, and object 1 to object 3. -/
def cycleBehindSibling : List ListOp :=
  [.addOscObject (.object 1) (some 2), .addOscObject (.object 1) (some 3),
    .addOscObject (.object 3) (some 1)]

def noneAccepts : Callbacks := ⟨fun _ _ _ _ => false, fun _ _ _ => false⟩

theorem cycleBehindSibling_cyclic :
    ¬ AcyclicFrom (run listStep Attachments.empty cycleBehindSibling).state.next (.object 1) := by
  intro h
  have h13 : Edge (run listStep Attachments.empty cycleBehindSibling).state.next
      (.object 1) (.object 3) := Attachments.mem_next (by decide)
  have h31 : Edge (run listStep Attachments.empty cycleBehindSibling).state.next
      (.object 3) (.object 1) := Attachments.mem_next (by decide)
  exact h (.object 1) .refl (.tail (.single h13) h31)

/-- Object 2 rejects the message, and then the calls go round for ever. -/
theorem a_cycle_behind_a_sibling_never_returns :
    (∀ self earlier, noneAccepts.processOscMessage self ⟨[47], ⟨[], ⟨0, 1⟩⟩⟩
        ⟨⟨cStr [], cStr []⟩⟩ earlier = false) ∧
      ∀ fuel, OscObject.processOsc noneAccepts ⟨[47], ⟨[], ⟨0, 1⟩⟩⟩ ⟨⟨cStr [], cStr []⟩⟩ 1 fuel
        (.start (run listStep Attachments.empty cycleBehindSibling).state) = none :=
  ⟨fun _ _ => rfl, (processOsc_returns_iff_no_cycle_is_reached cycleBehindSibling 1 noneAccepts
    ⟨[47], ⟨[], ⟨0, 1⟩⟩⟩ ⟨⟨cStr [], cStr []⟩⟩ (fun _ _ => rfl)).2 cycleBehindSibling_cyclic⟩

end osc
