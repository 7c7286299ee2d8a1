-- Removing an object. `find` and `erase` take out one entry, so a removed object is
-- gone as long as it was attached once: a second entry stays and is called on.
import Lopack.OscReceiver

open calls

namespace osc

/-! ## What the trace of a run tells -/

/-- One call of a run on the lists. -/
abbrev ListCall := Call Empty Empty Attachments ListOp

/-- The object was removed from the list of `h` and not added to it since. The newest call stands
first. -/
def detached (h : Holder) (object : Nat) : List ListCall → Bool
  | [] => false
  | c :: trace =>
    if c.op = .removeOscObject h (some object) then true
    else if c.op = .addOscObject h (some object) then false
    else detached h object trace

/-- What removal should do: a removed object is not in the list, no message is passed on to it from
that list, and a removal touches no other object and no other list. -/
structure RemovalEffective (r : ListRun) : Prop where
  gone : ∀ h object, detached h object r.trace = true → some object ∉ r.state.m_objects h
  unheard : ∀ h object, detached h object r.trace = true →
    ∀ cb message source fuel handled s',
      (∀ self, OscReceiver.processMessage cb message source self fuel (.start r.state) =
        some (handled, s') → (h, object) ∉ s'.passed) ∧
      (∀ self, OscObject.processOsc cb message source self fuel (.start r.state) =
        some (handled, s') → (h, object) ∉ s'.passed)
  others : ∀ c ∈ r.trace, ∀ h object, c.op = .removeOscObject h (some object) →
    (c.after.m_objects h).filter (· ≠ some object) =
        (c.before.m_objects h).filter (· ≠ some object) ∧
      ∀ h', h' ≠ h → c.after.m_objects h' = c.before.m_objects h'

/-! ## The lists after a call -/

theorem not_mem_erase_iff (objects : List (Option Nat)) (x : Option Nat) :
    x ∉ objects.erase x ↔ objects.count x ≤ 1 := by
  rw [← List.count_eq_zero, List.count_erase_self]
  omega

/-- Only an addition puts an object into a list. -/
theorem mem_of_mem_apply {a : Attachments} {op : ListOp} {h : Holder} {object : Nat}
    (hop : op ≠ .addOscObject h (some object)) (hm : some object ∈ (op.apply a).m_objects h) :
    some object ∈ a.m_objects h := by
  cases op with
  | addOscObject self x =>
    rcases x with _ | x
    · exact hm
    · by_cases hself : h = self
      · subst hself
        rw [ListOp.apply, Attachments.set_self, List.mem_append, List.mem_singleton] at hm
        rcases hm with hm | hm
        · exact hm
        · exact absurd (by rw [hm]) hop
      · rwa [ListOp.apply, a.set_of_ne _ hself] at hm
  | removeOscObject self x =>
    rcases x with _ | x
    · exact hm
    · by_cases hself : h = self
      · subst hself
        rw [ListOp.apply, Attachments.set_self] at hm
        exact List.mem_of_mem_erase hm
      · rwa [ListOp.apply, a.set_of_ne _ hself] at hm
  | removeAllOscObjects self =>
    by_cases hself : h = self
    · subst hself
      simp [ListOp.apply] at hm
    · rwa [ListOp.apply, a.set_of_ne _ hself] at hm

theorem filter_ne_erase (objects : List (Option Nat)) (x : Option Nat) :
    (objects.erase x).filter (· ≠ x) = objects.filter (· ≠ x) := by
  induction objects with
  | nil => rfl
  | cons y ys ih =>
    by_cases hy : y = x
    · subst hy
      simp
    · rw [List.erase_cons_tail (by simpa using hy), List.filter_cons, List.filter_cons, ih]

/-! ## A message is passed on along the lists -/

/-- After part of a dispatch: the lists have lost entries at most, and each call of `processOsc`
came from an entry of a list. -/
structure Dispatch.Follows (s s' : Dispatch) : Prop where
  lists : ∀ h, (s'.attached.m_objects h).Sublist (s.attached.m_objects h)
  passed : ∀ e ∈ s'.passed, e ∈ s.passed ∨ some e.2 ∈ s.attached.m_objects e.1

theorem Dispatch.Follows.refl (s : Dispatch) : s.Follows s :=
  ⟨fun _ => List.Sublist.refl _, fun _ he => .inl he⟩

theorem Dispatch.Follows.trans {s s1 s2 : Dispatch} (h1 : s.Follows s1) (h2 : s1.Follows s2) :
    s.Follows s2 := by
  refine ⟨fun h => (h2.lists h).trans (h1.lists h), fun e he => ?_⟩
  rcases h2.passed e he with he1 | hm
  · exact h1.passed e he1
  · exact .inr ((h1.lists e.1).subset hm)

theorem follows_erase (s : Dispatch) (self : Holder) (iter : Nat) (line : String) :
    s.Follows { s with attached :=
      (s.attached.set self ((s.attached.m_objects self).eraseIdx iter)).warn line } := by
  refine ⟨fun h => ?_, fun e he => .inl he⟩
  by_cases hself : h = self
  · subst hself
    simpa using List.eraseIdx_sublist ..
  · rw [Attachments.warn_m_objects, s.attached.set_of_ne _ hself]

theorem follows_pass {s : Dispatch} {self : Holder} {object : Nat}
    (h : some object ∈ s.attached.m_objects self) : s.Follows (s.pass self object) := by
  refine ⟨fun _ => List.Sublist.refl _, fun e he => ?_⟩
  rcases List.mem_append.mp he with he | he
  · exact .inl he
  · rw [List.mem_singleton.mp he]
    exact .inr h

theorem follows_invoke (s : Dispatch) (self : Holder) : s.Follows (s.invoke self) :=
  ⟨fun _ => List.Sublist.refl _, fun _ he => .inl he⟩

section Follows

variable {cb : Callbacks} {message : ReceivedMessage} {source : MessageSource}

theorem process_follows (fuel : Nat) :
    (∀ self iter s handled s', processObjects cb message source self fuel iter s =
      some (handled, s') → s.Follows s') ∧
    (∀ self s handled s', OscObject.processOsc cb message source self fuel s =
      some (handled, s') → s.Follows s') := by
  refine process_induction (L := fun _ _ _ s _ s' => s.Follows s')
    (O := fun _ _ s _ s' => s.Follows s') ?atEnd ?erased ?taken ?passed ?below ?own fuel
  case atEnd =>
    intro _ self iter s _
    exact .refl s
  case erased =>
    intro _ self iter s handled s' _ hrest
    exact (follows_erase s self iter _).trans hrest
  case taken =>
    intro _ self iter s object s' hobject ho
    exact (follows_pass (List.mem_of_getElem? hobject)).trans ho
  case passed =>
    intro _ self iter s object s1 handled s' hobject ho hrest
    exact ((follows_pass (List.mem_of_getElem? hobject)).trans ho).trans hrest
  case below =>
    intro _ object s s' hloop
    exact hloop
  case own =>
    intro _ object s s' hloop
    exact hloop.trans (follows_invoke s' _)

theorem processMessage_follows {self : OscReceiver} {fuel : Nat} {s s' : Dispatch} {handled : Bool}
    (h : OscReceiver.processMessage cb message source self fuel s = some (handled, s')) :
    s.Follows s' := by
  unfold OscReceiver.processMessage at h
  split at h
  · cases h
    exact .refl s
  · split at h
    · cases h
    · rename_i s1 h1
      cases h
      exact (process_follows fuel).1 _ _ _ _ _ h1
    · rename_i s1 h1
      cases h
      exact ((process_follows fuel).1 _ _ _ _ _ h1).trans (follows_invoke s1 _)

/-- An object that is not in a list is not called from it. -/
theorem Dispatch.Follows.not_passed {a : Attachments} {s' : Dispatch}
    (h : (Dispatch.start a).Follows s') {self : Holder} {object : Nat}
    (ho : some object ∉ a.m_objects self) : (self, object) ∉ s'.passed := by
  intro he
  rcases h.passed _ he with he | hm
  · exact List.not_mem_nil he
  · exact ho hm

end Follows

/-! ## Over every run -/

/-- The object is removed where it is in the list at most once. -/
def removesLast (c : ListCall) : Prop :=
  ∀ h object, c.op = .removeOscObject h (some object) →
    (c.before.m_objects h).count (some object) ≤ 1

theorem gone_call_iff {r : ListRun}
    (hr : ∀ h object, detached h object r.trace = true → some object ∉ r.state.m_objects h)
    (op : ListOp) :
    (∀ h object, detached h object (⟨r.state, op, listStep r.state op⟩ :: r.trace) = true →
        some object ∉ (op.apply r.state).m_objects h) ↔
      removesLast ⟨r.state, op, listStep r.state op⟩ := by
  constructor
  · intro hgone h object hop
    simp only at hop
    have hnot := hgone h object (by simp [detached, hop])
    rw [hop, ListOp.apply, Attachments.set_self] at hnot
    exact (not_mem_erase_iff _ _).mp hnot
  · intro hlast h object hd
    unfold detached at hd
    split at hd
    · rename_i hop
      have hcount := hlast h object hop
      simp only at hop
      rw [hop, ListOp.apply, Attachments.set_self]
      exact (not_mem_erase_iff _ _).mpr hcount
    · split at hd
      · cases hd
      · rename_i hadd
        intro hm
        exact hr h object hd (mem_of_mem_apply hadd hm)

/-- A removal changes nothing else. -/
theorem remove_others {a : Attachments} {op : ListOp} {h : Holder} {object : Nat}
    (hop : op = .removeOscObject h (some object)) :
    ((op.apply a).m_objects h).filter (· ≠ some object) =
        (a.m_objects h).filter (· ≠ some object) ∧
      ∀ h', h' ≠ h → (op.apply a).m_objects h' = a.m_objects h' := by
  subst hop
  refine ⟨?_, fun h' hne => a.set_of_ne _ hne⟩
  rw [ListOp.apply, Attachments.set_self]
  exact filter_ne_erase _ _

theorem removalEffective_call_iff {r : ListRun} (hr : RemovalEffective r)
    (he : r.ended = false) (op : ListOp) :
    RemovalEffective (r.call listStep op) ↔
      removesLast ⟨r.state, op, listStep r.state op⟩ := by
  rw [← gone_call_iff hr.gone op, Run.call_of_open listStep he]
  have hstate : (listStep r.state op).state?.getD r.state = op.apply r.state := by
    rw [listStep_eq]
    rfl
  rw [hstate]
  constructor
  · intro h
    exact h.gone
  · intro hgone
    refine ⟨hgone, fun h object hd cb message source fuel handled s' => ⟨?_, ?_⟩, ?_⟩
    · intro self hp
      exact (processMessage_follows hp).not_passed (hgone h object hd)
    · intro self hp
      exact ((process_follows fuel).2 _ _ _ _ hp).not_passed (hgone h object hd)
    · rw [List.forall_mem_cons]
      refine ⟨fun h object hop => ?_, hr.others⟩
      have hafter : (⟨r.state, op, listStep r.state op⟩ : ListCall).after = op.apply r.state :=
        hstate
      rw [hafter]
      exact remove_others hop

/-- In a run of any calls on the lists of the receiver and of the objects, removal is effective
after every call exactly when each object is removed while it is in the list at most once. -/
theorem removal_is_effective_iff_objects_are_attached_once (ops : List ListOp) :
    (∀ q, q <+: ops → RemovalEffective (run listStep Attachments.empty q)) ↔
      ∀ c ∈ (run listStep Attachments.empty ops).trace, removesLast c := by
  apply always_iff listStep
  · exact ⟨by simp [detached], by simp [detached], by simp⟩
  intro ops op he hP _
  exact removalEffective_call_iff (hP ops (List.prefix_refl _)) he op

/-- Object 1 is added twice and removed once. It is still in the list, and a message is passed on
to it. -/
theorem a_twice_added_object_stays :
    some 1 ∈ (run listStep Attachments.empty [.addOscObject .receiver (some 1),
        .addOscObject .receiver (some 1), .removeOscObject .receiver (some 1)]).state.m_objects
          .receiver ∧
      ¬ RemovalEffective (run listStep Attachments.empty [.addOscObject .receiver (some 1),
        .addOscObject .receiver (some 1), .removeOscObject .receiver (some 1)]) := by
  have hstays : some 1 ∈ (run listStep Attachments.empty [.addOscObject .receiver (some 1),
      .addOscObject .receiver (some 1), .removeOscObject .receiver (some 1)]).state.m_objects
        .receiver := by
    decide
  exact ⟨hstays, fun h => h.gone .receiver 1 (by decide) hstays⟩

end osc
