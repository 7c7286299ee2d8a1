-- What the callbacks may change during a dispatch. A loop uses its iterator again only
-- when the object it called has rejected the message. So a callback that accepts may
-- change any list, and one that rejects must leave the running iterators valid.
import Lopack.Reentrancy

open calls graphs

namespace osc

/-! ## Iterators wear out -/

/-- The iterator `after` is `before`, or is no longer valid. -/
def Iterator.Wears (before after : Iterator) : Prop :=
  after = before ∨ after = { before with valid := false }

/-- The running loops, with some of their iterators spoiled. -/
def Worn (before after : List Iterator) : Prop := List.Forall₂ Iterator.Wears before after

/-- After these changes the iterator is as before, or one of them was a change of its own list and
it is no longer valid. -/
def Iterator.SpoiledBy (edits : List Edit) (before after : Iterator) : Prop :=
  after = before ∨
    after = { before with valid := false } ∧ ∃ e ∈ edits, e.op.holder = before.holder

theorem Worn.refl (its : List Iterator) : Worn its its :=
  List.forall₂_same.mpr (fun _ _ => .inl rfl)

theorem Iterator.SpoiledBy.wears {edits : List Edit} {before after : Iterator}
    (h : before.SpoiledBy edits after) : before.Wears after :=
  h.imp_right And.left

theorem Iterator.Wears.trans {a b c : Iterator} (hab : a.Wears b) (hbc : b.Wears c) :
    a.Wears c := by
  rcases hab with rfl | rfl
  · exact hbc
  · rcases hbc with rfl | rfl
    · exact .inr rfl
    · exact .inr rfl

theorem Iterator.SpoiledBy.trans {edits edits' : List Edit} {a b c : Iterator}
    (hab : a.SpoiledBy edits b) (hbc : b.SpoiledBy edits' c) : a.SpoiledBy (edits ++ edits') c := by
  rcases hab with rfl | ⟨rfl, e, he, hholder⟩
  · exact hbc.imp_right (fun ⟨hspoiled, e, he, hholder⟩ =>
      ⟨hspoiled, e, List.mem_append_right _ he, hholder⟩)
  · refine .inr ⟨?_, e, List.mem_append_left _ he, hholder⟩
    rcases hbc with rfl | ⟨rfl, _⟩ <;> rfl

theorem forall₂_trans {R S T : Iterator → Iterator → Prop} {as bs cs : List Iterator}
    (hab : List.Forall₂ R as bs) (hbc : List.Forall₂ S bs cs)
    (h : ∀ a b c, R a b → S b c → T a c) : List.Forall₂ T as cs := by
  induction hab generalizing cs with
  | nil => rw [List.forall₂_nil_left_iff.mp hbc]; exact .nil
  | cons hR _ ih =>
    cases hbc with
    | cons hS hrest => exact .cons (h _ _ _ hR hS) (ih hrest)

theorem Worn.trans {a b c : List Iterator} (hab : Worn a b) (hbc : Worn b c) : Worn a c :=
  forall₂_trans hab hbc (fun _ _ _ => Iterator.Wears.trans)

/-- What is worn is not new again. -/
theorem Worn.antisymm {a b : List Iterator} (hab : Worn a b) (hba : Worn b a) : a = b := by
  induction hab with
  | nil => rfl
  | cons hit _ ih =>
    cases hba with
    | cons hit' hrest =>
      rw [ih hrest]
      rcases hit with rfl | rfl
      · rfl
      · rcases hit' with heq | heq
        · rw [heq]
        · rw [heq]

/-- An iterator is spoiled by a change of its own list. -/
theorem Live.edit_spoiled (s : Live) (e : Edit) :
    List.Forall₂ (Iterator.SpoiledBy [e]) s.running (s.edit e).running := by
  unfold edit
  cases hhit : e.invalidates s.attached with
  | none => exact List.forall₂_same.mpr (fun _ _ => .inl rfl)
  | some hit =>
    obtain ⟨self, position⟩ := hit
    have hself := e.invalidates_holder hhit
    simp only [List.forall₂_map_right_iff, List.forall₂_same]
    intro it _
    unfold Iterator.hit
    split
    · rename_i h
      exact .inr ⟨rfl, e, List.mem_singleton_self e, (h.1.trans hself).symm⟩
    · exact .inl rfl

theorem edits_spoiled (edits : List Edit) (s : Live) :
    List.Forall₂ (Iterator.SpoiledBy edits) s.running (edits.foldl Live.edit s).running := by
  induction edits generalizing s with
  | nil => exact List.forall₂_same.mpr (fun _ _ => .inl rfl)
  | cons e edits ih =>
    exact forall₂_trans (s.edit_spoiled e) (ih (s.edit e)) (fun _ _ _ => Iterator.SpoiledBy.trans)

theorem edits_log (edits : List Edit) (s : Live) : (edits.foldl Live.edit s).log = s.log := by
  induction edits generalizing s with
  | nil => rfl
  | cons e edits ih => exact ih (s.edit e)

/-- No change puts a NULL into a list. -/
theorem ListOp.apply_noNull {a : Attachments} (ha : a.NoNull) (op : ListOp) :
    (op.apply a).NoNull := by
  have hset : ∀ self objects, none ∉ objects → (a.set self objects).NoNull := by
    intro self objects hobjects h
    by_cases hself : h = self
    · rw [hself, Attachments.set_self]
      exact hobjects
    · rw [a.set_of_ne objects hself]
      exact ha h
  cases op with
  | addOscObject self object =>
    cases object with
    | none => exact ha
    | some object => exact hset self _ (by simpa using ha self)
  | removeOscObject self object =>
    cases object with
    | none => exact ha
    | some object => exact hset self _ (fun hnull => ha self (List.mem_of_mem_erase hnull))
  | removeAllOscObjects self => exact hset self _ List.not_mem_nil

theorem edits_noNull {s : Live} (hs : s.attached.NoNull) (edits : List Edit) :
    (edits.foldl Live.edit s).attached.NoNull := by
  induction edits generalizing s with
  | nil => exact hs
  | cons e edits ih => exact ih (ListOp.apply_noNull hs e.op)

/-! ## How a dispatch ends -/

/-- A callback that spoiled a running iterator. -/
def Invocation.Spoils (c : Invocation) : Prop := c.after ≠ c.before

instance (c : Invocation) : Decidable c.Spoils := inferInstanceAs (Decidable (_ ≠ _))

section Ends

variable (cb : EditingCallbacks) (message : ReceivedMessage) (source : MessageSource)

/-- A call as the callbacks make it. It spoils an iterator only by a change of the list that the
iterator is in. -/
structure Invocation.Made (c : Invocation) : Prop where
  answer : ∃ earlier, cb.answer message source earlier c.holder = (c.accepted, c.edits)
  spoiled : List.Forall₂ (Iterator.SpoiledBy c.edits) c.before c.after

/-- The calls of callbacks that a part of a dispatch has made. -/
structure Live.Since (s s' : Live) (new : List Invocation) : Prop where
  log : s'.log = s.log ++ new
  made : ∀ c ∈ new, c.Made cb message source

/-- What the callbacks of a part of a dispatch have done when it ends. After a rejection the
running iterators tell whether one of them was spoiled. -/
def LiveEnd.Explained (s : Live) : LiveEnd → Prop
  | .returned false s' => s'.attached.NoNull ∧ Worn s.running s'.running ∧
      ∃ new, s.Since cb message source s' new ∧ (∀ c ∈ new, c.accepted = false) ∧
        (s'.running = s.running ↔ ∀ c ∈ new, ¬ c.Spoils)
  | .returned true s' => s'.attached.NoNull ∧ Worn s.running s'.running ∧
      ∃ new, s.Since cb message source s' new ∧ ∃ c ∈ new, c.accepted = true
  | .undefined s' => ∃ new, s.Since cb message source s' new ∧ (∀ c ∈ new, c.accepted = false) ∧
      ∃ c ∈ new, c.Spoils

variable {cb message source}

/-- A call that spoils an iterator has changed the list that the iterator is in. -/
theorem Invocation.Made.exists_of_spoils {c : Invocation} (h : c.Made cb message source)
    (hspoils : c.Spoils) : ∃ it ∈ c.before, ∃ e ∈ c.edits, e.op.holder = it.holder := by
  by_contra hnone
  have hother : ∀ it ∈ c.before, ¬ ∃ e ∈ c.edits, e.op.holder = it.holder :=
    fun it hit hedit => hnone ⟨it, hit, hedit⟩
  have hsame := ((List.forall₂_and_left _ _).mpr ⟨hother, h.spoiled⟩).imp (S := Eq)
    (fun it it' ⟨hit, hspoiled⟩ => (hspoiled.resolve_right (fun hedit => hit hedit.2)).symm)
  rw [List.forall₂_eq_eq_eq] at hsame
  exact hspoils hsame.symm

theorem Live.Since.trans {s s1 s2 : Live} {new new' : List Invocation}
    (h : s.Since cb message source s1 new) (h' : s1.Since cb message source s2 new') :
    s.Since cb message source s2 (new ++ new') := by
  refine ⟨by rw [h'.log, h.log, List.append_assoc], fun c hc => ?_⟩
  rcases List.mem_append.mp hc with hc | hc
  · exact h.made c hc
  · exact h'.made c hc

/-- The call of one callback. -/
theorem call_explained {s : Live} (hs : s.attached.NoNull) (self : Holder)
    {answer : Bool × List Edit}
    (hanswer : cb.answer message source s.dispatch.invoked self = answer) :
    LiveEnd.Explained cb message source s (.returned answer.1 (s.call self answer)) := by
  obtain ⟨accepted, edits⟩ := answer
  have hspoiled := edits_spoiled edits { s with dispatch := s.dispatch.invoke self }
  have hworn := hspoiled.imp (fun _ _ => Iterator.SpoiledBy.wears)
  have hlog := edits_log edits { s with dispatch := s.dispatch.invoke self }
  have hnull := edits_noNull (s := { s with dispatch := s.dispatch.invoke self }) hs edits
  have hsince : s.Since cb message source (s.call self (accepted, edits))
      [⟨self, accepted, edits, s.running, (s.call self (accepted, edits)).running⟩] := by
    refine ⟨by simp only [Live.call, hlog], ?_⟩
    simp only [List.mem_singleton, forall_eq]
    exact ⟨⟨_, hanswer⟩, hspoiled⟩
  cases accepted with
  | true => exact ⟨hnull, hworn, _, hsince, by simp⟩
  | false =>
    refine ⟨hnull, hworn, _, hsince, by simp, ?_⟩
    simp [Invocation.Spoils]

/-- A part that rejects, and then another. -/
theorem LiveEnd.Explained.after {s s1 : Live} {ended : LiveEnd}
    (hfirst : LiveEnd.Explained cb message source s (.returned false s1))
    (hrest : s1.attached.NoNull → LiveEnd.Explained cb message source s1 ended) :
    LiveEnd.Explained cb message source s ended := by
  obtain ⟨hnull, hworn, new, hnew, hrejected, hspoils⟩ := hfirst
  have hrest := hrest hnull
  match ended with
  | .undefined s' =>
    obtain ⟨new', hnew', hrejected', c, hc, hcspoils⟩ := hrest
    refine ⟨new ++ new', hnew.trans hnew', ?_, c, List.mem_append_right _ hc, hcspoils⟩
    simpa [or_imp, forall_and] using And.intro hrejected hrejected'
  | .returned true s' =>
    obtain ⟨hnull', hworn', new', hnew', c, hc, haccepted⟩ := hrest
    exact ⟨hnull', hworn.trans hworn', new ++ new', hnew.trans hnew', c,
      List.mem_append_right _ hc, haccepted⟩
  | .returned false s' =>
    obtain ⟨hnull', hworn', new', hnew', hrejected', hspoils'⟩ := hrest
    refine ⟨hnull', hworn.trans hworn', new ++ new', hnew.trans hnew', ?_, ?_⟩
    · simpa [or_imp, forall_and] using And.intro hrejected hrejected'
    · simp only [List.mem_append, or_imp, forall_and]
      rw [← hspoils, ← hspoils']
      constructor
      · -- an iterator that was spoiled first is still spoiled
        intro h
        have hsame : s1.running = s.running := (hworn.antisymm (h ▸ hworn')).symm
        exact ⟨hsame, h.trans hsame.symm⟩
      · rintro ⟨h, h'⟩
        exact h'.trans h

/-- Back in a loop: the iterator of the loop itself is no longer a running one. -/
theorem explained_leave {s s' : Live} {self : Holder} {iter object : Nat} {handled : Bool}
    (h : LiveEnd.Explained cb message source (s.enter self iter object) (.returned handled s'))
    (husable : handled = false → s'.usable = true) :
    LiveEnd.Explained cb message source s (.returned handled s'.leave) := by
  have htail : ∀ {its : List Iterator}, Worn (⟨self, iter, true⟩ :: s.running) its →
      Worn s.running its.tail := by
    intro its hworn
    cases hworn with
    | cons _ hrest => exact hrest
  cases handled with
  | true =>
    obtain ⟨hnull, hworn, new, hnew, haccepted⟩ := h
    exact ⟨hnull, htail hworn, new, ⟨hnew.log, hnew.made⟩, haccepted⟩
  | false =>
    obtain ⟨hnull, hworn, new, hnew, hrejected, hspoils⟩ := h
    refine ⟨hnull, htail hworn, new, ⟨hnew.log, hnew.made⟩, hrejected, ?_⟩
    rw [← hspoils]
    have husable := husable rfl
    obtain ⟨dispatch, running, log⟩ := s'
    cases hworn with
    | @cons _ top _ rest htop _ =>
      have hvalid : top.valid = true := by simpa [Live.usable] using husable
      have hsame : top = ⟨self, iter, true⟩ := by
        rcases htop with rfl | rfl
        · rfl
        · cases hvalid
      simp [Live.leave, Live.enter, hsame]

/-- Every dispatch that ends is explained by its callbacks. -/
theorem live_explained (fuel : Nat) :
    (∀ self iter s ended, liveObjects cb message source self fuel iter s = some ended →
      s.attached.NoNull → LiveEnd.Explained cb message source s ended) ∧
    (∀ object s ended, liveProcessOsc cb message source object fuel s = some ended →
      s.attached.NoNull → LiveEnd.Explained cb message source s ended) := by
  refine live_induction
    (L := fun _ _ s ended => s.attached.NoNull → LiveEnd.Explained cb message source s ended)
    (O := fun _ s ended => s.attached.NoNull → LiveEnd.Explained cb message source s ended)
    ?atEnd ?erased ?taken ?passed ?unusable ?inner ?below ?loop ?own fuel
  case atEnd =>
    intro self iter s _ hs
    exact ⟨hs, .refl _, [], ⟨by simp, by simp⟩, by simp, by simp⟩
  case erased =>
    intro self iter s ended hnull _ hs
    exact absurd (List.mem_of_getElem? hnull) (hs self)
  case taken =>
    intro self iter s object s' _ ho hs
    exact explained_leave (ho hs) (by simp)
  case passed =>
    intro self iter s object s' ended _ ho husable hrest hs
    exact (explained_leave (ho hs) (fun _ => husable)).after hrest
  case unusable =>
    intro self iter s object s' _ ho husable hs
    obtain ⟨_, hworn, new, hnew, hrejected, hspoils⟩ := ho hs
    refine ⟨new, ⟨hnew.log, hnew.made⟩, hrejected, ?_⟩
    by_contra hnone
    simp only [not_exists, not_and] at hnone
    -- then the iterator of this loop is as it was
    have hsame := hspoils.mpr hnone
    simp [Live.usable, hsame, Live.enter] at husable
  case inner =>
    intro self iter s object s' _ ho hs
    obtain ⟨new, hnew, hculprit⟩ := ho hs
    exact ⟨new, ⟨hnew.log, hnew.made⟩, hculprit⟩
  case below =>
    intro object s s' hloop
    exact hloop
  case loop =>
    intro object s s' hloop
    exact hloop
  case own =>
    intro object s s' hloop hs
    exact (hloop hs).after (fun hnull => call_explained hnull (.object object) rfl)

theorem processMessage_explained {self : OscReceiver} {fuel : Nat} {s : Live} {ended : LiveEnd}
    (h : liveProcessMessage cb message source self fuel s = some ended)
    (hs : s.attached.NoNull) (hself : self.m_ignoreMessages = false) :
    LiveEnd.Explained cb message source s ended := by
  unfold liveProcessMessage at h
  rw [hself] at h
  simp only [Bool.false_eq_true, if_false] at h
  split at h
  · rename_i s' hloop
    cases h
    have hends := (live_explained fuel).1 _ _ _ _ hloop hs
    exact hends.after (fun hnull => call_explained hnull .receiver rfl)
  · exact (live_explained fuel).1 _ _ _ _ h hs

/-- The whole dispatch of a message, seen from its log. -/
theorem processMessage_log {a : Attachments} (ha : a.NoNull) {self : OscReceiver} {fuel : Nat}
    {ended : LiveEnd} (h : liveProcessMessage cb message source self fuel (.start a) = some ended) :
    ((∃ s', ended = .undefined s') ↔
      (∀ c ∈ ended.state.log, c.accepted = false) ∧ ∃ c ∈ ended.state.log, c.Spoils) ∧
    ∀ c ∈ ended.state.log, c.Made cb message source := by
  cases hself : self.m_ignoreMessages with
  | true =>
    unfold liveProcessMessage at h
    rw [if_pos hself] at h
    cases h
    simp [LiveEnd.state, Live.start]
  | false =>
    have hlog : ∀ {s' new}, (Live.start a).Since cb message source s' new → s'.log = new := by
      intro s' new hnew
      exact hnew.log
    have hexplained := processMessage_explained h ha hself
    match ended with
    | .undefined s' =>
      obtain ⟨new, hnew, hculprit⟩ := hexplained
      rw [LiveEnd.state, hlog hnew]
      exact ⟨iff_of_true ⟨s', rfl⟩ hculprit, hnew.made⟩
    | .returned true s' =>
      obtain ⟨_, _, new, hnew, c, hc, haccepted⟩ := hexplained
      rw [LiveEnd.state, hlog hnew]
      refine ⟨iff_of_false (by simp) ?_, hnew.made⟩
      rintro ⟨hrejected, _⟩
      rw [hrejected c hc] at haccepted
      cases haccepted
    | .returned false s' =>
      obtain ⟨_, hworn, new, hnew, _, hspoils⟩ := hexplained
      rw [LiveEnd.state, hlog hnew]
      refine ⟨iff_of_false (by simp) ?_, hnew.made⟩
      rintro ⟨_, c, hc, hcspoils⟩
      -- no loop is running around the whole dispatch
      have hnone : s'.running = [] := List.forall₂_nil_left_iff.mp hworn
      exact hspoils.mp hnone c hc hcspoils

end Ends

/-! ## What callbacks may change -/

/-- The lists are built in any way, and the callbacks change them in any way during the dispatch
of a message. A dispatch that ends has used an invalid iterator exactly when no callback accepted
the message and one of them spoiled the iterator of a loop that was running. For each iterator
that a callback spoiled it has changed the list of that loop. -/
theorem a_dispatch_is_undefined_iff_rejected_with_a_spoiled_iterator (ops : List ListOp)
    (cb : EditingCallbacks) (message : ReceivedMessage) (source : MessageSource)
    (self : OscReceiver) (fuel : Nat) (ended : LiveEnd)
    (hended : liveProcessMessage cb message source self fuel
      (.start (run listStep Attachments.empty ops).state) = some ended) :
    ((∃ s', ended = .undefined s') ↔
      (∀ c ∈ ended.state.log, c.accepted = false) ∧ ∃ c ∈ ended.state.log, c.Spoils) ∧
    ∀ c ∈ ended.state.log, List.Forall₂
      (fun it it' => it' ≠ it → it' = { it with valid := false } ∧
        ∃ e ∈ c.edits, e.op.holder = it.holder) c.before c.after := by
  obtain ⟨hiff, hmade⟩ := processMessage_log (run_attached ops).no_null hended
  exact ⟨hiff, fun c hc => (hmade c hc).spoiled.imp (fun _ _ => Or.resolve_left)⟩

/-- Object 1 takes itself out of the list of the receiver and rejects the message. -/
def removesItself : EditingCallbacks :=
  ⟨fun _ _ _ _ => (false, [⟨.removeOscObject .receiver (some 1), false⟩]),
    fun _ _ _ => (false, [])⟩

/-- The receiver goes on with an iterator that is gone. -/
theorem removing_itself_and_rejecting_is_undefined :
    ∃ ended, liveProcessMessage removesItself ⟨[47], ⟨[], ⟨0, 1⟩⟩⟩ ⟨⟨cStr [], cStr []⟩⟩ .new 9
        (.start (run listStep Attachments.empty [.addOscObject .receiver (some 1)]).state) =
          some ended ∧
      (∃ s', ended = .undefined s') ∧
      (∀ c ∈ ended.state.log, c.accepted = false) ∧ ∃ c ∈ ended.state.log, c.Spoils := by
  refine ⟨_, rfl, ⟨_, rfl⟩, ?_⟩
  exact (a_dispatch_is_undefined_iff_rejected_with_a_spoiled_iterator
    [.addOscObject .receiver (some 1)] removesItself ⟨[47], ⟨[], ⟨0, 1⟩⟩⟩ ⟨⟨cStr [], cStr []⟩⟩
    .new 9 _ rfl).1.mp ⟨_, rfl⟩

/-- When only callbacks that accept change lists, they may change them in any way. -/
theorem changes_are_safe_in_callbacks_that_accept (ops : List ListOp) (cb : EditingCallbacks)
    (message : ReceivedMessage) (source : MessageSource) (self : OscReceiver)
    (hcb : ∀ h earlier, (cb.answer message source earlier h).1 = false →
      (cb.answer message source earlier h).2 = [])
    (fuel : Nat) (s' : Live) :
    liveProcessMessage cb message source self fuel
      (.start (run listStep Attachments.empty ops).state) ≠ some (.undefined s') := by
  intro h
  obtain ⟨hiff, hmade⟩ := processMessage_log (run_attached ops).no_null h
  obtain ⟨hrejected, c, hc, hspoils⟩ := hiff.mp ⟨s', rfl⟩
  obtain ⟨earlier, hanswer⟩ := (hmade c hc).answer
  obtain ⟨_, _, e, he, _⟩ := (hmade c hc).exists_of_spoils hspoils
  have hnone := hcb c.holder earlier
  rw [hanswer] at hnone
  have hempty : c.edits = [] := hnone (hrejected c hc)
  rw [hempty] at he
  exact List.not_mem_nil he

/-- Object 1 takes itself out of the list of the receiver and accepts the message. -/
def removesItselfAndAccepts : EditingCallbacks :=
  ⟨fun _ _ _ _ => (true, [⟨.removeOscObject .receiver (some 1), false⟩]),
    fun _ _ _ => (false, [])⟩

theorem removing_itself_and_accepting_is_safe :
    (∀ h earlier, (removesItselfAndAccepts.answer ⟨[47], ⟨[], ⟨0, 1⟩⟩⟩ ⟨⟨cStr [], cStr []⟩⟩
        earlier h).1 = false →
      (removesItselfAndAccepts.answer ⟨[47], ⟨[], ⟨0, 1⟩⟩⟩ ⟨⟨cStr [], cStr []⟩⟩ earlier h).2 = []) ∧
    ∀ fuel s', liveProcessMessage removesItselfAndAccepts ⟨[47], ⟨[], ⟨0, 1⟩⟩⟩
      ⟨⟨cStr [], cStr []⟩⟩ .new fuel
        (.start (run listStep Attachments.empty [.addOscObject .receiver (some 1)]).state) ≠
      some (.undefined s') := by
  have hcb : ∀ h earlier, (removesItselfAndAccepts.answer ⟨[47], ⟨[], ⟨0, 1⟩⟩⟩
      ⟨⟨cStr [], cStr []⟩⟩ earlier h).1 = false →
      (removesItselfAndAccepts.answer ⟨[47], ⟨[], ⟨0, 1⟩⟩⟩ ⟨⟨cStr [], cStr []⟩⟩ earlier h).2 =
        [] := by
    intro h earlier hrejected
    cases h with
    | receiver => rfl
    | object self => cases hrejected
  exact ⟨hcb, changes_are_safe_in_callbacks_that_accept _ _ _ _ _ hcb⟩

end osc
