-- Two kinds of callbacks for which a dispatch is like one without changes. Callbacks that
-- change nothing give the plain dispatch, and callbacks that only remove objects cannot
-- keep a message on its way.
import Lopack.DispatchTermination
import Lopack.ReentrancySafety

open calls graphs

namespace osc

/-! ## Callbacks that change nothing -/

/-- The callbacks of a program that does not touch the lists during a dispatch. -/
def EditingCallbacks.ofPlain (cb : Callbacks) : EditingCallbacks :=
  ⟨fun self message source earlier => (cb.processOscMessage self message source earlier, []),
    fun message source earlier => (cb.process message source earlier, [])⟩

/-- What the plain dispatch says about an end. -/
def LiveEnd.plain : LiveEnd → Option (Bool × Dispatch)
  | .returned handled s => some (handled, s.dispatch)
  | .undefined _ => none

/-- The plain dispatch and the one with iterators have the same result, and no iterator was
spoiled. -/
def Agrees (s : Live) (plain : Option (Bool × Dispatch)) (live : Option LiveEnd) : Prop :=
  match plain with
  | none => live = none
  | some (handled, d) => ∃ log, live = some (.returned handled ⟨d, s.running, log⟩)

theorem Dispatch.Follows.noNull {s s' : Dispatch} (h : s.Follows s') (hs : s.attached.NoNull) :
    s'.attached.NoNull :=
  fun self hnull => hs self ((h.lists self).subset hnull)

section Agreement

variable {cb : Callbacks} {message : ReceivedMessage} {source : MessageSource}

theorem live_agrees (fuel : Nat) :
    (∀ self iter s, s.attached.NoNull →
      Agrees s (processObjects cb message source self fuel iter s.dispatch)
        (liveObjects (.ofPlain cb) message source self fuel iter s)) ∧
    (∀ object s, s.attached.NoNull →
      Agrees s (OscObject.processOsc cb message source object fuel s.dispatch)
        (liveProcessOsc (.ofPlain cb) message source object fuel s)) := by
  induction fuel with
  | zero =>
    refine ⟨fun self iter s _ => ?_, fun object s _ => ?_⟩
    · simp [Agrees, processObjects, liveObjects]
    · simp [Agrees, OscObject.processOsc, liveProcessOsc]
  | succ fuel ih =>
    obtain ⟨ihLoop, ihObject⟩ := ih
    refine ⟨fun self iter s hs => ?_, fun object s hs => ?_⟩
    · unfold processObjects liveObjects Live.attached
      cases hentry : (s.dispatch.attached.m_objects self)[iter]? with
      | none => exact ⟨s.log, rfl⟩
      | some entry =>
        cases entry with
        | none => exact absurd (List.mem_of_getElem? hentry) (hs self)
        | some object =>
          have hobject := ihObject object (s.enter self iter object) hs
          simp only
          cases hplain : OscObject.processOsc cb message source object fuel
              (s.dispatch.pass self object) with
          | none =>
            have hlive : liveProcessOsc (.ofPlain cb) message source object fuel
                (s.enter self iter object) = none := by
              simpa [Agrees, Live.enter, hplain] using hobject
            simp [Agrees, hlive]
          | some result =>
            obtain ⟨handled, d⟩ := result
            obtain ⟨log, hlive⟩ : ∃ log, liveProcessOsc (.ofPlain cb) message source object fuel
                (s.enter self iter object) =
                  some (.returned handled ⟨d, (s.enter self iter object).running, log⟩) := by
              simpa [Agrees, Live.enter, hplain] using hobject
            simp only [hlive]
            cases handled with
            | true => exact ⟨log, rfl⟩
            | false =>
              have hfollows : (s.dispatch.pass self object).Follows d :=
                (process_follows fuel).2 _ _ _ _ hplain
              exact ihLoop self (iter + 1) ⟨d, s.running, log⟩ (hfollows.noNull hs)
    · unfold OscObject.processOsc liveProcessOsc
      have hloop := ihLoop (.object object) 0 s hs
      cases hplain : processObjects cb message source (.object object) fuel 0 s.dispatch with
      | none =>
        rw [hplain] at hloop
        simp only [Agrees] at hloop
        simp [Agrees, hloop]
      | some result =>
        obtain ⟨handled, d⟩ := result
        rw [hplain] at hloop
        obtain ⟨log, hlive⟩ := hloop
        rw [hlive]
        cases handled with
        | true => exact ⟨log, rfl⟩
        | false => exact ⟨_, rfl⟩

theorem processMessage_agrees {a : Attachments} (ha : a.NoNull) (self : OscReceiver)
    (fuel : Nat) :
    Agrees (.start a) (OscReceiver.processMessage cb message source self fuel (.start a))
      (liveProcessMessage (.ofPlain cb) message source self fuel (.start a)) := by
  unfold OscReceiver.processMessage liveProcessMessage
  split
  · exact ⟨[], rfl⟩
  · have hloop : Agrees (.start a) (processObjects cb message source .receiver fuel 0 (.start a))
        (liveObjects (.ofPlain cb) message source .receiver fuel 0 (.start a)) :=
      (live_agrees fuel).1 .receiver 0 (.start a) ha
    cases hplain : processObjects cb message source .receiver fuel 0 (.start a) with
    | none =>
      simp only [Agrees, Live.start, hplain] at hloop
      simp [Agrees, Live.start, hloop]
    | some result =>
      obtain ⟨handled, d⟩ := result
      simp only [Agrees, Live.start, hplain] at hloop
      obtain ⟨log, hlive⟩ := hloop
      simp only [Live.start, hlive]
      cases handled with
      | true => exact ⟨log, rfl⟩
      | false => exact ⟨_, rfl⟩

end Agreement

/-- Without changes in the callbacks the dispatch with iterators is the plain one: the same result
from the same fuel, and never an invalid iterator. -/
theorem dispatch_without_changes_is_the_plain_one (ops : List ListOp) (cb : Callbacks)
    (message : ReceivedMessage) (source : MessageSource) (self : OscReceiver) (fuel : Nat) :
    let a := (run listStep Attachments.empty ops).state
    (liveProcessMessage (.ofPlain cb) message source self fuel (.start a)).map LiveEnd.plain =
      (OscReceiver.processMessage cb message source self fuel (.start a)).map some := by
  intro a
  have hagrees : Agrees (.start a)
      (OscReceiver.processMessage cb message source self fuel (.start a))
      (liveProcessMessage (.ofPlain cb) message source self fuel (.start a)) :=
    processMessage_agrees (run_attached ops).no_null self fuel
  cases hplain : OscReceiver.processMessage cb message source self fuel (.start a) with
  | none =>
    rw [hplain] at hagrees
    simp only [Agrees] at hagrees
    rw [hagrees]
    rfl
  | some result =>
    rw [hplain] at hagrees
    obtain ⟨log, hlive⟩ := hagrees
    rw [hlive]
    rfl

/-! ## Callbacks that only remove objects -/

/-- Every change but the attachment of an object. -/
def Edit.Removes (e : Edit) : Prop := ∀ self object, e.op ≠ .addOscObject self (some object)

/-- The lists have lost entries at most. -/
def Attachments.Within (a a0 : Attachments) : Prop :=
  ∀ h, (a.m_objects h).Sublist (a0.m_objects h)

theorem Edit.Removes.within {e : Edit} (he : e.Removes) {a a0 : Attachments} (ha : a.Within a0) :
    (e.op.apply a).Within a0 := by
  have hset : ∀ self objects, List.Sublist objects (a.m_objects self) →
      (a.set self objects).Within a0 := by
    intro self objects hobjects h
    by_cases hself : h = self
    · rw [hself, Attachments.set_self]
      exact hobjects.trans (ha self)
    · rw [a.set_of_ne objects hself]
      exact ha h
  cases hop : e.op with
  | addOscObject self object =>
    cases object with
    | none => exact ha
    | some object => exact absurd hop (he self object)
  | removeOscObject self object =>
    cases object with
    | none => exact ha
    | some object => exact hset self _ List.erase_sublist
  | removeAllOscObjects self => exact hset self _ (List.nil_sublist _)

theorem edits_within {edits : List Edit} (hedits : ∀ e ∈ edits, e.Removes) {a0 : Attachments}
    {s : Live} (hs : s.attached.Within a0) : (edits.foldl Live.edit s).attached.Within a0 := by
  induction edits generalizing s with
  | nil => exact hs
  | cons e edits ih =>
    rw [List.forall_mem_cons] at hedits
    exact ih hedits.2 (hedits.1.within hs)

theorem Settles.of_succ {β : Type} {f : Nat → Option β} {b : β}
    (h : Settles (fun fuel => f (fuel + 1)) b) : Settles f b := by
  obtain ⟨n, hn⟩ := h
  refine ⟨n + 1, fun fuel hfuel => ?_⟩
  obtain ⟨fuel, rfl⟩ := Nat.exists_eq_add_of_le' (Nat.le_of_add_left_le hfuel)
  exact hn fuel (Nat.le_of_succ_le_succ hfuel)

section Removing

variable {cb : EditingCallbacks} {message : ReceivedMessage} {source : MessageSource}
  {a0 : Attachments}

/-- From all lists within those of `a0` the code ends, and leaves such lists. -/
def EndsWithin (a0 : Attachments) (f : Nat → Live → Option LiveEnd) : Prop :=
  ∀ s : Live, s.attached.Within a0 →
    ∃ ended, Settles (f · s) ended ∧ ended.state.attached.Within a0

/-- Each round of a loop moves its iterator on, and the list does not grow. -/
theorem liveObjects_endsWithin (ha0 : a0.NoNull) {h : Holder}
    (hbelow : ∀ object, some object ∈ a0.m_objects h →
      EndsWithin a0 (liveProcessOsc cb message source object))
    (rounds iter : Nat) (hrounds : (a0.m_objects h).length ≤ iter + rounds) :
    EndsWithin a0 (fun fuel s => liveObjects cb message source h fuel iter s) := by
  induction rounds generalizing iter with
  | zero =>
    intro s hs
    have hend : (s.attached.m_objects h)[iter]? = none := by
      rw [List.getElem?_eq_none_iff]
      exact (hs h).length_le.trans hrounds
    refine ⟨.returned false s, Settles.of_succ ⟨0, fun fuel _ => ?_⟩, hs⟩
    simp only [liveObjects, hend]
  | succ rounds ih =>
    intro s hs
    cases hentry : (s.attached.m_objects h)[iter]? with
    | none =>
      refine ⟨.returned false s, Settles.of_succ ⟨0, fun fuel _ => ?_⟩, hs⟩
      simp only [liveObjects, hentry]
    | some entry =>
      have hmem : entry ∈ a0.m_objects h := (hs h).subset (List.mem_of_getElem? hentry)
      cases entry with
      | none => exact absurd hmem (ha0 h)
      | some object =>
        obtain ⟨ended, ⟨n, hn⟩, hwithin⟩ := hbelow object hmem (s.enter h iter object) hs
        rcases ended with ⟨handled, s'⟩ | s'
        · by_cases hhandled : handled = true
          · subst hhandled
            refine ⟨.returned true s'.leave, Settles.of_succ ⟨n, fun fuel hfuel => ?_⟩, hwithin⟩
            simp only [liveObjects, hentry, hn fuel hfuel]
          rw [Bool.not_eq_true] at hhandled
          subst hhandled
          by_cases husable : s'.usable = true
          · obtain ⟨last, ⟨m, hm⟩, hlast⟩ := ih (iter + 1) (by omega) s'.leave hwithin
            refine ⟨last, Settles.of_succ ⟨max n m, fun fuel hfuel => ?_⟩, hlast⟩
            simp only [liveObjects, hentry, hn fuel (by omega), if_pos husable]
            exact hm fuel (by omega)
          · refine ⟨.undefined s', Settles.of_succ ⟨n, fun fuel hfuel => ?_⟩, hwithin⟩
            simp only [liveObjects, hentry, hn fuel hfuel, if_neg husable]
        · refine ⟨.undefined s', Settles.of_succ ⟨n, fun fuel hfuel => ?_⟩, hwithin⟩
          simp only [liveObjects, hentry, hn fuel hfuel]

/-- A loop that ends, and then the callback of its holder. -/
theorem endsWithin_call {h : Holder} {loop f : Nat → Live → Option LiveEnd}
    (hcb : ∀ earlier, ∀ e ∈ (cb.answer message source earlier h).2, e.Removes)
    (hloop : EndsWithin a0 loop)
    (hf : ∀ s ended, Settles (loop · s) ended → Settles (f · s) (match ended with
      | .returned false s' =>
        .returned (cb.answer message source s'.dispatch.invoked h).1
          (s'.call h (cb.answer message source s'.dispatch.invoked h))
      | ended => ended)) :
    EndsWithin a0 f := by
  intro s hs
  obtain ⟨ended, hsettles, hwithin⟩ := hloop s hs
  refine ⟨_, hf s ended hsettles, ?_⟩
  rcases ended with ⟨_ | _, s'⟩ | s'
  · exact edits_within (s := { s' with dispatch := s'.dispatch.invoke h })
      (hcb s'.dispatch.invoked) hwithin
  · exact hwithin
  · exact hwithin

theorem liveProcessOsc_endsWithin (ha0 : a0.NoNull)
    (hcb : ∀ h earlier, ∀ e ∈ (cb.answer message source earlier h).2, e.Removes)
    {object : Nat} (hends : Ends a0.next (.object object)) :
    EndsWithin a0 (liveProcessOsc cb message source object) := by
  -- the walks below an attached object end too, so the induction is on them
  generalize hh : Holder.object object = h at hends
  induction hends generalizing object with
  | intro h _ ih =>
    subst hh
    apply endsWithin_call (hcb (.object object)) (liveObjects_endsWithin ha0
      (fun below hbelow => ih _ (Attachments.mem_next hbelow) rfl) _ 0 (Nat.zero_add _).ge)
    rintro s ended ⟨n, hn⟩
    refine Settles.of_succ ⟨n, fun fuel hfuel => ?_⟩
    simp only [liveProcessOsc, hn fuel hfuel]
    rcases ended with ⟨_ | _, s'⟩ | s' <;> rfl

theorem liveProcessMessage_terminates (ha0 : a0.NoNull)
    (hcb : ∀ h earlier, ∀ e ∈ (cb.answer message source earlier h).2, e.Removes)
    (hends : Ends a0.next .receiver) (self : OscReceiver) :
    Terminates (liveProcessMessage cb message source self · (.start a0)) := by
  cases hself : self.m_ignoreMessages with
  | true =>
    refine ⟨.returned false (.start a0), 0, fun fuel _ => ?_⟩
    simp only [liveProcessMessage, hself, if_true]
  | false =>
    have hloop : EndsWithin a0 (liveProcessMessage cb message source self) := by
      apply endsWithin_call (hcb .receiver) (liveObjects_endsWithin ha0
        (fun below hbelow => liveProcessOsc_endsWithin ha0 hcb
          (hends.of_edge (Attachments.mem_next hbelow))) _ 0 (Nat.zero_add _).ge)
      rintro s ended ⟨n, hn⟩
      refine ⟨n, fun fuel hfuel => ?_⟩
      simp only [liveProcessMessage, hself, Bool.false_eq_true, if_false, hn fuel hfuel]
      rcases ended with ⟨_ | _, s'⟩ | s' <;> rfl
    obtain ⟨ended, hsettles, _⟩ := hloop (.start a0) (fun h => List.Sublist.refl _)
    exact ⟨ended, hsettles⟩

/-! ## The loops above a callback -/

/-- The lists lead from `above` down to `h`. -/
def Attachments.LeadsTo (a : Attachments) (above h : Holder) : Prop :=
  Relation.TransGen (Edge a.next) above h

/-- Every loop that was running around the call leads to the callback. -/
def Invocation.Led (a0 : Attachments) (c : Invocation) : Prop :=
  ∀ it ∈ c.before, a0.LeadsTo it.holder c.holder

/-- On the way to `h`, within the lists of `a0`. -/
structure Live.Led (a0 : Attachments) (s : Live) (h : Holder) : Prop where
  within : s.attached.Within a0
  running : ∀ it ∈ s.running, a0.LeadsTo it.holder h
  log : ∀ c ∈ s.log, c.Led a0

/-- The same loops are running. -/
def Live.SameLoops (s s' : Live) : Prop :=
  s'.running.map Iterator.holder = s.running.map Iterator.holder

/-- How a part for `h` ends. A part that returns leaves the loops around it running. -/
def LiveEnd.Led (a0 : Attachments) (s : Live) (h : Holder) : LiveEnd → Prop
  | .returned _ s' => s'.Led a0 h ∧ s.SameLoops s'
  | .undefined s' => ∀ c ∈ s'.log, c.Led a0

theorem LiveEnd.Led.log {s : Live} {h : Holder} {ended : LiveEnd} (hended : ended.Led a0 s h) :
    ∀ c ∈ ended.state.log, c.Led a0 := by
  cases ended with
  | returned handled s' => exact hended.1.log
  | undefined s' => exact hended

theorem Worn.sameHolders {before after : List Iterator} (h : Worn before after) :
    after.map Iterator.holder = before.map Iterator.holder := by
  induction h with
  | nil => rfl
  | cons hit _ ih => rcases hit with rfl | rfl <;> simp [ih]

theorem Live.SameLoops.leads {s s' : Live} {h : Holder} (hsame : s.SameLoops s')
    (hs : ∀ it ∈ s.running, a0.LeadsTo it.holder h) :
    ∀ it ∈ s'.running, a0.LeadsTo it.holder h := by
  intro it hit
  have hmem := List.mem_map_of_mem (f := Iterator.holder) hit
  rw [hsame] at hmem
  obtain ⟨it', hit', hholder⟩ := List.mem_map.mp hmem
  exact hholder ▸ hs it' hit'

theorem Live.Led.enter {s : Live} {h : Holder} {iter object : Nat} (hs : s.Led a0 h)
    (hobject : (s.attached.m_objects h)[iter]? = some (some object)) :
    (s.enter h iter object).Led a0 (.object object) := by
  have hedge : Edge a0.next h (.object object) :=
    Attachments.mem_next ((hs.within h).subset (List.mem_of_getElem? hobject))
  refine ⟨hs.within, ?_, hs.log⟩
  simp only [Live.enter, List.forall_mem_cons]
  exact ⟨.single hedge, fun it hit => (hs.running it hit).tail hedge⟩

theorem LiveEnd.Led.leave {s s' : Live} {h : Holder} {iter object : Nat} {handled : Bool}
    (hs : s.Led a0 h)
    (hended : (LiveEnd.returned handled s').Led a0 (s.enter h iter object) (.object object)) :
    s'.leave.Led a0 h ∧ s.SameLoops s'.leave := by
  have hsame : s.SameLoops s'.leave := by
    have htail := congrArg List.tail hended.2
    simpa [Live.SameLoops, Live.enter, Live.leave, List.map_tail] using htail
  exact ⟨⟨hended.1.within, hsame.leads hs.running, hended.1.log⟩, hsame⟩

/-- The callback of `h`, after its loop. -/
theorem LiveEnd.Led.call {s s' : Live} {h : Holder} {handled : Bool} {answer : Bool × List Edit}
    (hanswer : ∀ e ∈ answer.2, e.Removes) (hended : (LiveEnd.returned handled s').Led a0 s h) :
    (LiveEnd.returned answer.1 (s'.call h answer)).Led a0 s h := by
  obtain ⟨hs', hsame⟩ := hended
  have hworn := (edits_spoiled answer.2 { s' with dispatch := s'.dispatch.invoke h }).imp
    (fun _ _ => Iterator.SpoiledBy.wears)
  have hsame' : s'.SameLoops (s'.call h answer) := Worn.sameHolders hworn
  refine ⟨⟨?_, hsame'.leads hs'.running, ?_⟩, hsame'.trans hsame⟩
  · exact edits_within (s := { s' with dispatch := s'.dispatch.invoke h }) hanswer hs'.within
  · intro c hc
    simp only [Live.call, edits_log, List.mem_append, List.mem_singleton] at hc
    rcases hc with hc | rfl
    · exact hs'.log c hc
    · exact hs'.running

theorem live_led (ha0 : a0.NoNull)
    (hcb : ∀ h earlier, ∀ e ∈ (cb.answer message source earlier h).2, e.Removes) (fuel : Nat) :
    (∀ self iter s ended, liveObjects cb message source self fuel iter s = some ended →
      s.Led a0 self → ended.Led a0 s self) ∧
    (∀ object s ended, liveProcessOsc cb message source object fuel s = some ended →
      s.Led a0 (.object object) → ended.Led a0 s (.object object)) := by
  refine live_induction
    (L := fun self _ s ended => s.Led a0 self → ended.Led a0 s self)
    (O := fun object s ended => s.Led a0 (.object object) → ended.Led a0 s (.object object))
    ?atEnd ?erased ?taken ?passed ?unusable ?inner ?below ?loop ?own fuel
  case atEnd =>
    intro self iter s _ hs
    exact ⟨hs, rfl⟩
  case erased =>
    intro self iter s ended hnull _ hs
    exact absurd ((hs.within self).subset (List.mem_of_getElem? hnull)) (ha0 self)
  case taken =>
    intro self iter s object s' hobject ho hs
    exact LiveEnd.Led.leave hs (ho (hs.enter hobject))
  case passed =>
    intro self iter s object s' ended hobject ho _ hrest hs
    obtain ⟨hleave, hsame⟩ := LiveEnd.Led.leave hs (ho (hs.enter hobject))
    have hended := hrest hleave
    cases ended with
    | returned handled s'' => exact ⟨hended.1, hended.2.trans hsame⟩
    | undefined s'' => exact hended
  case unusable =>
    intro self iter s object s' hobject ho _ hs
    exact (ho (hs.enter hobject)).log
  case inner =>
    intro self iter s object s' hobject ho hs
    exact ho (hs.enter hobject)
  case below =>
    intro object s s' hloop hs
    exact hloop hs
  case loop =>
    intro object s s' hloop hs
    exact hloop hs
  case own =>
    intro object s s' hloop hs
    exact (hloop hs).call (hcb (.object object) _)

/-- In the dispatch of a message every callback is called inside of loops that lead to it. -/
theorem processMessage_led (ha0 : a0.NoNull)
    (hcb : ∀ h earlier, ∀ e ∈ (cb.answer message source earlier h).2, e.Removes)
    {self : OscReceiver} {fuel : Nat} {ended : LiveEnd}
    (h : liveProcessMessage cb message source self fuel (.start a0) = some ended) :
    ∀ c ∈ ended.state.log, c.Led a0 := by
  have hstart : (Live.start a0).Led a0 .receiver :=
    ⟨fun h => List.Sublist.refl _, by simp [Live.start], by simp [Live.start]⟩
  unfold liveProcessMessage at h
  split at h
  · cases h
    exact hstart.log
  · split at h
    · rename_i s' hloop
      cases h
      exact (((live_led ha0 hcb fuel).1 _ _ _ _ hloop hstart).call (hcb .receiver _)).log
    · exact ((live_led ha0 hcb fuel).1 _ _ _ _ h hstart).log

end Removing

/-- Callbacks may remove objects from any list during a dispatch, and no cycle can be reached from
the receiver at the start. Then the dispatch of every message returns, or it uses an invalid
iterator after every callback rejected the message and one of them spoiled a running iterator. It
returns when no callback that rejects removes from a list that leads to it. -/
theorem a_dispatch_with_removals_returns (ops : List ListOp) (cb : EditingCallbacks)
    (message : ReceivedMessage) (source : MessageSource) (self : OscReceiver)
    (hcb : ∀ h earlier, ∀ e ∈ (cb.answer message source earlier h).2, e.Removes)
    (hacyclic : AcyclicFrom (run listStep Attachments.empty ops).state.next .receiver) :
    let a := (run listStep Attachments.empty ops).state
    ((∃ handled s', Settles (liveProcessMessage cb message source self · (.start a))
        (.returned handled s')) ∨
      ∃ s', Settles (liveProcessMessage cb message source self · (.start a)) (.undefined s') ∧
        (∀ c ∈ s'.log, c.accepted = false) ∧ ∃ c ∈ s'.log, c.Spoils) ∧
    ((∀ h earlier, (cb.answer message source earlier h).1 = false →
        ∀ e ∈ (cb.answer message source earlier h).2, ¬ a.LeadsTo e.op.holder h) →
      ∃ handled s', Settles (liveProcessMessage cb message source self · (.start a))
        (.returned handled s')) := by
  intro a
  have ha : a.Attached := run_attached ops
  obtain ⟨ended, hsettles⟩ :=
    liveProcessMessage_terminates ha.no_null hcb (ends_of_acyclic ha.finite hacyclic) self
  obtain ⟨n, hn⟩ := hsettles
  obtain ⟨hiff, hmade⟩ := processMessage_log ha.no_null (hn n le_rfl)
  have hled := processMessage_led ha.no_null hcb (hn n le_rfl)
  cases ended with
  | returned handled s' => exact ⟨.inl ⟨handled, s', n, hn⟩, fun _ => ⟨handled, s', n, hn⟩⟩
  | undefined s' =>
    obtain ⟨hrejected, c, hc, hspoils⟩ := hiff.mp ⟨s', rfl⟩
    refine ⟨.inr ⟨s', ⟨n, hn⟩, hrejected, c, hc, hspoils⟩, fun hbelow => ?_⟩
    -- the culprit has changed the list of a loop around it
    obtain ⟨earlier, hanswer⟩ := (hmade c hc).answer
    obtain ⟨it, hit, e, he, hholder⟩ := (hmade c hc).exists_of_spoils hspoils
    have hnot := hbelow c.holder earlier
    rw [hanswer] at hnot
    exact absurd (hholder ▸ hled c hc it hit) (hnot (hrejected c hc) e he)

/-- Object 1 detaches everything from itself and rejects the message. -/
def clearsItself : EditingCallbacks :=
  ⟨fun self _ _ _ => (false, if self = 1 then [⟨.removeAllOscObjects (.object 1), false⟩] else []),
    fun _ _ _ => (false, [])⟩

theorem clearing_the_own_list_lets_the_dispatch_return :
    (∀ h earlier, ∀ e ∈ (clearsItself.answer ⟨[47], ⟨[], ⟨0, 1⟩⟩⟩ ⟨⟨cStr [], cStr []⟩⟩ earlier h).2,
      e.Removes) ∧
    AcyclicFrom (run listStep Attachments.empty sharedObject).state.next .receiver ∧
    ∃ handled s', Settles (liveProcessMessage clearsItself ⟨[47], ⟨[], ⟨0, 1⟩⟩⟩
      ⟨⟨cStr [], cStr []⟩⟩ .new · (.start (run listStep Attachments.empty sharedObject).state))
        (.returned handled s') := by
  have hedits : ∀ h earlier, ∀ e ∈ (clearsItself.answer ⟨[47], ⟨[], ⟨0, 1⟩⟩⟩ ⟨⟨cStr [], cStr []⟩⟩
      earlier h).2, h = .object 1 ∧ e = ⟨.removeAllOscObjects (.object 1), false⟩ := by
    intro h earlier e he
    cases h with
    | receiver => cases he
    | object self =>
      by_cases hself : self = 1
      · subst hself
        exact ⟨rfl, List.mem_singleton.mp he⟩
      · simp [EditingCallbacks.answer, clearsItself, hself] at he
  have hcb : ∀ h earlier, ∀ e ∈ (clearsItself.answer ⟨[47], ⟨[], ⟨0, 1⟩⟩⟩ ⟨⟨cStr [], cStr []⟩⟩
      earlier h).2, e.Removes := by
    intro h earlier e he self object hop
    rw [(hedits h earlier e he).2] at hop
    cases hop
  refine ⟨hcb, sharedObject_acyclic,
    (a_dispatch_with_removals_returns _ _ _ _ _ hcb sharedObject_acyclic).2 ?_⟩
  intro h earlier _ e he
  obtain ⟨rfl, rfl⟩ := hedits h earlier e he
  -- object 1 is below the receiver, and not below itself
  exact sharedObject_acyclic _ (.single (List.mem_cons_self ..))

end osc
