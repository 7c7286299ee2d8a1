-- How a call on a draft can end, said once: which guard lets it return and with
-- what draft, which one makes it throw, and when it has no defined behaviour.
import Lopack.SenderRefinement

open calls rose linked store

namespace osc

variable [LibloApi]

/-- `d.Ends op o`: the call `op` on the draft `d` ends as `o`. -/
inductive Draft.Ends (d : Draft) : Op → Draft.Result → Prop
  | setup (address : Str) (port : UInt32) :
      Ends d (.setup address port) (.returned () (d.setup address port))
  | send {address : lo_address} {t : HeldPacket} : d.address = some address →
      d.bundleOpen = false → d.messageOpen = false → d.outgoing = some t →
      Ends d .send (.returned () { d.clear with sent := d.sent ++ [(address, t)] })
  | sendThrows : (d.address = none ∨ d.bundleOpen = true ∨ d.messageOpen = true ∨
      d.outgoing = none) → Ends d .send (.threw .SendException d)
  | clear : Ends d .clear (.returned () d.clear)
  | beginMessage (pattern : Str) : d.messageOpen = false →
      Ends d (.beginMessage pattern) (.returned () { d with
        slot := some (d.nextMessage, [])
        messageOpen := true
        pattern := pattern
        nextMessage := d.nextMessage + 1 })
  | beginMessageThrows (pattern : Str) : d.messageOpen = true →
      Ends d (.beginMessage pattern) (.threw .MessageInProgressException d)
  | add (var : Add) {x : lo_arg} {m : Nat} {args : List lo_arg} : d.messageOpen = true →
      var.arg = .ok x → d.slot = some (m, args) →
      Ends d (.add var) (.returned () { d with slot := some (m, args ++ [x]) })
  | addThrows (var : Add) : d.messageOpen = false →
      Ends d (.add var) (.threw .MessageNotInProgressException d)
  | addUndefined (var : Add) {u : Undefined} : d.messageOpen = true → var.arg = .error u →
      Ends d (.add var) (.undefined u)
  | addNull (var : Add) : d.messageOpen = true → d.slot = none →
      Ends d (.add var) (.undefined .nullMessage)
  | endInBundle {f : BundleFrame} {fs : List BundleFrame} : d.messageOpen = true →
      d.bundleOpen = true → d.path = f :: fs → Ends d .endMessage (.returned () (d.place f fs))
  | endAlone : d.messageOpen = true → d.bundleOpen = false →
      Ends d .endMessage (.returned () { d with messageOpen := false })
  | endMessageThrows : d.messageOpen = false →
      Ends d .endMessage (.threw .MessageNotInProgressException d)
  | endNoBundle : d.messageOpen = true → d.bundleOpen = true → d.path = [] →
      Ends d .endMessage (.undefined .emptyBack)
  | beginBundle : d.bundleOpen = false →
      Ends d .beginBundle (.returned () (d.openBundle LO_TT_IMMEDIATE))
  | beginBundleThrows : d.bundleOpen = true →
      Ends d .beginBundle (.threw .MessageInProgressException d)
  | beginBundleAt (tag : TimeTag) : d.messageOpen = false →
      Ends d (.beginBundleAt tag) (.returned () (d.openBundle tag.tag))
  | beginBundleAtThrows (tag : TimeTag) : d.messageOpen = true →
      Ends d (.beginBundleAt tag) (.threw .MessageInProgressException d)
  | endInner {f g : BundleFrame} {fs : List BundleFrame} : d.bundleOpen = true →
      d.path = f :: g :: fs → Ends d .endBundle
        (.returned () { d with path := g.add (.node f.label f.closed) :: fs })
  | endRoot : d.bundleOpen = true → d.path.length ≤ 1 →
      Ends d .endBundle (.returned () { d with bundleOpen := false })
  | endBundleThrows : d.bundleOpen = false →
      Ends d .endBundle (.threw .BundleNotInProgressException d)
  | stream (item : Item) : Ends d (.stream item) (.undefined .nullText)

namespace Draft

theorem send_ends (d : Draft) : d.Ends .send d.send := by
  unfold send
  cases ha : d.address with
  | none => exact .sendThrows (.inl ha)
  | some address =>
    simp only
    split
    · rename_i hflags
      rcases Bool.or_eq_true _ _ ▸ hflags with hb | hm
      · exact .sendThrows (.inr (.inl hb))
      · exact .sendThrows (.inr (.inr (.inl hm)))
    · rename_i hflags
      obtain ⟨hb, hm⟩ : d.bundleOpen = false ∧ d.messageOpen = false := by simpa using hflags
      cases ho : d.outgoing with
      | none => exact .sendThrows (.inr (.inr (.inr ho)))
      | some t => exact .send ha hb hm ho

theorem add_ends (d : Draft) (var : Add) : d.Ends (.add var) (d.add var.arg) := by
  unfold add
  by_cases hm : d.messageOpen = true
  · rw [if_neg (by simp [hm])]
    split
    · exact .addUndefined var hm ‹_›
    · rename_i x ha
      split
      · exact .addNull var hm ‹_›
      · exact .add var hm ha ‹_›
  · rw [Bool.not_eq_true] at hm
    rw [if_pos (by simp [hm])]
    exact .addThrows var hm

theorem endMessage_ends (d : Draft) : d.Ends .endMessage d.endMessage := by
  unfold endMessage
  by_cases hm : d.messageOpen = true
  · rw [if_neg (by simp [hm])]
    by_cases hb : d.bundleOpen = true
    · rw [if_pos hb]
      split
      · exact .endNoBundle hm hb ‹_›
      · exact .endInBundle hm hb ‹_›
    · rw [if_neg hb]
      exact .endAlone hm (Bool.eq_false_iff.mpr hb)
  · rw [Bool.not_eq_true] at hm
    rw [if_pos (by simp [hm])]
    exact .endMessageThrows hm

theorem endBundle_ends (d : Draft) : d.Ends .endBundle d.endBundle := by
  unfold endBundle
  by_cases hb : d.bundleOpen = true
  · rw [if_neg (by simp [hb])]
    split
    · exact .endInner hb ‹_›
    · rename_i hp
      refine .endRoot hb ?_
      rcases hd : d.path with _ | ⟨f, _ | ⟨g, fs⟩⟩
      · simp
      · simp
      · exact absurd hd (hp f g fs)
  · rw [Bool.not_eq_true] at hb
    rw [if_pos (by simp [hb])]
    exact .endBundleThrows hb

/-- Every call ends in one of these ways. -/
theorem step_ends (d : Draft) (op : Op) : d.Ends op.direct (d.step op) := by
  unfold step
  cases op.direct with
  | setup address port => exact .setup address port
  | send => exact d.send_ends
  | clear => exact .clear
  | beginMessage pattern =>
    simp only [beginMessage]
    split
    · exact .beginMessageThrows pattern ‹_›
    · exact .beginMessage pattern (Bool.eq_false_iff.mpr ‹_›)
  | add var => exact d.add_ends var
  | endMessage => exact d.endMessage_ends
  | beginBundle =>
    simp only [beginBundle]
    split
    · exact .beginBundleThrows ‹_›
    · exact .beginBundle (Bool.eq_false_iff.mpr ‹_›)
  | beginBundleAt tag =>
    simp only [beginBundleAt]
    split
    · exact .beginBundleAtThrows tag ‹_›
    · exact .beginBundleAt tag (Bool.eq_false_iff.mpr ‹_›)
  | endBundle => exact d.endBundle_ends
  | stream item => exact .stream item

end Draft

end osc
