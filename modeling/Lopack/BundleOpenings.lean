-- The three ways to open a bundle that is due at once. `beginBundle()` looks at the
-- bundle flag where the other two look at the message flag, so one can stand for
-- another only where the two flags are equal.
import Lopack.SenderFlags

open calls rose linked store

namespace osc

/-! ## The three ways -/

/-- `TimeTag` with the tag `LO_TT_IMMEDIATE`. -/
def TimeTag.immediate : TimeTag := ⟨LO_TT_IMMEDIATE⟩

/-- `beginBundle()`, `beginBundle(tag)` and `<< BeginBundle(tag)` with the immediate tag. -/
def openings : List Op :=
  [.beginBundle, .beginBundleAt TimeTag.immediate, .stream (.BeginBundle TimeTag.immediate)]

/-- The three have the same outcome. -/
def OpeningsAgree [LibloApi] (w : World) : Prop :=
  ∀ a ∈ openings, ∀ b ∈ openings, step w a = step w b

/-- The flags that the guards read have the same value. -/
def OscSender.FlagsEqual (s : OscSender) : Prop := s.m_messageInProgress = s.m_bundleInProgress

instance (s : OscSender) : Decidable s.FlagsEqual := inferInstanceAs (Decidable (_ = _))

theorem step_beginBundle [LibloApi] (w : World) : step w .beginBundle =
    if w.sender.m_bundleInProgress then .threw .MessageInProgressException w
    else OscSender.openBundle LO_TT_IMMEDIATE w := by
  unfold step Op.method OscSender.beginBundle
  rw [bind_of_returned _ (read_exec w), code_ite, raise_exec]

theorem step_beginBundleAt [LibloApi] (w : World) (tag : TimeTag) : step w (.beginBundleAt tag) =
    if w.sender.m_messageInProgress then .threw .MessageInProgressException w
    else OscSender.openBundle tag.tag w := by
  unfold step Op.method OscSender.beginBundleAt
  rw [bind_of_returned _ (read_exec w), code_ite, raise_exec]

/-- A guard in front of code that does not throw. -/
theorem guard_threw_iff {x : Method Unit} (hx : x.NoThrow) (b : Bool) (e : OscException)
    (w : World) : (if b then .threw e w else x w : Outcome _ _ _ _).Threw ↔ b = true := by
  split
  · rename_i hb
    simp [hb]
  · rename_i hb
    refine iff_of_false ?_ hb
    cases ho : x w with
    | returned a w' => simp
    | threw e' w' => exact absurd ho (hx w e' w')
    | undefined u => simp

theorem beginBundle_threw_iff [LibloApi] (w : World) :
    (step w .beginBundle).Threw ↔ w.sender.m_bundleInProgress = true := by
  rw [step_beginBundle]
  exact guard_threw_iff (noThrow_openBundle _) _ _ _

theorem beginBundleAt_threw_iff [LibloApi] (w : World) (tag : TimeTag) :
    (step w (.beginBundleAt tag)).Threw ↔ w.sender.m_messageInProgress = true := by
  rw [step_beginBundleAt]
  exact guard_threw_iff (noThrow_openBundle _) _ _ _

/-- With equal flags the three calls run the same code. -/
theorem step_of_flagsEqual [LibloApi] {w : World} (h : w.sender.FlagsEqual) {op : Op}
    (hop : op ∈ openings) :
    step w op = step w .beginBundle := by
  have hat : step w (.beginBundleAt TimeTag.immediate) = step w .beginBundle := by
    rw [step_beginBundle, step_beginBundleAt, h]
    rfl
  simp only [openings, List.mem_cons, List.not_mem_nil, or_false] at hop
  rcases hop with rfl | rfl | rfl
  · rfl
  · exact hat
  · exact hat

/-- When the other two throw where `beginBundle()` does, the flags are equal. -/
theorem flagsEqual_of_threw [LibloApi] {w : World}
    (h : (step w (.beginBundleAt TimeTag.immediate)).Threw ↔ (step w .beginBundle).Threw) :
    w.sender.FlagsEqual := by
  rw [beginBundle_threw_iff, beginBundleAt_threw_iff] at h
  exact Bool.eq_iff_iff.mpr h

theorem openingsAgree_iff [LibloApi] (w : World) : OpeningsAgree w ↔ w.sender.FlagsEqual := by
  constructor
  · intro h
    apply flagsEqual_of_threw
    rw [h _ (by simp [openings]) .beginBundle (by simp [openings])]
  · intro h a ha b hb
    rw [step_of_flagsEqual h ha, step_of_flagsEqual h hb]

/-! ## In a run -/

/-- The call may be replaced: by itself, and an opening by another opening. -/
def Op.Swaps (op op' : Op) : Prop := op' = op ∨ op ∈ openings ∧ op' ∈ openings

/-- Replacing openings by others, anywhere in the calls, changes neither which calls throw nor
the packets sent. -/
def Interchangeable [LibloApi] (w : World) (ops : List Op) : Prop :=
  ∀ ops', List.Forall₂ Op.Swaps ops ops' →
    (run step w ops').trace.map (fun c => decide c.outcome.Threw) =
        (run step w ops).trace.map (fun c => decide c.outcome.Threw) ∧
      packets (run step w ops').state = packets (run step w ops).state

theorem interchangeable_of_flagsEqual [LibloApi] {w : World} {ops : List Op}
    (h : ∀ c ∈ (run step w ops).trace, c.op ∈ openings → c.before.sender.FlagsEqual) :
    Interchangeable w ops := by
  intro ops' hswap
  have hcourse := run_swap step hswap (fun c hc op' hop => by
    rcases hop with rfl | ⟨hop, hop'⟩
    · rfl
    · rw [step_of_flagsEqual (h c hc hop) hop, step_of_flagsEqual (h c hc hop) hop'])
  refine ⟨?_, by rw [hcourse.state]⟩
  have hthrew := congrArg (List.map (fun o => decide (Outcome.Threw o))) hcourse.outcomes
  rw [List.map_map, List.map_map] at hthrew
  exact hthrew

theorem flagsEqual_of_interchangeable [LibloApi] {w : World} {ops : List Op}
    (h : Interchangeable w ops) {c : SenderCall} (hc : c ∈ (run step w ops).trace)
    (hop : c.op ∈ openings) : c.before.sender.FlagsEqual := by
  obtain ⟨q, op, rest, hops, hopen, hcall⟩ := mem_trace step hc
  rw [hcall] at hop ⊢
  -- the call of this place against each opening in its place
  have hthrew : ∀ op' ∈ openings,
      ((step (run step w q).state op').Threw ↔ (step (run step w q).state op).Threw) := by
    intro op' hop'
    have hswap : List.Forall₂ Op.Swaps ops (q ++ op' :: rest) := by
      rw [hops]
      refine List.rel_append ?_ (.cons (.inr ⟨hop, hop'⟩) ?_)
      · exact List.forall₂_same.mpr (fun x _ => .inl rfl)
      · exact List.forall₂_same.mpr (fun x _ => .inl rfl)
    have hsame := (h _ hswap).1
    rw [hops] at hsame
    exact decide_eq_decide.mp (swap_shows step (fun o => decide (Outcome.Threw o)) hopen hsame)
  apply flagsEqual_of_threw
  rw [hthrew _ (by simp [openings]), hthrew .beginBundle (by simp [openings])]

/-- In every state that a run reaches, the three ways to open a bundle have the same outcome
exactly when the message flag equals the bundle flag. And in every run they are
interchangeable exactly when each of them is called with the two flags equal. -/
theorem openings_agree_iff_the_flags_are_equal [LibloApi] (address : Option (Str × UInt32))
    (ops : List Op) :
    (∀ q, q <+: ops → (OpeningsAgree (run step (constructed address) q).state ↔
        (run step (constructed address) q).state.sender.FlagsEqual)) ∧
      (Interchangeable (constructed address) ops ↔
        ∀ c ∈ (run step (constructed address) ops).trace, c.op ∈ openings →
          c.before.sender.FlagsEqual) :=
  ⟨fun _ _ => openingsAgree_iff _,
    fun h _ hc hop => flagsEqual_of_interchangeable h hc hop, interchangeable_of_flagsEqual⟩

/-- A bundle in a bundle. `beginBundle()` throws, `beginBundle(tag)` opens it. -/
theorem a_nested_beginBundle_throws :
    (run step (constructed none) [.beginBundle, .beginBundle]).trace.map
        (fun c => decide c.outcome.Threw) = [true, false] ∧
      (run step (constructed none)
          [.beginBundle, .beginBundleAt TimeTag.immediate]).trace.map
        (fun c => decide c.outcome.Threw) = [false, false] ∧
      ¬ OpeningsAgree (run step (constructed none) [.beginBundle]).state := by
  refine ⟨rfl, rfl, ?_⟩
  rw [openingsAgree_iff]
  decide

end osc
