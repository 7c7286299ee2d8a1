-- The two flags of the sender. A message in progress should have a message, and a
-- bundle in progress should have an open bundle. `clear()` leaves the flags as
-- they are, so this holds as long as `clear()` is not called while building.
import Lopack.DraftCalls
import Lopack.FailedCalls

open calls rose linked store

namespace osc

/-- One call of a run of the sender. -/
abbrev SenderCall := Call OscException Undefined World Op

/-- A run of the sender. -/
abbrev SenderRun := Run OscException Undefined World Op

/-! ## The flags and what they stand for -/

/-- A message in progress has a message, and a bundle in progress has a bundle. -/
def OscSender.FlagsSound (s : OscSender) : Prop :=
  (s.m_messageInProgress = true → s.m_message ≠ none) ∧
    (s.m_bundleInProgress = true → s.m_bundles ≠ [])

instance (s : OscSender) : Decidable s.FlagsSound :=
  inferInstanceAs (Decidable (_ ∧ _))

def Draft.FlagsSound (d : Draft) : Prop :=
  (d.messageOpen = true → d.slot ≠ none) ∧ (d.bundleOpen = true → d.path ≠ [])

theorem members_flagsSound (d : Draft) : d.members.FlagsSound ↔ d.FlagsSound := by
  simp [OscSender.FlagsSound, Draft.FlagsSound, Draft.members]

/-- The values that an `add*` method cannot take are NULL texts and empty or too long blobs. -/
theorem Add.arg_error [LibloApi] {var : Add} {u : Undefined} (h : var.arg = .error u) :
    u = .nullText ∨ u = .nullBlob := by
  cases var with
  | cString s => cases s <;> simp_all [Add.arg]
  | symbol s =>
    obtain ⟨value⟩ := s
    cases value <;> simp_all [Add.arg]
  | blob b =>
    simp only [Add.arg] at h
    split at h <;> simp_all
  | _ => simp [Add.arg] at h

/-- With sound flags no call meets a NULL message or an empty vector. -/
theorem Draft.FlagsSound.defined [LibloApi] {d : Draft} (h : d.FlagsSound) {op : Op}
    {o : Draft.Result} (ho : d.Ends op o) :
    o ≠ .undefined .nullMessage ∧ o ≠ .undefined .emptyBack := by
  obtain ⟨hmessage, hbundle⟩ := h
  cases ho with
  | addUndefined var hm ha =>
    rcases Add.arg_error ha with rfl | rfl
    · simp
    · simp
  | addNull var hm hs => exact absurd hs (hmessage hm)
  | endNoBundle hm hb hp => exact absurd hp (hbundle hb)
  | _ => simp

/-- With sound flags every call but `clear()` keeps them sound, and `clear()` does so when both
are down. -/
theorem Draft.FlagsSound.next [LibloApi] {d d' : Draft} (h : d.FlagsSound) {op : Op}
    {o : Draft.Result} (ho : d.Ends op o) (hd' : o.state? = some d') :
    d'.FlagsSound ↔ (op = .clear → d.messageOpen = false ∧ d.bundleOpen = false) := by
  have hkept := h
  obtain ⟨hmessage, hbundle⟩ := h
  cases ho with
  | clear =>
    cases hd'
    simp [Draft.FlagsSound, Draft.clear]
  | send ha hb hm ht =>
    cases hd'
    simp [Draft.FlagsSound, Draft.clear, hb, hm]
  | endInner hb hp =>
    cases hd'
    simpa [Draft.FlagsSound] using hmessage
  | endInBundle hm hb hp =>
    cases hd'
    simp [Draft.FlagsSound, Draft.place]
  | endAlone hm hb =>
    cases hd'
    simp [Draft.FlagsSound, hb]
  | endRoot hb hp =>
    cases hd'
    simpa [Draft.FlagsSound] using hmessage
  | beginMessage pattern hm =>
    cases hd'
    simpa [Draft.FlagsSound] using hbundle
  | beginBundle hb =>
    cases hd'
    simpa [Draft.FlagsSound, Draft.openBundle] using hmessage
  | beginBundleAt tag hm =>
    cases hd'
    simp [Draft.FlagsSound, Draft.openBundle, hm]
  | add var hm ha hs =>
    cases hd'
    simpa [Draft.FlagsSound] using hbundle
  | setup address port =>
    cases hd'
    simpa [Draft.FlagsSound, Draft.setup] using hkept
  | _ =>
    cases hd'
    all_goals simpa using hkept

/-! ## Over every run -/

/-- One call from a state with sound flags. -/
theorem step_flagsSound [LibloApi] {w : World} {d : Draft} (h : Refines w d)
    (hf : w.sender.FlagsSound) (op : Op) :
    (step w op ≠ .undefined .nullMessage ∧ step w op ≠ .undefined .emptyBack) ∧
      (((step w op).state?.getD w).sender.FlagsSound ↔ (op = .clear →
        w.sender.m_messageInProgress = false ∧ w.sender.m_bundleInProgress = false)) := by
  have hm := step_refines w d op h
  have hends := d.step_ends op
  have hflags := hf
  rw [h.members, members_flagsSound] at hflags
  refine ⟨?_, ?_⟩
  · simp only [ne_eq, hm.undefined_iff]
    exact hflags.defined hends
  cases ho : (step w op).state? with
  | none =>
    -- `clear()` always returns here, so this is another call
    have hother : op ≠ .clear := by
      rintro rfl
      exact absurd (hm.state_none ho) (by simp [Draft.step, Op.direct])
    simpa [hother] using hf
  | some w' =>
    obtain ⟨d', hd', hr'⟩ := hm.of_state ho
    have hnext := hflags.next hends hd'
    rw [direct_clear_iff] at hnext
    rw [Option.getD_some, hr'.members, members_flagsSound, hnext, h.members]
    rfl

/-- The flags are sound in the last state, and no call so far handed a NULL message to liblo or
took the back of an empty vector. -/
def FlagsSoundIn (r : SenderRun) : Prop :=
  r.state.sender.FlagsSound ∧
    ∀ c ∈ r.trace, c.outcome ≠ .undefined .nullMessage ∧ c.outcome ≠ .undefined .emptyBack

/-- In a run of any calls the flags are sound in every state reached exactly when `clear()` is
never called with a message or a bundle in progress. -/
theorem flags_are_sound_iff_no_clear_while_building [LibloApi] (address : Option (Str × UInt32))
    (ops : List Op) :
    (∀ q, q <+: ops → FlagsSoundIn (run step (constructed address) q)) ↔
      ∀ c ∈ (run step (constructed address) ops).trace, c.op = .clear →
        c.before.sender.m_messageInProgress = false ∧
        c.before.sender.m_bundleInProgress = false := by
  apply always_iff step (C := fun c => c.op = .clear →
    c.before.sender.m_messageInProgress = false ∧ c.before.sender.m_bundleInProgress = false)
  · refine ⟨?_, by simp⟩
    rcases address with _ | ⟨a, p⟩
    · simp [OscSender.FlagsSound, constructed, OscSender.new]
    · simp [OscSender.FlagsSound, constructed, OscSender.new]
  intro ops op he hP _
  obtain ⟨d, hd⟩ := run_refines address ops
  obtain ⟨hflags, htrace⟩ := hP ops (List.prefix_refl _)
  generalize run step (constructed address) ops = r at *
  obtain ⟨hdef, hnext⟩ := step_flagsSound hd hflags op
  rw [Run.call_of_open step he, FlagsSoundIn, List.forall_mem_cons]
  constructor
  · rintro ⟨hsound, _⟩
    exact hnext.mp hsound
  · intro hc
    exact ⟨hnext.mpr hc, hdef, htrace⟩

/-- `beginMessage("/a")` and then `clear()`: the message is freed but still in progress, and
`addInt32` hands NULL to liblo. -/
theorem clear_leaves_a_message_in_progress :
    ¬ FlagsSoundIn (run step (constructed none) [.beginMessage [47, 97], .clear]) ∧
      step (run step (constructed none) [.beginMessage [47, 97], .clear]).state
        (.add (.int32 1)) = .undefined .nullMessage := by
  refine ⟨?_, rfl⟩
  rintro ⟨hsound, _⟩
  exact absurd hsound (by decide)

end osc
