-- The balance of bundles. The depth is not stored: the stack keeps the root after it
-- is closed. So the flag tells whether a bundle is open until a bundle that was opened
-- on top of a closed root is ended.
import Lopack.SenderFlags

open calls rose linked store

namespace osc

/-! ## What the trace of a run tells -/

def Op.beginsBundle (op : Op) : Bool :=
  match op.direct with
  | .beginBundle => true
  | .beginBundleAt _ => true
  | _ => false

/-- The calls after the last `send()` that returned. The newest call stands first. -/
def sinceSend (trace : List SenderCall) : List SenderCall :=
  trace.takeWhile (fun c => !decide (c.op.direct = .send ∧ c.outcome.Returned))

/-- How many calls of `beginBundle` returned since the last `send()` that returned. -/
def begun (trace : List SenderCall) : Nat :=
  (sinceSend trace).countP (fun c => decide (c.op.beginsBundle = true ∧ c.outcome.Returned))

/-- How many calls of `endBundle` returned since then. -/
def ended (trace : List SenderCall) : Nat :=
  (sinceSend trace).countP (fun c => decide (c.op.direct = .endBundle ∧ c.outcome.Returned))

/-- The call opens a bundle on top of a root that was closed and not sent. -/
def reopensRoot (s : OscSender) (op : Op) : Bool :=
  !s.m_bundleInProgress && !s.m_bundles.isEmpty &&
    match op.direct with
    | .beginBundle => true
    | .beginBundleAt _ => !s.m_messageInProgress
    | _ => false

/-- How many bundles were opened on top of a closed root since the last `send()` that returned. -/
def reopenings (trace : List SenderCall) : Nat :=
  (sinceSend trace).countP (fun c =>
    decide (reopensRoot c.before.sender c.op = true ∧ c.outcome.Returned))

/-- The call ends a bundle that was opened on top of a closed root: two bundles are left on the
stack, this one and the root. -/
def endsOnRoot (earlier : List SenderCall) (c : SenderCall) : Bool :=
  0 < reopenings earlier && c.op.direct == .endBundle && c.before.sender.m_bundles.length == 2

/-! ## The counts after one more call -/

theorem reopensRoot_of_other {op : Op} (h : op.beginsBundle = false) (s : OscSender) :
    reopensRoot s op = false := by
  unfold Op.beginsBundle at h
  unfold reopensRoot
  split at h <;> simp_all

theorem counts_of_other {c : SenderCall} (h : c.outcome.Returned → c.op.direct ≠ .send ∧
      c.op.beginsBundle = false ∧ c.op.direct ≠ .endBundle) (trace : List SenderCall) :
    begun (c :: trace) = begun trace ∧ ended (c :: trace) = ended trace ∧
      reopenings (c :: trace) = reopenings trace := by
  unfold begun ended reopenings sinceSend
  by_cases hr : c.outcome.Returned
  · obtain ⟨h1, h2, h3⟩ := h hr
    simp [h1, h2, h3, reopensRoot_of_other h2]
  · simp [hr]

theorem counts_of_send {c : SenderCall} (hop : c.op.direct = .send) (hr : c.outcome.Returned)
    (trace : List SenderCall) :
    begun (c :: trace) = 0 ∧ ended (c :: trace) = 0 ∧ reopenings (c :: trace) = 0 := by
  simp [begun, ended, reopenings, sinceSend, hop, hr]

theorem counts_of_begin {c : SenderCall} (hop : c.op.beginsBundle = true)
    (hr : c.outcome.Returned) (trace : List SenderCall) :
    begun (c :: trace) = begun trace + 1 ∧ ended (c :: trace) = ended trace ∧
      reopenings (c :: trace) =
        reopenings trace + if reopensRoot c.before.sender c.op then 1 else 0 := by
  have h1 : c.op.direct ≠ .send := by
    intro h
    simp [Op.beginsBundle, h] at hop
  have h2 : c.op.direct ≠ .endBundle := by
    intro h
    simp [Op.beginsBundle, h] at hop
  simp [begun, ended, reopenings, sinceSend, hop, h1, h2, hr, List.countP_cons]

theorem counts_of_end {c : SenderCall} (hop : c.op.direct = .endBundle) (hr : c.outcome.Returned)
    (trace : List SenderCall) :
    begun (c :: trace) = begun trace ∧ ended (c :: trace) = ended trace + 1 ∧
      reopenings (c :: trace) = reopenings trace := by
  have hother : reopensRoot c.before.sender c.op = false :=
    reopensRoot_of_other (by simp [Op.beginsBundle, hop]) _
  simp [begun, ended, reopenings, sinceSend, Op.beginsBundle, hop, hr, hother]

/-! ## The balance -/

/-- The counts agree with the draft. While a bundle is open, the path has one frame for each
bundle that is begun and not ended, and one for a closed root under them. -/
def Balanced (trace : List SenderCall) (d : Draft) : Prop :=
  if d.bundleOpen then reopenings trace ≤ 1 ∧ reopenings trace < d.path.length ∧
    begun trace + reopenings trace = ended trace + d.path.length
  else begun trace = ended trace ∧ reopenings trace = 0 ∧ d.path.length ≤ 1

theorem Balanced.congr {trace trace' : List SenderCall} {d d' : Draft} (h : Balanced trace d)
    (hcounts : begun trace' = begun trace ∧ ended trace' = ended trace ∧
      reopenings trace' = reopenings trace)
    (hopen : d'.bundleOpen = d.bundleOpen)
    (hpath : d'.path.length = d.path.length) : Balanced trace' d' := by
  unfold Balanced at *
  rw [hcounts.1, hcounts.2.1, hcounts.2.2, hopen, hpath]
  exact h

/-- A new bundle is one more frame. It is a reopening when it stands on a closed root. -/
theorem Balanced.openBundle {c : SenderCall} {trace : List SenderCall} {d : Draft}
    (h : Balanced trace d) (hop : c.op.beginsBundle = true) (hr : c.outcome.Returned)
    (hreopens : reopensRoot c.before.sender c.op = (!d.bundleOpen && !d.path.isEmpty))
    (tag : lo_timetag) : Balanced (c :: trace) (d.openBundle tag) := by
  obtain ⟨hbegun, hended, hreopened⟩ := counts_of_begin hop hr trace
  rw [hreopens] at hreopened
  unfold Balanced at *
  cases hb : d.bundleOpen with
  | true =>
    simp only [hb, if_true] at h
    simp only [hb, Bool.not_true, Bool.false_and, Bool.false_eq_true, if_false] at hreopened
    simp only [Draft.openBundle, if_true, List.length_cons]
    omega
  | false =>
    rw [hb, if_neg (by simp)] at h
    simp only [Draft.openBundle, if_true, List.length_cons]
    cases hp : d.path with
    | nil =>
      simp only [hb, hp, List.isEmpty_nil, Bool.not_true, Bool.and_false, Bool.false_eq_true,
        if_false] at hreopened
      simp only [List.length_nil]
      omega
    | cons f fs =>
      simp only [hb, hp, List.isEmpty_cons, Bool.not_false, Bool.and_self, if_true] at hreopened
      simp only [hp, List.length_cons] at h ⊢
      omega

theorem balanced_call [LibloApi] (c : SenderCall) (d : Draft) (trace : List SenderCall)
    (hd : Refines c.before d) (hm : c.outcome.Matches Refines (d.step c.op))
    (hclear : c.op ≠ .clear) (hc : endsOnRoot trace c = false) (h : Balanced trace d) :
    Balanced (c :: trace) ((d.step c.op).state?.getD d) := by
  have hmembers := hd.members
  have hends := d.step_ends c.op
  have hret := hm.returned_iff
  generalize d.step c.op = o at hends hret ⊢
  generalize hop : c.op.direct = op at hends
  cases hends with
  | clear => exact absurd ((direct_clear_iff _).mp hop) hclear
  | send ha hb hmsg ht =>
    obtain ⟨h1, h2, h3⟩ := counts_of_send hop (hret.mpr trivial) trace
    simp [Balanced, Draft.clear, hb, h1, h2, h3]
  | beginBundle hb =>
    refine h.openBundle (by simp [Op.beginsBundle, hop]) (hret.mpr trivial) ?_ _
    simp [reopensRoot, hmembers, Draft.members, hop]
  | beginBundleAt tag hmsg =>
    refine h.openBundle (by simp [Op.beginsBundle, hop]) (hret.mpr trivial) ?_ _
    simp [reopensRoot, hmembers, Draft.members, hop, hmsg]
  | @endInner f g fs hb hp =>
    obtain ⟨h1, h2, h3⟩ := counts_of_end hop (hret.mpr trivial) trace
    simp only [Balanced, hb, hp, if_true, List.length_cons] at h
    -- with a closed root at the bottom, a bundle that stays open is left above it
    have hleft : 0 < reopenings trace → fs.length ≠ 0 := by
      simpa [endsOnRoot, hop, hmembers, Draft.members, hp] using hc
    simp only [Balanced, hb, if_true, h1, h2, h3, Outcome.state?_returned, Option.getD_some,
      List.length_cons]
    omega
  | endRoot hb hp =>
    obtain ⟨h1, h2, h3⟩ := counts_of_end hop (hret.mpr trivial) trace
    rw [Balanced, if_pos hb] at h
    simp only [Balanced, Outcome.state?_returned, Option.getD_some, h1, h2, h3]
    rw [if_neg (by simp)]
    omega
  | endInBundle hmsg hb hp =>
    refine h.congr (counts_of_other ?_ trace) rfl (by simp [Draft.place, hp])
    simp [Op.beginsBundle, hop]
  | _ =>
    refine h.congr (counts_of_other ?_ trace) rfl rfl
    simp [Op.beginsBundle, hop, hret]

theorem Balanced.open_iff {trace : List SenderCall} {d : Draft} (h : Balanced trace d) :
    d.bundleOpen = true ↔ ended trace < begun trace := by
  unfold Balanced at h
  by_cases hb : d.bundleOpen = true
  · rw [if_pos hb] at h
    simp only [hb, true_iff]
    omega
  · rw [if_neg hb] at h
    refine ⟨fun hb' => absurd hb' hb, fun hlt => ?_⟩
    omega

/-- The end of a bundle on top of a closed root: as many were begun as ended, and the flag is still
up. -/
theorem unbalanced_of_endsOnRoot [LibloApi] {c : SenderCall} {d : Draft} {trace : List SenderCall}
    (hd : Refines c.before d) (hm : c.outcome.Matches Refines (d.step c.op))
    (hc : endsOnRoot trace c = true) (h : Balanced trace d) :
    ((d.step c.op).state?.getD d).bundleOpen = true ∧
      begun (c :: trace) = ended (c :: trace) := by
  have hmembers := hd.members
  simp only [endsOnRoot, hmembers, Draft.members, Bool.and_eq_true, decide_eq_true_eq, beq_iff_eq,
    List.length_reverse, List.length_map] at hc
  obtain ⟨⟨hreopened, hop⟩, hlength⟩ := hc
  unfold Balanced at h
  have hopen : d.bundleOpen = true := by
    by_contra hb
    rw [if_neg hb] at h
    omega
  rw [if_pos hopen] at h
  have hends := d.step_ends c.op
  have hret := hm.returned_iff
  generalize d.step c.op = o at hends hret ⊢
  rw [hop] at hends
  cases hends with
  | endInner hb hp =>
    obtain ⟨h1, h2, _⟩ := counts_of_end hop (hret.mpr trivial) trace
    refine ⟨hb, ?_⟩
    omega
  | endRoot hb hp => omega
  | endBundleThrows hb =>
    rw [hopen] at hb
    cases hb

/-- The balance after a run whose calls so far end no bundle on top of a closed root. -/
theorem run_balanced [LibloApi] (address : Option (Str × UInt32)) (ops : List Op)
    (hclear : ∀ c ∈ (run step (constructed address) ops).trace, c.op ≠ .clear)
    (hroot : ∀ c earlier, c :: earlier <:+ (run step (constructed address) ops).trace →
      endsOnRoot earlier c = false) :
    ∃ d, Refines (run step (constructed address) ops).state d ∧
      Balanced (run step (constructed address) ops).trace d := by
  obtain ⟨d, hd, h⟩ := run_history step step_refines (constructed.refines address)
    (H := fun trace d => (∀ c earlier, c :: earlier <:+ trace → endsOnRoot earlier c = false) →
      Balanced trace d) (C := fun c => c.op ≠ .clear) (fun _ => ⟨rfl, rfl, Nat.zero_le _⟩)
    (fun c d trace hd hm hc h hall => by
      rw [forall_suffix_cons (C := fun earlier c => endsOnRoot earlier c = false)] at hall
      exact balanced_call c d trace hd hm hc hall.1 (h hall.2)) ops hclear
  exact ⟨d, hd, h hroot⟩

theorem outgoing_none_iff (d : Draft) : d.outgoing = none ↔ d.path = [] ∧ d.slot = none := by
  unfold Draft.outgoing
  cases hp : d.path with
  | nil => simp [whole, Draft.slotLeaf]
  | cons f fs => simp [whole]

/-- When `send()` throws. -/
theorem send_threw_iff [LibloApi] {w : World} {d : Draft} (h : Refines w d) :
    (step w .send).Threw ↔ w.sender.m_address = none ∨ w.sender.m_bundleInProgress = true ∨
      w.sender.m_messageInProgress = true ∨
      w.sender.m_bundles = [] ∧ w.sender.m_message = none := by
  rw [(step_refines w d .send h).threw_iff, h.members]
  have hnone := outgoing_none_iff d
  have hends := d.step_ends .send
  generalize d.step .send = o at hends
  cases hends with
  | send ha hb hm ht => simp [Draft.members, ha, hb, hm, ← hnone, ht]
  | sendThrows hcause => simpa [Draft.members, ← hnone] using hcause

/-- `clear()` is not called. The flag tells at every point of the run whether more bundles were
begun than ended since the last `send()`, exactly when no call ends a bundle that was opened on
top of a closed root. Then, after balanced calls, no bundle is in progress, and `send()` only throws
without an address, with a message in progress or with nothing to send. A run in which no bundle
is opened on top of a closed root is such a run. -/
theorem a_bundle_is_open_iff_more_are_begun_than_ended [LibloApi] (address : Option (Str × UInt32))
    (ops : List Op) (hclear : ∀ c ∈ (run step (constructed address) ops).trace, c.op ≠ .clear) :
    let r := run step (constructed address) ops
    ((∀ q, q <+: ops →
        ((run step (constructed address) q).state.sender.m_bundleInProgress = true ↔
          ended (run step (constructed address) q).trace <
            begun (run step (constructed address) q).trace)) ↔
      ∀ c earlier, c :: earlier <:+ r.trace → endsOnRoot earlier c = false) ∧
    ((∀ c earlier, c :: earlier <:+ r.trace → endsOnRoot earlier c = false) →
      begun r.trace = ended r.trace → r.state.sender.m_bundleInProgress = false ∧
        ((step r.state .send).Threw ↔ r.state.sender.m_address = none ∨
          r.state.sender.m_messageInProgress = true ∨
          r.state.sender.m_bundles = [] ∧ r.state.sender.m_message = none)) ∧
    ((∀ c ∈ r.trace, reopensRoot c.before.sender c.op = false) →
      ∀ c earlier, c :: earlier <:+ r.trace → endsOnRoot earlier c = false) := by
  intro r
  refine ⟨?_, fun hroot hcounts => ?_, fun hroot c earlier hc => ?_⟩
  · apply always_iff_history step (P := fun r =>
      r.state.sender.m_bundleInProgress = true ↔ ended r.trace < begun r.trace)
      (C := fun earlier c => endsOnRoot earlier c = false)
    · have hdown : (Draft.constructed address).bundleOpen = false := rfl
      simp [(constructed.refines address).bundleInProgress, hdown, begun, ended, sinceSend]
    intro before op hop he _ hall
    have htrace := trace_suffix_of_prefix step hop (constructed address)
    rw [run_snoc, Run.call_of_open step he] at htrace
    have hcalls := fun c hc => hclear c (htrace.subset hc)
    rw [List.forall_mem_cons] at hcalls
    obtain ⟨d, hd, h⟩ := run_balanced address before hcalls.2 hall
    have hm := step_refines _ _ op hd
    rw [Run.call_of_open step he]
    simp only [(hm.after hd).bundleInProgress]
    constructor
    · intro hiff
      by_contra hc
      obtain ⟨hopen, hcounts⟩ :=
        unbalanced_of_endsOnRoot hd hm (Bool.not_eq_false _ ▸ hc) h
      exact absurd (hiff.mp hopen) (Nat.not_lt.mpr hcounts.le)
    · intro hc
      exact (balanced_call _ d _ hd hm hcalls.1 hc h).open_iff
  · obtain ⟨d, hd, h⟩ : ∃ d, Refines r.state d ∧ Balanced r.trace d :=
      run_balanced address ops hclear hroot
    have hdown : r.state.sender.m_bundleInProgress = false := by
      rw [hd.bundleInProgress, ← Bool.not_eq_true, h.open_iff]
      exact Nat.not_lt.mpr hcounts.le
    refine ⟨hdown, ?_⟩
    simp [send_threw_iff hd, hdown]
  · have hnone : reopenings earlier = 0 := by
      refine List.countP_eq_zero.mpr (fun c' hc' => ?_)
      have hmem := hc.subset (List.mem_cons_of_mem _ ((List.takeWhile_sublist _).subset hc'))
      simp [hroot c' hmem]
    simp [endsOnRoot, hnone]

/-- Two bundles, one in the other, and both ended. -/
theorem nested_bundles_are_balanced :
    let r := run step (constructed (some ([104], 9990)))
      [.beginBundle, .beginBundleAt ⟨⟨7, 5⟩⟩, .endBundle, .endBundle]
    begun r.trace = 2 ∧ ended r.trace = 2 ∧ r.state.sender.m_bundleInProgress = false ∧
      ¬ (step r.state .send).Threw := by
  obtain ⟨_, hbalanced, hnested⟩ := a_bundle_is_open_iff_more_are_begun_than_ended
    (some ([104], 9990)) [.beginBundle, .beginBundleAt ⟨⟨7, 5⟩⟩, .endBundle, .endBundle] (by decide)
  obtain ⟨hdown, hsend⟩ := hbalanced (hnested (by decide)) (by decide)
  refine ⟨by decide, by decide, hdown, ?_⟩
  rw [hsend]
  decide

/-- Two bundles, one after the other: the second one opens on top of the closed root, and its
end leaves it in progress. -/
theorem two_bundles_in_a_row_stay_open :
    let r := run step (constructed (some ([104], 9990)))
      [.beginBundle, .endBundle, .beginBundle, .endBundle]
    begun r.trace = ended r.trace ∧ (∀ c ∈ r.trace, c.op ≠ .clear ∧ c.outcome.Returned) ∧
      r.state.sender.m_bundleInProgress = true ∧
      step r.state .send = .threw .SendException r.state :=
  ⟨by decide, by decide, by decide, rfl⟩

end osc
