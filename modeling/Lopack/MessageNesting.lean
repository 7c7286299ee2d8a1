-- Messages and bundles nest. A message that is completed goes into the bundle that was
-- innermost open when it was begun, as long as no bundle is opened or closed in
-- between. Only one of the three bundle calls checks this with the right guard.
import Lopack.BundleBalance

open calls rose linked store

namespace osc

/-! ## What the trace tells about the message in progress -/

/-- The innermost open bundle. -/
def OscSender.innermost (s : OscSender) : Option Nat :=
  if s.m_bundleInProgress then s.m_bundles.getLast? else none

/-- The bundle that was innermost open when the last message was begun. -/
def startedIn : List SenderCall → Option Nat
  | [] => none
  | c :: earlier => match c.op.direct with
    | .beginMessage _ =>
      if c.outcome.Returned then c.before.sender.innermost else startedIn earlier
    | _ => startedIn earlier

/-- A bundle call with a message in progress throws and changes nothing. -/
def Guarded (c : SenderCall) : Prop :=
  c.op.beginsBundle = true ∨ c.op.direct = .endBundle →
    c.before.sender.m_messageInProgress = true →
    c.outcome = .threw .MessageInProgressException c.before

/-- The message `m` is a new last element of the bundle `b`. No other bundle has changed, and
the tree has the message once. -/
structure AddedTo (w w' : World) (b m : Nat) : Prop where
  last : ∃ tag links, w.lo.cells.nodes.cell b = some (tag, links) ∧
    w'.lo.cells.nodes.cell b =
      some (tag, links ++ [.leaf (cStr w.sender.m_addressPattern) m])
  others : ∀ j, j ≠ b → w'.lo.cells.nodes.cell j = w.lo.cells.nodes.cell j
  once : ∃ front rest t, w'.sender.m_bundles = front :: rest ∧
    w'.lo.cells.read (.node front) = some t ∧ (leafHandles t).count m = 1
  done : w'.sender.m_message = none

/-- A message that `endMessage` completes goes into the bundle `home`. Without one it stays
the pending message, and no bundle has changed. After a `clear()` between `beginMessage` and
`endMessage` there is no message to place: `m_message` is NULL, and nothing is said here. -/
def Placed (home : Option Nat) (c : SenderCall) : Prop :=
  ∀ w' m, c.op.direct = .endMessage → c.outcome = .returned () w' →
    c.before.sender.m_message = some m →
    match home with
    | some b => AddedTo c.before w' b m
    | none => w'.sender.m_message = some m ∧ w'.lo = c.before.lo

/-- The last call of a run keeps messages and bundles nested. -/
def LastCallNests (r : SenderRun) : Prop :=
  match r.trace with
  | [] => True
  | c :: earlier => Guarded c ∧ Placed (startedIn earlier) c

/-- A bundle call that the code lets through, or refuses for another reason, with a message in
progress: `endBundle()` does not look at the message, and `beginBundle()` looks at the bundle. -/
def slipsThrough (s : OscSender) (op : Op) : Bool :=
  s.m_messageInProgress && match op.direct with
    | .endBundle => true
    | .beginBundle => !s.m_bundleInProgress
    | _ => false

/-! ## The guards -/

theorem guarded_iff [LibloApi] {w : World} {d : Draft} (h : Refines w d) (op : Op) :
    Guarded ⟨w, op, step w op⟩ ↔ slipsThrough w.sender op = false := by
  have hm := step_refines w d op h
  have hends := d.step_ends op
  unfold Guarded slipsThrough Op.beginsBundle
  simp only [h.messageInProgress, h.bundleInProgress]
  generalize d.step op = o at hends hm
  generalize op.direct = op' at hends
  cases hends with
  | beginBundle hb =>
    obtain ⟨w', hw', _⟩ := hm.of_returned
    simp [hw', hb]
  | beginBundleThrows hb => simp [threw_of_matches hm, hb]
  | beginBundleAt tag hmsg => simp [hmsg]
  | beginBundleAtThrows tag hmsg => simp [threw_of_matches hm]
  | endInner hb hp =>
    obtain ⟨w', hw', _⟩ := hm.of_returned
    simp [hw']
  | endRoot hb hp =>
    obtain ⟨w', hw', _⟩ := hm.of_returned
    simp [hw']
  | endBundleThrows hb => simp [threw_of_matches hm]
  | _ => simp

/-! ## Where a message goes -/

/-- `endMessage()` with a bundle in progress. -/
theorem endMessage_adds [LibloApi] {w w' : World} {d : Draft} {f : BundleFrame}
    {fs : List BundleFrame}
    {m : Nat} (h : Refines w d) (h' : Refines w' (d.place f fs)) (hmsg : d.messageOpen = true)
    (hb : d.bundleOpen = true) (hp : d.path = f :: fs) (hs : w.sender.m_message = some m)
    (hw' : OscSender.endMessage w = .returned () w') : AddedTo w w' f.label.handle m := by
  obtain ⟨front, rest, t, hfront, hread, ht, hleaves, _⟩ :=
    h'.read_tree (by simp [Draft.place])
  obtain ⟨sender, lo⟩ := w
  obtain rfl := h.members
  obtain ⟨args, hslot⟩ : ∃ args, d.slot = some (m, args) := by
    simpa [Draft.members] using hs
  have hcell : OpenHolds lo.cells [] (f :: fs) := hp ▸ h.path
  obtain ⟨c, hc, hcl, hcn, hother, hc'⟩ := hcell.addLink (hp ▸ h.distinct.nodes)
    (.leaf (cStr d.members.m_addressPattern) m)
  have hnodes : w'.lo.cells.nodes = c.nodes := by
    have hmip : d.members.m_messageInProgress = true := hmsg
    have hbip : d.members.m_bundleInProgress = true := hb
    have hm : d.members.m_message = some m := hs
    unfold OscSender.endMessage at hw'
    simp only [bind_exec, read_exec, hmip, hbip, back_of_path hp, hm, code_ite,
      onLo_returned (LibloApi.bundle_add_message hc), setMembers_exec] at hw'
    cases hw'
    rfl
  refine ⟨⟨_, _, hcell.1, ?_⟩, ?_, ⟨front, rest, t, hfront, hread, ?_⟩, ?_⟩
  · rw [hnodes, hc'.1]
    simp
  · intro j hj
    rw [hnodes]
    exact hother j hj
  · apply List.count_eq_one_of_mem hleaves
    rw [leafHandles, whole_leaves ht]
    simp [Draft.place, Draft.slotLeaf, hslot]
  · rw [h'.members]
    rfl

/-- `endMessage()` without a bundle in progress. -/
theorem endMessage_stays [LibloApi] {w w' : World} {d : Draft} (h : Refines w d)
    (hmsg : d.messageOpen = true) (hb : d.bundleOpen = false)
    (hw' : OscSender.endMessage w = .returned () w') :
    w'.sender.m_message = w.sender.m_message ∧ w'.lo = w.lo := by
  unfold OscSender.endMessage at hw'
  simp [bind_exec, h.messageInProgress, h.bundleInProgress, hmsg, hb] at hw'
  subst hw'
  exact ⟨rfl, rfl⟩

/-- While a message is built, the innermost open bundle is the one it was begun in. -/
def StillIn (trace : List SenderCall) (d : Draft) : Prop :=
  d.messageOpen = true → d.slot ≠ none → d.members.innermost = startedIn trace

theorem startedIn_of_other {c : SenderCall} (h : c.outcome.Returned →
      ∀ pattern, c.op.direct ≠ .beginMessage pattern) (trace : List SenderCall) :
    startedIn (c :: trace) = startedIn trace := by
  rw [startedIn]
  split
  · rename_i pattern hop
    rw [if_neg (fun hr => h hr pattern hop)]
  · rfl

theorem stillIn_call [LibloApi] (c : SenderCall) (d : Draft) (trace : List SenderCall)
    (hd : Refines c.before d) (hm : c.outcome.Matches Refines (d.step c.op))
    (hc : slipsThrough c.before.sender c.op = false) (h : StillIn trace d) :
    StillIn (c :: trace) ((d.step c.op).state?.getD d) := by
  have hends := d.step_ends c.op
  have hret := hm.returned_iff
  unfold slipsThrough at hc
  rw [hd.messageInProgress, hd.bundleInProgress] at hc
  generalize d.step c.op = o at hends hret ⊢
  generalize hop : c.op.direct = op at hends hc
  intro hopen hslot
  cases hends with
  | beginMessage pattern hmsg =>
    rw [startedIn, hop]
    simp only [hret, Outcome.Returned_returned, if_true, hd.members]
    rfl
  | clear => exact absurd rfl hslot
  | send ha hb hmsg ht => exact absurd rfl hslot
  | endInBundle hmsg hb hp => exact absurd rfl hslot
  | endAlone hmsg hb => cases hopen
  | beginBundle hb =>
    have hclosed : d.messageOpen = false := by simpa [hb] using hc
    exact absurd hopen (by simp [Draft.openBundle, hclosed])
  | beginBundleAt tag hmsg => exact absurd hopen (by simp [Draft.openBundle, hmsg])
  | endInner hb hp =>
    have hclosed : d.messageOpen = false := by simpa using hc
    exact absurd hopen (by simp [hclosed])
  | endRoot hb hp =>
    have hclosed : d.messageOpen = false := by simpa using hc
    exact absurd hopen (by simp [hclosed])
  | beginMessageThrows pattern hmsg =>
    rw [startedIn_of_other (fun hr => absurd (hret.mp hr) id)]
    exact h hopen hslot
  | add var hmsg ha hs =>
    rw [startedIn_of_other (by simp [hop])]
    exact h hmsg (by simp [hs])
  | _ =>
    rw [startedIn_of_other (by simp [hop])]
    exact h hopen hslot

/-- A message that is still in the bundle it was begun in is placed there. -/
theorem placed_of_stillIn [LibloApi] {w : World} {d : Draft} (hd : Refines w d)
    {trace : List SenderCall}
    (h : StillIn trace d) (op : Op) : Placed (startedIn trace) ⟨w, op, step w op⟩ := by
  intro w' m hop hw' hmsg
  have hm := step_refines w d op hd
  have hends := d.step_ends op
  have hslot : d.slot ≠ none := by
    intro hnone
    rw [hd.members] at hmsg
    simp [Draft.members, hnone] at hmsg
  simp only at hop hw' hmsg
  rw [hw'] at hm
  rw [hop] at hends
  rw [step_direct, hop] at hw'
  generalize d.step op = o at hends hm
  cases hends with
  | @endInBundle f fs hopen hb hp =>
    have hin : d.members.innermost = some f.label.handle := by
      rw [OscSender.innermost, back_of_path hp]
      simp [Draft.members, hb]
    rw [← h hopen hslot, hin]
    exact endMessage_adds hd hm hopen hb hp hmsg hw'
  | endAlone hopen hb =>
    have hout : d.members.innermost = none := by simp [OscSender.innermost, Draft.members, hb]
    rw [← h hopen hslot, hout]
    obtain ⟨h1, h2⟩ := endMessage_stays hd hopen hb hw'
    exact ⟨by rw [h1, hmsg], h2⟩
  | endMessageThrows hclosed => exact hm.elim
  | endNoBundle hopen hb hp => exact hm.elim

/-- In a run of any calls, every bundle call with a message in progress throws
`MessageInProgressException` and every message goes into the bundle it was begun in, exactly when
no `endBundle()` is called with a message in progress, and no `beginBundle()` with a message and
no bundle in progress. -/
theorem messages_nest_iff_no_bundle_call_slips_through [LibloApi] (address : Option (Str × UInt32))
    (ops : List Op) :
    (∀ q, q <+: ops → LastCallNests (run step (constructed address) q)) ↔
      ∀ c ∈ (run step (constructed address) ops).trace,
        slipsThrough c.before.sender c.op = false := by
  apply always_iff step (C := fun c => slipsThrough c.before.sender c.op = false)
  · trivial
  intro ops op he _ hC
  obtain ⟨d, hd, h⟩ := run_history step step_refines (constructed.refines address)
    (H := StillIn) (C := fun c => slipsThrough c.before.sender c.op = false)
    (fun hopen => by cases hopen) stillIn_call ops hC
  generalize run step (constructed address) ops = r at *
  rw [Run.call_of_open step he]
  constructor
  · rintro ⟨hguard, _⟩
    exact (guarded_iff hd op).mp hguard
  · intro hslip
    exact ⟨(guarded_iff hd op).mpr hslip, placed_of_stillIn hd h op⟩

/-- `beginBundle()`, `beginMessage("/a")`, `endBundle()`: the bundle closes although a message is
in progress. The message was begun in it, and `endMessage()` does not put it there. -/
theorem a_bundle_closes_around_a_message :
    ¬ LastCallNests (run step (constructed none)
        [.beginBundle, .beginMessage [47, 97], .endBundle]) ∧
      ¬ LastCallNests (run step (constructed none)
        [.beginBundle, .beginMessage [47, 97], .endBundle, .endMessage]) := by
  refine ⟨?_, ?_⟩
  · rintro ⟨hguard, _⟩
    cases hguard (.inr rfl) rfl
  · rintro ⟨_, hplaced⟩
    cases (hplaced _ 0 rfl rfl rfl).done

end osc
