-- No completed message should get lost: it is sent, cleared by the caller, or still
-- waiting for the next send. The sender has one slot for a message outside bundles and
-- sends either the slot or the tree, so a message can fall out of both.
import Lopack.BundleTree

open calls rose linked store

namespace osc

/-! ## Where the messages are -/

/-- The messages in the tree under `m_bundles.front()`. -/
def treeMessages (w : World) : List Nat :=
  match w.sender.m_bundles with
  | [] => []
  | front :: _ => ((w.lo.cells.read (.node front)).map leafHandles).getD []

/-- The messages that the next `send()` hands over: the tree if there is one, else the
message in the slot. -/
def pendingMessages (w : World) : List Nat :=
  if w.sender.m_bundles = [] then w.sender.m_message.toList else treeMessages w

/-- The messages in packets that were handed over. -/
def sentMessages (w : World) : List Nat := w.lo.sent.flatMap (fun x => leafHandles x.2)

/-- The message that a call of `endMessage` completes. -/
def completedBy (c : SenderCall) : List Nat :=
  if c.op.direct = .endMessage ∧ c.outcome.Returned then c.before.sender.m_message.toList else []

/-- The messages that a call of `clear()` throws away. -/
def discardedBy (c : SenderCall) : List Nat :=
  if c.op.direct = .clear ∧ c.outcome.Returned then
    c.before.sender.m_message.toList ++ treeMessages c.before
  else []

/-- Every message completed so far is sent, discarded or pending. -/
def NothingLost (r : SenderRun) : Prop :=
  ∀ m ∈ r.trace.flatMap completedBy, m ∈ sentMessages r.state ∨
    m ∈ r.trace.flatMap discardedBy ∨ m ∈ pendingMessages r.state

/-- The call drops a completed message: it takes the slot from one, it opens a bundle over one,
or it completes one outside a bundle while a closed bundle waits to be sent. -/
def dropsMessage (s : OscSender) (op : Op) : Bool :=
  s.m_message.isSome && match op.direct with
    | .beginMessage _ => !s.m_messageInProgress
    | .beginBundle => !s.m_messageInProgress && !s.m_bundleInProgress
    | .beginBundleAt _ => !s.m_messageInProgress
    | .endMessage => s.m_messageInProgress && !s.m_bundleInProgress && !s.m_bundles.isEmpty
    | _ => false

/-! ## The same for a draft -/

def Draft.slotHandle (d : Draft) : List Nat := (d.slot.map Prod.fst).toList

def Draft.treeHandles (d : Draft) : List Nat := (pathLeaves d.path).map LeafAt.handle

def Draft.pending (d : Draft) : List Nat := if d.path = [] then d.slotHandle else d.treeHandles

def Draft.sentHandles (d : Draft) : List Nat := d.sent.flatMap (fun x => leafHandles x.2)

theorem Refines.treeMessages {w : World} {d : Draft} (h : Refines w d) :
    treeMessages w = d.treeHandles := by
  unfold osc.treeMessages Draft.treeHandles
  by_cases hp : d.path = []
  · rw [h.members, (bundles_nil_iff d).mpr hp, hp]
    rfl
  · obtain ⟨front, rest, t, hfront, hread, ht, _⟩ := h.read_tree hp
    rw [hfront]
    simp [hread, leafHandles, whole_leaves ht]

theorem Refines.pendingMessages {w : World} {d : Draft} (h : Refines w d) :
    pendingMessages w = d.pending := by
  unfold osc.pendingMessages Draft.pending
  rw [h.treeMessages, h.members]
  simp only [bundles_nil_iff]
  rfl

theorem Refines.sentMessages {w : World} {d : Draft} (h : Refines w d) :
    sentMessages w = d.sentHandles := by
  rw [osc.sentMessages, h.sent]
  rfl

theorem Refines.slotHandle {w : World} {d : Draft} (h : Refines w d) :
    w.sender.m_message.toList = d.slotHandle := by
  rw [h.members]
  rfl

/-- The handles of the sender were given out before. -/
theorem Refines.handles_lt {w : World} {d : Draft} (h : Refines w d) :
    (∀ m ∈ d.slotHandle, m < d.nextMessage) ∧ ∀ m ∈ d.treeHandles, m < d.nextMessage := by
  refine ⟨?_, ?_⟩
  · intro m hm
    obtain ⟨x, hx, rfl⟩ : ∃ x, d.slot = some x ∧ x.1 = m := by
      simpa [Draft.slotHandle] using hm
    rw [← h.nextMessage]
    exact Store.lt_next (h.slot x hx)
  · intro m hm
    obtain ⟨l, hl, rfl⟩ := List.mem_map.mp hm
    rw [← h.nextMessage]
    exact h.path.leaf_lt l hl

theorem outgoing_handles {d : Draft} {t : HeldPacket} (h : d.outgoing = some t) :
    leafHandles t = d.pending := by
  unfold Draft.outgoing at h
  unfold Draft.pending
  cases ht : whole d.path with
  | none =>
    rw [ht] at h
    obtain ⟨x, hx, rfl⟩ := Option.map_eq_some_iff.mp h
    rw [if_pos (whole_none_iff.mp ht)]
    simp [leafHandles, Draft.slotHandle, hx]
  | some t' =>
    rw [ht] at h
    cases h
    have hp : d.path ≠ [] := by
      intro hp
      simp [whole_none_iff.mpr hp] at ht
    rw [if_neg hp, leafHandles, whole_leaves ht]
    rfl

theorem pending_congr {d d' : Draft} (hpath : d'.path = [] ↔ d.path = [])
    (hslot : d'.slotHandle = d.slotHandle) (htree : d'.treeHandles = d.treeHandles) :
    d'.pending = d.pending := by
  unfold Draft.pending
  by_cases hp : d.path = []
  · rw [if_pos hp, if_pos (hpath.mpr hp), hslot]
  · rw [if_neg hp, if_neg (fun hp' => hp (hpath.mp hp')), htree]

/-! ## Handles are not used twice -/

/-- What a run knows about its messages: `done` are the completed ones and `cleared` those that
a `clear()` threw away. A message that was sent or cleared is no longer in the sender, and the
message in the slot is completed unless it is in progress. -/
structure Ledger (done cleared : List Nat) (d : Draft) : Prop where
  done_lt : ∀ m ∈ done, m < d.nextMessage
  gone_lt : ∀ m, m ∈ d.sentHandles ∨ m ∈ cleared → m < d.nextMessage
  gone : ∀ m, m ∈ d.sentHandles ∨ m ∈ cleared → m ∉ d.slotHandle ∧ m ∉ d.treeHandles
  slot : ∀ m ∈ d.slotHandle, (m ∈ done ↔ d.messageOpen = false)

/-- A call that moves no message. -/
theorem Ledger.congr {done cleared : List Nat} {d d' : Draft} (h : Ledger done cleared d)
    (hsent : d'.sent = d.sent) (hslot : d'.slotHandle = d.slotHandle)
    (htree : d'.treeHandles = d.treeHandles) (hopen : d'.messageOpen = d.messageOpen)
    (hnext : d'.nextMessage = d.nextMessage) : Ledger done cleared d' := by
  have hs : d'.sentHandles = d.sentHandles := by rw [Draft.sentHandles, hsent]; rfl
  refine ⟨?_, ?_, ?_, ?_⟩
  · rw [hnext]; exact h.done_lt
  · rw [hnext, hs]; exact h.gone_lt
  · rw [hs, hslot, htree]; exact h.gone
  · rw [hslot, hopen]; exact h.slot

theorem pending_subset {d : Draft} {m : Nat} (h : m ∈ d.pending) :
    m ∈ d.slotHandle ∨ m ∈ d.treeHandles := by
  unfold Draft.pending at h
  split at h
  · exact .inl h
  · exact .inr h

/-- After `send()` and `clear()` the sender has no message. -/
theorem Ledger.emptied {done cleared cleared' : List Nat} {d d' : Draft}
    (h : Ledger done cleared d) (hslot : d'.slot = none) (hpath : d'.path = [])
    (hnext : d'.nextMessage = d.nextMessage)
    (hgone : ∀ m, m ∈ d'.sentHandles ∨ m ∈ cleared' → m < d.nextMessage) :
    Ledger done cleared' d' := by
  have h1 : d'.slotHandle = [] := by simp [Draft.slotHandle, hslot]
  have h2 : d'.treeHandles = [] := by simp [Draft.treeHandles, hpath, pathLeaves]
  refine ⟨?_, ?_, ?_, ?_⟩
  · rw [hnext]; exact h.done_lt
  · rw [hnext]; exact hgone
  · simp [h1, h2]
  · simp [h1]

theorem Ledger.clear {w : World} {done cleared : List Nat} {d : Draft}
    (h : Ledger done cleared d) (hd : Refines w d) :
    Ledger done (d.slotHandle ++ d.treeHandles ++ cleared) d.clear := by
  obtain ⟨hslt, htlt⟩ := hd.handles_lt
  refine h.emptied rfl rfl rfl ?_
  rintro m (hm | hm)
  · exact h.gone_lt m (.inl hm)
  · simp only [List.mem_append] at hm
    rcases hm with (hm | hm) | hm
    · exact hslt m hm
    · exact htlt m hm
    · exact h.gone_lt m (.inr hm)

theorem Ledger.send {w : World} {done cleared : List Nat} {d : Draft}
    (h : Ledger done cleared d) (hd : Refines w d) {t : HeldPacket} (ht : d.outgoing = some t)
    (address : lo_address) :
    Ledger done cleared { d.clear with sent := d.sent ++ [(address, t)] } := by
  obtain ⟨hslt, htlt⟩ := hd.handles_lt
  refine h.emptied rfl rfl rfl ?_
  rintro m (hm | hm)
  · simp only [Draft.sentHandles, List.flatMap_append, List.mem_append, List.flatMap_cons,
      List.flatMap_nil, List.append_nil, outgoing_handles ht] at hm
    rcases hm with hm | hm
    · exact h.gone_lt m (.inl hm)
    · rcases pending_subset hm with hm | hm
      · exact hslt m hm
      · exact htlt m hm
  · exact h.gone_lt m (.inr hm)

/-- The handle of a new message is larger than every handle before it. -/
theorem Ledger.beginMessage {done cleared : List Nat} {d : Draft} (h : Ledger done cleared d)
    (pattern : Str) :
    Ledger done cleared { d with
      slot := some (d.nextMessage, [])
      messageOpen := true
      pattern := pattern
      nextMessage := d.nextMessage + 1 } := by
  refine ⟨?_, ?_, ?_, ?_⟩
  · intro m hm
    exact Nat.lt_succ_of_lt (h.done_lt m hm)
  · intro m hm
    exact Nat.lt_succ_of_lt (h.gone_lt m hm)
  · intro m hm
    have hlt := h.gone_lt m hm
    refine ⟨?_, (h.gone m hm).2⟩
    simp only [Draft.slotHandle, Option.map_some, Option.toList_some, List.mem_singleton]
    omega
  · intro m hm
    obtain rfl : m = d.nextMessage := by simpa [Draft.slotHandle] using hm
    have hnew : d.nextMessage ∉ done := fun hm => Nat.lt_irrefl _ (h.done_lt _ hm)
    simp [hnew]

/-- `endMessage()` in a bundle moves the message from the slot to the tree. -/
theorem place_treeHandles {d : Draft} {f : BundleFrame} {fs : List BundleFrame}
    (hp : d.path = f :: fs) : (d.place f fs).treeHandles = d.treeHandles ++ d.slotHandle := by
  rw [Draft.treeHandles, Draft.place_leaves, List.map_append, ← hp]
  congr 1
  cases hs : d.slot with
  | none => simp [Draft.slotHandle, hs]
  | some x => simp [Draft.slotHandle, hs]

theorem Ledger.place {w : World} {done cleared : List Nat} {d : Draft}
    (h : Ledger done cleared d) (hd : Refines w d) {f : BundleFrame} {fs : List BundleFrame}
    (hp : d.path = f :: fs) : Ledger (d.slotHandle ++ done) cleared (d.place f fs) := by
  have hempty : (d.place f fs).slotHandle = [] := rfl
  refine ⟨?_, h.gone_lt, ?_, ?_⟩
  · intro m hm
    rcases List.mem_append.mp hm with hm | hm
    · exact hd.handles_lt.1 m hm
    · exact h.done_lt m hm
  · intro m hm
    obtain ⟨h1, h2⟩ := h.gone m hm
    rw [place_treeHandles hp, List.mem_append, not_or, hempty]
    exact ⟨List.not_mem_nil, h2, h1⟩
  · simp [hempty]

theorem Ledger.endAlone {w : World} {done cleared : List Nat} {d : Draft}
    (h : Ledger done cleared d) (hd : Refines w d) :
    Ledger (d.slotHandle ++ done) cleared { d with messageOpen := false } := by
  refine ⟨?_, h.gone_lt, h.gone, ?_⟩
  · intro m hm
    rcases List.mem_append.mp hm with hm | hm
    · exact hd.handles_lt.1 m hm
    · exact h.done_lt m hm
  · intro m hm
    exact ⟨fun _ => rfl, fun _ => List.mem_append_left _ hm⟩

theorem completedBy_eq [LibloApi] {c : SenderCall} {d : Draft} (hd : Refines c.before d)
    (hm : c.outcome.Matches Refines (d.step c.op)) :
    completedBy c =
      if c.op.direct = .endMessage ∧ (d.step c.op).Returned then d.slotHandle else [] := by
  rw [completedBy, hd.slotHandle]
  simp only [hm.returned_iff]

theorem discardedBy_eq [LibloApi] {c : SenderCall} {d : Draft} (hd : Refines c.before d)
    (hm : c.outcome.Matches Refines (d.step c.op)) :
    discardedBy c =
      if c.op.direct = .clear ∧ (d.step c.op).Returned then d.slotHandle ++ d.treeHandles
      else [] := by
  rw [discardedBy, hd.slotHandle, hd.treeMessages]
  simp only [hm.returned_iff]

/-- The ledger of a run. -/
def LedgerOf (trace : List SenderCall) (d : Draft) : Prop :=
  Ledger (trace.flatMap completedBy) (trace.flatMap discardedBy) d

theorem ledger_call [LibloApi] (c : SenderCall) (d : Draft) (trace : List SenderCall)
    (hd : Refines c.before d) (hm : c.outcome.Matches Refines (d.step c.op)) (_ : True)
    (h : LedgerOf trace d) : LedgerOf (c :: trace) ((d.step c.op).state?.getD d) := by
  unfold LedgerOf at *
  rw [List.flatMap_cons, List.flatMap_cons, completedBy_eq hd hm, discardedBy_eq hd hm]
  have hends := d.step_ends c.op
  generalize d.step c.op = o at hends ⊢
  generalize c.op.direct = op at hends ⊢
  cases hends with
  | clear => exact h.clear hd
  | send ha hb hmsg ht => exact h.send hd ht _
  | beginMessage pattern hmsg => exact h.beginMessage pattern
  | endInBundle hmsg hb hp => exact h.place hd hp
  | endAlone hmsg hb => exact h.endAlone hd
  | add var hmsg ha hs => exact h.congr rfl (by simp [Draft.slotHandle, hs]) rfl rfl rfl
  | endInner hb hp => exact h.congr rfl rfl (by simp [Draft.treeHandles, hp]) rfl rfl
  | beginBundle hb =>
    exact h.congr rfl rfl (by simp [Draft.treeHandles, Draft.openBundle]) rfl rfl
  | beginBundleAt tag hmsg =>
    exact h.congr rfl rfl (by simp [Draft.treeHandles, Draft.openBundle]) rfl rfl
  | _ => exact h.congr rfl rfl rfl rfl rfl

/-! ## When a call drops a message -/

/-- Every message of `done` is sent, cleared or pending. -/
def Draft.Keeps (d : Draft) (done cleared : List Nat) : Prop :=
  ∀ m ∈ done, m ∈ d.sentHandles ∨ m ∈ cleared ∨ m ∈ d.pending

/-- The message in the slot is nowhere else. -/
theorem Ledger.only_in_slot {w : World} {done cleared : List Nat} {d : Draft}
    (h : Ledger done cleared d) (hd : Refines w d) {m : Nat} (hm : m ∈ d.slotHandle) :
    m ∉ d.sentHandles ∧ m ∉ cleared ∧ m ∉ d.treeHandles := by
  refine ⟨fun hs => (h.gone m (.inl hs)).1 hm, fun hc => (h.gone m (.inr hc)).1 hm, ?_⟩
  obtain ⟨x, hx, rfl⟩ : ∃ x, d.slot = some x ∧ x.1 = m := by simpa [Draft.slotHandle] using hm
  exact hd.distinct.slot x hx

/-- What was sent and cleared stays so. It is left to say where the pending messages go. -/
theorem Draft.Keeps.mono {d d' : Draft} {done cleared cleared' : List Nat}
    (h : d.Keeps done cleared) (hsent : ∀ m ∈ d.sentHandles, m ∈ d'.sentHandles)
    (hcleared : ∀ m ∈ cleared, m ∈ cleared')
    (hpending : ∀ m ∈ done, m ∈ d.pending →
      m ∈ d'.sentHandles ∨ m ∈ cleared' ∨ m ∈ d'.pending) : d'.Keeps done cleared' := by
  intro m hm
  rcases h m hm with hs | hc | hp
  · exact .inl (hsent m hs)
  · exact .inr (.inl (hcleared m hc))
  · exact hpending m hm hp

theorem Draft.Keeps.congr {d d' : Draft} {done cleared : List Nat} (h : d.Keeps done cleared)
    (hsent : d'.sent = d.sent) (hpending : d'.pending = d.pending) : d'.Keeps done cleared := by
  refine h.mono ?_ (fun _ hc => hc) ?_
  · intro m hm
    rw [Draft.sentHandles, hsent]
    exact hm
  · intro m _ hp
    rw [hpending]
    exact .inr (.inr hp)

theorem Draft.Keeps.send {d : Draft} {done cleared : List Nat} (h : d.Keeps done cleared)
    {t : HeldPacket} (ht : d.outgoing = some t) (address : lo_address) :
    Draft.Keeps { d.clear with sent := d.sent ++ [(address, t)] } done cleared := by
  have hsent : Draft.sentHandles { d.clear with sent := d.sent ++ [(address, t)] } =
      d.sentHandles ++ d.pending := by
    simp [Draft.sentHandles, outgoing_handles ht]
  refine h.mono ?_ (fun _ hc => hc) ?_
  · intro m hm
    rw [hsent]
    exact List.mem_append_left _ hm
  · intro m _ hp
    rw [hsent]
    exact .inl (List.mem_append_right _ hp)

theorem Draft.Keeps.clear {d : Draft} {done cleared : List Nat} (h : d.Keeps done cleared) :
    d.clear.Keeps done (d.slotHandle ++ d.treeHandles ++ cleared) := by
  refine h.mono (fun _ hs => hs) (fun _ hc => List.mem_append_right _ hc) ?_
  intro m _ hp
  refine .inr (.inl (List.mem_append_left _ ?_))
  exact List.mem_append.mpr (pending_subset hp)

/-- A completed message of the slot is lost unless it is pending. -/
theorem Draft.Keeps.pending_of_slot {w : World} {done done' cleared : List Nat} {d d' : Draft}
    (h : d'.Keeps done' cleared) (hl : Ledger done cleared d) (hd : Refines w d)
    (hsent : d'.sent = d.sent) {m : Nat} (hin : m ∈ d.slotHandle) (hdone : m ∈ done') :
    m ∈ d'.pending := by
  obtain ⟨h1, h2, _⟩ := hl.only_in_slot hd hin
  rcases h m hdone with hs | hc | hp
  · rw [Draft.sentHandles, hsent] at hs
    exact absurd hs h1
  · exact absurd hc h2
  · exact hp

/-- An empty slot has no handle in it. -/
theorem slot_none_iff (d : Draft) : d.slot = none ↔ ∀ m, m ∉ d.slotHandle := by
  cases hs : d.slot with
  | none => simp [Draft.slotHandle, hs]
  | some x => simp [Draft.slotHandle, hs]

/-- A new message takes the slot. -/
theorem keeps_beginMessage_iff {w : World} {done cleared : List Nat} {d : Draft}
    (h : d.Keeps done cleared) (hl : Ledger done cleared d) (hd : Refines w d)
    (hmsg : d.messageOpen = false) (pattern : Str) :
    Draft.Keeps { d with
      slot := some (d.nextMessage, [])
      messageOpen := true
      pattern := pattern
      nextMessage := d.nextMessage + 1 } done cleared ↔ d.slot = none := by
  rw [slot_none_iff]
  constructor
  · intro hk m hin
    have hp := hk.pending_of_slot hl hd rfl hin ((hl.slot m hin).mpr hmsg)
    rcases pending_subset hp with hp | hp
    · have hlt := hd.handles_lt.1 m hin
      have heq : m = d.nextMessage := by simpa [Draft.slotHandle] using hp
      omega
    · exact (hl.only_in_slot hd hin).2.2 hp
  · intro hnone
    refine h.mono (fun _ hs => hs) (fun _ hc => hc) ?_
    intro m _ hp
    have hpath : d.path ≠ [] := by
      intro hpath
      rw [Draft.pending, if_pos hpath] at hp
      exact hnone m hp
    rw [Draft.pending, if_neg hpath] at hp
    refine .inr (.inr ?_)
    rw [Draft.pending, if_neg hpath]
    exact hp

/-- With a bundle the slot is not sent. -/
theorem keeps_openBundle_iff {w : World} {done cleared : List Nat} {d : Draft}
    (h : d.Keeps done cleared) (hl : Ledger done cleared d) (hd : Refines w d)
    (tag : lo_timetag) :
    (d.openBundle tag).Keeps done cleared ↔ (d.messageOpen = false → d.slot = none) := by
  have hpending : (d.openBundle tag).pending = d.treeHandles := by
    simp [Draft.pending, Draft.openBundle, Draft.treeHandles]
  rw [slot_none_iff]
  constructor
  · intro hk hmsg m hin
    have hp := hk.pending_of_slot hl hd rfl hin ((hl.slot m hin).mpr hmsg)
    rw [hpending] at hp
    exact (hl.only_in_slot hd hin).2.2 hp
  · intro hslot
    refine h.mono (fun _ hs => hs) (fun _ hc => hc) ?_
    intro m hm hp
    rw [hpending]
    -- a completed message that waits in the slot has been ruled out
    refine .inr (.inr ((pending_subset hp).resolve_left (fun hin => ?_)))
    exact hslot ((hl.slot m hin).mp hm) m hin

theorem keeps_place {done cleared : List Nat} {d : Draft} (h : d.Keeps done cleared)
    {f : BundleFrame} {fs : List BundleFrame} (hp : d.path = f :: fs) :
    (d.place f fs).Keeps (d.slotHandle ++ done) cleared := by
  have hpending : (d.place f fs).pending = d.treeHandles ++ d.slotHandle := by
    rw [Draft.pending, if_neg (by simp [Draft.place]), place_treeHandles hp]
  have hold : (d.place f fs).Keeps done cleared := by
    refine h.mono (fun _ hs => hs) (fun _ hc => hc) ?_
    intro m _ hpend
    rw [Draft.pending, if_neg (by simp [hp])] at hpend
    rw [hpending]
    exact .inr (.inr (List.mem_append_left _ hpend))
  intro m hm
  rcases List.mem_append.mp hm with hm | hm
  · rw [hpending]
    exact .inr (.inr (List.mem_append_right _ hm))
  · exact hold m hm

/-- A message completed outside a bundle waits in the slot, and a tree is sent first. -/
theorem keeps_endAlone_iff {w : World} {done cleared : List Nat} {d : Draft}
    (h : d.Keeps done cleared) (hl : Ledger done cleared d) (hd : Refines w d) :
    Draft.Keeps { d with messageOpen := false } (d.slotHandle ++ done) cleared ↔
      (d.path ≠ [] → d.slot = none) := by
  rw [slot_none_iff]
  constructor
  · intro hk hpath m hin
    have hp := hk.pending_of_slot hl hd rfl hin (List.mem_append_left _ hin)
    rw [Draft.pending, if_neg hpath] at hp
    exact (hl.only_in_slot hd hin).2.2 hp
  · intro hslot m hm
    rcases List.mem_append.mp hm with hm | hm
    · refine .inr (.inr ?_)
      by_cases hpath : d.path = []
      · rw [Draft.pending, if_pos hpath]
        exact hm
      · exact absurd hm (hslot hpath m)
    · exact h m hm

/-- One call keeps every completed message exactly when it drops none. -/
theorem keeps_call_iff [LibloApi] {c : SenderCall} {d : Draft} {trace : List SenderCall}
    (hd : Refines c.before d) (hm : c.outcome.Matches Refines (d.step c.op)) (hl : LedgerOf trace d)
    (h : d.Keeps (trace.flatMap completedBy) (trace.flatMap discardedBy)) :
    ((d.step c.op).state?.getD d).Keeps ((c :: trace).flatMap completedBy)
        ((c :: trace).flatMap discardedBy) ↔
      dropsMessage c.before.sender c.op = false := by
  unfold LedgerOf at hl
  rw [List.flatMap_cons, List.flatMap_cons, completedBy_eq hd hm, discardedBy_eq hd hm,
    hd.members]
  unfold dropsMessage
  have hends := d.step_ends c.op
  generalize d.step c.op = o at hends ⊢
  generalize c.op.direct = op at hends ⊢
  cases hends with
  | clear => exact ⟨fun _ => by simp, fun _ => h.clear⟩
  | send ha hb hmsg ht => exact ⟨fun _ => by simp, fun _ => h.send ht _⟩
  | beginMessage pattern hmsg =>
    refine (keeps_beginMessage_iff h hl hd hmsg pattern).trans ?_
    simp [Draft.members, hmsg]
  | beginBundle hb =>
    refine (keeps_openBundle_iff h hl hd _).trans ?_
    cases hs : d.slot with
    | none => simp [Draft.members, hs]
    | some x => simp [Draft.members, hs, hb]
  | beginBundleAt tag hmsg =>
    refine (keeps_openBundle_iff h hl hd _).trans ?_
    simp [Draft.members, hmsg]
  | endInBundle hmsg hb hp =>
    exact ⟨fun _ => by simp [Draft.members, hb], fun _ => keeps_place h hp⟩
  | endAlone hmsg hb =>
    refine (keeps_endAlone_iff h hl hd).trans ?_
    cases hs : d.slot with
    | none => simp [Draft.members, hs]
    | some x => simp [Draft.members, hs, hmsg, hb]
  | @add var x m args hmsg ha hs =>
    have hslot : d.slotHandle = [m] := by simp [Draft.slotHandle, hs]
    exact ⟨fun _ => by simp, fun _ => h.congr rfl (pending_congr Iff.rfl hslot.symm rfl)⟩
  | endInner hb hp =>
    exact ⟨fun _ => by simp, fun _ => h.congr rfl
      (pending_congr (by simp [hp]) rfl (by simp [Draft.treeHandles, hp]))⟩
  | beginMessageThrows pattern hmsg =>
    exact ⟨fun _ => by simp [Draft.members, hmsg], fun _ => h.congr rfl rfl⟩
  | endMessageThrows hmsg =>
    exact ⟨fun _ => by simp [Draft.members, hmsg], fun _ => h.congr rfl rfl⟩
  | endNoBundle hmsg hb hp =>
    exact ⟨fun _ => by simp [Draft.members, hb], fun _ => h.congr rfl rfl⟩
  | beginBundleThrows hb =>
    exact ⟨fun _ => by simp [Draft.members, hb], fun _ => h.congr rfl rfl⟩
  | beginBundleAtThrows tag hmsg =>
    exact ⟨fun _ => by simp [Draft.members, hmsg], fun _ => h.congr rfl rfl⟩
  | _ => exact ⟨fun _ => by simp, fun _ => h.congr rfl rfl⟩

/-! ## Over every run -/

theorem Refines.nothingLost_iff {r : SenderRun} {d : Draft} (h : Refines r.state d) :
    NothingLost r ↔ d.Keeps (r.trace.flatMap completedBy) (r.trace.flatMap discardedBy) := by
  unfold NothingLost Draft.Keeps
  rw [h.sentMessages, h.pendingMessages]

/-- In a run of any calls no completed message is lost in any state reached, exactly when no call
drops one: no message is begun and no bundle opened while a completed message waits in the slot,
and no message is completed outside a bundle while a closed bundle waits. -/
theorem no_message_is_lost_iff_none_is_dropped [LibloApi] (address : Option (Str × UInt32))
    (ops : List Op) :
    (∀ q, q <+: ops → NothingLost (run step (constructed address) q)) ↔
      ∀ c ∈ (run step (constructed address) ops).trace,
        dropsMessage c.before.sender c.op = false := by
  apply always_iff step (C := fun c => dropsMessage c.before.sender c.op = false)
  · intro m hm
    cases hm
  intro ops op he hP _
  obtain ⟨d, hd, hl⟩ := run_history step step_refines (constructed.refines address)
    (H := LedgerOf) (C := fun _ => True)
    ⟨by simp, by simp [Draft.sentHandles, Draft.constructed],
      by simp [Draft.sentHandles, Draft.constructed],
      by simp [Draft.slotHandle, Draft.constructed]⟩
    ledger_call ops (fun _ _ => trivial)
  have hk := hd.nothingLost_iff.mp (hP ops (List.prefix_refl _))
  generalize run step (constructed address) ops = r at *
  have hm := step_refines r.state d op hd
  rw [Run.call_of_open step he, Refines.nothingLost_iff (hm.after hd)]
  exact keeps_call_iff (c := ⟨r.state, op, step r.state op⟩) hd hm hl hk

/-- Two messages outside bundles before a `send()`: the first one is completed, and then it is
nowhere. -/
theorem the_second_message_drops_the_first :
    let r := run step (constructed (some ([104], 9990)))
      [.beginMessage [47, 97], .endMessage, .beginMessage [47, 98], .endMessage]
    0 ∈ r.trace.flatMap completedBy ∧ 0 ∉ sentMessages r.state ∧
      0 ∉ r.trace.flatMap discardedBy ∧ 0 ∉ pendingMessages r.state ∧
      ¬ NothingLost r := by
  refine ⟨by decide, by decide, by decide, by decide, fun hlost => ?_⟩
  exact absurd (hlost 0 (by decide)) (by decide)

end osc
