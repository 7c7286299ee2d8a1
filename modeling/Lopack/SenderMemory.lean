-- The memory of a sender: which messages and bundles of liblo are in use after any run, and what
-- the destructor leaves behind. Bundles never leak. A message leaks exactly when a call lets go
-- of it without freeing it.
import Lopack.SenderFootprint

open calls rose linked store

namespace osc

/-! ## What a call lets go of -/

/-- The bundles in the tree under `m_bundles.front()`. -/
def treeBundles (w : World) : List Nat :=
  match w.sender.m_bundles with
  | [] => []
  | front :: _ => ((w.lo.cells.read (.node front)).map nodeHandles).getD []

/-- `clear()` with bundles frees their tree, and then forgets the message of the slot. -/
def forgottenByClear (s : OscSender) : List Nat :=
  if s.m_bundles = [] then [] else s.m_message.toList

/-- The message that a call lets go of without freeing it. -/
def abandonedBy (c : SenderCall) : List Nat :=
  if c.outcome.Returned then
    match c.op.direct with
    | .beginMessage _ => c.before.sender.m_message.toList
    | .send => forgottenByClear c.before.sender
    | .clear => forgottenByClear c.before.sender
    | _ => []
  else []

theorem Refines.treeBundles {w : World} {d : Draft} (h : Refines w d) :
    treeBundles w = d.bundles := by
  unfold osc.treeBundles Draft.bundles
  by_cases hp : d.path = []
  · rw [h.members, (bundles_nil_iff d).mpr hp, hp]
    rfl
  · obtain ⟨front, rest, t, hfront, hread, ht, _⟩ := h.read_tree hp
    rw [hfront]
    simp [hread, nodeHandles, whole_nodes ht]

theorem Refines.forgotten {w : World} {d : Draft} (h : Refines w d) :
    forgottenByClear w.sender = if d.path = [] then [] else d.slotHandle := by
  unfold forgottenByClear
  rw [h.members]
  simp only [bundles_nil_iff]
  rfl

/-- The cells of a draft are in use. -/
theorem Refines.used {w : World} {d : Draft} (h : Refines w d) :
    (∀ m ∈ d.messages, (w.lo.cells.leaves.cell m).isSome) ∧
      ∀ b ∈ d.bundles, (w.lo.cells.nodes.cell b).isSome := by
  refine ⟨?_, ?_⟩
  · intro m hm
    rcases List.mem_append.mp hm with hm | hm
    · obtain ⟨x, hx, rfl⟩ : ∃ x, d.slot = some x ∧ x.1 = m := by
        simpa [Draft.slotHandle] using hm
      rw [h.slot x hx]
      rfl
    · obtain ⟨l, hl, rfl⟩ := List.mem_map.mp hm
      rw [h.path.leaf_cell l hl]
      rfl
  · intro b hb
    obtain ⟨n, hn, rfl⟩ := List.mem_map.mp hb
    exact h.path.node_used n hn

/-! ## The cells in use -/

/-- The cells in use are those of the draft and the messages `lost`, which it has let go of. -/
structure Draft.Uses (d : Draft) (lost : List Nat)
    (c : Cells (List lo_arg) lo_timetag CString) : Prop where
  messages : ∀ m, (c.leaves.cell m).isSome ↔ m ∈ d.messages ∨ m ∈ lost
  bundles : ∀ b, (c.nodes.cell b).isSome ↔ b ∈ d.bundles
  apart : ∀ m ∈ lost, m ∉ d.messages
  nodup : lost.Nodup

theorem Draft.Uses.lost_lt {d : Draft} {lost : List Nat} {w : World}
    (h : d.Uses lost w.lo.cells) (hd : Refines w d) : ∀ m ∈ lost, m < d.nextMessage := by
  intro m hm
  obtain ⟨a, ha⟩ := Option.isSome_iff_exists.mp ((h.messages m).mpr (.inr hm))
  rw [← hd.nextMessage]
  exact Store.lt_next ha

/-- The draft has all its cells still, and every new one. -/
structure Draft.Keeping (d d' : Draft) : Prop where
  messages : ∀ m ∈ d.messages, m ∈ d'.messages
  bundles : ∀ b ∈ d.bundles, b ∈ d'.bundles
  newMessages : ∀ m, d.nextMessage ≤ m → m < d'.nextMessage → m ∈ d'.messages
  newBundles : ∀ b, d.nextBundle ≤ b → b < d'.nextBundle → b ∈ d'.bundles

theorem Draft.Uses.keep {w w' : World} {d d' : Draft} {lost : List Nat}
    (h : d.Uses lost w.lo.cells) (hd : Refines w d) (hd' : Refines w' d')
    (ht : Touches w.lo.cells w'.lo.cells d.messages d.bundles) (hg : d.Grows d')
    (hk : d.Keeping d') : d'.Uses lost w'.lo.cells := by
  refine ⟨?_, ?_, ?_, h.nodup⟩
  · intro m
    constructor
    · intro hm
      obtain ⟨a, ha⟩ := Option.isSome_iff_exists.mp hm
      have hlt := Store.lt_next ha
      rw [hd'.nextMessage] at hlt
      by_cases hold : m < d.nextMessage
      · by_cases hmine : m ∈ d.messages
        · exact .inl (hk.messages m hmine)
        · rw [ht.leaf m (hd.nextMessage ▸ hold) hmine, h.messages] at hm
          exact .inr (hm.resolve_left hmine)
      · exact .inl (hk.newMessages m (by omega) hlt)
    · rintro (hm | hm)
      · exact hd'.used.1 m hm
      · have hlt := h.lost_lt hd m hm
        rw [ht.leaf m (hd.nextMessage ▸ hlt) (h.apart m hm), h.messages]
        exact .inr hm
  · intro b
    constructor
    · intro hb
      obtain ⟨a, ha⟩ := Option.isSome_iff_exists.mp hb
      have hlt := Store.lt_next ha
      rw [hd'.nextBundle] at hlt
      by_cases hold : b < d.nextBundle
      · by_cases hmine : b ∈ d.bundles
        · exact hk.bundles b hmine
        · rw [ht.node b (hd.nextBundle ▸ hold) hmine, h.bundles] at hb
          exact absurd hb hmine
      · exact hk.newBundles b (by omega) hlt
    · exact hd'.used.2 b
  · intro m hm hm'
    have hlt := h.lost_lt hd m hm
    rcases hg.messages m hm' with hold | hnew
    · exact h.apart m hm hold
    · omega

/-! ## Calls that let go of cells -/

/-- The message of the slot was not let go of before. -/
theorem Draft.Uses.slot_nodup {d : Draft} {lost : List Nat}
    {c : Cells (List lo_arg) lo_timetag CString} (h : d.Uses lost c) :
    (d.slotHandle ++ lost).Nodup := by
  rw [List.nodup_append]
  refine ⟨?_, h.nodup, ?_⟩
  · unfold Draft.slotHandle
    cases d.slot <;> simp
  · rintro m hm m' hm' rfl
    exact h.apart m hm' (List.mem_append_left _ hm)

theorem Draft.Uses.clear {w : World} {d : Draft} {lost : List Nat}
    {c : Cells (List lo_arg) lo_timetag CString} (h : d.Uses lost w.lo.cells) (hd : Refines w d)
    (he : Emptied w.lo.cells c d.pending d.bundles) :
    d.clear.Uses ((if d.path = [] then [] else d.slotHandle) ++ lost) c := by
  have hmessages : d.clear.messages = [] := rfl
  have hbundles : d.clear.bundles = [] := rfl
  refine ⟨?_, ?_, ?_, ?_⟩
  · intro m
    rw [he.leaf, hmessages]
    unfold Draft.pending
    have hin := h.messages m
    have hapart := h.apart m
    simp only [Draft.messages, List.mem_append] at hin hapart
    by_cases hp : d.path = []
    · have htree : d.treeHandles = [] := by simp [Draft.treeHandles, hp, pathLeaves]
      simp only [if_pos hp]
      rw [htree] at hin hapart
      by_cases hm : m ∈ d.slotHandle
      · simp [hm] at hapart ⊢
        exact hapart
      · simp [hm, hin]
    · simp only [if_neg hp]
      by_cases hm : m ∈ d.treeHandles
      · have hnot : m ∉ d.slotHandle := by
          intro hs
          obtain ⟨x, hx, rfl⟩ : ∃ x, d.slot = some x ∧ x.1 = m := by
            simpa [Draft.slotHandle] using hs
          exact hd.distinct.slot x hx hm
        have hlost : m ∉ lost := fun hl => hapart hl (.inr hm)
        simp [hm, hnot, hlost]
      · simp [hm, hin]
  · intro b
    rw [he.node, hbundles]
    by_cases hb : b ∈ d.bundles
    · simp [hb]
    · simp [hb, h.bundles]
  · intro m _ hm
    rw [hmessages] at hm
    cases hm
  · by_cases hp : d.path = []
    · simpa [hp] using h.nodup
    · simpa [hp] using h.slot_nodup

/-- A new message takes the slot, and the one before is let go of. -/
theorem Draft.Uses.beginMessage {w : World} {d : Draft} {lost : List Nat}
    (h : d.Uses lost w.lo.cells) (hd : Refines w d) (pattern : Str) :
    Draft.Uses { d with
      slot := some (d.nextMessage, [])
      messageOpen := true
      pattern := pattern
      nextMessage := d.nextMessage + 1 } (d.slotHandle ++ lost)
      { w.lo.cells with leaves := w.lo.cells.leaves.alloc [] } := by
  refine ⟨?_, h.bundles, ?_, h.slot_nodup⟩
  · intro m
    have hin := h.messages m
    simp only [Draft.messages, Draft.slotHandle, List.mem_append, Option.map_some,
      Option.toList_some, List.mem_singleton] at hin ⊢
    by_cases hm : m = d.nextMessage
    · rw [hm, ← hd.nextMessage, Store.alloc_cell_next]
      simp
    · rw [Store.alloc_cell_of_ne [] (hd.nextMessage ▸ hm), hin]
      simp only [hm, false_or]
      constructor
      · rintro ((hs | ht) | hl)
        · exact .inr (.inl hs)
        · exact .inl ht
        · exact .inr (.inr hl)
      · rintro (ht | hs | hl)
        · exact .inl (.inr ht)
        · exact .inl (.inl hs)
        · exact .inr hl
  · intro m hm hm'
    have hlt : m < d.nextMessage := by
      rcases List.mem_append.mp hm with hs | hl
      · exact hd.handles_lt.1 m hs
      · exact h.lost_lt hd m hl
    rcases List.mem_append.mp hm' with hnew | htree
    · have heq : m = d.nextMessage := by simpa [Draft.slotHandle] using hnew
      omega
    · rcases List.mem_append.mp hm with hs | hl
      · obtain ⟨x, hx, rfl⟩ : ∃ x, d.slot = some x ∧ x.1 = m := by
          simpa [Draft.slotHandle] using hs
        exact hd.distinct.slot x hx htree
      · exact h.apart m hl (List.mem_append_right _ htree)

/-! ## Every call -/

theorem Draft.Keeping.of_messages {d d' : Draft} (hm : d'.messages = d.messages)
    (hb : d'.bundles = d.bundles) (hnm : d'.nextMessage = d.nextMessage)
    (hnb : d'.nextBundle = d.nextBundle) : d.Keeping d' := by
  refine ⟨fun m h => hm ▸ h, fun b h => hb ▸ h, ?_, ?_⟩
  · intro m hold hnew
    omega
  · intro b hold hnew
    omega

theorem Draft.Keeping.openBundle (d : Draft) (tag : lo_timetag) :
    d.Keeping (d.openBundle tag) := by
  have hmessages : (d.openBundle tag).messages = d.messages := by
    simp [Draft.messages, Draft.slotHandle, Draft.treeHandles, Draft.openBundle]
  have hbundles : (d.openBundle tag).bundles = d.bundles ++ [d.nextBundle] := by
    simp [Draft.bundles, Draft.openBundle]
  refine ⟨fun m h => hmessages ▸ h, ?_, ?_, ?_⟩
  · intro b hb
    rw [hbundles]
    exact List.mem_append_left _ hb
  · intro m hold hnew
    have hnext : (d.openBundle tag).nextMessage = d.nextMessage := rfl
    omega
  · intro b hold hnew
    have hnext : (d.openBundle tag).nextBundle = d.nextBundle + 1 := rfl
    rw [hbundles, List.mem_append, List.mem_singleton]
    omega

theorem Draft.Keeping.place {d : Draft} {f : BundleFrame} {fs : List BundleFrame}
    (hp : d.path = f :: fs) : d.Keeping (d.place f fs) := by
  refine ⟨?_, ?_, ?_, ?_⟩
  · intro m hm
    have hempty : (d.place f fs).slotHandle = [] := rfl
    rw [Draft.messages, hempty, List.nil_append, place_treeHandles hp, List.mem_append]
    exact (List.mem_append.mp hm).symm
  · intro b hb
    rw [Draft.bundles, Draft.place_nodes, ← hp]
    exact hb
  · intro m hold hnew
    have hnext : (d.place f fs).nextMessage = d.nextMessage := rfl
    omega
  · intro b hold hnew
    have hnext : (d.place f fs).nextBundle = d.nextBundle := rfl
    omega

/-- A call whose draft keeps its cells lets go of none. -/
theorem Draft.Uses.kept [LibloApi] {w w' : World} {d d' : Draft} {lost : List Nat} {op : Op}
    (h : d.Uses lost w.lo.cells) (hd : Refines w d) (hw' : (osc.step w op).state? = some w')
    (hd' : (d.step op).state? = some d') (hr : Refines w' d') (hk : d.Keeping d') :
    d'.Uses lost w'.lo.cells := by
  have hg := step_grows d op
  rw [hd'] at hg
  exact h.keep hd hr (step_touches hd hw') hg hk

/-- The cells after `clear()`, whatever was sent before it. -/
theorem Draft.Uses.cleared [LibloApi] {lo : Liblo} {d : Draft} {lost : List Nat}
    (h : d.Uses lost lo.cells) (hd : Refines ⟨d.members, lo⟩ d)
    (sent : List (lo_address × HeldPacket)) {w' : World}
    (hw' : (OscSender.clear ⟨d.members, { lo with sent }⟩).state? = some w') :
    d.clear.Uses ((if d.path = [] then [] else d.slotHandle) ++ lost) w'.lo.cells := by
  obtain ⟨c, hclear, hempty⟩ := clear_exec (d := { d with sent }) (hd.sending sent)
  have hmembers : Draft.members { d with sent } = d.members := rfl
  rw [hmembers] at hclear
  rw [hclear] at hw'
  cases hw'
  exact h.clear hd hempty

theorem destroy_uses [LibloApi] {w : World} {d : Draft} {lost : List Nat}
    (h : d.Uses lost w.lo.cells) (hd : Refines w d) :
    ∃ w', OscSender.destroy w = .returned () w' ∧
      d.clear.Uses (forgottenByClear w.sender ++ lost) w'.lo.cells := by
  rw [hd.forgotten]
  obtain ⟨sender, lo⟩ := w
  obtain rfl := hd.members
  obtain ⟨c, hclear, hempty⟩ := clear_exec hd
  exact ⟨_, hclear, h.clear hd hempty⟩

/-- Every call: what it abandons joins the messages that were let go of before. -/
theorem uses_call [LibloApi] {w : World} {d : Draft} {lost : List Nat} (h : d.Uses lost w.lo.cells)
    (hd : Refines w d) (op : Op) :
    ∃ d', Refines ((step w op).state?.getD w) d' ∧
      d'.Uses (abandonedBy ⟨w, op, step w op⟩ ++ lost) ((step w op).state?.getD w).lo.cells := by
  have hm := step_refines w d op hd
  have hret := hm.returned_iff
  cases hw : (step w op).state? with
  | none =>
    refine ⟨d, hd, ?_⟩
    have hnot : ¬ (step w op).Returned := by
      intro hreturned
      cases ho : step w op with
      | returned a w' => simp [ho] at hw
      | threw e w' => simp [ho] at hw
      | undefined u => simp [ho] at hreturned
    simpa [abandonedBy, hnot] using h
  | some w' =>
    obtain ⟨d', hd', hr⟩ := hm.of_state hw
    refine ⟨d', hr, ?_⟩
    have hkept : d.Keeping d' → d'.Uses lost w'.lo.cells := h.kept hd hw hd' hr
    have hends := d.step_ends op
    obtain ⟨sender, lo⟩ := w
    obtain rfl := hd.members
    simp only [abandonedBy, hret, hd.forgotten, Option.getD_some]
    rw [step_direct] at hw hret
    generalize d.step op = o at hends hd' hret ⊢
    generalize op.direct = op at hends hw hret ⊢
    cases hends with
    | clear =>
      cases hd'
      simpa using h.cleared hd lo.sent hw
    | send ha hb hmsg ht =>
      cases hd'
      rcases send_exec hd hw with hthrew | ⟨sent, hclear⟩
      · have hreturned := hret.mpr trivial
        simp [step, Op.method, hthrew] at hreturned
      · have hcleared := h.cleared hd sent hclear
        simpa using ⟨hcleared.messages, hcleared.bundles, hcleared.apart, hcleared.nodup⟩
    | beginMessage pattern hmsg =>
      cases hd'
      have hw' : w'.lo.cells = { lo.cells with leaves := lo.cells.leaves.alloc [] } := by
        have hopen : d.members.m_messageInProgress = false := hmsg
        simp only [step, Op.method, OscSender.beginMessage, bind_exec, read_exec, hopen, code_ite,
          onLo_returned (LibloApi.message_new lo), setMembers_exec] at hw
        cases hw
        rfl
      rw [hw']
      exact h.beginMessage hd pattern
    | @add var x m args hmsg ha hs =>
      cases hd'
      refine hkept (.of_messages ?_ rfl rfl rfl)
      simp [Draft.messages, Draft.slotHandle, Draft.treeHandles, hs]
    | endInBundle hmsg hb hp =>
      cases hd'
      exact hkept (.place hp)
    | beginBundle hb =>
      cases hd'
      exact hkept (.openBundle d _)
    | beginBundleAt tag hmsg =>
      cases hd'
      exact hkept (.openBundle d _)
    | endInner hb hp =>
      cases hd'
      refine hkept (.of_messages ?_ ?_ rfl rfl)
      · simp [Draft.messages, Draft.slotHandle, Draft.treeHandles, hp]
      · simp [Draft.bundles, hp]
    | addUndefined var hmsg ha => cases hd'
    | addNull var hmsg hs => cases hd'
    | endNoBundle hmsg hb hp => cases hd'
    | stream item => cases hd'
    | _ =>
      cases hd'
      exact hkept (.of_messages rfl rfl rfl rfl)

/-! ## Every run -/

theorem run_uses [LibloApi] (address : Option (Str × UInt32)) (ops : List Op) :
    ∃ d, Refines (run step (constructed address) ops).state d ∧
      d.Uses ((run step (constructed address) ops).trace.flatMap abandonedBy)
        (run step (constructed address) ops).state.lo.cells := by
  apply run_induction step (P := fun r => ∃ d, Refines r.state d ∧
    d.Uses (r.trace.flatMap abandonedBy) r.state.lo.cells)
  · refine ⟨Draft.constructed address, constructed.refines address, ?_, ?_, ?_, List.nodup_nil⟩
    · intro m
      rw [constructed_lo]
      exact ⟨fun h => (by cases h), fun h => (by rcases h with h | h <;> cases h)⟩
    · intro b
      rw [constructed_lo]
      exact ⟨fun h => (by cases h), fun h => (by cases h)⟩
    · intro m hm
      cases hm
  · rintro r op he ⟨d, hd, hu⟩
    rw [Run.call_of_open step he, List.flatMap_cons]
    exact uses_call hu hd op

/-- The memory of a sender after any calls. The bundles in use are those of its tree. The messages
in use are that of the slot, those of the tree, and the ones that a call abandoned: these are never
freed, and the sender cannot reach them any more. -/
theorem the_cells_in_use [LibloApi] (address : Option (Str × UInt32)) (ops : List Op) :
    let r := run step (constructed address) ops
    let lost := r.trace.flatMap abandonedBy
    (∀ b, (r.state.lo.cells.nodes.cell b).isSome ↔ b ∈ treeBundles r.state) ∧
      (∀ m, (r.state.lo.cells.leaves.cell m).isSome ↔
        r.state.sender.m_message = some m ∨ m ∈ treeMessages r.state ∨ m ∈ lost) ∧
      lost.Nodup ∧
      ∀ m ∈ lost, r.state.sender.m_message ≠ some m ∧ m ∉ treeMessages r.state := by
  intro r lost
  obtain ⟨d, hd, hu⟩ := run_uses address ops
  have hslot : ∀ m, r.state.sender.m_message = some m ↔ m ∈ d.slotHandle := by
    intro m
    rw [← hd.slotHandle, Option.mem_toList]
  have hmessages : ∀ m, m ∈ d.messages ↔
      r.state.sender.m_message = some m ∨ m ∈ treeMessages r.state := by
    intro m
    rw [hslot, hd.treeMessages, Draft.messages, List.mem_append]
  refine ⟨?_, ?_, hu.nodup, ?_⟩
  · intro b
    rw [hd.treeBundles]
    exact hu.bundles b
  · intro m
    rw [← or_assoc, ← hmessages]
    exact hu.messages m
  · intro m hm
    have hnot := hu.apart m hm
    rw [hmessages, not_or] at hnot
    exact hnot

/-- The destructor after any calls always returns and leaves no bundle in use. It leaves no message
in use exactly when no call of the run abandoned one and it does not do so itself, with a message
in the slot besides bundles. -/
theorem the_destructor_frees_all_iff_nothing_is_abandoned [LibloApi]
    (address : Option (Str × UInt32)) (ops : List Op) :
    let r := run step (constructed address) ops
    ∃ w, OscSender.destroy r.state = .returned () w ∧
      (∀ b, w.lo.cells.nodes.cell b = none) ∧
      ((∀ m, w.lo.cells.leaves.cell m = none) ↔
        (∀ c ∈ r.trace, abandonedBy c = []) ∧ forgottenByClear r.state.sender = []) := by
  intro r
  obtain ⟨d, hd, hu⟩ := run_uses address ops
  change Refines r.state d at hd
  change d.Uses (r.trace.flatMap abandonedBy) r.state.lo.cells at hu
  obtain ⟨w, hw, hcleared⟩ := destroy_uses hu hd
  have hbundles : d.clear.bundles = [] := rfl
  have hmessages : d.clear.messages = [] := rfl
  refine ⟨w, hw, ?_, ?_⟩
  · intro b
    rw [← Option.not_isSome_iff_eq_none, hcleared.bundles, hbundles]
    exact List.not_mem_nil
  · have hused : ∀ m, w.lo.cells.leaves.cell m = none ↔
        m ∉ forgottenByClear r.state.sender ++ r.trace.flatMap abandonedBy := by
      intro m
      rw [← Option.not_isSome_iff_eq_none, hcleared.messages, hmessages]
      simp
    simp only [hused, ← List.eq_nil_iff_forall_not_mem, List.append_eq_nil_iff,
      List.flatMap_eq_nil_iff]
    exact and_comm

end osc
