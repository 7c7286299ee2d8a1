-- The sender refines the draft: each call of the code ends as the same call on
-- the draft ends, and the cells of liblo hold the tree of the draft.
import Lopack.PacketDraft

open calls rose linked store

namespace osc

/-! ## The relation -/

/-- No handle stands twice: not in the tree, and not in the tree and the slot. -/
structure Draft.Distinct (d : Draft) : Prop where
  leaves : ((pathLeaves d.path).map LeafAt.handle).Nodup
  nodes : ((pathNodes d.path).map NodeAt.handle).Nodup
  slot : ∀ x, d.slot = some x → x.1 ∉ (pathLeaves d.path).map LeafAt.handle

structure Refines (w : World) (d : Draft) : Prop where
  members : w.sender = d.members
  sent : w.lo.sent = d.sent
  nextMessage : w.lo.cells.leaves.next = d.nextMessage
  nextBundle : w.lo.cells.nodes.next = d.nextBundle
  slot : ∀ x, d.slot = some x → w.lo.cells.leaves.cell x.1 = some x.2
  path : OpenHolds w.lo.cells [] d.path
  distinct : d.Distinct

theorem Refines.messageInProgress {w : World} {d : Draft} (h : Refines w d) :
    w.sender.m_messageInProgress = d.messageOpen := by
  rw [h.members]
  rfl

theorem Refines.bundleInProgress {w : World} {d : Draft} (h : Refines w d) :
    w.sender.m_bundleInProgress = d.bundleOpen := by
  rw [h.members]
  rfl

theorem message_null {d : Draft} (h : d.slot = none) : d.members.m_message = none := by
  simp [Draft.members, h]

theorem message_of_slot {d : Draft} {m : Nat} {args : List lo_arg} (h : d.slot = some (m, args)) :
    d.members.m_message = some m := by
  simp [Draft.members, h]

theorem onLo_returned {α : Type} {x : LoCall α} {sender : OscSender} {lo lo' : Liblo} {a : α}
    (h : x lo = .returned a lo') : onLo x ⟨sender, lo⟩ = .returned a ⟨sender, lo'⟩ :=
  within_returned h

theorem onLo_undefined {α : Type} {x : LoCall α} {sender : OscSender} {lo : Liblo}
    {u : Undefined} (h : x lo = .undefined u) : onLo x ⟨sender, lo⟩ = .undefined u :=
  within_undefined h

@[simp] theorem setMembers_exec (f : OscSender → OscSender) (w : World) :
    setMembers f w = .returned () { w with sender := f w.sender } := rfl

theorem Draft.Distinct.place {d : Draft} (h : d.Distinct) {f : BundleFrame}
    {fs : List BundleFrame} (hp : d.path = f :: fs) : (d.place f fs).Distinct := by
  refine ⟨?_, ?_, ?_⟩
  · rw [place_leaves, ← hp, List.map_append]
    cases hs : d.slot with
    | none => simpa using h.leaves
    | some x => simpa using h.leaves.concat (h.slot x hs)
  · rw [place_nodes, ← hp]
    exact h.nodes
  · intro x hx
    cases hx

theorem place_members {d : Draft} {f : BundleFrame} {fs : List BundleFrame}
    (hp : d.path = f :: fs) :
    (d.place f fs).members = { d.members with
      m_message := none, m_addressPattern := [], m_messageInProgress := false } := by
  unfold Draft.place Draft.slotLeaf
  cases d.slot with
  | none => simp [Draft.members, hp]
  | some x => simp [Draft.members, hp]

theorem Draft.Distinct.openBundle {d : Draft} (h : d.Distinct)
    (hfresh : d.nextBundle ∉ (pathNodes d.path).map NodeAt.handle) (tag : lo_timetag) :
    (d.openBundle tag).Distinct := by
  refine ⟨?_, ?_, ?_⟩
  · simpa [Draft.openBundle] using h.leaves
  · simpa [Draft.openBundle] using h.nodes.concat hfresh
  · simpa [Draft.openBundle] using h.slot

/-! ## The tree under `m_bundles` -/

/-- The front of `m_bundles` is the handle of the root. -/
theorem front_of_path {d : Draft} {t : HeldPacket} (h : whole d.path = some t) :
    ∃ front rest, d.members.m_bundles = front :: rest ∧ link t = .node front := by
  obtain ⟨b, bs, ts, hbs, ht⟩ := (whole_spine h).head
  refine ⟨b.handle, bs.map NodeAt.handle, ?_, by rw [ht, link]⟩
  have hmap : d.members.m_bundles = ((d.path.map Frame.label).reverse).map NodeAt.handle := by
    simp [Draft.members]
  rw [hmap, hbs, List.map_cons]

theorem bundles_nil_iff (d : Draft) : d.members.m_bundles = [] ↔ d.path = [] := by
  simp [Draft.members]

theorem whole_none_iff {d : Draft} : whole d.path = none ↔ d.path = [] := by
  cases hp : d.path with
  | nil => simp [whole]
  | cons f fs => simp [whole]

/-- The back of `m_bundles` is the innermost bundle. -/
theorem back_of_path {d : Draft} {f : BundleFrame} {fs : List BundleFrame} (h : d.path = f :: fs) :
    d.members.m_bundles.getLast? = some f.label.handle := by
  simp [Draft.members, h]

/-- The tree of the draft is in the cells, with distinct handles. -/
theorem Refines.tree {w : World} {d : Draft} {t : HeldPacket} (h : Refines w d)
    (ht : whole d.path = some t) :
    Holds w.lo.cells t ∧ (leafHandles t).Nodup ∧ (nodeHandles t).Nodup := by
  refine ⟨whole_holds h.path ht, ?_, ?_⟩
  · rw [leafHandles, whole_leaves ht]
    exact h.distinct.leaves
  · rw [nodeHandles, whole_nodes ht]
    exact h.distinct.nodes

/-- The tree of a sender with bundles can be read, and has no message twice. -/
theorem Refines.read_tree {w : World} {d : Draft} (h : Refines w d) (hp : d.path ≠ []) :
    ∃ front rest t, w.sender.m_bundles = front :: rest ∧
      w.lo.cells.read (.node front) = some t ∧ whole d.path = some t ∧
      (leafHandles t).Nodup ∧ (nodeHandles t).Nodup := by
  obtain ⟨t, ht⟩ := Option.ne_none_iff_exists'.mp (whole_none_iff.not.mpr hp)
  obtain ⟨front, rest, hfront, hlink⟩ := front_of_path ht
  obtain ⟨hholds, hleaves, hnodes⟩ := h.tree ht
  refine ⟨front, rest, t, by rw [h.members, hfront], ?_, ht, hleaves, hnodes⟩
  rw [← hlink]
  exact read_of_holds hholds hnodes

/-! ## Clear and send -/

theorem distinct_nil {d : Draft} (hp : d.path = []) : d.Distinct := by
  refine ⟨?_, ?_, ?_⟩ <;> simp [hp, pathLeaves, pathNodes]

/-- After `clear` nothing is held, so only the counters of the cells matter. -/
theorem Refines.clear {lo lo' : Liblo} {d : Draft} (h : Refines ⟨d.members, lo⟩ d)
    (hsent : lo'.sent = lo.sent) (hleaves : lo'.cells.leaves.next = lo.cells.leaves.next)
    (hnodes : lo'.cells.nodes.next = lo.cells.nodes.next) :
    Refines ⟨d.clear.members, lo'⟩ d.clear := by
  refine ⟨rfl, hsent.trans h.sent, hleaves.trans h.nextMessage, hnodes.trans h.nextBundle, ?_,
    trivial, distinct_nil rfl⟩
  intro x hx
  cases hx

theorem endBundle.refines {w : World} {d : Draft} (h : Refines w d) :
    (OscSender.endBundle w).Matches Refines d.endBundle := by
  obtain ⟨sender, lo⟩ := w
  obtain rfl := h.members
  unfold OscSender.endBundle Draft.endBundle
  have hflag : d.members.m_bundleInProgress = d.bundleOpen := rfl
  have hclose : Refines ⟨{ d.members with m_bundleInProgress := false }, lo⟩
      { d with bundleOpen := false } :=
    ⟨rfl, h.sent, h.nextMessage, h.nextBundle, h.slot, h.path, h.distinct.leaves,
      h.distinct.nodes, h.distinct.slot⟩
  simp only [bind_exec, read_exec, hflag, code_ite, raise_exec, setMembers_exec]
  split
  · exact ⟨rfl, h⟩
  · rcases hp : d.path with _ | ⟨f, _ | ⟨g, fs⟩⟩
    · rw [if_neg (by simp [Draft.members, hp])]
      rw [hp] at hclose
      exact hclose
    · rw [if_neg (by simp [Draft.members, hp])]
      rw [hp] at hclose
      exact hclose
    · rw [if_pos (by simp [Draft.members, hp])]
      have hopen : OpenHolds lo.cells [] (f :: g :: fs) := hp ▸ h.path
      refine ⟨?_, h.sent, h.nextMessage, h.nextBundle, h.slot, hopen.close, ?_, ?_, ?_⟩
      · simp [Draft.members, hp]
      · rw [pathLeaves_close, ← hp]; exact h.distinct.leaves
      · rw [pathNodes_close, ← hp]; exact h.distinct.nodes
      · simp only [pathLeaves_close, ← hp]; exact h.distinct.slot

variable [LibloApi]

theorem clear.refines {w : World} {d : Draft} (h : Refines w d) :
    ∃ w', OscSender.clear w = .returned () w' ∧ Refines w' d.clear := by
  obtain ⟨sender, lo⟩ := w
  obtain rfl := h.members
  cases ht : whole d.path with
  | some t =>
    obtain ⟨front, rest, hb, hl⟩ := front_of_path ht
    obtain ⟨hh, hleaves, hnodes⟩ := h.tree ht
    obtain ⟨c, hc, he⟩ := release_of_holds hh hleaves hnodes
    rw [hl] at hc
    refine ⟨⟨d.clear.members, { lo with cells := c }⟩, ?_,
      h.clear rfl he.leaves_next he.nodes_next⟩
    simp only [OscSender.clear, bind_exec, read_exec, hb,
      onLo_returned (LibloApi.bundle_free_recursive hc), setMembers_exec]
    simp [Draft.members, Draft.clear]
  | none =>
    have hp := whole_none_iff.mp ht
    have hb := (bundles_nil_iff d).mpr hp
    cases hs : d.slot with
    | none =>
      refine ⟨⟨d.clear.members, lo⟩, ?_, h.clear rfl rfl rfl⟩
      simp only [OscSender.clear, bind_exec, read_exec, hb, message_null hs, setMembers_exec]
      simp [Draft.members, Draft.clear, hp]
    | some x =>
      obtain ⟨s, hfree, hnext, _⟩ := lo_message_free.spec (h.slot x hs)
      refine ⟨⟨d.clear.members, { lo with cells.leaves := s }⟩, ?_, h.clear rfl hnext rfl⟩
      simp only [OscSender.clear, bind_exec, read_exec, hb, message_of_slot hs,
        onLo_returned hfree, setMembers_exec]
      simp [Draft.members, Draft.clear, hp]

/-- The part of `send` that hands the packet over. -/
theorem lo_send_outgoing {lo : Liblo} {d : Draft} {t : HeldPacket} {address : lo_address}
    {x : LoCall Unit} (h : Refines ⟨d.members, lo⟩ d)
    (hx : x lo = .returned () { lo with sent := lo.sent ++ [(address, t)] }) :
    ((onLo x >>= fun _ => OscSender.clear) ⟨d.members, lo⟩).Matches Refines
      (.returned () { d.clear with sent := d.sent ++ [(address, t)] }) := by
  have hsent : lo.sent = d.sent := h.sent
  have h1 : Refines ⟨d.members, { lo with sent := lo.sent ++ [(address, t)] }⟩
      { d with sent := d.sent ++ [(address, t)] } :=
    ⟨rfl, by simp [hsent], h.nextMessage, h.nextBundle, h.slot, h.path,
      h.distinct.leaves, h.distinct.nodes, h.distinct.slot⟩
  obtain ⟨w', hw', hr⟩ := clear.refines h1
  rw [bind_of_returned _ (onLo_returned hx), hw']
  exact hr

theorem send.refines {w : World} {d : Draft} (h : Refines w d) :
    (OscSender.send w).Matches Refines d.send := by
  obtain ⟨sender, lo⟩ := w
  obtain rfl := h.members
  unfold OscSender.send Draft.send
  simp only [bind_exec, read_exec]
  have haddr : d.members.m_address = d.address := rfl
  rw [haddr]
  cases ha : d.address with
  | none => exact ⟨rfl, h⟩
  | some address =>
    have hflags : (d.members.m_bundleInProgress || d.members.m_messageInProgress) =
        (d.bundleOpen || d.messageOpen) := rfl
    simp only [hflags, code_ite]
    split
    · exact ⟨rfl, h⟩
    · unfold Draft.outgoing
      cases hw : whole d.path with
      | some t =>
        obtain ⟨front, rest, hb, hl⟩ := front_of_path hw
        obtain ⟨hh, _, hnodes⟩ := h.tree hw
        simp only [hb]
        exact lo_send_outgoing h (LibloApi.send_bundle address (hl ▸ read_of_holds hh hnodes))
      | none =>
        have hb := (bundles_nil_iff d).mpr (whole_none_iff.mp hw)
        simp only [hb, Draft.slotLeaf]
        cases hs : d.slot with
        | none =>
          simp only [message_null hs, bind_exec, raise_exec, Option.map_none]
          exact ⟨rfl, h⟩
        | some x =>
          have hcell : lo.cells.leaves.cell x.1 = some x.2 := h.slot x hs
          simp only [message_of_slot hs, Option.map_some]
          refine lo_send_outgoing h (LibloApi.send_message address ?_)
          simp [Cells.read, readTree, hcell, Draft.members]

/-! ## Messages -/

theorem beginMessage.refines {w : World} {d : Draft} (h : Refines w d) (pattern : Str) :
    (OscSender.beginMessage pattern w).Matches Refines (d.beginMessage pattern) := by
  obtain ⟨sender, lo⟩ := w
  obtain rfl := h.members
  unfold OscSender.beginMessage Draft.beginMessage
  have hflag : d.members.m_messageInProgress = d.messageOpen := rfl
  simp only [bind_exec, read_exec, hflag, code_ite, onLo_returned (LibloApi.message_new lo),
    raise_exec, setMembers_exec]
  split
  · exact ⟨rfl, h⟩
  · have hnext : lo.cells.leaves.next = d.nextMessage := h.nextMessage
    obtain ⟨hfresh, hpath⟩ := h.path.alloc_leaf []
    refine ⟨by simp [Draft.members, hnext], h.sent, by simp [hnext], h.nextBundle, ?_, hpath,
      h.distinct.leaves, h.distinct.nodes, ?_⟩
    · intro x hx
      cases hx
      rw [← hnext]
      exact Store.alloc_cell_next _ _
    · intro x hx
      cases hx
      rw [← hnext]
      exact hfresh

theorem add.refines {w : World} {d : Draft} (h : Refines w d) (a : Except Undefined lo_arg) :
    (OscSender.addWith (lo_message_add_arg a) w).Matches Refines (d.add a) := by
  obtain ⟨sender, lo⟩ := w
  obtain rfl := h.members
  unfold OscSender.addWith Draft.add
  have hflag : d.members.m_messageInProgress = d.messageOpen := rfl
  simp only [bind_exec, read_exec, hflag, code_ite, raise_exec]
  split
  · exact ⟨rfl, h⟩
  · cases a with
    | error u => rw [onLo_undefined (u := u) rfl]; rfl
    | ok x =>
      cases hs : d.slot with
      | none =>
        rw [message_null hs, onLo_undefined (x := lo_message_add_arg (.ok x) none)
          (LibloApi.message_add_null x lo)]
        rfl
      | some y =>
        obtain ⟨m, args⟩ := y
        obtain ⟨s, hadd, hnext, hself, hother⟩ := lo_message_add.spec x (h.slot _ hs)
        have hapart := h.distinct.slot _ hs
        rw [message_of_slot hs, onLo_returned (x := lo_message_add_arg (.ok x) (some m)) hadd]
        refine ⟨by simp [Draft.members, hs], h.sent, hnext.trans h.nextMessage, h.nextBundle,
          ?_, ?_, h.distinct.leaves, h.distinct.nodes, ?_⟩
        · intro y hy
          cases hy
          exact hself
        · refine h.path.congr ?_ (fun _ _ => rfl)
          intro l hl
          apply hother
          intro heq
          exact hapart (heq ▸ List.mem_map_of_mem hl)
        · intro y hy
          cases hy
          exact hapart

/-- liblo takes the message in the slot into the innermost bundle. -/
theorem Refines.place {lo : Liblo} {d : Draft} {f : BundleFrame} {fs : List BundleFrame}
    (h : Refines ⟨d.members, lo⟩ d) (hp : d.path = f :: fs) :
    ∃ lo', lo_bundle_add_message f.label.handle (cStr d.pattern) d.members.m_message lo =
        .returned () lo' ∧
      Refines ⟨(d.place f fs).members, lo'⟩ (d.place f fs) := by
  have hopen : OpenHolds lo.cells [] (f :: fs) := hp ▸ h.path
  have hdistinct := h.distinct.place hp
  cases hs : d.slot with
  | none =>
    -- liblo takes a NULL message and adds nothing
    rw [message_null hs]
    refine ⟨lo, LibloApi.bundle_add_null _ hopen.1, rfl, h.sent, h.nextMessage, h.nextBundle, ?_,
      ?_, hdistinct⟩
    · intro x hx
      cases hx
    · simpa [Draft.place, Draft.slotLeaf, hs] using hopen
  | some x =>
    obtain ⟨m, args⟩ := x
    have hnodes : ((pathNodes (f :: fs)).map NodeAt.handle).Nodup := hp ▸ h.distinct.nodes
    obtain ⟨c, hc, hcl, hcn, _, hc'⟩ := hopen.addLink hnodes (.leaf (cStr d.pattern) m)
    rw [message_of_slot hs]
    refine ⟨{ lo with cells := c }, LibloApi.bundle_add_message hc, rfl, h.sent, ?_, ?_, ?_, ?_,
      hdistinct⟩
    · rw [hcl]
      exact h.nextMessage
    · exact hcn.trans h.nextBundle
    · intro x hx
      cases hx
    · have hcell : Holds c (.leaf ⟨cStr d.pattern, m, args⟩) := by
        rw [Holds, hcl]
        exact h.slot _ hs
      simpa [Draft.place, Draft.slotLeaf, hs] using OpenHolds.absorb hc' hcell

theorem endMessage.refines {w : World} {d : Draft} (h : Refines w d) :
    (OscSender.endMessage w).Matches Refines d.endMessage := by
  obtain ⟨sender, lo⟩ := w
  obtain rfl := h.members
  unfold OscSender.endMessage Draft.endMessage
  have hflag : d.members.m_messageInProgress = d.messageOpen := rfl
  have hflag' : d.members.m_bundleInProgress = d.bundleOpen := rfl
  simp only [bind_exec, read_exec, hflag, hflag', code_ite, raise_exec]
  split
  · exact ⟨rfl, h⟩
  · cases hb : d.bundleOpen with
    | false =>
      simp only [Bool.false_eq_true, if_false, setMembers_exec]
      exact ⟨by simp [Draft.members, hb], h.sent, h.nextMessage, h.nextBundle, h.slot, h.path,
        h.distinct.leaves, h.distinct.nodes, h.distinct.slot⟩
    | true =>
      simp only [if_true]
      cases hp : d.path with
      | nil =>
        have hback : d.members.m_bundles.getLast? = none := by simp [Draft.members, hp]
        simp only [hback]
        rfl
      | cons f fs =>
        obtain ⟨lo', hadd, hplaced⟩ := h.place hp
        have hpattern : d.members.m_addressPattern = d.pattern := rfl
        rw [place_members hp] at hplaced
        simp only [back_of_path hp, bind_exec, hpattern, onLo_returned hadd, setMembers_exec]
        exact hplaced

/-! ## Bundles -/

theorem openBundle.refines {w : World} {d : Draft} (h : Refines w d) (tag : lo_timetag) :
    ∃ w', OscSender.openBundle tag w = .returned () w' ∧ Refines w' (d.openBundle tag) := by
  obtain ⟨sender, lo⟩ := w
  obtain rfl := h.members
  unfold OscSender.openBundle
  have hnext : lo.cells.nodes.next = d.nextBundle := h.nextBundle
  obtain ⟨hfresh, halloc⟩ := h.path.alloc_node (tag, [])
  have hdist : (d.openBundle tag).Distinct := h.distinct.openBundle (hnext ▸ hfresh) tag
  simp only [bind_exec, read_exec, onLo_returned (LibloApi.bundle_new tag lo)]
  cases hp : d.path with
  | nil =>
    have hback : d.members.m_bundles.getLast? = none := by simp [Draft.members, hp]
    simp only [hback, setMembers_exec]
    refine ⟨_, rfl, ?_, h.sent, h.nextMessage, ?_, h.slot, ?_, hdist⟩
    · simp [Draft.members, Draft.openBundle, hp, hnext]
    · simp [Draft.openBundle, hnext]
    · simp only [Draft.openBundle, hp]
      exact ⟨by rw [← hnext]; exact Store.alloc_cell_next _ _, by simp, trivial⟩
  | cons f fs =>
    simp only [back_of_path hp]
    rw [hp] at halloc
    have hne : lo.cells.nodes.next ≠ f.label.handle := by
      intro heq
      apply hfresh
      rw [heq, hp]
      exact List.mem_map_of_mem (by simp [pathNodes])
    obtain ⟨c, hc, hcl, hcn, hother, hc'⟩ := halloc.addLink (hp ▸ h.distinct.nodes)
      (.node lo.cells.nodes.next)
    have hadd : lo_bundle_add_bundle f.label.handle lo.cells.nodes.next
          ⟨{ lo.cells with nodes := lo.cells.nodes.alloc (tag, []) }, lo.sent⟩ =
        .returned () ⟨c, lo.sent⟩ := LibloApi.bundle_add_bundle hc
    rw [bind_of_returned _ (onLo_returned hadd)]
    refine ⟨_, rfl, ?_, h.sent, ?_, ?_, ?_, ?_, hdist⟩
    · simp [Draft.members, Draft.openBundle, hnext]
    · rw [hcl]; exact h.nextMessage
    · rw [hcn]; simp [Draft.openBundle, hnext]
    · intro x hx
      rw [hcl]
      exact h.slot x hx
    · simp only [Draft.openBundle, hp]
      refine ⟨?_, by simp, by rw [← hnext]; exact hc'⟩
      rw [← hnext, hother _ hne]
      exact Store.alloc_cell_next _ _

theorem beginBundle.refines {w : World} {d : Draft} (h : Refines w d) :
    (OscSender.beginBundle w).Matches Refines d.beginBundle := by
  unfold OscSender.beginBundle Draft.beginBundle
  simp only [bind_exec, read_exec, h.bundleInProgress, code_ite, raise_exec]
  split
  · exact ⟨rfl, h⟩
  · obtain ⟨w', hw', hr⟩ := openBundle.refines h LO_TT_IMMEDIATE
    rw [hw']
    exact hr

theorem beginBundleAt.refines {w : World} {d : Draft} (h : Refines w d) (tag : TimeTag) :
    (OscSender.beginBundleAt tag w).Matches Refines (d.beginBundleAt tag) := by
  unfold OscSender.beginBundleAt Draft.beginBundleAt
  simp only [bind_exec, read_exec, h.messageInProgress, code_ite, raise_exec]
  split
  · exact ⟨rfl, h⟩
  · obtain ⟨w', hw', hr⟩ := openBundle.refines h tag.tag
    rw [hw']
    exact hr

/-! ## Every call -/

/-- Each call of the sender ends as the same call on the draft ends. -/
theorem step_refines : Simulates Refines step Draft.step := by
  intro w d op h
  rw [step_direct]
  unfold Draft.step
  cases hop : op.direct with
  | setup address port =>
    refine ⟨?_, h.sent, h.nextMessage, h.nextBundle, h.slot, h.path, h.distinct.leaves,
      h.distinct.nodes, h.distinct.slot⟩
    simp [Draft.members, Draft.setup, h.members]
  | send => exact send.refines h
  | clear =>
    obtain ⟨w', hw', hr⟩ := clear.refines h
    simp only [step, Op.method, hw']
    exact hr
  | beginMessage addressPattern => exact beginMessage.refines h addressPattern
  | add var =>
    simp only [step, Op.method, Add.method_eq]
    exact add.refines h var.arg
  | endMessage => exact endMessage.refines h
  | beginBundle => exact beginBundle.refines h
  | beginBundleAt tag => exact beginBundleAt.refines h tag
  | endBundle => exact endBundle.refines h
  | stream item =>
    rw [direct_stream hop]
    rfl

/-! ## Every run -/

/-- The draft of a new sender. -/
def Draft.constructed (address : Option (Str × UInt32)) : Draft :=
  { address := (osc.constructed address).sender.m_address, slot := none, path := [], pattern := [],
    messageOpen := false, bundleOpen := false, nextMessage := 0, nextBundle := 0, sent := [] }

theorem constructed.refines (address : Option (Str × UInt32)) :
    Refines (constructed address) (Draft.constructed address) := by
  rcases address with _ | ⟨address, port⟩
  · exact ⟨rfl, rfl, rfl, rfl, (fun x hx => by cases hx), trivial, distinct_nil rfl⟩
  · exact ⟨rfl, rfl, rfl, rfl, (fun x hx => by cases hx), trivial, distinct_nil rfl⟩

/-- In every state of every run, the sender is the picture of a draft. -/
theorem run_refines (address : Option (Str × UInt32)) (ops : List Op) :
    ∃ d, Refines (run step (constructed address) ops).state d :=
  run_simulates step step_refines (constructed.refines address) ops

end osc
