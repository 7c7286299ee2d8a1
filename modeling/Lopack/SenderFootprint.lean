-- The cells of liblo that a call of a sender may change: those of its own message and its
-- own bundles, and new ones.
import Lopack.LostMessages

open calls rose linked store

namespace osc

/-! ## Methods that touch some cells only -/

/-- From `w`, the method changes the messages `ls`, the bundles `ns` and new cells only. -/
def TouchesOnly {α : Type} (x : Method α) (ls ns : List Nat) (w : World) : Prop :=
  ∀ w', (x w).state? = some w' → Touches w.lo.cells w'.lo.cells ls ns

section Rules

variable {α β : Type} {ls ns : List Nat} {w : World}

theorem touchesOnly_of_same {x : Method α}
    (h : ∀ w', (x w).state? = some w' → w'.lo.cells = w.lo.cells) : TouchesOnly x ls ns w := by
  intro w' hw'
  rw [h w' hw']
  exact Touches.refl _ ls ns

theorem touchesOnly_raise (e : OscException) : TouchesOnly (raise e : Method α) ls ns w :=
  touchesOnly_of_same (fun w' hw' => by cases hw'; rfl)

theorem touchesOnly_undefinedBy (u : Undefined) :
    TouchesOnly (undefinedBy u : Method α) ls ns w := by
  rintro w' ⟨⟩

theorem touchesOnly_setMembers (f : OscSender → OscSender) :
    TouchesOnly (setMembers f) ls ns w :=
  touchesOnly_of_same (fun w' hw' => by cases hw'; rfl)

theorem touchesOnly_bind {x : Method α} {f : α → Method β} (hx : TouchesOnly x ls ns w)
    (hf : ∀ a w1, x w = .returned a w1 → TouchesOnly (f a) ls ns w1) :
    TouchesOnly (x >>= f) ls ns w := by
  intro w' hw'
  rw [bind_exec] at hw'
  cases hxw : x w with
  | returned a w1 =>
    rw [hxw] at hw'
    exact (hx w1 (by rw [hxw]; rfl)).trans (hf a w1 hxw w' hw')
  | threw e w1 =>
    rw [hxw] at hw'
    exact hx w' (by rw [hxw]; exact hw')
  | undefined u =>
    rw [hxw] at hw'
    cases hw'

/-- A method that reads the members first. -/
theorem touchesOnly_read {f : World → Method β} (hf : TouchesOnly (f w) ls ns w) :
    TouchesOnly (read >>= f) ls ns w := hf

theorem touchesOnly_ite {c : Prop} [Decidable c] {x y : Method α}
    (hx : c → TouchesOnly x ls ns w) (hy : ¬ c → TouchesOnly y ls ns w) :
    TouchesOnly (if c then x else y) ls ns w := by
  split
  · exact hx ‹_›
  · exact hy ‹_›

/-- A call into liblo. -/
theorem touchesOnly_onLo {x : LoCall α}
    (hx : ∀ lo', (x w.lo).state? = some lo' → Touches w.lo.cells lo'.cells ls ns) :
    TouchesOnly (onLo x) ls ns w := by
  intro w' hw'
  unfold onLo at hw'
  cases hlo : x w.lo with
  | returned a lo =>
    rw [within_returned hlo] at hw'
    cases hw'
    exact hx lo (by rw [hlo]; rfl)
  | threw e lo => exact e.elim
  | undefined u =>
    rw [within_undefined hlo] at hw'
    cases hw'

/-- A call into liblo that returns. -/
theorem touchesOnly_of_returned {x : LoCall α} {a : α} {lo' : Liblo}
    (hx : x w.lo = .returned a lo') (h : Touches w.lo.cells lo'.cells ls ns) :
    TouchesOnly (onLo x) ls ns w := by
  apply touchesOnly_onLo
  intro lo1 hlo1
  rw [hx] at hlo1
  cases hlo1
  exact h

end Rules

theorem constructed_lo [LibloApi] (address : Option (Str × UInt32)) :
    (constructed address).lo = Liblo.empty := by
  rcases address with _ | ⟨address, port⟩
  · rfl
  · rfl

/-! ## The cells of a draft -/

/-- The messages that belong to the sender, in the slot and in the tree. -/
def Draft.messages (d : Draft) : List Nat := d.slotHandle ++ d.treeHandles

def Draft.bundles (d : Draft) : List Nat := (pathNodes d.path).map NodeAt.handle

theorem tree_handles {d : Draft} {t : HeldPacket} (ht : whole d.path = some t) :
    leafHandles t = d.treeHandles ∧ nodeHandles t = d.bundles := by
  refine ⟨?_, ?_⟩
  · rw [leafHandles, whole_leaves ht]
    rfl
  · rw [nodeHandles, whole_nodes ht]
    rfl

theorem back_mem_bundles {d : Draft} {back : Nat}
    (h : d.members.m_bundles.getLast? = some back) : back ∈ d.bundles := by
  cases hp : d.path with
  | nil => simp [Draft.members, hp] at h
  | cons f fs =>
    rw [back_of_path hp] at h
    cases h
    simp [Draft.bundles, hp, pathNodes]

theorem message_mem_messages {d : Draft} {m : Nat} (h : d.members.m_message = some m) :
    m ∈ d.messages := by
  obtain ⟨x, hx, rfl⟩ := Option.map_eq_some_iff.mp h
  simp [Draft.messages, Draft.slotHandle, hx]

/-! ## Every method -/

section Methods

variable {lo : Liblo} {d : Draft}

/-- `clear` empties the cells that `send` would hand over, and no other. -/
theorem clear_exec [LibloApi] (h : Refines ⟨d.members, lo⟩ d) :
    ∃ c, OscSender.clear ⟨d.members, lo⟩ =
        .returned () ⟨d.clear.members, { lo with cells := c }⟩ ∧
      Emptied lo.cells c d.pending d.bundles := by
  unfold OscSender.clear Draft.pending
  simp only [bind_exec, read_exec]
  cases ht : whole d.path with
  | some t =>
    have hp : d.path ≠ [] := by
      intro hp
      rw [whole_none_iff.mpr hp] at ht
      cases ht
    obtain ⟨front, rest, hb, hlink⟩ := front_of_path ht
    obtain ⟨hholds, hleaves, hnodes⟩ := h.tree ht
    obtain ⟨c, hc, hempty⟩ := release_of_holds hholds hleaves hnodes
    obtain ⟨htree, hbundles⟩ := tree_handles ht
    rw [hlink] at hc
    rw [htree, hbundles] at hempty
    rw [if_neg hp]
    refine ⟨c, ?_, hempty⟩
    simp only [hb, bind_exec, onLo_returned (LibloApi.bundle_free_recursive hc), setMembers_exec]
    simp [Draft.members, Draft.clear]
  | none =>
    have hp := whole_none_iff.mp ht
    have hb := (bundles_nil_iff d).mpr hp
    have hbundles : d.bundles = [] := by simp [Draft.bundles, hp, pathNodes]
    rw [if_pos hp, hbundles]
    cases hs : d.slot with
    | none =>
      have hslot : d.slotHandle = [] := by simp [Draft.slotHandle, hs]
      rw [hslot]
      refine ⟨lo.cells, ?_, Emptied.refl _⟩
      simp only [hb, message_null hs, setMembers_exec]
      simp [Draft.members, Draft.clear, hp]
    | some x =>
      have hslot : d.slotHandle = [x.1] := by simp [Draft.slotHandle, hs]
      obtain ⟨s, hexec, hnext, hself, hother⟩ := lo_message_free.spec (h.slot x hs)
      refine ⟨{ lo.cells with leaves := s }, ?_, hnext, rfl, ?_, by simp⟩
      · simp only [hb, message_of_slot hs, bind_exec, onLo_returned hexec, setMembers_exec]
        simp [Draft.members, Draft.clear, hp]
      · intro i
        simp only [hslot, List.mem_singleton]
        by_cases hi : i = x.1
        · rw [if_pos hi, hi, hself]
        · rw [if_neg hi]
          exact hother i hi

theorem clear_touches [LibloApi] (h : Refines ⟨d.members, lo⟩ d) :
    TouchesOnly OscSender.clear d.messages d.bundles ⟨d.members, lo⟩ := by
  obtain ⟨c, hclear, hempty⟩ := clear_exec h
  intro w' hw'
  rw [hclear] at hw'
  cases hw'
  exact hempty.touches (fun m hm => List.mem_append.mpr (pending_subset hm)) (fun b hb => hb)

/-- A packet that was handed over leaves the cells as they are. -/
theorem Refines.sending (h : Refines ⟨d.members, lo⟩ d) (sent : List (lo_address × HeldPacket)) :
    Refines ⟨d.members, { lo with sent }⟩ { d with sent } :=
  ⟨rfl, rfl, h.nextMessage, h.nextBundle, h.slot, h.path, h.distinct.leaves, h.distinct.nodes,
    h.distinct.slot⟩

/-- `lo_send_*` changes no cell, and `clear` follows. -/
theorem send_clear_exec [LibloApi] {x : LoCall Unit} {sent : List (lo_address × HeldPacket)}
    {w' : World} (hx : x lo = .returned () { lo with sent })
    (hw' : ((onLo x >>= fun _ => OscSender.clear) ⟨d.members, lo⟩).state? = some w') :
    ∃ sent, (OscSender.clear ⟨d.members, { lo with sent }⟩).state? = some w' := by
  rw [bind_of_returned _ (onLo_returned hx)] at hw'
  exact ⟨_, hw'⟩

/-- `send` throws and changes nothing, or it ends with `clear`. -/
theorem send_exec [LibloApi] (h : Refines ⟨d.members, lo⟩ d) {w' : World}
    (hw' : (OscSender.send ⟨d.members, lo⟩).state? = some w') :
    OscSender.send ⟨d.members, lo⟩ = .threw .SendException ⟨d.members, lo⟩ ∨
      ∃ sent, (OscSender.clear ⟨d.members, { lo with sent }⟩).state? = some w' := by
  unfold OscSender.send at hw' ⊢
  simp only [bind_exec, read_exec] at hw' ⊢
  cases ha : d.members.m_address with
  | none => exact .inl rfl
  | some address =>
    simp only [ha, code_ite] at hw' ⊢
    by_cases hopen : (d.members.m_bundleInProgress || d.members.m_messageInProgress) = true
    · rw [if_pos hopen]
      exact .inl rfl
    · rw [if_neg hopen] at hw'
      cases ht : whole d.path with
      | some t =>
        obtain ⟨front, rest, hb, hlink⟩ := front_of_path ht
        obtain ⟨hholds, _, hnodes⟩ := h.tree ht
        have hread : lo.cells.read (.node front) = some t := hlink ▸ read_of_holds hholds hnodes
        simp only [hb] at hw'
        exact .inr (send_clear_exec (LibloApi.send_bundle address hread) hw')
      | none =>
        have hb := (bundles_nil_iff d).mpr (whole_none_iff.mp ht)
        simp only [hb] at hw'
        cases hs : d.slot with
        | none =>
          rw [if_neg hopen]
          simp only [hb, message_null hs]
          exact .inl rfl
        | some x =>
          have hcell : lo.cells.leaves.cell x.1 = some x.2 := h.slot x hs
          have hread : lo.cells.read (.leaf (cStr d.members.m_addressPattern) x.1) =
              some (.leaf ⟨cStr d.members.m_addressPattern, x.1, x.2⟩) := by
            simp [Cells.read, readTree, hcell]
          simp only [message_of_slot hs] at hw'
          exact .inr (send_clear_exec (LibloApi.send_message address hread) hw')

theorem send_touches [LibloApi] (h : Refines ⟨d.members, lo⟩ d) :
    TouchesOnly OscSender.send d.messages d.bundles ⟨d.members, lo⟩ := by
  intro w' hw'
  rcases send_exec h hw' with hthrew | ⟨sent, hclear⟩
  · rw [hthrew] at hw'
    cases hw'
    exact Touches.refl _ _ _
  · exact clear_touches (d := { d with sent }) (h.sending sent) w' hclear

theorem beginMessage_touches [LibloApi] (pattern : Str) :
    TouchesOnly (OscSender.beginMessage pattern) d.messages d.bundles ⟨d.members, lo⟩ := by
  unfold OscSender.beginMessage
  apply touchesOnly_read
  apply touchesOnly_ite
  · exact fun _ => touchesOnly_raise _
  · intro _
    apply touchesOnly_bind
    · exact touchesOnly_of_returned (LibloApi.message_new lo) (touches_alloc_leaf _ _ _ _)
    · exact fun _ _ _ => touchesOnly_setMembers _

theorem add_touches [LibloApi] (h : Refines ⟨d.members, lo⟩ d) (a : Except Undefined lo_arg) :
    TouchesOnly (OscSender.addWith (lo_message_add_arg a)) d.messages d.bundles
      ⟨d.members, lo⟩ := by
  unfold OscSender.addWith
  apply touchesOnly_read
  apply touchesOnly_ite
  · exact fun _ => touchesOnly_raise _
  · intro _
    dsimp only
    cases a with
    | error u => exact touchesOnly_onLo (fun lo' hlo' => by cases hlo')
    | ok x =>
      cases hs : d.slot with
      | none =>
        rw [message_null hs]
        apply touchesOnly_onLo
        intro lo' hlo'
        rw [lo_message_add_arg, LibloApi.message_add_null] at hlo'
        cases hlo'
      | some y =>
        have hm := message_of_slot hs
        obtain ⟨s, hadd, hnext, _, hother⟩ := lo_message_add.spec x (h.slot _ hs)
        rw [hm]
        exact touchesOnly_of_returned hadd
          (touches_leaf _ hnext hother (message_mem_messages hm))

theorem endMessage_touches [LibloApi] (h : Refines ⟨d.members, lo⟩ d) :
    TouchesOnly OscSender.endMessage d.messages d.bundles ⟨d.members, lo⟩ := by
  unfold OscSender.endMessage
  apply touchesOnly_read
  apply touchesOnly_ite
  · exact fun _ => touchesOnly_raise _
  · intro _
    apply touchesOnly_ite
    · intro _
      dsimp only
      cases hp : d.path with
      | nil =>
        have hback : d.members.m_bundles.getLast? = none := by simp [Draft.members, hp]
        rw [hback]
        exact touchesOnly_undefinedBy _
      | cons f fs =>
        have hback := back_of_path hp
        have hopen : OpenHolds lo.cells [] (f :: fs) := hp ▸ h.path
        rw [hback]
        apply touchesOnly_bind
        · cases d.members.m_message with
          | none =>
            exact touchesOnly_of_returned (LibloApi.bundle_add_null _ hopen.1)
              (Touches.refl _ _ _)
          | some m =>
            obtain ⟨c, hc, _⟩ := hopen.addLink (hp ▸ h.distinct.nodes)
              (.leaf (cStr d.members.m_addressPattern) m)
            exact touchesOnly_of_returned (LibloApi.bundle_add_message hc)
              (touches_addLink hc _ (back_mem_bundles hback))
        · intro _ w1 _
          apply touchesOnly_bind (touchesOnly_setMembers _)
          exact fun _ _ _ => touchesOnly_setMembers _
    · exact fun _ => touchesOnly_setMembers _

theorem openBundle_touches [LibloApi] (h : Refines ⟨d.members, lo⟩ d) (tag : lo_timetag) :
    TouchesOnly (OscSender.openBundle tag) d.messages d.bundles ⟨d.members, lo⟩ := by
  unfold OscSender.openBundle
  apply touchesOnly_read
  apply touchesOnly_bind
  · exact touchesOnly_of_returned (LibloApi.bundle_new tag lo) (touches_alloc_node _ _ _ _)
  · intro b w1 hw1
    rw [onLo_returned (LibloApi.bundle_new tag lo)] at hw1
    cases hw1
    dsimp only
    cases hp : d.path with
    | nil =>
      have hback : d.members.m_bundles.getLast? = none := by simp [Draft.members, hp]
      rw [hback]
      exact touchesOnly_setMembers _
    | cons f fs =>
      have hback := back_of_path hp
      obtain ⟨_, halloc⟩ := h.path.alloc_node (tag, [])
      rw [hp] at halloc
      obtain ⟨c, hc, _⟩ := halloc.addLink (hp ▸ h.distinct.nodes) (.node lo.cells.nodes.next)
      rw [hback]
      apply touchesOnly_bind
      · exact touchesOnly_of_returned (LibloApi.bundle_add_bundle hc)
          (touches_addLink hc _ (back_mem_bundles hback))
      · exact fun _ _ _ => touchesOnly_setMembers _

theorem endBundle_touches :
    TouchesOnly OscSender.endBundle d.messages d.bundles ⟨d.members, lo⟩ := by
  unfold OscSender.endBundle
  apply touchesOnly_read
  apply touchesOnly_ite
  · exact fun _ => touchesOnly_raise _
  · intro _
    apply touchesOnly_ite
    · exact fun _ => touchesOnly_setMembers _
    · exact fun _ => touchesOnly_setMembers _

end Methods

/-- Every call touches the cells of its own sender only. -/
theorem step_touches [LibloApi] {w w' : World} {d : Draft} {op : Op} (h : Refines w d)
    (hw' : (step w op).state? = some w') :
    Touches w.lo.cells w'.lo.cells d.messages d.bundles := by
  obtain ⟨sender, lo⟩ := w
  obtain rfl := h.members
  rw [step_direct] at hw'
  cases hop : op.direct with
  | setup address port =>
    rw [hop] at hw'
    cases hw'
    exact Touches.refl _ _ _
  | send =>
    rw [hop] at hw'
    exact send_touches h w' hw'
  | clear =>
    rw [hop] at hw'
    exact clear_touches h w' hw'
  | beginMessage pattern =>
    rw [hop] at hw'
    exact beginMessage_touches pattern w' hw'
  | add var =>
    simp only [hop, step, Op.method, Add.method_eq] at hw'
    exact add_touches h var.arg w' hw'
  | endMessage =>
    rw [hop] at hw'
    exact endMessage_touches h w' hw'
  | beginBundle =>
    rw [hop] at hw'
    refine touchesOnly_read ?_ w' hw'
    exact touchesOnly_ite (fun _ => touchesOnly_raise _) (fun _ => openBundle_touches h _)
  | beginBundleAt tag =>
    rw [hop] at hw'
    refine touchesOnly_read ?_ w' hw'
    exact touchesOnly_ite (fun _ => touchesOnly_raise _) (fun _ => openBundle_touches h _)
  | endBundle =>
    rw [hop] at hw'
    exact endBundle_touches w' hw'
  | stream item =>
    rw [hop, direct_stream hop] at hw'
    cases hw'

/-! ## The cells of a draft after a call -/

/-- The cells of `d'` are cells of `d`, or new. -/
structure Draft.Grows (d d' : Draft) : Prop where
  messages : ∀ m ∈ d'.messages, m ∈ d.messages ∨ d.nextMessage ≤ m
  bundles : ∀ b ∈ d'.bundles, b ∈ d.bundles ∨ d.nextBundle ≤ b

theorem Draft.Grows.of_subset {d d' : Draft} (hm : ∀ m ∈ d'.messages, m ∈ d.messages)
    (hb : ∀ b ∈ d'.bundles, b ∈ d.bundles) : d.Grows d' :=
  ⟨fun m h => .inl (hm m h), fun b h => .inl (hb b h)⟩

theorem Draft.Grows.openBundle (d : Draft) (tag : lo_timetag) : d.Grows (d.openBundle tag) := by
  refine ⟨?_, ?_⟩
  · intro m hm
    refine .inl ?_
    simpa [Draft.messages, Draft.slotHandle, Draft.treeHandles, Draft.openBundle] using hm
  · intro b hb
    simp only [Draft.bundles, Draft.openBundle, pathNodes_open, List.map_append, List.map_cons,
      List.map_nil, List.mem_append, List.mem_singleton] at hb
    rcases hb with hb | rfl
    · exact .inl hb
    · exact .inr le_rfl

/-- A sender comes to a cell only by making it. -/
theorem step_grows [LibloApi] (d : Draft) (op : Op) : d.Grows ((d.step op).state?.getD d) := by
  have hends := d.step_ends op
  generalize d.step op = o at hends ⊢
  generalize op.direct = op at hends ⊢
  cases hends with
  | send ha hb hm ht =>
    refine .of_subset (fun m hm => ?_) (fun b hb => ?_)
    · cases hm
    · cases hb
  | clear =>
    refine .of_subset (fun m hm => ?_) (fun b hb => ?_)
    · cases hm
    · cases hb
  | beginMessage pattern hm =>
    refine ⟨?_, fun b hb => .inl hb⟩
    intro m hm
    rcases List.mem_append.mp hm with hm | hm
    · obtain rfl : m = d.nextMessage := by simpa [Draft.slotHandle] using hm
      exact .inr le_rfl
    · exact .inl (List.mem_append_right _ hm)
  | add var hm ha hs =>
    refine .of_subset (fun m hm => ?_) (fun b hb => hb)
    simpa [Draft.messages, Draft.slotHandle, Draft.treeHandles, hs] using hm
  | @endInBundle f fs hm hb hp =>
    refine .of_subset (fun m hm => ?_) (fun b hb => ?_)
    · rw [Draft.messages, Outcome.state?_returned, Option.getD_some, place_treeHandles hp] at hm
      have hempty : (d.place f fs).slotHandle = [] := rfl
      rw [hempty, List.nil_append, List.mem_append] at hm
      exact List.mem_append.mpr hm.symm
    · rw [Draft.bundles, Outcome.state?_returned, Option.getD_some, Draft.place_nodes, ← hp] at hb
      exact hb
  | beginBundle hb => exact .openBundle d _
  | beginBundleAt tag hm => exact .openBundle d _
  | endInner hb hp =>
    refine .of_subset (fun m hm => ?_) (fun b hb => ?_)
    · simpa [Draft.messages, Draft.slotHandle, Draft.treeHandles, hp] using hm
    · simpa [Draft.bundles, hp] using hb
  | _ => exact .of_subset (fun m hm => hm) (fun b hb => hb)

end osc
