-- Who owns the bundles. In every state of every run the bundles since the last clear or
-- send are one tree under `m_bundles.front()`, and `m_bundles` is its rightmost spine.
import Lopack.MessageNesting

open calls rose linked store

namespace osc

/-! ## The bundles that the trace tells of -/

/-- The bundles created since the last `clear()` or the last `send()` that returned, the oldest
first. -/
def created : List SenderCall → List Nat
  | [] => []
  | c :: earlier =>
    if c.outcome.Returned then
      match c.op.direct with
      | .send => []
      | .clear => []
      | .beginBundle => created earlier ++ [c.before.lo.cells.nodes.next]
      | .beginBundleAt _ => created earlier ++ [c.before.lo.cells.nodes.next]
      | _ => created earlier
    else created earlier

/-- The draft has exactly these bundles. -/
def HasCreated (trace : List SenderCall) (d : Draft) : Prop :=
  (pathNodes d.path).map NodeAt.handle = created trace

theorem hasCreated_call [LibloApi] (c : SenderCall) (d : Draft) (trace : List SenderCall)
    (hd : Refines c.before d) (hm : c.outcome.Matches Refines (d.step c.op)) (_ : True)
    (h : HasCreated trace d) : HasCreated (c :: trace) ((d.step c.op).state?.getD d) := by
  unfold HasCreated at *
  have hends := d.step_ends c.op
  have hret := hm.returned_iff
  rw [created]
  generalize d.step c.op = o at hends hret ⊢
  generalize c.op.direct = op at hends ⊢
  cases hends with
  | beginBundle hb => simp [hret, Draft.openBundle, h, hd.nextBundle]
  | beginBundleAt tag hmsg => simp [hret, Draft.openBundle, h, hd.nextBundle]
  | clear => simp [hret, Draft.clear, pathNodes]
  | send ha hb hmsg ht => simp [hret, Draft.clear, pathNodes]
  | endInner hb hp =>
    rw [hp] at h
    simp [hret, h]
  | endInBundle hmsg hb hp =>
    rw [hp] at h
    simp [hret, h]
  | _ => simpa [hret] using h

/-! ## The tree -/

/-- From the root down, each node of a spine has the next one as its last child. -/
theorem spine_chain {c : Cells (List lo_arg) lo_timetag CString} {t : HeldPacket}
    {bs : List (NodeAt lo_timetag)} (h : Spine t bs) (ht : Holds c t) :
    (bs.map NodeAt.handle).IsChain (fun a b => ∃ tag links,
      c.nodes.cell a = some (tag, links ++ [.node b])) := by
  induction h with
  | tip b ts => simp
  | @down b ts t bs hs ih =>
    obtain ⟨b', bs', ts', rfl, rfl⟩ := hs.head
    rw [holds_node] at ht
    have hchild := ht.2 (.node b' ts') (by simp)
    rw [List.map_cons, List.map_cons, List.isChain_cons_cons, ← List.map_cons]
    refine ⟨⟨b.label, ts.map link, ?_⟩, ih hchild⟩
    simpa [link] using ht.1

/-- The tree `t` is what `m_bundles` owns. -/
structure OwnsTree (w : World) (t : HeldPacket) : Prop where
  /-- the cells of liblo hold the tree -/
  holds : Holds w.lo.cells t
  /-- `m_bundles` is its rightmost spine -/
  spine : ∃ bs, Spine t bs ∧ w.sender.m_bundles = bs.map NodeAt.handle
  /-- so each bundle on the stack is the last element of the one before it -/
  chain : w.sender.m_bundles.IsChain (fun a b => ∃ tag links,
    w.lo.cells.nodes.cell a = some (tag, links ++ [.node b]))
  bundles : (nodeHandles t).Nodup
  messages : (leafHandles t).Nodup
  pending : ∀ m, w.sender.m_message = some m → m ∉ leafHandles t

theorem Refines.ownsTree {w : World} {d : Draft} {t : HeldPacket} (h : Refines w d)
    (ht : whole d.path = some t) : OwnsTree w t := by
  obtain ⟨hholds, hleaves, hnodes⟩ := h.tree ht
  have hspine := whole_spine ht
  have hstack : w.sender.m_bundles = (d.path.map Frame.label).reverse.map NodeAt.handle := by
    rw [h.members]
    simp [Draft.members]
  refine ⟨hholds, ⟨_, hspine, hstack⟩, ?_, hnodes, hleaves, ?_⟩
  · rw [hstack]
    exact spine_chain hspine hholds
  · intro m hm
    rw [h.members] at hm
    obtain ⟨x, hx, rfl⟩ := Option.map_eq_some_iff.mp hm
    rw [leafHandles, whole_leaves ht]
    exact h.distinct.slot x hx

/-- In every state of every run, `m_bundles` is empty and no bundle was created since the last
clear or send, or it is the rightmost spine of one tree under its front. Then the tree has every
bundle created since then once, no message twice, and not the pending message. One traversal
from the root reads the whole tree, and one frees exactly its cells. -/
theorem the_bundles_are_one_tree [LibloApi] (address : Option (Str × UInt32)) (ops : List Op) :
    let r := run step (constructed address) ops
    (r.state.sender.m_bundles = [] ∧ created r.trace = []) ∨
      ∃ front rest t, r.state.sender.m_bundles = front :: rest ∧ OwnsTree r.state t ∧
        link t = .node front ∧ nodeHandles t = created r.trace ∧
        r.state.lo.cells.read (.node front) = some t ∧
        ∃ c, r.state.lo.cells.release (.node front) = some c ∧
          Emptied r.state.lo.cells c (leafHandles t) (nodeHandles t) := by
  obtain ⟨d, hd, h⟩ := run_history step step_refines (constructed.refines address)
    (H := HasCreated) (C := fun _ => True) rfl hasCreated_call ops (fun _ _ => trivial)
  generalize run step (constructed address) ops = r at *
  by_cases hp : d.path = []
  · refine .inl ⟨?_, ?_⟩
    · rw [hd.members, bundles_nil_iff, hp]
    · rw [← h, hp]
      rfl
  · obtain ⟨front, rest, t, hfront, hread, ht, hleaves, hnodes⟩ := hd.read_tree hp
    obtain ⟨front', rest', hfront', hlink⟩ := front_of_path ht
    rw [hd.members, hfront'] at hfront
    cases hfront
    have howns := hd.ownsTree ht
    obtain ⟨c, hc, hempty⟩ := release_of_holds howns.holds hleaves hnodes
    refine .inr ⟨front, rest, t, by rw [hd.members, hfront'], howns, hlink, ?_, hread, c, ?_,
      hempty⟩
    · rw [nodeHandles, whole_nodes ht]
      exact h
    · rw [← hlink]
      exact hc

/-! ## Freed cells -/

theorem Draft.Ends.not_dangling [LibloApi] {d : Draft} {op : Op} {o : Draft.Result}
    (h : d.Ends op o) :
    o ≠ .undefined .dangling := by
  cases h with
  | addUndefined var hm ha =>
    rcases Add.arg_error ha with rfl | rfl
    · simp
    · simp
  | _ => simp

/-- No call of any run uses a message or a bundle that was freed before. -/
theorem no_call_uses_a_freed_cell [LibloApi] (address : Option (Str × UInt32)) (ops : List Op) :
    ∀ c ∈ (run step (constructed address) ops).trace, c.outcome ≠ .undefined .dangling := by
  obtain ⟨_, _, h⟩ := run_history step step_refines (constructed.refines address)
    (H := fun trace _ => ∀ c ∈ trace, c.outcome ≠ .undefined .dangling) (C := fun _ => True)
    (by simp)
    (fun c d trace _ hm _ h => by
      rw [List.forall_mem_cons, ne_eq, hm.undefined_iff]
      exact ⟨(d.step_ends c.op).not_dangling, h⟩)
    ops (fun _ _ => trivial)
  exact h

end osc
