-- Several senders over one liblo. Their messages and bundles live side by side, and the calls
-- on them come in any order. No sender notices the others.
import Lopack.Families
import Lopack.PacketComposer
import Lopack.SenderFootprint

open calls rose linked store

namespace osc

/-! ## The senders of a program -/

structure Desk (ι : Type) where
  senders : ι → OscSender
  lo : Liblo

variable {ι : Type}

/-- The sender `i` with liblo. -/
def Desk.world (s : Desk ι) (i : ι) : World := ⟨s.senders i, s.lo⟩

/-- The program after a call on the sender `i`. -/
def Desk.put [DecidableEq ι] (s : Desk ι) (i : ι) (w : World) : Desk ι :=
  ⟨Function.update s.senders i w.sender, w.lo⟩

/-- One call on one of the senders. -/
def deskStep [LibloApi] [DecidableEq ι] (s : Desk ι) (call : ι × Op) :
    Outcome OscException Undefined (Desk ι) Unit :=
  (step (s.world call.1) call.2).map (s.put call.1)

/-- New senders, each with its own address or none. -/
def Desk.constructed [LibloApi] (addresses : ι → Option (Str × UInt32)) : Desk ι :=
  ⟨fun i => (osc.constructed (addresses i)).sender, Liblo.empty⟩

/-! ## Their cells are apart -/

/-- Two senders have no cell in common. -/
structure Draft.Apart (d e : Draft) : Prop where
  messages : ∀ m ∈ d.messages, m ∉ e.messages
  bundles : ∀ b ∈ d.bundles, b ∉ e.bundles

theorem Draft.Apart.symm {d e : Draft} (h : d.Apart e) : e.Apart d :=
  ⟨fun m hm hd => h.messages m hd hm, fun b hb hd => h.bundles b hd hb⟩

/-- The draft of a sender while another one has used liblo: only the counters and the list of sent
packets are new. -/
def Draft.beside (d : Draft) (lo : Liblo) : Draft :=
  { d with
    nextMessage := lo.cells.leaves.next
    nextBundle := lo.cells.nodes.next
    sent := lo.sent }

/-- A call that touches the cells of another sender only is not noticed. -/
theorem Refines.beside {sender : OscSender} {lo lo' : Liblo} {d e : Draft}
    (h : Refines ⟨sender, lo⟩ d) (ht : Touches lo.cells lo'.cells e.messages e.bundles)
    (hapart : d.Apart e) : Refines ⟨sender, lo'⟩ (d.beside lo') := by
  refine ⟨h.members, rfl, rfl, rfl, ?_, ?_, h.distinct.leaves, h.distinct.nodes,
    h.distinct.slot⟩
  · intro x hx
    have hcell : lo.cells.leaves.cell x.1 = some x.2 := h.slot x hx
    have hslot : d.slot = some x := hx
    have hmine : x.1 ∈ d.messages := by simp [Draft.messages, Draft.slotHandle, hslot]
    rw [ht.leaf x.1 (Store.lt_next hcell) (hapart.messages _ hmine), hcell]
  · apply h.path.touched ht
    · exact fun m hm => hapart.messages m (List.mem_append_right _ hm)
    · exact hapart.bundles

theorem Refines.messages_lt {w : World} {d : Draft} (h : Refines w d) :
    ∀ m ∈ d.messages, m < d.nextMessage := by
  intro m hm
  rcases List.mem_append.mp hm with hm | hm
  · exact h.handles_lt.1 m hm
  · exact h.handles_lt.2 m hm

theorem Refines.bundles_lt {w : World} {d : Draft} (h : Refines w d) :
    ∀ b ∈ d.bundles, b < d.nextBundle := by
  intro b hb
  obtain ⟨n, hn, rfl⟩ := List.mem_map.mp hb
  rw [← h.nextBundle]
  exact h.path.node_lt n hn

/-- Two senders over one liblo stay apart when one of them comes to new cells. -/
theorem Draft.Apart.grows {sender : OscSender} {lo : Liblo} {d d' e : Draft} (h : d.Apart e)
    (hd : lo.cells.leaves.next = d.nextMessage ∧ lo.cells.nodes.next = d.nextBundle)
    (he : Refines ⟨sender, lo⟩ e) (hg : d.Grows d') (lo' : Liblo) : d'.Apart (e.beside lo') := by
  refine ⟨?_, ?_⟩
  · intro m hm hme
    have hlt : m < e.nextMessage := he.messages_lt m hme
    rw [← he.nextMessage, hd.1] at hlt
    rcases hg.messages m hm with hold | hnew
    · exact h.messages m hold hme
    · omega
  · intro b hb hbe
    have hlt : b < e.nextBundle := he.bundles_lt b hbe
    rw [← he.nextBundle, hd.2] at hlt
    rcases hg.bundles b hb with hold | hnew
    · exact h.bundles b hold hbe
    · omega

/-- Every sender of the desk is the picture of a draft, and the drafts are apart. -/
structure Desk.Drafted (s : Desk ι) (drafts : ι → Draft) : Prop where
  each : ∀ i, Refines (s.world i) (drafts i)
  apart : ∀ i j, i ≠ j → (drafts i).Apart (drafts j)

/-- Every sender of the desk is at the point of its composer. -/
def Desk.Composes (s : Desk ι) (k : ι → Composer) : Prop :=
  ∃ drafts, s.Drafted drafts ∧ ∀ i, (drafts i).Shows (k i)

theorem Desk.Composes.each {s : Desk ι} {k : ι → Composer} (h : s.Composes k) (i : ι) :
    osc.Composes (s.world i) (k i) := by
  obtain ⟨drafts, hs, hk⟩ := h
  exact ⟨drafts i, hs.each i, hk i⟩

/-! ## A call on one of them -/

section Calls

variable [DecidableEq ι]

theorem put_world_self (s : Desk ι) (i : ι) (w : World) : (s.put i w).world i = w := by
  simp [Desk.put, Desk.world]

theorem put_world_of_ne (s : Desk ι) {i j : ι} (h : j ≠ i) (w : World) :
    (s.put i w).world j = ⟨s.senders j, w.lo⟩ := by
  simp [Desk.put, Desk.world, h]

/-- A call on one sender changes its draft, and no other. -/
theorem Desk.Drafted.call [LibloApi] {s : Desk ι} {drafts : ι → Draft} (h : s.Drafted drafts)
    {i : ι} {op : Op} {w' : World} {d' : Draft} (hw' : (step (s.world i) op).state? = some w')
    (hd' : ((drafts i).step op).state? = some d') (hr : Refines w' d') :
    (s.put i w').Drafted (Function.update (fun j => (drafts j).beside w'.lo) i d') := by
  have htouches := step_touches (h.each i) hw'
  have hgrows : (drafts i).Grows d' := by
    have hgrows := step_grows (drafts i) op
    rw [hd'] at hgrows
    exact hgrows
  have hnew : ∀ j, j ≠ i → d'.Apart ((drafts j).beside w'.lo) := by
    intro j hj
    exact (h.apart i j hj.symm).grows ⟨(h.each i).nextMessage, (h.each i).nextBundle⟩ (h.each j)
      hgrows w'.lo
  refine ⟨?_, ?_⟩
  · intro j
    by_cases hj : j = i
    · subst hj
      rw [put_world_self, Function.update_self]
      exact hr
    · rw [put_world_of_ne s hj, Function.update_of_ne hj]
      exact (h.each j).beside htouches (h.apart j i hj)
  · intro j k hjk
    by_cases hj : j = i
    · subst hj
      rw [Function.update_self, Function.update_of_ne hjk.symm]
      exact hnew k hjk.symm
    · rw [Function.update_of_ne hj]
      by_cases hk : k = i
      · subst hk
        rw [Function.update_self]
        exact (hnew j hj).symm
      · rw [Function.update_of_ne hk]
        exact ⟨(h.apart j k hjk).messages, (h.apart j k hjk).bundles⟩

theorem deskStep_composes [LibloApi] :
    Simulates (Desk.Composes (ι := ι)) deskStep (familyStep Composer.step) := by
  rintro s k ⟨i, op⟩ ⟨drafts, hs, hk⟩
  have hm := (step_refines (s.world i) (drafts i) op (hs.each i)).with_states
  refine (hm.comp (composer_step (drafts i) (k i) op (hk i))).map ?_
  rintro w' c' ⟨d', ⟨hr, hw', hd'⟩, hc'⟩
  refine ⟨_, hs.call hw' hd' hr, fun j => ?_⟩
  by_cases hj : j = i
  · subst hj
    rw [Function.update_self, Function.update_self]
    exact hc'
  · rw [Function.update_of_ne hj, Function.update_of_ne hj]
    exact hk j

end Calls

theorem Desk.constructed_composes [LibloApi] (addresses : ι → Option (Str × UInt32)) :
    (Desk.constructed addresses).Composes (fun i => Composer.constructed (addresses i)) := by
  have hworld : ∀ i, (Desk.constructed addresses).world i = osc.constructed (addresses i) := by
    intro i
    unfold Desk.world Desk.constructed
    rw [← constructed_lo (addresses i)]
  refine ⟨fun i => Draft.constructed (addresses i), ⟨?_, ?_⟩, ?_⟩
  · intro i
    rw [hworld]
    exact constructed.refines (addresses i)
  · intro i j _
    refine ⟨fun m hm => ?_, fun b hb => ?_⟩
    · cases hm
    · cases hb
  · intro i
    exact draft_constructed_shows (addresses i)

/-! ## What can be seen of a call -/

/-- The operation, how the call ended, and the packets that it handed to liblo. -/
def observe (c : SenderCall) :
    Op × Outcome OscException Undefined Unit Unit × List (lo_address × Packet) :=
  (c.op, c.outcome.ending, (packets c.after).drop (packets c.before).length)

def Composer.observe (k : Call OscException Undefined Composer Op) :
    Op × Outcome OscException Undefined Unit Unit × List (lo_address × Packet) :=
  (k.op, k.outcome.ending, k.before.handsOver k.op)

theorem observe_agrees [LibloApi] {c : SenderCall} {k : Call OscException Undefined Composer Op}
    (h : c.Agrees Composes step Composer.step k) : observe c = Composer.observe k := by
  have hpackets : packets c.after = packets c.before ++ k.before.handsOver c.op := by
    unfold Call.after
    rw [h.made]
    exact h.before.packets c.op
  unfold observe Composer.observe
  rw [hpackets, List.drop_left, h.op, (h.outcome step step_composes).ending_eq]

/-- A call on the desk, as its sender sees it, is a call on this sender and liblo. -/
theorem desk_call_agrees [LibloApi] [DecidableEq ι]
    {c : Call OscException Undefined (Desk ι) (ι × Op)}
    {k : Call OscException Undefined (ι → Composer) (ι × Op)} {i : ι}
    (h : c.Agrees Desk.Composes deskStep (familyStep Composer.step) k) (hi : c.op.1 = i) :
    Call.Agrees Composes step Composer.step
      ⟨c.before.world i, c.op.2, c.outcome.map (fun s => s.world i)⟩
      ⟨k.before i, k.op.2, k.outcome.map (fun t => t i)⟩ := by
  subst hi
  refine ⟨by rw [h.op], h.before.each _, ?_, ?_⟩
  · rw [h.made]
    exact Outcome.map_of_eq (fun w => put_world_self c.before c.op.1 w) _
  · rw [h.model, h.op]
    exact Outcome.map_of_eq (f := Function.update k.before k.op.1) (g := fun t => t k.op.1)
      (by simp) _

/-- Any number of senders is used in any order, over one liblo. What each call on a sender does,
how it ends and what it hands over, is what it does when this sender is alone and gets only its
own calls. -/
theorem senders_do_not_interfere [LibloApi] [DecidableEq ι] (addresses : ι → Option (Str × UInt32))
    (calls : List (ι × Op)) (i : ι) :
    let r := run deskStep (Desk.constructed addresses) calls
    (callsOf i (fun s => s.world i) r.trace).map observe =
      (run step (constructed (addresses i)) (opsOf i r.trace)).trace.map observe := by
  intro r
  let k := run (familyStep Composer.step) (fun i => Composer.constructed (addresses i)) calls
  obtain ⟨_, _, htrace⟩ := run_agrees deskStep deskStep_composes
    (Desk.constructed_composes addresses) calls
  have hown : List.Forall₂ (Call.Agrees Composes step Composer.step)
      (callsOf i (fun s => s.world i) r.trace) (callsOf i (fun t => t i) k.trace) :=
    forall₂_callsOf (fun c k h => h.op) (fun c k h hi => desk_call_agrees h hi) htrace
  have hops : opsOf i r.trace = opsOf i k.trace := by
    rw [opsOf_eq i (fun s => s.world i), opsOf_eq i (fun t : ι → Composer => t i),
      map_eq_of_forall₂ (fun c k h => h.op) hown]
  -- the composers have nothing in common, so each makes the run of its own calls
  have hfamily := family_run Composer.step (fun i => Composer.constructed (addresses i)) calls i
  obtain ⟨_, _, halone⟩ := run_agrees step step_composes (constructed.composes (addresses i))
    (opsOf i r.trace)
  calc (callsOf i (fun s => s.world i) r.trace).map observe
      = (callsOf i (fun t => t i) k.trace).map Composer.observe :=
        map_eq_of_forall₂ (fun c k h => observe_agrees h) hown
    _ = (run Composer.step (Composer.constructed (addresses i))
          (opsOf i r.trace)).trace.map Composer.observe := by
        rw [hops, hfamily.trace]
    _ = (run step (constructed (addresses i)) (opsOf i r.trace)).trace.map observe :=
        (map_eq_of_forall₂ (fun c k h => observe_agrees h) halone).symm

end osc
