-- Which server threads of liblo are still there. A receiver has at most one in use,
-- and a server that it no longer has a handle to keeps its port.
import Lopack.ReceiverLifecycle

open calls store

namespace osc

/-! ## The ledger -/

/-- The server threads that were made and not freed. -/
def Station.unreleased (w : Station) : Nat := w.servers.size

/-- A server thread that was not freed keeps its port. -/
def Station.HoldsPort (w : Station) (port : UInt32) : Prop :=
  ∃ t s, w.servers.cell t = some s ∧ s.port = cStr (OscSender.portText port)

/-- The one server thread that is not released is the one behind the handle, and without a handle
no server of this receiver is in the way of a setup. -/
structure Station.Released (w : Station) : Prop where
  count : w.unreleased = if w.receiver.m_serverThread.isSome then 1 else 0
  ports : w.receiver.m_serverThread = none → ∀ port, ¬ w.HoldsPort port

/-- The count is enough: no server, no port. -/
theorem released_iff (w : Station) :
    w.Released ↔ w.unreleased = if w.receiver.m_serverThread.isSome then 1 else 0 := by
  constructor
  · exact Station.Released.count
  · intro h
    refine ⟨h, ?_⟩
    rintro hnone port ⟨t, s, hs, _⟩
    have hzero : w.servers.size = 0 := by simpa [Station.unreleased, hnone] using h
    rw [Store.cell_of_size_eq_zero hzero t] at hs
    cases hs

/-- Starting and stopping releases nothing. -/
theorem Restarted.size {servers servers' : Store lo_server_thread} {t : Nat} {b : Bool}
    {s : lo_server_thread} (h : Restarted servers servers' t b) (hs : servers.cell t = some s) :
    servers'.size = servers.size := by
  have hchange := Store.count_change (Store.lt_next hs) h.next h.other (fun _ => true)
  rw [h.cell, hs] at hchange
  simpa [Store.size] using hchange

/-! ## Over every run -/

/-- After a call the count is right exactly when the call was not a `clear()` with a server. -/
theorem Station.Released.next {w w' : Station} (h : w.Released) (hw : w.Sound) {op : ReceiverOp}
    {o : Outcome ReceiveException NoServer Station Unit} (ho : w.Ends op o)
    (hw' : o.state? = some w') :
    w'.Released ↔ (op = .clear → w.receiver.m_serverThread = none) := by
  have hcount := h.count
  unfold Station.unreleased at hcount
  rw [released_iff, Station.unreleased]
  cases ho with
  | setup port ht =>
    cases hw'
    simp [Store.size_alloc, hcount, ht]
  | setupMulticast group port ht =>
    cases hw'
    simp [Store.size_alloc, hcount, ht]
  | start t servers ht hre =>
    cases hw'
    obtain ⟨s, hs⟩ := hw t ht
    simp [hre.size hs, hcount]
  | stop t servers ht hre =>
    cases hw'
    obtain ⟨s, hs⟩ := hw t ht
    simp [hre.size hs, hcount]
  | clear t servers ht hre =>
    -- the handle is gone, the server is not
    cases hw'
    obtain ⟨s, hs⟩ := hw t ht
    simp [hre.size hs, hcount, ht, OscReceiver.new]
  | clearIdle ht =>
    cases hw'
    simp [hcount, ht]
  | logged _ line hop =>
    cases hw'
    have hother : op ≠ .clear := by
      rintro rfl
      cases hop
    simp [hcount, hother]
  | refused _ e hop =>
    cases hw'
    have hother : op ≠ .clear := by
      rintro rfl
      simp at hop
    simp [hcount, hother]
  | _ =>
    cases hw'
    simp [hcount]

/-- In a run of any calls the servers are released at every point exactly when `clear()` never
finds a server. -/
theorem servers_are_released_iff_clear_finds_none [LibloServers] (ops : List ReceiverOp) :
    (∀ q, q <+: ops → (run receiverStep Station.new q).state.Released) ↔
      ∀ c ∈ (run receiverStep Station.new ops).trace,
        c.op = .clear → c.before.receiver.m_serverThread = none := by
  apply always_iff receiverStep (P := fun r => r.state.Released)
    (C := fun c => c.op = .clear → c.before.receiver.m_serverThread = none)
  · rw [released_iff]
    rfl
  intro ops op he hP _
  have hsound := (run_inStep ops).2.1.sound
  have hends := receiverStep_ends hsound op
  obtain ⟨w', hw'⟩ := hends.state
  rw [Run.call_of_open receiverStep he]
  simp only [hw', Option.getD_some]
  exact (hP ops (List.prefix_refl _)).next hsound hends hw'

/-- `setup(9990)` and then `clear()`: the server is still there, without a handle, and it holds the
port. -/
theorem clear_leaves_a_server :
    ¬ (run receiverStep Station.new [.setup 9990 none, .clear]).state.Released ∧
      (run receiverStep Station.new [.setup 9990 none, .clear]).state.HoldsPort 9990 := by
  refine ⟨?_, 0, ⟨none, cStr (OscSender.portText 9990), false⟩, rfl, rfl⟩
  intro h
  exact absurd h.count (by decide)

/-! ## The servers that run -/

/-- A server after `t` was started or stopped: it is `t`, or it is as before. -/
theorem Restarted.cell_cases {servers servers' : Store lo_server_thread} {t u : Nat} {b : Bool}
    {s : lo_server_thread} (h : Restarted servers servers' t b) (hs : servers'.cell u = some s) :
    (u = t ∧ s.started = b) ∨ (u ≠ t ∧ servers.cell u = some s) := by
  by_cases hu : u = t
  · rw [hu, h.cell] at hs
    obtain ⟨s', _, rfl⟩ := Option.map_eq_some_iff.mp hs
    exact .inl ⟨hu, rfl⟩
  · rw [h.other u hu] at hs
    exact .inr ⟨hu, hs⟩

theorem Restarted.cell_self {servers servers' : Store lo_server_thread} {t : Nat} {b : Bool}
    {s : lo_server_thread} (h : Restarted servers servers' t b) (hs : servers.cell t = some s) :
    servers'.cell t = some { s with started := b } := by
  rw [h.cell, hs]
  rfl

/-- A server thread that runs is the one behind the handle. -/
def Station.Attended (w : Station) : Prop :=
  ∀ t s, w.servers.cell t = some s → s.started = true → w.receiver.m_serverThread = some t

theorem Station.Attended.next {w w' : Station} (h : w.Attended) {op : ReceiverOp}
    {o : Outcome ReceiveException NoServer Station Unit} (ho : w.Ends op o)
    (hw' : o.state? = some w') : w'.Attended := by
  intro u s hs hstarted
  cases ho with
  | setup port ht =>
    cases hw'
    rcases Store.alloc_some hs with rfl | hold
    · cases hstarted
    · rw [h u s hold hstarted] at ht
      cases ht
  | setupMulticast group port ht =>
    cases hw'
    rcases Store.alloc_some hs with rfl | hold
    · cases hstarted
    · rw [h u s hold hstarted] at ht
      cases ht
  | start t servers ht hre =>
    cases hw'
    rcases hre.cell_cases hs with ⟨rfl, _⟩ | ⟨_, hold⟩
    · exact ht
    · exact h u s hold hstarted
  | stop t servers ht hre =>
    cases hw'
    rcases hre.cell_cases hs with ⟨rfl, hstopped⟩ | ⟨_, hold⟩
    · exact ht
    · exact h u s hold hstarted
  | clear t servers ht hre =>
    -- no server runs: the one behind the handle is stopped, and the others did not run
    cases hw'
    rcases hre.cell_cases hs with ⟨rfl, hstopped⟩ | ⟨hne, hold⟩
    · rw [hstopped] at hstarted
      cases hstarted
    · rw [h u s hold hstarted] at ht
      cases ht
      exact absurd rfl hne
  | _ =>
    cases hw'
    exact h u s hs hstarted

/-- The server `t` is there as `s`, without a handle to it, and was read `reads` times. -/
structure Station.GivenUp (t : Nat) (s : lo_server_thread) (reads : Nat) (w : Station) : Prop where
  inStep : w.InStep
  cell : w.servers.cell t = some s
  handle : w.receiver.m_serverThread ≠ some t
  reads : w.reads.count t = reads

/-- No call gets back to a server without a handle: handles are only made for new servers. -/
theorem Station.GivenUp.next {t : Nat} {s : lo_server_thread} {reads : Nat} {w w' : Station}
    (h : w.GivenUp t s reads) {op : ReceiverOp}
    {o : Outcome ReceiveException NoServer Station Unit} (ho : w.Ends op o)
    (hw' : o.state? = some w') : w'.GivenUp t s reads := by
  have hstep := h.inStep.next ho hw'
  have hnew : w.servers.next ≠ t := (Store.lt_next h.cell).ne'
  have hne : ∀ {u}, w.receiver.m_serverThread = some u → t ≠ u := by
    rintro u hu rfl
    exact h.handle hu
  have hother : ∀ {servers u b}, Restarted w.servers servers u b →
      w.receiver.m_serverThread = some u → servers.cell t = some s := by
    intro servers u b hre hu
    rw [hre.other t (hne hu), h.cell]
  cases ho with
  | setup port ht =>
    cases hw'
    exact ⟨hstep, Store.alloc_cell_of_some _ h.cell, by simpa using hnew, h.reads⟩
  | setupMulticast group port ht =>
    cases hw'
    exact ⟨hstep, Store.alloc_cell_of_some _ h.cell, by simpa using hnew, h.reads⟩
  | start u servers hu hre => cases hw'; exact ⟨hstep, hother hre hu, h.handle, h.reads⟩
  | stop u servers hu hre => cases hw'; exact ⟨hstep, hother hre hu, h.handle, h.reads⟩
  | clear u servers hu hre =>
    cases hw'
    exact ⟨hstep, hother hre hu, by simp [OscReceiver.new], h.reads⟩
  | handled timeoutMS count u hu hr =>
    cases hw'
    exact ⟨hstep, h.cell, h.handle, (List.count_cons_of_ne (hne hu).symm).trans h.reads⟩
  | handledError timeoutMS e u hu hr =>
    cases hw'
    exact ⟨hstep, h.cell, h.handle, (List.count_cons_of_ne (hne hu).symm).trans h.reads⟩
  | _ => cases hw'; exact ⟨hstep, h.cell, h.handle, h.reads⟩

theorem Station.Ends.cleared {w w' : Station} {o : Outcome ReceiveException NoServer Station Unit}
    (ho : w.Ends .clear o) (hw' : o.state? = some w') : w'.receiver.m_serverThread = none := by
  cases ho with
  | clear t servers ht hre => cases hw'; rfl
  | clearIdle ht => cases hw'; exact ht
  | logged _ line hop => cases hop
  | refused _ e hop => simp at hop

/-- The port that the call made a server for. With the port 0 the system chooses one, so such a
setup does not count. -/
def madePort (c : ReceiverCall) : Option UInt32 :=
  match c.op with
  | .setup port none =>
    if c.before.receiver.m_serverThread = none ∧ port ≠ 0 then some port else none
  | _ => none

/-- The ports that `setup` made a server for, newest first. -/
def portsMade (trace : List ReceiverCall) : List UInt32 := trace.filterMap madePort

/-- No server is made for a port that is held. -/
def RespectsPorts (c : ReceiverCall) : Prop :=
  ∀ port, madePort c = some port → ¬ c.before.HoldsPort port

/-- No call gives a port back. -/
theorem Station.HoldsPort.next {w w' : Station} {port : UInt32} (h : w.HoldsPort port)
    {op : ReceiverOp} {o : Outcome ReceiveException NoServer Station Unit} (ho : w.Ends op o)
    (hw' : o.state? = some w') : w'.HoldsPort port := by
  obtain ⟨u, s, hs, hport⟩ := h
  have hrestarted : ∀ {servers t b}, Restarted w.servers servers t b →
      ∃ u s, servers.cell u = some s ∧ s.port = cStr (OscSender.portText port) := by
    intro servers t b hre
    by_cases hu : u = t
    · subst hu
      exact ⟨u, { s with started := b }, hre.cell_self hs, hport⟩
    · exact ⟨u, s, by rw [hre.other u hu, hs], hport⟩
  cases ho with
  | setup port' ht => cases hw'; exact ⟨u, s, Store.alloc_cell_of_some _ hs, hport⟩
  | setupMulticast group port' ht =>
    cases hw'
    exact ⟨u, s, Store.alloc_cell_of_some _ hs, hport⟩
  | start t servers ht hre => cases hw'; exact hrestarted hre
  | stop t servers ht hre => cases hw'; exact hrestarted hre
  | clear t servers ht hre => cases hw'; exact hrestarted hre
  | _ => cases hw'; exact ⟨u, s, hs, hport⟩

/-- The server that was made holds its port. -/
theorem holdsPort_of_made [LibloServers] {w w' : Station} {op : ReceiverOp} {port : UInt32}
    (h : madePort ⟨w, op, receiverStep w op⟩ = some port)
    (hw' : (receiverStep w op).state? = some w') : w'.HoldsPort port := by
  unfold madePort at h
  split at h
  · rename_i port' hop
    split at h
    · rename_i hmade
      cases h
      cases hop
      have hexec : (receiverStep w (.setup port none)).state? =
          (OscReceiver.setup port none w).state? := state?_bind_pure _ _ _
      rw [hexec, OscReceiver.setup,
        setupServer_exec _ _ _ w (LibloServers.server_new _ _), hmade.1] at hw'
      cases hw'
      exact ⟨w.servers.next, _, Store.alloc_cell_next _ _, rfl⟩
    · cases h
  · cases h

/-- The ports so far are all different, and a server still holds each of them. -/
structure PortsHeld (trace : List ReceiverCall) (w : Station) : Prop where
  nodup : (portsMade trace).Nodup
  held : ∀ port ∈ portsMade trace, w.HoldsPort port

theorem PortsHeld.call [LibloServers] {trace : List ReceiverCall} {w w' : Station}
    (h : PortsHeld trace w) (hw : w.Sound) {op : ReceiverOp} (hc : RespectsPorts ⟨w, op, receiverStep w op⟩)
    (hw' : (receiverStep w op).state? = some w') :
    PortsHeld (⟨w, op, receiverStep w op⟩ :: trace) w' := by
  have hheld : ∀ port ∈ portsMade trace, w'.HoldsPort port :=
    fun port hport => (h.held port hport).next (receiverStep_ends hw op) hw'
  cases hm : madePort ⟨w, op, receiverStep w op⟩ with
  | none =>
    have hports : portsMade (⟨w, op, receiverStep w op⟩ :: trace) = portsMade trace := by
      simp [portsMade, hm]
    exact ⟨hports ▸ h.nodup, hports ▸ hheld⟩
  | some port =>
    have hports : portsMade (⟨w, op, receiverStep w op⟩ :: trace) = port :: portsMade trace := by
      simp [portsMade, hm]
    constructor
    · rw [hports, List.nodup_cons]
      refine ⟨fun hport => hc port hm ?_, h.nodup⟩
      exact h.held port hport
    · rw [hports, List.forall_mem_cons]
      exact ⟨holdsPort_of_made hm hw', hheld⟩

/-- A server is never freed, so a receiver gets a port at most once: where the system makes no
server for a port that is held, the ports of all the setups that succeed are different. -/
theorem a_port_is_set_up_once [LibloServers] (ops : List ReceiverOp)
    (hports : ∀ c ∈ (run receiverStep Station.new ops).trace, RespectsPorts c) :
    (portsMade (run receiverStep Station.new ops).trace).Nodup := by
  have hkey : (∀ c ∈ (run receiverStep Station.new ops).trace, RespectsPorts c) →
      (run receiverStep Station.new ops).state.InStep ∧
        PortsHeld (run receiverStep Station.new ops).trace
          (run receiverStep Station.new ops).state := by
    apply run_induction receiverStep (P := fun r => (∀ c ∈ r.trace, RespectsPorts c) →
      r.state.InStep ∧ PortsHeld r.trace r.state)
    · intro _
      exact ⟨(inStep_iff_of_null rfl).mpr ⟨rfl, rfl⟩, List.nodup_nil, by simp [portsMade]⟩
    intro r op he ih hc
    rw [Run.call_of_open receiverStep he] at hc ⊢
    rw [List.forall_mem_cons] at hc
    obtain ⟨hstep, hheld⟩ := ih hc.2
    have hends := receiverStep_ends hstep.sound op
    obtain ⟨w', hw'⟩ := hends.state
    simp only [hw', Option.getD_some]
    exact ⟨hstep.next hends hw', hheld.call hstep.sound hc.1 hw'⟩
  exact (hkey hports).2.nodup

/-- Two setups with a `clear()` between them, for two ports. -/
theorem two_ports_are_set_up :
    portsMade (run receiverStep Station.new
        [.setup 9990 none, .clear, .setup 9991 none]).trace = [9991, 9990] ∧
      (portsMade (run receiverStep Station.new
        [.setup 9990 none, .clear, .setup 9991 none]).trace).Nodup := by
  refine ⟨by decide, a_port_is_set_up_once _ ?_⟩
  intro c hc port hmade
  rcases List.mem_cons.mp hc with rfl | hc
  · -- the server of the first setup holds another port
    cases hmade
    rintro ⟨t, s, hs, hport⟩
    rcases t with _ | t
    · cases hs
      exact absurd hport (by decide)
    · cases hs
  · rcases List.mem_cons.mp hc with rfl | hc
    · cases hmade
    · rw [List.mem_singleton.mp hc] at hmade ⊢
      rintro ⟨t, s, hs, hport⟩
      cases hs

end osc
