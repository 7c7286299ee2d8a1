-- The life of a receiver. Its three members for the server thread are written in
-- several methods, and in every order of calls they stay in step with the thread
-- of liblo, also when liblo refuses to make a server.
import Lopack.OscReceiver

open calls store

namespace osc

/-- One call of a run of the receiver. -/
abbrev ReceiverCall := Call ReceiveException NoServer Station ReceiverOp

/-- A run of the receiver. -/
abbrev ReceiverRun := Run ReceiveException NoServer Station ReceiverOp

/-! ## The server behind the handle -/

/-- `m_serverThread` is this server thread of liblo. -/
def Station.Serves (w : Station) (t : Nat) (s : lo_server_thread) : Prop :=
  w.receiver.m_serverThread = some t ∧ w.servers.cell t = some s

/-- A handle that is not NULL names a server thread. -/
def Station.Sound (w : Station) : Prop :=
  ∀ t, w.receiver.m_serverThread = some t → ∃ s, w.servers.cell t = some s

/-- The calls that can end with nothing but a log line. -/
def ReceiverOp.mayLog : ReceiverOp → Bool
  | .setup _ _ => true
  | .setupMulticast _ _ _ => true
  | .start => true
  | .handleMessages _ _ => true
  | _ => false

/-- What a call can do, one constructor for each way. -/
inductive Station.Ends (w : Station) :
    ReceiverOp → Outcome ReceiveException NoServer Station Unit → Prop where
  /-- a call that logs a line and does nothing else -/
  | logged (op : ReceiverOp) (line : LogLine) (hop : op.mayLog = true) :
      w.Ends op (.returned () { w with log := line :: w.log })
  /-- liblo calls the error handler in place of making a server -/
  | refused (op : ReceiverOp) (e : ReceiveException)
      (hop : (∃ port refusal, op = .setup port refusal) ∨
        ∃ group port refusal, op = .setupMulticast group port refusal) :
      w.Ends op (.threw e w)
  | setup (port : UInt32) (h : w.receiver.m_serverThread = none) :
      w.Ends (.setup port none) (.returned () { w with
        receiver := { w.receiver with
          m_serverThread := some w.servers.next, m_isMulticast := false }
        servers := w.servers.alloc ⟨none, cStr (OscSender.portText port), false⟩ })
  | setupMulticast (group : Str) (port : UInt32) (h : w.receiver.m_serverThread = none) :
      w.Ends (.setupMulticast group port none) (.returned () { w with
        receiver := { w.receiver with m_serverThread := some w.servers.next, m_isMulticast := true }
        servers :=
          w.servers.alloc ⟨some (cStr group), cStr (OscSender.portText port), false⟩ })
  | start (t : Nat) (servers : Store lo_server_thread) (h : w.receiver.m_serverThread = some t)
      (hs : Restarted w.servers servers t true) :
      w.Ends .start (.returned () { w with
        receiver := { w.receiver with m_isRunning := true }, servers })
  | stop (t : Nat) (servers : Store lo_server_thread) (h : w.receiver.m_serverThread = some t)
      (hs : Restarted w.servers servers t false) :
      w.Ends .stop (.returned () { w with
        receiver := { w.receiver with m_isRunning := false, m_ignoreMessages := false }, servers })
  | stopIdle (h : w.receiver.m_serverThread = none) : w.Ends .stop (.returned () w)
  | clear (t : Nat) (servers : Store lo_server_thread) (h : w.receiver.m_serverThread = some t)
      (hs : Restarted w.servers servers t false) :
      w.Ends .clear (.returned () { w with receiver := OscReceiver.new, servers })
  | clearIdle (h : w.receiver.m_serverThread = none) :
      w.Ends .clear (.returned () { w with receiver := { w.receiver with m_isMulticast := false } })
  | ignoreMessages (yesno : Bool) :
      w.Ends (.ignoreMessages yesno) (.returned () { w with
        receiver := { w.receiver with m_ignoreMessages := yesno } })
  | handled (timeoutMS count : Int32) (t : Nat) (h : w.receiver.m_serverThread = some t)
      (hr : w.receiver.m_isRunning = false) :
      w.Ends (.handleMessages timeoutMS (.ok count)) (.returned () { w with reads := t :: w.reads })
  | handledError (timeoutMS : Int32) (e : ServerError) (t : Nat)
      (h : w.receiver.m_serverThread = some t) (hr : w.receiver.m_isRunning = false) :
      w.Ends (.handleMessages timeoutMS (.error e))
        (.threw (OscReceiver.errorCB e) { w with reads := t :: w.reads })

/-- Every way to end leaves a state. -/
theorem Station.Ends.state {w : Station} {op : ReceiverOp}
    {o : Outcome ReceiveException NoServer Station Unit} (h : w.Ends op o) :
    ∃ w', o.state? = some w' := by
  cases h <;> exact ⟨_, rfl⟩

/-! ## Each method -/

theorem onServers_returned {α : Type} {x : ServerCall α} {w : Station} {a : α}
    {servers : Store lo_server_thread} (h : x w.servers = .returned a servers) :
    onServers x w = .returned a { w with servers } :=
  within_returned h

/-- The body of the two setup methods, with what liblo answers. -/
theorem setupServer_exec (warning : String) {made : ServerCall Nat} {group : Option CString}
    {port : CString} (multicast : Bool) (refusal : Option Refusal) (w : Station)
    (hmade : made w.servers = .returned w.servers.next (w.servers.alloc ⟨group, port, false⟩)) :
    OscReceiver.setupServer warning made multicast refusal w =
      match w.receiver.m_serverThread, refusal with
      | some _, _ => .returned false { w with log := LOG_WARN warning :: w.log }
      | none, some .null => .returned false
          { w with log := LOG_ERROR "OscReceiver: could not create server" :: w.log }
      | none, some (.error e) => .threw (OscReceiver.errorCB e) w
      | none, none => .returned true { w with
          receiver := { w.receiver with
            m_serverThread := some w.servers.next, m_isMulticast := multicast }
          servers := w.servers.alloc ⟨group, port, false⟩ } := by
  unfold OscReceiver.setupServer
  rw [bind_of_returned _ (read_exec w)]
  cases ht : w.receiver.m_serverThread with
  | some t => rfl
  | none =>
    rcases refusal with _ | refusal
    · simp [newServer, bind_exec, onServers_returned hmade, setReceiver]
    · cases refusal with
      | null =>
        -- the NULL is written over the NULL that was there
        have hsame : ({ w.receiver with m_serverThread := none } : OscReceiver) = w.receiver := by
          rw [← ht]
        simp [newServer, bind_exec, setReceiver, logLine, hsame]
      | error e => rfl

/-- A setup method ends like its body. `hends` is how it ends when liblo makes the server. -/
theorem setupServer_ends {w : Station} {op : ReceiverOp} {warning : String}
    {made : ServerCall Nat} {group : Option CString} {port : CString} {multicast : Bool}
    {refusal : Option Refusal}
    (hmade : made w.servers = .returned w.servers.next (w.servers.alloc ⟨group, port, false⟩))
    (hop : (∃ port refusal, op = .setup port refusal) ∨
      ∃ group port refusal, op = .setupMulticast group port refusal)
    (hends : refusal = none → w.receiver.m_serverThread = none →
      w.Ends op (.returned () { w with
        receiver := { w.receiver with
          m_serverThread := some w.servers.next, m_isMulticast := multicast }
        servers := w.servers.alloc ⟨group, port, false⟩ })) :
    w.Ends op ((OscReceiver.setupServer warning made multicast refusal >>=
      fun _ => pure ()) w) := by
  have hlogs : op.mayLog = true := by
    rcases hop with ⟨port, refusal, rfl⟩ | ⟨group, port, refusal, rfl⟩ <;> rfl
  rw [bind_exec, setupServer_exec warning multicast refusal w hmade]
  cases ht : w.receiver.m_serverThread with
  | some t => exact .logged _ _ hlogs
  | none =>
    rcases refusal with _ | refusal
    · exact hends rfl ht
    · cases refusal with
      | null => exact .logged _ _ hlogs
      | error e => exact .refused _ _ hop

section Methods

variable [LibloServers]

theorem start_ends {w : Station} (hw : w.Sound) : w.Ends .start (receiverStep w .start) := by
  unfold receiverStep ReceiverOp.method OscReceiver.start
  rw [bind_of_returned _ (read_exec w)]
  cases ht : w.receiver.m_serverThread with
  | none => exact .logged _ _ rfl
  | some t =>
    obtain ⟨s, hs⟩ := hw t ht
    obtain ⟨servers, hexec, hre⟩ := LibloServers.server_start hs
    simp only
    rw [bind_of_returned _ (onServers_returned hexec)]
    exact .start t servers ht hre

/-- `stop()` with a server. -/
theorem stop_exec {w : Station} {t : Nat} {s : lo_server_thread} (h : w.Serves t s) :
    ∃ servers, Restarted w.servers servers t false ∧
      OscReceiver.stop w = .returned () { w with
        receiver := { w.receiver with m_isRunning := false, m_ignoreMessages := false }
        servers } := by
  obtain ⟨ht, hs⟩ := h
  obtain ⟨servers, hexec, hre⟩ := LibloServers.server_stop hs
  refine ⟨servers, hre, ?_⟩
  unfold OscReceiver.stop
  rw [bind_of_returned _ (read_exec w), ht]
  simp only
  rw [bind_of_returned _ (onServers_returned hexec)]
  rfl

/-- `stop()` with no server. -/
theorem stop_idle {w : Station} (h : w.receiver.m_serverThread = none) :
    OscReceiver.stop w = .returned () w := by
  unfold OscReceiver.stop
  rw [bind_of_returned _ (read_exec w), h]
  rfl

theorem stop_ends {w : Station} (hw : w.Sound) : w.Ends .stop (receiverStep w .stop) := by
  unfold receiverStep ReceiverOp.method
  cases ht : w.receiver.m_serverThread with
  | none =>
    rw [stop_idle ht]
    exact .stopIdle ht
  | some t =>
    obtain ⟨s, hs⟩ := hw t ht
    obtain ⟨servers, hre, hexec⟩ := stop_exec ⟨ht, hs⟩
    rw [hexec]
    exact .stop t servers ht hre

theorem clear_ends {w : Station} (hw : w.Sound) : w.Ends .clear (receiverStep w .clear) := by
  unfold receiverStep ReceiverOp.method OscReceiver.clear
  cases ht : w.receiver.m_serverThread with
  | none =>
    rw [bind_of_returned _ (stop_idle ht), bind_of_returned _ (read_exec w), ht]
    exact .clearIdle ht
  | some t =>
    obtain ⟨s, hs⟩ := hw t ht
    obtain ⟨servers, hre, hexec⟩ := stop_exec ⟨ht, hs⟩
    rw [bind_of_returned _ hexec, bind_of_returned _ (read_exec _)]
    simp only [ht]
    exact .clear t servers ht hre

theorem handleMessages_ends (w : Station) (timeoutMS : Int32) (reply : Except ServerError Int32) :
    w.Ends (.handleMessages timeoutMS reply)
      (receiverStep w (.handleMessages timeoutMS reply)) := by
  unfold receiverStep
  simp only [ReceiverOp.method]
  rw [bind_exec]
  unfold OscReceiver.handleMessages
  rw [bind_of_returned _ (read_exec w)]
  cases ht : w.receiver.m_serverThread with
  | none => exact .logged _ _ rfl
  | some t =>
    cases hr : w.receiver.m_isRunning with
    | true => exact .logged _ _ rfl
    | false =>
      cases reply with
      | ok count => exact .handled timeoutMS count t ht hr
      | error e => exact .handledError timeoutMS e t ht hr

theorem setup_ends (w : Station) (port : UInt32) (refusal : Option Refusal) :
    w.Ends (.setup port refusal) (receiverStep w (.setup port refusal)) := by
  refine setupServer_ends (LibloServers.server_new _ _) (.inl ⟨_, _, rfl⟩) ?_
  rintro rfl ht
  exact .setup port ht

theorem setupMulticast_ends (w : Station) (group : Str) (port : UInt32)
    (refusal : Option Refusal) :
    w.Ends (.setupMulticast group port refusal)
      (receiverStep w (.setupMulticast group port refusal)) := by
  refine setupServer_ends (LibloServers.server_new_multicast _ _ _) (.inr ⟨_, _, _, rfl⟩) ?_
  rintro rfl ht
  exact .setupMulticast group port ht

theorem receiverStep_ends {w : Station} (hw : w.Sound) (op : ReceiverOp) :
    w.Ends op (receiverStep w op) := by
  cases op with
  | setup port refusal => exact setup_ends w port refusal
  | setupMulticast group port refusal => exact setupMulticast_ends w group port refusal
  | start => exact start_ends hw
  | stop => exact stop_ends hw
  | clear => exact clear_ends hw
  | ignoreMessages yesno => exact .ignoreMessages yesno
  | handleMessages timeoutMS reply => exact handleMessages_ends w timeoutMS reply

end Methods

/-! ## The members and the thread -/

/-- The flags tell what liblo has: `m_isRunning` that the server thread was started and not stopped
since, `m_isMulticast` that it was made for a multicast group. -/
structure Station.InStep (w : Station) : Prop where
  sound : w.Sound
  running_iff : w.receiver.m_isRunning = true ↔ ∃ t s, w.Serves t s ∧ s.started = true
  multicast_iff : w.receiver.m_isMulticast = true ↔ ∃ t s, w.Serves t s ∧ s.group ≠ none

/-- Without a handle there is no server behind it. -/
theorem not_serves {w : Station} (h : w.receiver.m_serverThread = none) (t : Nat)
    (s : lo_server_thread) : ¬ w.Serves t s := by
  rintro ⟨ht, _⟩
  rw [h] at ht
  cases ht

theorem Station.Serves.unique {w : Station} {t t' : Nat} {s s' : lo_server_thread}
    (h : w.Serves t s) (h' : w.Serves t' s') : t' = t ∧ s' = s := by
  obtain ⟨ht, hs⟩ := h
  obtain ⟨ht', hs'⟩ := h'
  rw [ht] at ht'
  cases ht'
  rw [hs] at hs'
  cases hs'
  exact ⟨rfl, rfl⟩

/-- With a server, a fact about the server is a fact about this one. -/
theorem exists_serves_iff {w : Station} {t : Nat} {s : lo_server_thread} (h : w.Serves t s)
    (P : lo_server_thread → Prop) : (∃ t' s', w.Serves t' s' ∧ P s') ↔ P s := by
  constructor
  · rintro ⟨t', s', h', hP⟩
    rwa [(h.unique h').2] at hP
  · intro hP
    exact ⟨t, s, h, hP⟩

/-- With a server, the flags are those of the server. -/
theorem inStep_iff_of_serves {w : Station} {t : Nat} {s : lo_server_thread} (h : w.Serves t s) :
    w.InStep ↔
      w.receiver.m_isRunning = s.started ∧ w.receiver.m_isMulticast = s.group.isSome := by
  have hsound : w.Sound := by
    intro t' ht'
    rw [h.1] at ht'
    cases ht'
    exact ⟨s, h.2⟩
  have hstarted := exists_serves_iff h (fun s => s.started = true)
  have hgroup := exists_serves_iff h (fun s => s.group ≠ none)
  rw [Bool.eq_iff_iff (a := w.receiver.m_isRunning),
    Bool.eq_iff_iff (a := w.receiver.m_isMulticast), Option.isSome_iff_ne_none,
    ← hstarted, ← hgroup]
  constructor
  · intro hw
    exact ⟨hw.running_iff, hw.multicast_iff⟩
  · rintro ⟨hr, hm⟩
    exact ⟨hsound, hr, hm⟩

/-- Without a server, both flags are down. -/
theorem inStep_iff_of_null {w : Station} (h : w.receiver.m_serverThread = none) :
    w.InStep ↔ w.receiver.m_isRunning = false ∧ w.receiver.m_isMulticast = false := by
  have hsound : w.Sound := by
    intro t ht
    rw [h] at ht
    cases ht
  constructor
  · rintro ⟨_, hr, hm⟩
    simpa [not_serves h] using And.intro hr hm
  · rintro ⟨hr, hm⟩
    refine ⟨hsound, ?_, ?_⟩
    · simp [hr, not_serves h]
    · simp [hm, not_serves h]

/-- A server that was started or stopped is still behind the handle. -/
theorem Restarted.serves {w : Station} {servers : Store lo_server_thread} {t : Nat} {b : Bool}
    {s : lo_server_thread} (hre : Restarted w.servers servers t b) (h : w.Serves t s)
    {w' : Station} (ht : w'.receiver.m_serverThread = some t) (hs : w'.servers = servers) :
    w'.Serves t { s with started := b } := by
  refine ⟨ht, ?_⟩
  rw [hs, hre.cell, h.2]
  rfl

/-- Every way a call can end keeps the flags in step. -/
theorem Station.InStep.next {w w' : Station} (h : w.InStep) {op : ReceiverOp}
    {o : Outcome ReceiveException NoServer Station Unit} (ho : w.Ends op o)
    (hw' : o.state? = some w') : w'.InStep := by
  cases ho with
  | logged _ line hop => cases hw'; exact ⟨h.sound, h.running_iff, h.multicast_iff⟩
  | refused _ e hop => cases hw'; exact h
  | setup port ht =>
    cases hw'
    obtain ⟨hr, _⟩ := (inStep_iff_of_null ht).mp h
    exact (inStep_iff_of_serves ⟨rfl, Store.alloc_cell_next _ _⟩).mpr ⟨hr, rfl⟩
  | setupMulticast group port ht =>
    cases hw'
    obtain ⟨hr, _⟩ := (inStep_iff_of_null ht).mp h
    exact (inStep_iff_of_serves ⟨rfl, Store.alloc_cell_next _ _⟩).mpr ⟨hr, rfl⟩
  | start t servers ht hre =>
    cases hw'
    obtain ⟨s, hs⟩ := h.sound t ht
    obtain ⟨_, hm⟩ := (inStep_iff_of_serves ⟨ht, hs⟩).mp h
    refine (inStep_iff_of_serves (t := t) (s := { s with started := true }) ?_).mpr ⟨rfl, hm⟩
    exact hre.serves ⟨ht, hs⟩ ht rfl
  | stop t servers ht hre =>
    cases hw'
    obtain ⟨s, hs⟩ := h.sound t ht
    obtain ⟨_, hm⟩ := (inStep_iff_of_serves ⟨ht, hs⟩).mp h
    refine (inStep_iff_of_serves (t := t) (s := { s with started := false }) ?_).mpr ⟨rfl, hm⟩
    exact hre.serves ⟨ht, hs⟩ ht rfl
  | stopIdle ht => cases hw'; exact h
  | clear t servers ht hre => cases hw'; exact (inStep_iff_of_null rfl).mpr ⟨rfl, rfl⟩
  | clearIdle ht =>
    cases hw'
    obtain ⟨hr, _⟩ := (inStep_iff_of_null ht).mp h
    refine (inStep_iff_of_null ?_).mpr ⟨hr, rfl⟩
    exact ht
  | ignoreMessages yesno => cases hw'; exact ⟨h.sound, h.running_iff, h.multicast_iff⟩
  | handled timeoutMS count t ht hr =>
    cases hw'
    exact ⟨h.sound, h.running_iff, h.multicast_iff⟩
  | handledError timeoutMS e t ht hr =>
    cases hw'
    exact ⟨h.sound, h.running_iff, h.multicast_iff⟩

/-! ## Over every run -/

/-- A setup that does not succeed, because it gives `false` or throws, leaves the receiver and the
servers of liblo as they were. -/
def Station.KeptByFailing (w : Station) (method : ReceiverMethod Bool) : Prop :=
  (¬ ∃ w', method w = .returned true w') →
    ∃ w', (method w).state? = some w' ∧ w'.receiver = w.receiver ∧ w'.servers = w.servers

theorem setupServer_keptByFailing {w : Station} (warning : String) {made : ServerCall Nat}
    {group : Option CString} {port : CString} (multicast : Bool) (refusal : Option Refusal)
    (hmade : made w.servers = .returned w.servers.next (w.servers.alloc ⟨group, port, false⟩)) :
    w.KeptByFailing (OscReceiver.setupServer warning made multicast refusal) := by
  intro hfail
  rw [setupServer_exec warning multicast refusal w hmade] at hfail ⊢
  cases ht : w.receiver.m_serverThread with
  | some t => exact ⟨_, rfl, rfl, rfl⟩
  | none =>
    rcases refusal with _ | refusal
    · rw [ht] at hfail
      exact absurd ⟨_, rfl⟩ hfail
    · cases refusal with
      | null => exact ⟨_, rfl, rfl, rfl⟩
      | error e => exact ⟨_, rfl, rfl, rfl⟩

/-- The call read from a server only if there was one and its thread was not running. -/
def ReadsIdleServer (c : ReceiverCall) : Prop :=
  c.after.reads = c.before.reads ∨
    ∃ t s, c.before.Serves t s ∧ s.started = false ∧ c.after.reads = t :: c.before.reads

theorem readsIdleServer_of_ends {w : Station} (h : w.InStep) {op : ReceiverOp}
    {o : Outcome ReceiveException NoServer Station Unit} (ho : w.Ends op o) :
    ReadsIdleServer ⟨w, op, o⟩ := by
  have hidle : ∀ t, w.receiver.m_serverThread = some t → w.receiver.m_isRunning = false →
      ∃ s, w.Serves t s ∧ s.started = false := by
    intro t ht hr
    obtain ⟨s, hs⟩ := h.sound t ht
    obtain ⟨hr', _⟩ := (inStep_iff_of_serves ⟨ht, hs⟩).mp h
    exact ⟨s, ⟨ht, hs⟩, hr' ▸ hr⟩
  cases ho with
  | handled timeoutMS count t ht hr =>
    obtain ⟨s, hs, hst⟩ := hidle t ht hr
    exact .inr ⟨t, s, hs, hst, rfl⟩
  | handledError timeoutMS e t ht hr =>
    obtain ⟨s, hs, hst⟩ := hidle t ht hr
    exact .inr ⟨t, s, hs, hst, rfl⟩
  | _ => exact .inl rfl

/-- What a run of a receiver shows: every call was defined, the flags are in step with the server
thread, a setup that fails now changes nothing, and only idle servers were read. -/
structure Lifecycle [LibloServers] (r : ReceiverRun) : Prop where
  defined : r.ended = false
  running_iff : r.state.receiver.m_isRunning = true ↔
    ∃ t s, r.state.Serves t s ∧ s.started = true
  multicast_iff : r.state.receiver.m_isMulticast = true ↔
    ∃ t s, r.state.Serves t s ∧ s.group ≠ none
  setup_kept : ∀ port refusal, r.state.KeptByFailing (OscReceiver.setup port refusal)
  setupMulticast_kept : ∀ group port refusal,
    r.state.KeptByFailing (OscReceiver.setupMulticast group port refusal)
  reads : ∀ c ∈ r.trace, ReadsIdleServer c

theorem run_inStep [LibloServers] (ops : List ReceiverOp) :
    (run receiverStep Station.new ops).ended = false ∧
      (run receiverStep Station.new ops).state.InStep ∧
      ∀ c ∈ (run receiverStep Station.new ops).trace, ReadsIdleServer c := by
  apply run_induction receiverStep (P := fun r => r.ended = false ∧ r.state.InStep ∧
    ∀ c ∈ r.trace, ReadsIdleServer c)
  · exact ⟨rfl, (inStep_iff_of_null rfl).mpr ⟨rfl, rfl⟩, by simp⟩
  rintro r op he ⟨_, hstep, htrace⟩
  have hends := receiverStep_ends hstep.sound op
  obtain ⟨w', hw'⟩ := hends.state
  rw [Run.call_of_open receiverStep he]
  simp only [hw', Option.getD_some, Option.isNone_some, List.forall_mem_cons]
  exact ⟨trivial, hstep.next hends hw', readsIdleServer_of_ends hstep hends, htrace⟩

/-- In every order of calls, and however liblo answers, the receiver keeps to its life cycle. -/
theorem receiver_keeps_its_life_cycle [LibloServers] (ops : List ReceiverOp) :
    Lifecycle (run receiverStep Station.new ops) := by
  obtain ⟨hdefined, hstep, hreads⟩ := run_inStep ops
  exact {
    defined := hdefined
    running_iff := hstep.running_iff
    multicast_iff := hstep.multicast_iff
    setup_kept := fun port refusal =>
      setupServer_keptByFailing _ _ _ (LibloServers.server_new _ _)
    setupMulticast_kept := fun group port refusal =>
      setupServer_keptByFailing _ _ _ (LibloServers.server_new_multicast _ _ _)
    reads := hreads }

end osc
