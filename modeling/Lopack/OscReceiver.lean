-- The receiver of OscReceiver.cpp: its server thread, its flags, and how a message
-- from liblo reaches the objects and the program.
import Lopack.OscObject
import Lopack.OscSender
import Lopack.Store

open calls store

namespace osc

/-! ## The server threads of liblo -/

/-- A server thread that was made and not freed. `group` is there if it was made by
`lo_server_thread_new_multicast`. `started` says that it was started and not stopped since. -/
structure lo_server_thread where
  group : Option CString
  port : CString
  started : Bool
deriving DecidableEq

/-- The server threads after `t` was started or stopped. -/
structure Restarted (servers servers' : Store lo_server_thread) (t : Nat) (started : Bool) :
    Prop where
  next : servers'.next = servers.next
  cell : servers'.cell t = (servers.cell t).map (fun s => { s with started })
  other : ∀ u, u ≠ t → servers'.cell u = servers.cell u

/-- A server thread that does not exist was used. -/
inductive NoServer where
  | freed
deriving DecidableEq, Repr

/-- A call of a function of liblo on the server threads. It throws nothing. -/
abbrev ServerCall (α : Type) := Code Empty NoServer (Store lo_server_thread) α

/-- The functions of liblo that a receiver calls on its server threads, and what lopack relies on.
Of a server thread that does not exist nothing is known. -/
class LibloServers where
  /-- when liblo makes the server -/
  lo_server_thread_new : CString → ServerCall Nat
  /-- when liblo makes the server -/
  lo_server_thread_new_multicast : CString → CString → ServerCall Nat
  lo_server_thread_start : Nat → ServerCall Unit
  lo_server_thread_stop : Nat → ServerCall Unit
  /-- a new server thread is not started -/
  server_new : ∀ port servers, lo_server_thread_new port servers =
    .returned servers.next (servers.alloc ⟨none, port, false⟩)
  server_new_multicast : ∀ group port servers, lo_server_thread_new_multicast group port servers =
    .returned servers.next (servers.alloc ⟨some group, port, false⟩)
  server_start : ∀ {t : Nat} {servers : Store lo_server_thread} {s}, servers.cell t = some s →
    ∃ servers', lo_server_thread_start t servers = .returned () servers' ∧
      Restarted servers servers' t true
  server_stop : ∀ {t : Nat} {servers : Store lo_server_thread} {s}, servers.cell t = some s →
    ∃ servers', lo_server_thread_stop t servers = .returned () servers' ∧
      Restarted servers servers' t false

export LibloServers (lo_server_thread_new lo_server_thread_new_multicast lo_server_thread_start
  lo_server_thread_stop)

/-- Start or stop a server thread that exists. -/
def restart (started : Bool) (t : Nat) : ServerCall Unit := do
  let servers ← read
  match servers.modify t (fun s => { s with started }) with
  | some servers' => update (fun _ => servers')
  | none => undefinedBy .freed

theorem restart_exec (started : Bool) {t : Nat} {servers : Store lo_server_thread}
    {s : lo_server_thread} (h : servers.cell t = some s) :
    ∃ servers', restart started t servers = .returned () servers' ∧
      Restarted servers servers' t started := by
  obtain ⟨servers', hm, hnext, hcell, hother⟩ :=
    Store.modify_of_some (fun s => { s with started }) h
  refine ⟨servers', ?_, hnext, by rw [hcell, h]; rfl, hother⟩
  unfold restart
  rw [bind_of_returned _ (read_exec servers), hm]
  rfl

/-- The laws can be met. -/
instance referenceServers : LibloServers where
  lo_server_thread_new port := do
    let servers ← read
    update (fun servers => servers.alloc ⟨none, port, false⟩)
    pure servers.next
  lo_server_thread_new_multicast group port := do
    let servers ← read
    update (fun servers => servers.alloc ⟨some group, port, false⟩)
    pure servers.next
  lo_server_thread_start := restart true
  lo_server_thread_stop := restart false
  server_new _ _ := rfl
  server_new_multicast _ _ _ := rfl
  server_start h := restart_exec true h
  server_stop h := restart_exec false h

/-- What liblo hands to the error handler. -/
structure ServerError where
  num : Int32
  msg : Option CString
  place : Option CString
deriving DecidableEq

/-- How liblo refuses to make a server: it returns NULL, or it calls the error handler. -/
inductive Refusal where
  | null
  | error (e : ServerError)
deriving DecidableEq

/-- `ReceiveException` with its `what()`. -/
structure ReceiveException where
  what : Str
deriving DecidableEq

/-- The bytes of a text in the source. -/
def ascii (s : String) : Str := s.toList.map (fun c => UInt8.ofNat c.toNat)

/-- `stream << num`. -/
def intText (num : Int32) : Str :=
  if num.toInt < 0 then ascii "-" ++ ascii (Nat.repr num.toInt.natAbs)
  else ascii (Nat.repr num.toInt.natAbs)

/-- `stream << ": " << text`, where the text might be NULL. -/
def colonText : Option CString → Str
  | some text => ascii ": " ++ text.bytes
  | none => []

/-! ## The object -/

/-- The members. NULL is `none`. The list `m_objects` is in `Attachments`. -/
structure OscReceiver where
  m_serverThread : Option Nat
  m_isMulticast : Bool
  m_isRunning : Bool
  m_ignoreMessages : Bool
deriving DecidableEq

/-- A receiver with the server threads that it has made, the servers that it has read from and
the lines that it has logged, both newest first. -/
structure Station where
  receiver : OscReceiver
  servers : Store lo_server_thread
  reads : List Nat
  log : List LogLine

/-- A method of the receiver. -/
abbrev ReceiverMethod (α : Type) := Code ReceiveException NoServer Station α

/-- A call into liblo. -/
def onServers {α : Type} (x : ServerCall α) : ReceiverMethod α :=
  within Station.servers (fun w servers => { w with servers }) x

def setReceiver (f : OscReceiver → OscReceiver) : ReceiverMethod Unit :=
  update (fun w => { w with receiver := f w.receiver })

def logLine (line : LogLine) : ReceiverMethod Unit :=
  update (fun w => { w with log := line :: w.log })

/-! ## The calls into liblo -/

/-- `lo_server_thread_new` or `lo_server_thread_new_multicast`, the call that makes the server
when liblo does not refuse. Whether liblo refuses depends on the system. -/
def newServer (made : ServerCall Nat) (errorCB : ServerError → ReceiveException) :
    Option Refusal → ReceiverMethod (Option Nat)
  | some .null => pure none
  | some (.error e) => raise (errorCB e)
  | none => do
    let t ← onServers made
    pure (some t)

/-- `lo_server_recv_noblock`. It gives the number of bytes, or calls the error handler. -/
def lo_server_recv_noblock (t : Nat) (errorCB : ServerError → ReceiveException)
    (reply : Except ServerError Int32) : ReceiverMethod Int32 := do
  update (fun w => { w with reads := t :: w.reads })
  match reply with
  | .ok count => pure count
  | .error e => raise (errorCB e)

namespace OscReceiver

/-- `OscReceiver(rootAddress)`. -/
def new : OscReceiver := ⟨none, false, false, false⟩

/-- The error handler throws. -/
def errorCB (e : ServerError) : ReceiveException :=
  ⟨ascii "OscReceiver: liblo server thread error " ++ intText e.num ++ colonText e.msg ++
    colonText e.place⟩

/-! ## Setup and clear -/

/-- The body of `setup` and of `setupMulticast`. -/
def setupServer (warning : String) (made : ServerCall Nat) (multicast : Bool)
    (refusal : Option Refusal) : ReceiverMethod Bool := do
  let w ← read
  if w.receiver.m_serverThread.isSome then
    logLine (LOG_WARN warning)
    pure false
  else
    let t ← newServer made errorCB refusal
    setReceiver (fun r => { r with m_serverThread := t })
    match t with
    | none =>
      logLine (LOG_ERROR "OscReceiver: could not create server")
      pure false
    | some _ =>
      -- `lo_server_thread_add_method` registers `messageCB` for every message
      setReceiver (fun r => { r with m_isMulticast := multicast })
      pure true

def setup [LibloServers] (port : UInt32) (refusal : Option Refusal) : ReceiverMethod Bool :=
  setupServer "OscReceiver: cannot set port while thread is running"
    (lo_server_thread_new (cStr (OscSender.portText port))) false refusal

def setupMulticast [LibloServers] (group : Str) (port : UInt32) (refusal : Option Refusal) :
    ReceiverMethod Bool :=
  setupServer "OscReceiver: cannot set multicast group & port while thread is running"
    (lo_server_thread_new_multicast (cStr group) (cStr (OscSender.portText port))) true refusal

def stop [LibloServers] : ReceiverMethod Unit := do
  let w ← read
  match w.receiver.m_serverThread with
  | none => pure ()
  | some t =>
    onServers (lo_server_thread_stop t)
    setReceiver (fun r => { r with m_isRunning := false, m_ignoreMessages := false })

def clear [LibloServers] : ReceiverMethod Unit := do
  stop
  let w ← read
  if w.receiver.m_serverThread.isSome then
    setReceiver (fun r => { r with m_serverThread := none })
  else pure ()
  setReceiver (fun r => { r with m_isMulticast := false })

/-! ## Thread control and polling -/

def start [LibloServers] : ReceiverMethod Unit := do
  let w ← read
  match w.receiver.m_serverThread with
  | none => logLine (LOG_ERROR "OscReceiver: cannot start thread, address not set")
  | some t =>
    onServers (lo_server_thread_start t)
    setReceiver (fun r => { r with m_isRunning := true })

/-- The timeout only bounds how long liblo waits. -/
def handleMessages (_timeoutMS : Int32) (reply : Except ServerError Int32) :
    ReceiverMethod Int32 := do
  let w ← read
  match w.receiver.m_serverThread with
  | none =>
    logLine (LOG_ERROR "OscReceiver: cannot handle messages, address not set")
    pure 0
  | some t =>
    if w.receiver.m_isRunning then
      logLine (LOG_WARN ("OscReceiver: you don't need to handle messages manually " ++
        "when the thread is already running"))
      pure 0
    else
      lo_server_recv_noblock t errorCB reply

def ignoreMessages (yesno : Bool) : ReceiverMethod Unit :=
  setReceiver (fun r => { r with m_ignoreMessages := yesno })

/-! ## Messages -/

/-- `OscReceiver::processMessage`. -/
def processMessage (cb : Callbacks) (message : ReceivedMessage) (source : MessageSource)
    (self : OscReceiver) (fuel : Nat) (s : Dispatch) : Option (Bool × Dispatch) :=
  if self.m_ignoreMessages then some (false, s)
  else match processObjects cb message source .receiver fuel 0 s with
    | none => none
    | some (true, s') => some (true, s')
    | some (false, s') => some (cb.process message source s'.invoked, s'.invoke .receiver)

end OscReceiver

/-! ## The calls of a program -/

/-- One call on a receiver, with what liblo answers. -/
inductive ReceiverOp where
  | setup (port : UInt32) (refusal : Option Refusal)
  | setupMulticast (group : Str) (port : UInt32) (refusal : Option Refusal)
  | start
  | stop
  | clear
  | ignoreMessages (yesno : Bool)
  | handleMessages (timeoutMS : Int32) (reply : Except ServerError Int32)

def ReceiverOp.method [LibloServers] : ReceiverOp → ReceiverMethod Unit
  | .setup port refusal => do let _ ← OscReceiver.setup port refusal
  | .setupMulticast group port refusal => do
    let _ ← OscReceiver.setupMulticast group port refusal
  | .start => OscReceiver.start
  | .stop => OscReceiver.stop
  | .clear => OscReceiver.clear
  | .ignoreMessages yesno => OscReceiver.ignoreMessages yesno
  | .handleMessages timeoutMS reply => do
    let _ ← OscReceiver.handleMessages timeoutMS reply

def receiverStep [LibloServers] (w : Station) (op : ReceiverOp) :
    Outcome ReceiveException NoServer Station Unit := op.method w

/-- A new receiver. The constructors with a port call `setup` next. -/
def Station.new : Station := ⟨OscReceiver.new, Store.empty, [], []⟩

end osc
