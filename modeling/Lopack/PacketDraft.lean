-- What the sender is for: a draft of the next packet. A draft has no cells and
-- frees nothing. It keeps one message slot and the open path of one tree, and
-- the handles are only names.
import Lopack.OscSender

open calls rose linked store

namespace osc

/-- A node of the open path of bundles, innermost first. -/
abbrev BundleFrame := Frame (LeafAt (List lo_arg) CString) (NodeAt lo_timetag)

structure Draft where
  address : Option lo_address
  /-- the last message begun, with its arguments so far -/
  slot : Option (Nat × List lo_arg)
  path : List BundleFrame
  pattern : Str
  messageOpen : Bool
  bundleOpen : Bool
  nextMessage : Nat
  nextBundle : Nat
  sent : List (lo_address × HeldPacket)

namespace Draft

/-- The outcome of a call on a draft. -/
abbrev Result := Outcome OscException Undefined Draft Unit

def setup [LibloApi] (d : Draft) (address : Str) (port : UInt32) : Draft :=
  { d with address := some (OscSender.addressOf address port) }

@[simp] theorem setup_path [LibloApi] (d : Draft) (address : Str) (port : UInt32) :
    (d.setup address port).path = d.path := rfl

def clear (d : Draft) : Draft := { d with slot := none, path := [], pattern := [] }

/-- The message in the slot, as an element of a packet. -/
def slotLeaf (d : Draft) : Option HeldPacket :=
  d.slot.map (fun x => .leaf ⟨cStr d.pattern, x.1, x.2⟩)

/-- What `send` hands over: the tree if there is one, else the message in the slot. -/
def outgoing (d : Draft) : Option HeldPacket :=
  match whole d.path with
  | some t => some t
  | none => d.slotLeaf

def send (d : Draft) : Result :=
  match d.address with
  | none => .threw .SendException d
  | some address =>
    if d.bundleOpen || d.messageOpen then .threw .SendException d
    else match d.outgoing with
      | none => .threw .SendException d
      | some t => .returned () { d.clear with sent := d.sent ++ [(address, t)] }

def beginMessage (d : Draft) (pattern : Str) : Result :=
  if d.messageOpen then .threw .MessageInProgressException d
  else .returned () { d with
    slot := some (d.nextMessage, [])
    messageOpen := true
    pattern := pattern
    nextMessage := d.nextMessage + 1 }

def add (d : Draft) (a : Except Undefined lo_arg) : Result :=
  if !d.messageOpen then .threw .MessageNotInProgressException d
  else match a with
    | .error u => .undefined u
    | .ok x => match d.slot with
      | none => .undefined .nullMessage
      | some (m, args) => .returned () { d with slot := some (m, args ++ [x]) }

/-- The message leaves the slot for the innermost bundle `f`. -/
def place (d : Draft) (f : BundleFrame) (fs : List BundleFrame) : Draft :=
  { d with
    path := (match d.slotLeaf with
      | some t => f.add t
      | none => f) :: fs
    slot := none
    pattern := []
    messageOpen := false }

@[simp] theorem place_nodes (d : Draft) (f : BundleFrame) (fs : List BundleFrame) :
    pathNodes (d.place f fs).path = pathNodes (f :: fs) := by
  unfold place slotLeaf
  cases d.slot with
  | none => rfl
  | some x => simp

theorem place_leaves (d : Draft) (f : BundleFrame) (fs : List BundleFrame) :
    pathLeaves (d.place f fs).path =
      pathLeaves (f :: fs) ++ (d.slot.map (fun x => ⟨cStr d.pattern, x.1, x.2⟩)).toList := by
  unfold place slotLeaf
  cases d.slot with
  | none => simp
  | some x => simp

def endMessage (d : Draft) : Result :=
  if !d.messageOpen then .threw .MessageNotInProgressException d
  else if d.bundleOpen then
    match d.path with
    | [] => .undefined .emptyBack
    | f :: fs => .returned () (d.place f fs)
  else .returned () { d with messageOpen := false }

def openBundle (d : Draft) (tag : lo_timetag) : Draft :=
  { d with
    path := ⟨⟨d.nextBundle, tag⟩, []⟩ :: d.path
    bundleOpen := true
    nextBundle := d.nextBundle + 1 }

def beginBundle (d : Draft) : Result :=
  if d.bundleOpen then .threw .MessageInProgressException d
  else .returned () (d.openBundle LO_TT_IMMEDIATE)

def beginBundleAt (d : Draft) (tag : TimeTag) : Result :=
  if d.messageOpen then .threw .MessageInProgressException d
  else .returned () (d.openBundle tag.tag)

def endBundle (d : Draft) : Result :=
  if !d.bundleOpen then .threw .BundleNotInProgressException d
  else match d.path with
    | f :: g :: fs => .returned () { d with path := g.add (.node f.label f.closed) :: fs }
    | _ => .returned () { d with bundleOpen := false }

/-- One call on a draft. -/
def step [LibloApi] (d : Draft) (op : Op) : Result :=
  match op.direct with
  | .setup address port => .returned () (d.setup address port)
  | .send => d.send
  | .clear => .returned () d.clear
  | .beginMessage addressPattern => d.beginMessage addressPattern
  | .add var => d.add var.arg
  | .endMessage => d.endMessage
  | .beginBundle => d.beginBundle
  | .beginBundleAt tag => d.beginBundleAt tag
  | .endBundle => d.endBundle
  | .stream _ => .undefined .nullText

/-- The members of a sender with this draft. -/
def members (d : Draft) : OscSender where
  m_address := d.address
  m_message := d.slot.map Prod.fst
  m_bundles := (d.path.map (fun f => f.label.handle)).reverse
  m_addressPattern := d.pattern
  m_messageInProgress := d.messageOpen
  m_bundleInProgress := d.bundleOpen

end Draft

end osc
