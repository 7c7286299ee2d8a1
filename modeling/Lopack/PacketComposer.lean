-- The sender in values only. A composer has no handles and no cells: it is told what a
-- program calls, and says how each call ends and which packet it hands over. The sender
-- with its cells in liblo does the same, call by call.
import Lopack.DraftCalls
import Lopack.PacketStream

open calls rose linked store

namespace osc

/-! ## The composer -/

/-- A bundle that still takes elements. -/
abbrev OpenBundle := Frame Message lo_timetag

structure Composer where
  address : Option lo_address
  /-- the arguments of the last message begun -/
  slot : Option (List lo_arg)
  /-- the open bundles, innermost first -/
  path : List OpenBundle
  pattern : Str
  messageOpen : Bool
  bundleOpen : Bool

namespace Composer

abbrev Result := Outcome OscException Undefined Composer Unit

def constructed [LibloApi] (address : Option (Str × UInt32)) : Composer :=
  ⟨address.map (fun x => OscSender.addressOf x.1 x.2), none, [], [], false, false⟩

def clear (c : Composer) : Composer := { c with slot := none, path := [], pattern := [] }

/-- The message in the slot. -/
def message (c : Composer) : Option Packet := c.slot.map (fun args => .leaf ⟨cStr c.pattern, args⟩)

/-- What `send()` hands over: the outermost bundle if there is one, else the message. -/
def outgoing (c : Composer) : Option Packet := (whole c.path).or c.message

/-- A send that is let through. -/
def ready (c : Composer) : Option (lo_address × Packet) :=
  if c.bundleOpen || c.messageOpen then none
  else match c.address, c.outgoing with
    | some address, some packet => some (address, packet)
    | _, _ => none

def send (c : Composer) : Result :=
  if c.ready.isSome then .returned () c.clear else .threw .SendException c

def beginMessage (c : Composer) (pattern : Str) : Result :=
  if c.messageOpen then .threw .MessageInProgressException c
  else .returned () { c with slot := some [], messageOpen := true, pattern := pattern }

def add (c : Composer) (a : Except Undefined lo_arg) : Result :=
  if !c.messageOpen then .threw .MessageNotInProgressException c
  else match a, c.slot with
    | .error u, _ => .undefined u
    | .ok _, none => .undefined .nullMessage
    | .ok x, some args => .returned () { c with slot := some (args ++ [x]) }

def endMessage (c : Composer) : Result :=
  if !c.messageOpen then .threw .MessageNotInProgressException c
  else if c.bundleOpen then
    match c.path with
    | [] => .undefined .emptyBack
    | f :: fs => .returned () { c with
        path := (c.message.elim f f.add) :: fs
        slot := none
        pattern := []
        messageOpen := false }
  else .returned () { c with messageOpen := false }

def openBundle (c : Composer) (tag : lo_timetag) : Composer :=
  { c with path := ⟨tag, []⟩ :: c.path, bundleOpen := true }

def beginBundle (c : Composer) : Result :=
  if c.bundleOpen then .threw .MessageInProgressException c
  else .returned () (c.openBundle LO_TT_IMMEDIATE)

def beginBundleAt (c : Composer) (tag : TimeTag) : Result :=
  if c.messageOpen then .threw .MessageInProgressException c
  else .returned () (c.openBundle tag.tag)

def endBundle (c : Composer) : Result :=
  if !c.bundleOpen then .threw .BundleNotInProgressException c
  else match c.path with
    | f :: g :: fs => .returned () { c with path := g.add (.node f.label f.closed) :: fs }
    | _ => .returned () { c with bundleOpen := false }

/-- One call. -/
def step [LibloApi] (c : Composer) (op : Op) : Result :=
  match op.direct with
  | .setup address port =>
    .returned () { c with address := some (OscSender.addressOf address port) }
  | .send => c.send
  | .clear => .returned () c.clear
  | .beginMessage addressPattern => c.beginMessage addressPattern
  | .add var => c.add var.arg
  | .endMessage => c.endMessage
  | .beginBundle => c.beginBundle
  | .beginBundleAt tag => c.beginBundleAt tag
  | .endBundle => c.endBundle
  | .stream _ => .undefined .nullText

/-- The packet that a call hands over. -/
def handsOver (c : Composer) (op : Op) : List (lo_address × Packet) :=
  if op.direct = .send then c.ready.toList else []

end Composer

/-! ## The values of a draft -/

/-- An open bundle without its handles. -/
def BundleFrame.values : BundleFrame → OpenBundle :=
  Frame.map (fun l => ⟨l.edge, l.content⟩) NodeAt.label

/-- The draft without its handles. -/
def Draft.composer (d : Draft) : Composer where
  address := d.address
  slot := d.slot.map Prod.snd
  path := d.path.map BundleFrame.values
  pattern := d.pattern
  messageOpen := d.messageOpen
  bundleOpen := d.bundleOpen

theorem composer_message (d : Draft) :
    d.composer.message = d.slotLeaf.map HeldPacket.packet := by
  unfold Composer.message Draft.slotLeaf Draft.composer
  cases d.slot with
  | none => rfl
  | some x => rfl

theorem composer_outgoing (d : Draft) :
    d.composer.outgoing = d.outgoing.map HeldPacket.packet := by
  unfold Composer.outgoing Draft.outgoing
  rw [composer_message]
  have hwhole : whole d.composer.path = (whole d.path).map HeldPacket.packet := whole_map _ _ _
  rw [hwhole]
  cases whole d.path with
  | none => rfl
  | some t => rfl

theorem composer_place (d : Draft) (f : BundleFrame) (fs : List BundleFrame) :
    (d.place f fs).composer = { d.composer with
      path := (d.composer.message.elim (BundleFrame.values f) (BundleFrame.values f).add) ::
        fs.map BundleFrame.values
      slot := none
      pattern := []
      messageOpen := false } := by
  rw [composer_message]
  unfold Draft.place Draft.composer
  cases d.slotLeaf with
  | none => simp
  | some t => simp [BundleFrame.values, Frame.map_add, HeldPacket.packet]

/-- The draft is at the same point as the composer. -/
def Draft.Shows (d : Draft) (c : Composer) : Prop := d.composer = c

theorem shows_composer (d : Draft) : d.Shows d.composer := rfl

theorem composer_ready (d : Draft) : d.composer.ready =
    if d.bundleOpen || d.messageOpen then none
    else match d.address, d.outgoing with
      | some address, some t => some (address, HeldPacket.packet t)
      | _, _ => none := by
  unfold Composer.ready
  rw [composer_outgoing]
  simp only [Draft.composer]
  cases d.address <;> cases d.outgoing <;> rfl

theorem composer_send (d : Draft) : d.send.Matches Draft.Shows d.composer.send := by
  unfold Draft.send Composer.send
  rw [composer_ready]
  cases d.address with
  | none =>
    simp only
    split <;> exact ⟨rfl, rfl⟩
  | some address =>
    simp only
    by_cases hopen : (d.bundleOpen || d.messageOpen) = true
    · rw [if_pos hopen, if_pos hopen]
      exact ⟨rfl, rfl⟩
    · rw [if_neg hopen, if_neg hopen]
      cases d.outgoing with
      | none => exact ⟨rfl, rfl⟩
      | some t => rfl

theorem composer_add (d : Draft) (a : Except Undefined lo_arg) :
    (d.add a).Matches Draft.Shows (d.composer.add a) := by
  unfold Draft.add Composer.add
  apply Outcome.Matches.guard (shows_composer d)
  intro _
  have hslot : d.composer.slot = d.slot.map Prod.snd := rfl
  rw [hslot]
  cases a with
  | error u => rfl
  | ok x => cases d.slot <;> rfl

theorem composer_endMessage (d : Draft) :
    d.endMessage.Matches Draft.Shows d.composer.endMessage := by
  unfold Draft.endMessage Composer.endMessage
  apply Outcome.Matches.guard (shows_composer d)
  intro _
  have hbundle : d.composer.bundleOpen = d.bundleOpen := rfl
  have hpath : d.composer.path = d.path.map BundleFrame.values := rfl
  rw [hbundle, hpath]
  split
  · cases d.path with
    | nil => rfl
    | cons f fs => exact composer_place d f fs
  · rfl

theorem composer_endBundle (d : Draft) :
    d.endBundle.Matches Draft.Shows d.composer.endBundle := by
  unfold Draft.endBundle Composer.endBundle
  apply Outcome.Matches.guard (shows_composer d)
  intro _
  have hpath : d.composer.path = d.path.map BundleFrame.values := rfl
  rw [hpath]
  rcases hp : d.path with _ | ⟨f, _ | ⟨g, fs⟩⟩
  · simp [Outcome.Matches, Draft.Shows, Draft.composer, hp]
  · simp [Outcome.Matches, Draft.Shows, Draft.composer, hp]
  · simp [Outcome.Matches, Draft.Shows, Draft.composer, BundleFrame.values, Frame.add,
      Frame.map]

/-- Each call on a draft ends as on its composer. -/
theorem composer_step [LibloApi] : Simulates Draft.Shows Draft.step Composer.step := by
  rintro d c op rfl
  unfold Draft.step Composer.step
  cases op.direct with
  | setup address port => rfl
  | send => exact composer_send d
  | clear => rfl
  | beginMessage pattern => exact Outcome.Matches.guard (shows_composer d) (fun _ => rfl)
  | add var => exact composer_add d var.arg
  | endMessage => exact composer_endMessage d
  | beginBundle => exact Outcome.Matches.guard (shows_composer d) (fun _ => rfl)
  | beginBundleAt tag => exact Outcome.Matches.guard (shows_composer d) (fun _ => rfl)
  | endBundle => exact composer_endBundle d
  | stream item => rfl

/-! ## The packets -/

/-- The packets of a draft, without handles. -/
def Draft.packets (d : Draft) : List (lo_address × Packet) :=
  d.sent.map (fun x => (x.1, HeldPacket.packet x.2))

/-- A call hands over what its composer says. -/
theorem draft_packets [LibloApi] (d : Draft) (op : Op) :
    ((d.step op).state?.getD d).packets = d.packets ++ d.composer.handsOver op := by
  unfold Composer.handsOver
  rw [composer_ready]
  have hends := d.step_ends op
  generalize d.step op = o at hends ⊢
  generalize op.direct = op at hends ⊢
  cases hends with
  | send ha hb hm ht => simp [Draft.packets, ha, hb, hm, ht]
  | sendThrows hrefused =>
    rcases hrefused with ha | hb | hm | ht
    · simp [ha]
    · simp [hb]
    · simp [hm]
    · simp [ht]
  | _ => simp [Draft.packets, Draft.setup, Draft.clear, Draft.place, Draft.openBundle]

/-! ## The sender and its composer -/

/-- The sender, with its cells, is at the same point as the composer. -/
def Composes (w : World) (c : Composer) : Prop := ∃ d, Refines w d ∧ d.Shows c

theorem step_composes [LibloApi] : Simulates Composes step Composer.step := by
  rintro w c op ⟨d, hd, hc⟩
  have hm := step_refines w d op hd
  have hv := composer_step d c op hc
  exact hm.comp hv

theorem draft_constructed_shows [LibloApi] (address : Option (Str × UInt32)) :
    (Draft.constructed address).Shows (Composer.constructed address) := by
  rcases address with _ | ⟨address, port⟩
  · rfl
  · rfl

theorem constructed.composes [LibloApi] (address : Option (Str × UInt32)) :
    Composes (constructed address) (Composer.constructed address) :=
  ⟨Draft.constructed address, constructed.refines address, draft_constructed_shows address⟩

theorem Composes.packets [LibloApi] {w : World} {c : Composer} (h : Composes w c) (op : Op) :
    packets ((step w op).state?.getD w) = packets w ++ c.handsOver op := by
  obtain ⟨d, hd, rfl⟩ := h
  have hafter := (step_refines w d op hd).after hd
  have hpackets := draft_packets d op
  unfold osc.packets
  rw [hd.sent, hafter.sent]
  exact hpackets

/-- The sender with its cells is a composer of values. In every run each call ends as it ends for
the composer, with the same exception or the same undefined behaviour, and the packets that liblo
gets are those that the composer hands over, in this order. -/
theorem every_run_is_a_composition [LibloApi] (address : Option (Str × UInt32)) (ops : List Op) :
    let r := run step (constructed address) ops
    let k := run Composer.step (Composer.constructed address) ops
    r.trace.map (fun c => c.outcome.ending) = k.trace.map (fun c => c.outcome.ending) ∧
      packets r.state = k.trace.reverse.flatMap (fun c => c.before.handsOver c.op) := by
  have hstart := constructed.composes address
  obtain ⟨_, _, htrace⟩ := run_agrees step step_composes hstart ops
  have hempty : packets (constructed address) = [] := by
    rcases address with _ | ⟨address, port⟩
    · rfl
    · rfl
  have hpackets := run_outputs step step_composes (fun w c op h => h.packets op) hstart ops
  rw [hempty, List.nil_append] at hpackets
  refine ⟨map_eq_of_forall₂ (fun c k hagrees => ?_) htrace, hpackets⟩
  exact (hagrees.outcome step step_composes).ending_eq

end osc
