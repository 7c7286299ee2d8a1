-- The way back to an idle sender. Whatever was begun, and also after a `clear()` in the
-- middle of a packet, a program can end it, catch what is thrown and start again.
import Lopack.DraftCalls
import Lopack.PacketStream

open calls rose

namespace osc

/-- End the bundles, then the message, and drop what is left. -/
def recovery (n : Nat) : List Op := List.replicate n .endBundle ++ [.endMessage, .clear]

/-- `n` calls of `endBundle()` close every bundle. One is needed for a flag without a bundle. -/
def Draft.ClosedBy (d : Draft) (n : Nat) : Prop :=
  d.bundleOpen = true → d.path.length ≤ n ∧ 0 < n

/-- The address and what was sent are as before. -/
structure Draft.SameMail (d d' : Draft) : Prop where
  address : d'.address = d.address
  sent : d'.sent = d.sent

theorem Draft.SameMail.trans {d d1 d2 : Draft} (h : d.SameMail d1) (h' : d1.SameMail d2) :
    d.SameMail d2 :=
  ⟨h'.address.trans h.address, h'.sent.trans h.sent⟩

/-! ## Each call -/

section Calls

variable [LibloApi]

theorem Draft.ClosedBy.endBundle {d : Draft} {n : Nat} (h : d.ClosedBy (n + 1)) :
    ∃ d', (d.step .endBundle).state? = some d' ∧ d'.ClosedBy n ∧ d.SameMail d' := by
  have hends := d.step_ends .endBundle
  generalize d.step .endBundle = o at hends ⊢
  cases hends with
  | @endInner f g fs hb hp =>
    refine ⟨_, rfl, fun _ => ?_, rfl, rfl⟩
    have hlength := (h hb).1
    simp only [hp, List.length_cons] at hlength ⊢
    omega
  | endRoot hb hp => exact ⟨_, rfl, (fun hopen => by cases hopen), rfl, rfl⟩
  | endBundleThrows hb =>
    refine ⟨d, rfl, fun hopen => ?_, rfl, rfl⟩
    rw [hb] at hopen
    cases hopen

/-- With no bundle open there is no bundle that the message goes into. -/
theorem endMessage_down {d : Draft} (h : d.bundleOpen = false) :
    ∃ d', (d.step .endMessage).state? = some d' ∧
      (d'.bundleOpen = false ∧ d'.messageOpen = false) ∧ d.SameMail d' := by
  have hends := d.step_ends .endMessage
  generalize d.step .endMessage = o at hends ⊢
  cases hends with
  | endInBundle hm hb hp =>
    rw [h] at hb
    cases hb
  | endNoBundle hm hb hp =>
    rw [h] at hb
    cases hb
  | endAlone hm hb => exact ⟨_, rfl, ⟨hb, rfl⟩, rfl, rfl⟩
  | endMessageThrows hm => exact ⟨d, rfl, ⟨h, hm⟩, rfl, rfl⟩

/-! ## The whole recovery -/

/-- A run of drafts. -/
abbrev DraftRun := Run OscException Undefined Draft Op

theorem call_of_state {r : DraftRun} (he : r.ended = false) {op : Op} {d : Draft}
    (h : (r.state.step op).state? = some d) :
    (r.call Draft.step op).ended = false ∧ (r.call Draft.step op).state = d := by
  rw [Run.call_of_open _ he, h]
  exact ⟨rfl, rfl⟩

theorem endBundles_down (n : Nat) {r : DraftRun} (he : r.ended = false)
    (h : r.state.ClosedBy n) :
    ∃ r', (List.replicate n Op.endBundle).foldl (Run.call Draft.step) r = r' ∧
      r'.ended = false ∧ r'.state.bundleOpen = false ∧ r.state.SameMail r'.state := by
  induction n generalizing r with
  | zero =>
    refine ⟨r, rfl, he, ?_, rfl, rfl⟩
    by_contra hopen
    exact absurd (h (Bool.not_eq_false _ ▸ hopen)).2 (lt_irrefl 0)
  | succ n ih =>
    obtain ⟨d, hd, hclosed, hmail⟩ := h.endBundle
    obtain ⟨he1, hd1⟩ := call_of_state he hd
    obtain ⟨r', hr', he', hdown, hmail'⟩ := ih he1 (hd1 ▸ hclosed)
    refine ⟨r', ?_, he', hdown, hmail.trans (hd1 ▸ hmail')⟩
    rw [List.replicate_succ, List.foldl_cons, hr']

theorem recovery_idle {n : Nat} {r : DraftRun} (he : r.ended = false) (h : r.state.ClosedBy n) :
    ∃ r', (recovery n).foldl (Run.call Draft.step) r = r' ∧ r'.ended = false ∧
      r'.state.members = { OscSender.new with m_address := r.state.address } ∧
      r'.state.sent = r.state.sent := by
  obtain ⟨r1, hr1, he1, hdown, hmail1⟩ := endBundles_down n he h
  obtain ⟨d2, hd2, ⟨hbundle, hmessage⟩, hmail2⟩ := endMessage_down hdown
  obtain ⟨he2, hs2⟩ := call_of_state he1 hd2
  have hclear : ((r1.call Draft.step .endMessage).state.step .clear).state? = some d2.clear := by
    rw [hs2]
    rfl
  obtain ⟨he3, hs3⟩ := call_of_state he2 hclear
  refine ⟨_, rfl, ?_⟩
  unfold recovery
  rw [List.foldl_append, hr1, List.foldl_cons, List.foldl_cons, List.foldl_nil, hs3]
  obtain ⟨haddress, hsent⟩ := hmail1.trans hmail2
  refine ⟨he3, ?_, hsent⟩
  simp [Draft.members, Draft.clear, OscSender.new, hbundle, hmessage, haddress]

end Calls

/-- A sender can always be reset. After every run of defined calls, `endBundle()` as often as there
are bundles on the stack and at least once, `endMessage()` and `clear()`, with their exceptions
caught, are all defined and leave a sender as new, with its address and with nothing more sent.
From there every list of packets with no empty blob is sent as written. -/
theorem a_sender_can_always_be_reset [LibloApi] (address : Option (Str × UInt32)) (ops : List Op)
    (hdefined : (run step (constructed address) ops).ended = false) (n : Nat)
    (hn : (run step (constructed address) ops).state.sender.m_bundles.length ≤ n) (hpos : 0 < n) :
    let r := run step (constructed address) ops
    let r' := run step (constructed address) (ops ++ recovery n)
    r'.ended = false ∧
      r'.state.sender = { OscSender.new with m_address := r.state.sender.m_address } ∧
      packets r'.state = packets r.state ∧
      ∀ target ps, r.state.sender.m_address = some target → (∀ p ∈ ps, Packet.Writable p) →
        ∃ w, perform step (transmit ps) r'.state = .returned () w ∧
          packets w = packets r.state ++ ps.map (fun p => (target, p)) := by
  intro r r'
  obtain ⟨hd, he, _⟩ := run_agrees step step_refines (constructed.refines address) ops
  obtain ⟨hd', he', _⟩ :=
    run_agrees step step_refines (constructed.refines address) (ops ++ recovery n)
  rw [hdefined] at he
  have hclosed : (run Draft.step (Draft.constructed address) ops).state.ClosedBy n := by
    intro _
    rw [hd.members] at hn
    exact ⟨by simpa [Draft.members] using hn, hpos⟩
  obtain ⟨rd, hrd, hrde, hidle, hsent⟩ := recovery_idle he.symm hclosed
  rw [run_append Draft.step, hrd] at hd' he'
  have hmembers : r'.state.sender =
      { OscSender.new with m_address := r.state.sender.m_address } := by
    rw [hd'.members, hidle, hd.members]
    rfl
  have hpackets : packets r'.state = packets r.state := by
    unfold packets
    rw [hd'.sent, hd.sent, hsent]
  refine ⟨he'.trans hrde, hmembers, hpackets, fun target ps htarget hps => ?_⟩
  obtain ⟨w, hw, _, hp⟩ := transmit_all (hmembers.trans (by rw [htarget]; rfl)) hps
  exact ⟨w, hw, by rw [hp, hpackets]⟩

/-- After a `clear()` in the middle of a bundle both flags are up with nothing behind them. The
sender is reset, and a packet can be sent. -/
theorem a_sender_cleared_in_a_bundle_is_reset :
    let ops : List Op := [.beginBundle, .beginMessage [47, 97], .clear]
    let r := run step (constructed (some ([104], 9990))) ops
    let r' := run step (constructed (some ([104], 9990))) (ops ++ recovery 1)
    (r.state.sender.m_bundleInProgress = true ∧ r.state.sender.m_messageInProgress = true ∧
        r.state.sender.m_bundles = []) ∧
      r'.state.sender = idleMembers (OscSender.addressOf [104] 9990) ∧
      ∃ w, perform step (transmit [nestedBundle]) r'.state = .returned () w ∧
        packets w = [(OscSender.addressOf [104] 9990, nestedBundle)] := by
  intro ops r r'
  obtain ⟨_, hreset, _, hsends⟩ := a_sender_can_always_be_reset (some ([104], 9990))
    [.beginBundle, .beginMessage [47, 97], .clear] rfl 1 (by decide) (by decide)
  exact ⟨⟨rfl, rfl, rfl⟩, hreset, hsends _ [nestedBundle] rfl (by decide +kernel)⟩

end osc
