-- A call of the sender that throws leaves no trace: every method checks its
-- guards before it writes a member or hands anything to liblo.
import Lopack.PacketStream

open calls rose linked store

namespace osc

/-! ## The calls into liblo do not throw -/

theorem noThrow_onLo {α : Type} (x : LoCall α) : (onLo x).NoThrow := noThrow_within _ _ x

theorem noThrow_setMembers (f : OscSender → OscSender) : (setMembers f).NoThrow :=
  noThrow_update _

/-! ## The methods -/

theorem noThrow_clear [LibloApi] : OscSender.clear.NoThrow := by
  refine noThrow_read.bind (fun w => ?_)
  cases w.sender.m_bundles with
  | cons front rest =>
    exact (noThrow_onLo _).bind (fun _ => (noThrow_setMembers _).bind (fun _ =>
      noThrow_setMembers _))
  | nil =>
    cases w.sender.m_message with
    | some m => exact (noThrow_onLo _).bind (fun _ => noThrow_setMembers _)
    | none => exact noThrow_setMembers _

theorem noThrow_openBundle [LibloApi] (tag : lo_timetag) : (OscSender.openBundle tag).NoThrow := by
  refine noThrow_read.bind (fun w => (noThrow_onLo _).bind (fun b => ?_))
  cases w.sender.m_bundles.getLast? with
  | some back => exact (noThrow_onLo _).bind (fun _ => noThrow_setMembers _)
  | none => exact noThrow_setMembers _

theorem rejects_send [LibloApi] : OscSender.send.Rejects := by
  refine rejects_read (fun w => ?_)
  cases w.sender.m_address with
  | none => exact rejects_raise _
  | some address =>
    refine rejects_ite (rejects_raise _) ?_
    cases w.sender.m_bundles with
    | cons front rest => exact ((noThrow_onLo _).bind (fun _ => noThrow_clear)).rejects
    | nil =>
      cases w.sender.m_message with
      | none =>
        intro w e w' h
        cases h
        rfl
      | some m => exact ((noThrow_onLo _).bind (fun _ => noThrow_clear)).rejects

theorem rejects_beginMessage [LibloApi] (addressPattern : Str) :
    (OscSender.beginMessage addressPattern).Rejects := by
  refine rejects_read (fun w => rejects_ite (rejects_raise _) ?_)
  exact ((noThrow_onLo _).bind (fun m => noThrow_setMembers _)).rejects

theorem rejects_add [LibloApi] (var : Add) : var.method.Rejects := by
  rw [Add.method_eq]
  refine rejects_read (fun w => rejects_ite (rejects_raise _) ?_)
  exact (noThrow_onLo _).rejects

theorem rejects_endMessage [LibloApi] : OscSender.endMessage.Rejects := by
  refine rejects_read (fun w => rejects_ite (rejects_raise _) ?_)
  refine rejects_ite ?_ (noThrow_setMembers _).rejects
  cases w.sender.m_bundles.getLast? with
  | none => exact ((noThrow_undefinedBy _).bind (fun _ => noThrow_setMembers _)).rejects
  | some back =>
    exact ((noThrow_onLo _).bind (fun _ =>
      (noThrow_setMembers _).bind (fun _ => noThrow_setMembers _))).rejects

theorem rejects_endBundle : OscSender.endBundle.Rejects :=
  rejects_read (fun _ => rejects_ite (rejects_raise _)
    (rejects_ite (noThrow_setMembers _).rejects (noThrow_setMembers _).rejects))

theorem rejects_beginBundle [LibloApi] : OscSender.beginBundle.Rejects :=
  rejects_read (fun _ => rejects_ite (rejects_raise _) (noThrow_openBundle _).rejects)

theorem rejects_beginBundleAt [LibloApi] (tag : TimeTag) : (OscSender.beginBundleAt tag).Rejects :=
  rejects_read (fun _ => rejects_ite (rejects_raise _) (noThrow_openBundle _).rejects)

/-- Every call, also through a stream, leaves the sender and liblo as they were when it
throws. -/
theorem step_rejects [LibloApi] (w : World) (op : Op) (e : OscException) (w' : World)
    (h : step w op = .threw e w') : w' = w := by
  rw [step_direct] at h
  cases hop : op.direct with
  | setup address port => rw [hop] at h; cases h
  | send => rw [hop] at h; exact rejects_send w e w' h
  | clear => rw [hop] at h; exact noThrow_clear.rejects w e w' h
  | beginMessage addressPattern => rw [hop] at h; exact rejects_beginMessage _ w e w' h
  | add var => rw [hop] at h; exact rejects_add var w e w' h
  | endMessage => rw [hop] at h; exact rejects_endMessage w e w' h
  | beginBundle => rw [hop] at h; exact rejects_beginBundle w e w' h
  | beginBundleAt tag => rw [hop] at h; exact rejects_beginBundleAt tag w e w' h
  | endBundle => rw [hop] at h; exact rejects_endBundle w e w' h
  | stream item => rw [hop, direct_stream hop] at h; cases h

/-- A call that throws leaves the sender as it was. -/
theorem threw_of_matches [LibloApi] {w : World} {op : Op} {e : OscException} {d : Draft}
    (hm : (step w op).Matches Refines (.threw e d)) : step w op = .threw e w := by
  cases ho : step w op with
  | returned a w' => rw [ho] at hm; exact hm.elim
  | threw e' w' =>
    rw [ho] at hm
    rw [step_rejects w op e' w' ho, hm.1]
  | undefined u => rw [ho] at hm; exact hm.elim

/-- Failed calls leave no trace. A call that throws changes no member, no message and no
bundle, and hands nothing over. So in every run with the exceptions caught, the calls that
throw can be left out: the run ends in the same state with the same packets sent, and it ends
by undefined behaviour in the same cases. -/
theorem failed_calls_leave_no_trace [LibloApi] (address : Option (Str × UInt32)) (ops : List Op) :
    (∀ w op e w', step w op = .threw e w' → w' = w) ∧
      (let w := constructed address
       (run step w (kept step ops w)).state = (run step w ops).state ∧
        packets (run step w (kept step ops w)).state = packets (run step w ops).state ∧
        (run step w (kept step ops w)).ended = (run step w ops).ended) := by
  refine ⟨step_rejects, ?_⟩
  obtain ⟨hstate, hended⟩ := run_kept step step_rejects ops (constructed address)
  exact ⟨hstate, by rw [hstate], hended⟩

end osc
