-- Runs of an object: any list of calls, with every exception caught by the
-- caller. A call with no defined behaviour ends the run.
import Mathlib.Data.List.Basic
import Mathlib.Data.List.Forall2
import Mathlib.Data.List.Infix
import Lopack.Calls

namespace calls

variable {ε υ σ τ ο : Type}

/-! ## Runs -/

/-- One call of a run: the state it found, the operation and how it ended. -/
structure Call (ε υ σ ο : Type) where
  before : σ
  op : ο
  outcome : Outcome ε υ σ Unit

/-- The state after a call. A call with no defined behaviour has none, so the
state before it stands here. -/
def Call.after (c : Call ε υ σ ο) : σ := c.outcome.state?.getD c.before

/-- A run so far: its trace of calls, newest first, and the last state it defined. -/
structure Run (ε υ σ ο : Type) where
  trace : List (Call ε υ σ ο)
  state : σ
  ended : Bool

/-- One more call. A run that has ended takes no more calls. -/
def Run.call (step : σ → ο → Outcome ε υ σ Unit) (r : Run ε υ σ ο) (op : ο) : Run ε υ σ ο :=
  if r.ended then r else
    { trace := ⟨r.state, op, step r.state op⟩ :: r.trace
      state := (step r.state op).state?.getD r.state
      ended := (step r.state op).state?.isNone }

def run (step : σ → ο → Outcome ε υ σ Unit) (s : σ) (ops : List ο) : Run ε υ σ ο :=
  ops.foldl (Run.call step) ⟨[], s, false⟩

variable (step : σ → ο → Outcome ε υ σ Unit)

@[simp] theorem run_nil (s : σ) : run step s [] = ⟨[], s, false⟩ := rfl

theorem run_snoc (s : σ) (ops : List ο) (op : ο) :
    run step s (ops ++ [op]) = (run step s ops).call step op := by
  simp [run]

theorem run_append (s : σ) (ops more : List ο) :
    run step s (ops ++ more) = more.foldl (Run.call step) (run step s ops) := by
  simp [run]

theorem Run.call_of_ended {r : Run ε υ σ ο} (h : r.ended = true) (op : ο) :
    r.call step op = r := by
  simp [Run.call, h]

theorem Run.call_of_open {r : Run ε υ σ ο} (h : r.ended = false) (op : ο) :
    r.call step op = ⟨⟨r.state, op, step r.state op⟩ :: r.trace,
      (step r.state op).state?.getD r.state, (step r.state op).state?.isNone⟩ := by
  simp [Run.call, h]

theorem foldl_call_of_ended {r : Run ε υ σ ο} (h : r.ended = true) (ops : List ο) :
    ops.foldl (Run.call step) r = r := by
  induction ops with
  | nil => rfl
  | cons op ops ih => rw [List.foldl_cons, Run.call_of_ended step h, ih]

/-- The calls of a trace with one more call, each with the calls before it. -/
theorem forall_suffix_cons {α : Type} {C : List α → α → Prop} {a : α} {as : List α} :
    (∀ c earlier, c :: earlier <:+ a :: as → C earlier c) ↔
      C as a ∧ ∀ c earlier, c :: earlier <:+ as → C earlier c := by
  simp only [List.suffix_cons_iff, List.cons.injEq]
  constructor
  · intro h
    exact ⟨h a as (.inl ⟨rfl, rfl⟩), fun c earlier hc => h c earlier (.inr hc)⟩
  · rintro ⟨h1, h2⟩ c earlier (⟨rfl, rfl⟩ | hc)
    · exact h1
    · exact h2 c earlier hc

theorem forall_suffix_iff {α : Type} {C : α → Prop} {as : List α} :
    (∀ c earlier, c :: earlier <:+ as → C c) ↔ ∀ c ∈ as, C c := by
  induction as with
  | nil => simp
  | cons a as ih => rw [forall_suffix_cons (C := fun _ c => C c), ih, List.forall_mem_cons]

/-- What holds at the start and is kept by each call holds after every run. -/
theorem run_induction {P : Run ε υ σ ο → Prop} {s : σ} (h0 : P ⟨[], s, false⟩)
    (hs : ∀ r op, r.ended = false → P r → P (r.call step op)) (ops : List ο) :
    P (run step s ops) := by
  induction ops using List.reverseRecOn with
  | nil => exact h0
  | append_singleton ops op ih =>
    rw [run_snoc]
    cases he : (run step s ops).ended with
    | true => rw [Run.call_of_ended step he]; exact ih
    | false => exact hs _ op he ih

/-- A property of states that each call keeps holds in every state of every run. -/
theorem run_invariant {I : σ → Prop} {s : σ} (h0 : I s)
    (hs : ∀ s op s', I s → (step s op).state? = some s' → I s') (ops : List ο) :
    I (run step s ops).state := by
  apply run_induction step (P := fun r => I r.state) h0
  intro r op he ih
  rw [Run.call_of_open step he]
  cases ho : (step r.state op).state? with
  | none => simpa [ho] using ih
  | some s' => simpa [ho] using hs _ _ _ ih ho

/-- When each call, after a run that was good so far, is good exactly when it meets `C`, then a run
is good at every point exactly when each of its calls meets `C`. Here `C` sees the calls before
the call too. -/
theorem always_iff_history {P : Run ε υ σ ο → Prop}
    {C : List (Call ε υ σ ο) → Call ε υ σ ο → Prop} {s : σ} (h0 : P ⟨[], s, false⟩) (ops : List ο)
    (hs : ∀ before op, before ++ [op] <+: ops → (run step s before).ended = false →
      (∀ q, q <+: before → P (run step s q)) →
      (∀ c earlier, c :: earlier <:+ (run step s before).trace → C earlier c) →
      (P ((run step s before).call step op) ↔ C (run step s before).trace
        ⟨(run step s before).state, op, step (run step s before).state op⟩)) :
    (∀ q, q <+: ops → P (run step s q)) ↔
      ∀ c earlier, c :: earlier <:+ (run step s ops).trace → C earlier c := by
  induction ops using List.reverseRecOn with
  | nil => simpa using h0
  | append_singleton ops op ih =>
    have ih := ih (fun before op' hop' => hs before op' (hop'.trans (List.prefix_append _ _)))
    have hs := hs ops op (List.prefix_refl _)
    have hsplit : (∀ q, q <+: ops ++ [op] → P (run step s q)) ↔
        P (run step s (ops ++ [op])) ∧ ∀ q, q <+: ops → P (run step s q) := by
      constructor
      · intro h
        exact ⟨h _ (List.prefix_refl _), fun q hq => h q (hq.trans (List.prefix_append _ _))⟩
      · rintro ⟨h1, h2⟩ q hq
        rcases List.prefix_concat_iff.mp hq with rfl | hq
        · exact h1
        · exact h2 q hq
    rw [hsplit, run_snoc]
    cases he : (run step s ops).ended with
    | true =>
      rw [Run.call_of_ended step he, ih]
      exact ⟨And.right, fun h => ⟨ih.mpr h ops (List.prefix_refl _), h⟩⟩
    | false =>
      have htrace : ((run step s ops).call step op).trace =
          ⟨(run step s ops).state, op, step (run step s ops).state op⟩ ::
            (run step s ops).trace := by
        rw [Run.call_of_open step he]
      rw [htrace, forall_suffix_cons]
      constructor
      · rintro ⟨h1, h2⟩
        exact ⟨(hs he h2 (ih.mp h2)).mp h1, ih.mp h2⟩
      · rintro ⟨h1, h2⟩
        exact ⟨(hs he (ih.mpr h2) h2).mpr h1, ih.mpr h2⟩

/-- The same where `C` sees only the call. -/
theorem always_iff {P : Run ε υ σ ο → Prop} {C : Call ε υ σ ο → Prop} {s : σ}
    (h0 : P ⟨[], s, false⟩)
    (hs : ∀ ops op, (run step s ops).ended = false → (∀ q, q <+: ops → P (run step s q)) →
      (∀ c ∈ (run step s ops).trace, C c) →
      (P ((run step s ops).call step op) ↔
        C ⟨(run step s ops).state, op, step (run step s ops).state op⟩))
    (ops : List ο) :
    (∀ q, q <+: ops → P (run step s q)) ↔ ∀ c ∈ (run step s ops).trace, C c := by
  rw [← forall_suffix_iff]
  apply always_iff_history step h0
  intro before op _ he hP hC
  exact hs before op he hP (forall_suffix_iff.mp hC)

/-! ## A list of calls with no exception caught -/

/-- The calls one after the other, up to the first that does not return. -/
def perform : List ο → σ → Outcome ε υ σ Unit
  | [], s => .returned () s
  | op :: ops, s => match step s op with
    | .returned _ s' => perform ops s'
    | o => o

@[simp] theorem perform_nil (s : σ) : perform step [] s = .returned () s := rfl

theorem perform_cons {s s' : σ} {op : ο} (ops : List ο) (h : step s op = .returned () s') :
    perform step (op :: ops) s = perform step ops s' := by
  simp [perform, h]

theorem perform_append {s s' : σ} {ops : List ο} (more : List ο)
    (h : perform step ops s = .returned () s') :
    perform step (ops ++ more) s = perform step more s' := by
  induction ops generalizing s with
  | nil => cases h; rfl
  | cons op ops ih =>
    unfold perform at h
    cases ho : step s op with
    | returned a s1 =>
      simp only [ho] at h
      rw [List.cons_append, perform_cons step _ ho]
      exact ih h
    | threw e s1 => simp [ho] at h
    | undefined u => simp [ho] at h

/-- Calls that mean the same one by one mean the same in a row. -/
theorem perform_map_congr {f : ο → ο} (hf : ∀ s op, step s op = step s (f op)) (ops : List ο)
    (s : σ) : perform step (ops.map f) s = perform step ops s := by
  induction ops generalizing s with
  | nil => rfl
  | cons op ops ih =>
    simp only [List.map_cons, perform, ← hf]
    cases step s op with
    | returned a s1 => exact ih s1
    | threw e s1 => rfl
    | undefined u => rfl

/-- Calls that all return are a run. -/
theorem run_append_of_perform {s s' s'' : σ} {ops more : List ο}
    (hops : (run step s ops).ended = false) (hs' : (run step s ops).state = s')
    (h : perform step more s' = .returned () s'') :
    (run step s (ops ++ more)).state = s'' ∧ (run step s (ops ++ more)).ended = false := by
  induction more generalizing ops s' with
  | nil =>
    cases h
    rw [List.append_nil]
    exact ⟨hs', hops⟩
  | cons op more ih =>
    unfold perform at h
    cases ho : step s' op with
    | returned a s1 =>
      simp only [ho] at h
      have hcall : (run step s (ops ++ [op])).state = s1 ∧
          (run step s (ops ++ [op])).ended = false := by
        rw [run_snoc, Run.call_of_open step hops, hs', ho]
        exact ⟨rfl, rfl⟩
      have hsplit : ops ++ op :: more = (ops ++ [op]) ++ more := by simp
      rw [hsplit]
      exact ih hcall.2 hcall.1 h
    | threw e s1 => simp [ho] at h
    | undefined u => simp [ho] at h

/-- A simulation carries a list of calls that all return. -/
theorem perform_simulates {R : σ → τ → Prop} {spec : τ → ο → Outcome ε υ τ Unit}
    (hsim : Simulates R step spec) {s : σ} {t t' : τ} (hR : R s t) {ops : List ο}
    (h : perform spec ops t = .returned () t') :
    ∃ s', perform step ops s = .returned () s' ∧ R s' t' := by
  induction ops generalizing s t with
  | nil => cases h; exact ⟨s, rfl, hR⟩
  | cons op ops ih =>
    have hm := hsim s t op hR
    unfold perform at h
    cases hp : spec t op with
    | returned a t1 =>
      rw [hp] at hm
      simp only [hp] at h
      obtain ⟨s1, ho, h1⟩ := hm.of_returned
      obtain ⟨s', hs', hR'⟩ := ih h1 h
      exact ⟨s', by rw [perform_cons step ops ho, hs'], hR'⟩
    | threw e t1 => simp [hp] at h
    | undefined u => simp [hp] at h

/-- A simulation relates every state of a run to a state of the model. -/
theorem run_simulates {R : σ → τ → Prop} {spec : τ → ο → Outcome ε υ τ Unit}
    (hsim : Simulates R step spec) {s : σ} {t : τ} (hR : R s t) (ops : List ο) :
    ∃ t', R (run step s ops).state t' := by
  apply run_invariant step (I := fun s => ∃ t, R s t) ⟨t, hR⟩
  rintro s1 op s2 ⟨t1, h1⟩ hs2
  obtain ⟨t2, _, h2⟩ := (hsim s1 t1 op h1).of_state hs2
  exact ⟨t2, h2⟩

/-- The same call on an object and on its model. -/
structure Call.Agrees (R : σ → τ → Prop) (step : σ → ο → Outcome ε υ σ Unit)
    (spec : τ → ο → Outcome ε υ τ Unit) (c : Call ε υ σ ο) (k : Call ε υ τ ο) : Prop where
  op : c.op = k.op
  before : R c.before k.before
  made : c.outcome = step c.before c.op
  model : k.outcome = spec k.before k.op

theorem Call.Agrees.outcome {R : σ → τ → Prop} {spec : τ → ο → Outcome ε υ τ Unit}
    (hsim : Simulates R step spec) {c : Call ε υ σ ο} {k : Call ε υ τ ο}
    (h : c.Agrees R step spec k) : c.outcome.Matches R k.outcome := by
  rw [h.made, h.model, h.op]
  exact hsim _ _ _ h.before

/-- A simulation makes the same calls in the model. -/
theorem run_agrees {R : σ → τ → Prop} {spec : τ → ο → Outcome ε υ τ Unit}
    (hsim : Simulates R step spec) {s : σ} {t : τ} (hR : R s t) (ops : List ο) :
    R (run step s ops).state (run spec t ops).state ∧
      (run step s ops).ended = (run spec t ops).ended ∧
      List.Forall₂ (Call.Agrees R step spec) (run step s ops).trace (run spec t ops).trace := by
  induction ops using List.reverseRecOn with
  | nil => exact ⟨hR, rfl, .nil⟩
  | append_singleton ops op ih =>
    obtain ⟨hstate, hended, htrace⟩ := ih
    rw [run_snoc, run_snoc]
    cases he : (run step s ops).ended with
    | true =>
      rw [Run.call_of_ended step he, Run.call_of_ended spec (hended.symm.trans he)]
      exact ⟨hstate, hended, htrace⟩
    | false =>
      have hm := hsim _ _ op hstate
      rw [Run.call_of_open step he, Run.call_of_open spec (hended.symm.trans he)]
      refine ⟨hm.after hstate, ?_, .cons ⟨rfl, hstate, rfl, rfl⟩ htrace⟩
      cases ho : (step (run step s ops).state op).state? with
      | none =>
        rw [hm.state_none ho]
        rfl
      | some s' =>
        obtain ⟨t', ht', _⟩ := hm.of_state ho
        rw [ht']
        rfl

/-- What the calls of a run put out, one after the other, is what the calls of the model give. -/
theorem run_outputs {γ : Type} {R : σ → τ → Prop} {spec : τ → ο → Outcome ε υ τ Unit}
    (hsim : Simulates R step spec) {out : σ → List γ} {gives : τ → ο → List γ}
    (hout : ∀ s t op, R s t → out ((step s op).state?.getD s) = out s ++ gives t op)
    {s : σ} {t : τ} (hR : R s t) (ops : List ο) :
    out (run step s ops).state =
      out s ++ (run spec t ops).trace.reverse.flatMap (fun k => gives k.before k.op) := by
  induction ops using List.reverseRecOn with
  | nil => simp
  | append_singleton ops op ih =>
    obtain ⟨hstate, hended, _⟩ := run_agrees step hsim hR ops
    rw [run_snoc, run_snoc]
    cases he : (run step s ops).ended with
    | true =>
      rw [Run.call_of_ended step he, Run.call_of_ended spec (hended.symm.trans he)]
      exact ih
    | false =>
      rw [Run.call_of_open step he, Run.call_of_open spec (hended.symm.trans he)]
      simp only [List.reverse_cons, List.flatMap_append, List.flatMap_singleton]
      rw [hout _ _ op hstate, ih, List.append_assoc]

/-- What is seen of two calls that agree is the same, so what is seen of the two runs is. -/
theorem map_eq_of_forall₂ {α β γ : Type} {P : α → β → Prop} {f : α → γ} {g : β → γ}
    (hfg : ∀ a b, P a b → f a = g b) {as : List α} {bs : List β} (h : List.Forall₂ P as bs) :
    as.map f = bs.map g := by
  rw [← List.forall₂_eq_eq_eq, List.forall₂_map_left_iff, List.forall₂_map_right_iff]
  exact h.imp (fun a b hab => hfg a b hab)

/-- What a run has done so far, told by its trace, agrees with the model when each call keeps
this agreement. Only calls that meet `C` are made. -/
theorem run_history {R : σ → τ → Prop} {spec : τ → ο → Outcome ε υ τ Unit}
    (hsim : Simulates R step spec) {H : List (Call ε υ σ ο) → τ → Prop} {C : Call ε υ σ ο → Prop}
    {s : σ} {t : τ} (hR : R s t) (h0 : H [] t)
    (hs : ∀ c t trace, R c.before t → c.outcome.Matches R (spec t c.op) → C c → H trace t →
      H (c :: trace) ((spec t c.op).state?.getD t))
    (ops : List ο) (hC : ∀ c ∈ (run step s ops).trace, C c) :
    ∃ t', R (run step s ops).state t' ∧ H (run step s ops).trace t' := by
  revert hC
  apply run_induction step (P := fun r => (∀ c ∈ r.trace, C c) →
    ∃ t', R r.state t' ∧ H r.trace t') (fun _ => ⟨t, hR, h0⟩)
  intro r op he ih hC
  rw [Run.call_of_open step he] at hC ⊢
  rw [List.forall_mem_cons] at hC
  obtain ⟨t1, hR1, hH1⟩ := ih hC.2
  have hm := hsim r.state t1 op hR1
  exact ⟨(spec t1 op).state?.getD t1, hm.after hR1, hs _ t1 _ hR1 hm hC.1 hH1⟩

/-! ## Calls in the place of others -/

theorem trace_suffix (r : Run ε υ σ ο) (ops : List ο) :
    r.trace <:+ (ops.foldl (Run.call step) r).trace := by
  induction ops generalizing r with
  | nil => exact List.suffix_refl _
  | cons op ops ih =>
    refine List.IsSuffix.trans ?_ (ih (r.call step op))
    unfold Run.call
    split
    · exact List.suffix_refl _
    · exact List.suffix_cons _ _

theorem trace_suffix_of_prefix {q ops : List ο} (h : q <+: ops) (s : σ) :
    (run step s q).trace <:+ (run step s ops).trace := by
  obtain ⟨more, rfl⟩ := h
  rw [run_append]
  exact trace_suffix step _ more

/-- Every call of a run was made in the state that the operations before it reached. -/
theorem mem_trace {s : σ} {ops : List ο} {c : Call ε υ σ ο} (h : c ∈ (run step s ops).trace) :
    ∃ q op rest, ops = q ++ op :: rest ∧ (run step s q).ended = false ∧
      c = ⟨(run step s q).state, op, step (run step s q).state op⟩ := by
  induction ops using List.reverseRecOn with
  | nil => simp at h
  | append_singleton ops op ih =>
    have hbefore : c ∈ (run step s ops).trace → ∃ q op' rest, ops ++ [op] = q ++ op' :: rest ∧
        (run step s q).ended = false ∧
        c = ⟨(run step s q).state, op', step (run step s q).state op'⟩ := by
      intro hc
      obtain ⟨q, op', rest, hops, hopen, hcall⟩ := ih hc
      exact ⟨q, op', rest ++ [op], by simp [hops], hopen, hcall⟩
    rw [run_snoc] at h
    cases he : (run step s ops).ended with
    | true =>
      rw [Run.call_of_ended step he] at h
      exact hbefore h
    | false =>
      rw [Run.call_of_open step he] at h
      rcases List.mem_cons.mp h with hc | hc
      · exact ⟨ops, op, [], rfl, he, hc⟩
      · exact hbefore hc

/-- Two runs that end their calls in the same way, in the same states. -/
structure SameCourse (r r' : Run ε υ σ ο) : Prop where
  outcomes : r'.trace.map Call.outcome = r.trace.map Call.outcome
  state : r'.state = r.state
  ended : r'.ended = r.ended

/-- Operations are swapped for others. When each call of the run would end in the same way with
any other operation that may stand in its place, the run takes the same course. -/
theorem run_swap {S : ο → ο → Prop} {s : σ} {ops ops' : List ο} (hswap : List.Forall₂ S ops ops')
    (hsame : ∀ c ∈ (run step s ops).trace, ∀ op', S c.op op' →
      step c.before op' = step c.before c.op) :
    SameCourse (run step s ops) (run step s ops') := by
  induction ops using List.reverseRecOn generalizing ops' with
  | nil =>
    cases hswap
    exact ⟨rfl, rfl, rfl⟩
  | append_singleton ops op ih =>
    rw [← List.forall₂_reverse_iff, List.reverse_append, List.reverse_singleton,
      List.singleton_append] at hswap
    obtain ⟨op', rev, hop, hrest, hrev⟩ := List.forall₂_cons_left_iff.mp hswap
    have hops' : ops' = rev.reverse ++ [op'] := by
      rw [← List.reverse_reverse ops', hrev, List.reverse_cons]
    rw [← List.reverse_reverse rev, List.forall₂_reverse_iff] at hrest
    have hearlier := trace_suffix step (run step s ops) [op]
    rw [run_snoc] at hsame
    have hcourse := ih hrest (fun c hc => hsame c (hearlier.subset hc))
    rw [hops', run_snoc, run_snoc]
    cases he : (run step s ops).ended with
    | true =>
      rw [Run.call_of_ended step he, Run.call_of_ended step (hcourse.ended.trans he)]
      exact hcourse
    | false =>
      rw [Run.call_of_open step he] at hsame ⊢
      have hstep := hsame _ (List.mem_cons_self ..) op' hop
      rw [Run.call_of_open step (hcourse.ended.trans he), hcourse.state]
      refine ⟨?_, ?_, ?_⟩
      · simp only [List.map_cons, hcourse.outcomes, hstep]
      · simp only [hstep]
      · simp only [hstep]

/-- When a swap of one operation does not show in the outcomes of the run, it does not show in
the outcome of its call. -/
theorem swap_shows {β : Type} (f : Outcome ε υ σ Unit → β) {s : σ} {q rest : List ο} {op op' : ο}
    (hopen : (run step s q).ended = false)
    (h : (run step s (q ++ op' :: rest)).trace.map (fun c => f c.outcome) =
      (run step s (q ++ op :: rest)).trace.map (fun c => f c.outcome)) :
    f (step (run step s q).state op') = f (step (run step s q).state op) := by
  -- the trace of either run ends with this call and the calls before it
  have hends : ∀ o : ο, ∃ later, (run step s (q ++ o :: rest)).trace =
      later ++ ⟨(run step s q).state, o, step (run step s q).state o⟩ :: (run step s q).trace := by
    intro o
    have hsplit : run step s (q ++ o :: rest) =
        rest.foldl (Run.call step) ((run step s q).call step o) := by
      simp [run]
    obtain ⟨later, hlater⟩ := trace_suffix step ((run step s q).call step o) rest
    rw [Run.call_of_open step hopen] at hlater hsplit
    exact ⟨later, by rw [hsplit, ← hlater]⟩
  obtain ⟨later, hlater⟩ := hends op
  obtain ⟨later', hlater'⟩ := hends op'
  rw [hlater, hlater', List.map_append, List.map_append] at h
  have htail := List.append_inj_right' h (by simp)
  simp only [List.map_cons, List.cons.injEq] at htail
  exact htail.1

/-! ## Calls that throw, left out -/

/-- The calls that the run from `s` makes, without those that throw. -/
def kept : List ο → σ → List ο
  | [], _ => []
  | op :: ops, s => match step s op with
    | .returned _ s' => op :: kept ops s'
    | .threw _ s' => kept ops s'
    | .undefined _ => [op]

/-- When a throw leaves the state as it was, a run without its throwing calls ends in the
same state, and ends by undefined behaviour in the same cases. -/
theorem run_kept (hthrow : ∀ s op e s', step s op = .threw e s' → s' = s) (ops : List ο) (s : σ) :
    (run step s (kept step ops s)).state = (run step s ops).state ∧
      (run step s (kept step ops s)).ended = (run step s ops).ended := by
  -- The two runs differ in their calls, so the induction speaks of any two runs with the
  -- same state.
  have key : ∀ (ops : List ο) (r r' : Run ε υ σ ο), r.state = r'.state → r.ended = false →
      r'.ended = false →
      ((kept step ops r.state).foldl (Run.call step) r).state =
          (ops.foldl (Run.call step) r').state ∧
        ((kept step ops r.state).foldl (Run.call step) r).ended =
          (ops.foldl (Run.call step) r').ended := by
    intro ops
    induction ops with
    | nil => intro r r' h1 h2 h3; exact ⟨h1, by simp [kept, h2, h3]⟩
    | cons op ops ih =>
      intro r r' h1 h2 h3
      have hr' := Run.call_of_open step h3 op
      have hr := Run.call_of_open step h2 op
      rw [← h1] at hr'
      simp only [List.foldl_cons, kept]
      cases ho : step r.state op with
      | returned a s' =>
        simp only [ho, Outcome.state?_returned, Option.getD_some, Option.isNone_some] at hr hr'
        simp only [List.foldl_cons, hr, hr']
        exact ih ⟨_, s', false⟩ ⟨_, s', false⟩ rfl rfl rfl
      | threw e s' =>
        have hs' := hthrow _ _ _ _ ho
        simp only [ho, Outcome.state?_threw, Option.getD_some, Option.isNone_some] at hr'
        rw [hs'] at hr' ⊢
        simp only [hr']
        exact ih r ⟨_, r.state, false⟩ rfl h2 rfl
      | undefined u =>
        simp only [ho, Outcome.state?_undefined, Option.getD_none, Option.isNone_none] at hr hr'
        simp only [List.foldl_cons, List.foldl_nil, hr, hr']
        rw [foldl_call_of_ended step rfl]
        exact ⟨rfl, rfl⟩
  exact key ops ⟨[], s, false⟩ ⟨[], s, false⟩ rfl rfl rfl

end calls
