-- Several objects side by side. In a run every call is made on one of them, in any order.
-- When no object touches the state of another, each one goes through the run that its own
-- calls make alone.
import Mathlib.Data.List.Forall2
import Mathlib.Logic.Function.Basic
import Lopack.Runs

namespace calls

variable {ε υ σ τ ο ι : Type} [DecidableEq ι]

/-- The calls on the object `i` as this object sees them, newest first. -/
def callsOf (i : ι) (view : σ → τ) (trace : List (Call ε υ σ (ι × ο))) : List (Call ε υ τ ο) :=
  (trace.filter (fun c => c.op.1 = i)).map
    (fun c => ⟨view c.before, c.op.2, c.outcome.map view⟩)

/-- The operations of these calls, in the order they were made. -/
def opsOf (i : ι) (trace : List (Call ε υ σ (ι × ο))) : List ο :=
  ((trace.filter (fun c => c.op.1 = i)).map (fun c => c.op.2)).reverse

theorem opsOf_eq (i : ι) (view : σ → τ) (trace : List (Call ε υ σ (ι × ο))) :
    opsOf i trace = ((callsOf i view trace).map Call.op).reverse := by
  simp [opsOf, callsOf, Function.comp_def]

/-- Two runs that agree call by call agree on the calls of each object. -/
theorem forall₂_callsOf {σ' τ' : Type} {P : Call ε υ σ (ι × ο) → Call ε υ σ' (ι × ο) → Prop}
    {Q : Call ε υ τ ο → Call ε υ τ' ο → Prop} {i : ι} {view : σ → τ} {view' : σ' → τ'}
    (hop : ∀ c k, P c k → c.op = k.op)
    (hQ : ∀ c k, P c k → c.op.1 = i → Q ⟨view c.before, c.op.2, c.outcome.map view⟩
      ⟨view' k.before, k.op.2, k.outcome.map view'⟩)
    {trace : List (Call ε υ σ (ι × ο))} {trace' : List (Call ε υ σ' (ι × ο))}
    (h : List.Forall₂ P trace trace') :
    List.Forall₂ Q (callsOf i view trace) (callsOf i view' trace') := by
  induction h with
  | nil => exact .nil
  | @cons c k trace trace' hck _ ih =>
    unfold callsOf at ih ⊢
    by_cases hi : c.op.1 = i
    · have hi' : k.op.1 = i := hop c k hck ▸ hi
      simp only [List.filter_cons, hi, hi', decide_true, if_true, List.map_cons]
      exact .cons (hQ c k hck hi) ih
    · have hi' : ¬ k.op.1 = i := hop c k hck ▸ hi
      simp only [List.filter_cons, hi, hi', decide_false, Bool.false_eq_true, if_false]
      exact ih

/-- Objects that have nothing in common: a call changes the state of its object only. -/
def familyStep (spec : τ → ο → Outcome ε υ τ Unit) (t : ι → τ) (call : ι × ο) :
    Outcome ε υ (ι → τ) Unit :=
  (spec (t call.1) call.2).map (Function.update t call.1)

variable (spec : τ → ο → Outcome ε υ τ Unit)

/-- The run of one object has kept up with the run of them all. -/
structure OwnRun (t : ι → τ) (r : Run ε υ (ι → τ) (ι × ο)) (i : ι) : Prop where
  trace : (run spec (t i) (opsOf i r.trace)).trace = callsOf i (fun t => t i) r.trace
  state : (run spec (t i) (opsOf i r.trace)).state = r.state i
  ended : r.ended = false → (run spec (t i) (opsOf i r.trace)).ended = false

/-- A call on the object itself is the next call of its own run. -/
theorem OwnRun.own {t : ι → τ} {r : Run ε υ (ι → τ) (ι × ο)} {i : ι} (h : OwnRun spec t r i)
    (he : r.ended = false) (op : ο) : OwnRun spec t (r.call (familyStep spec) (i, op)) i := by
  have hops : opsOf i (r.call (familyStep spec) (i, op)).trace = opsOf i r.trace ++ [op] := by
    simp [Run.call_of_open _ he, opsOf]
  have hsame : ∀ s, (Function.update r.state i s) i = s := by simp
  rw [Run.call_of_open _ he] at hops ⊢
  have hown := Run.call_of_open spec (h.ended he) op
  rw [h.state, h.trace] at hown
  refine ⟨?_, ?_, ?_⟩
  · rw [hops, run_snoc, hown]
    simp only [callsOf, List.filter_cons, decide_true, if_true, List.map_cons]
    congr 2
    exact (Outcome.map_of_eq (f := Function.update r.state i) (g := fun t => t i) hsame _).symm
  · rw [hops, run_snoc, hown]
    simp only [familyStep, Outcome.state?_map]
    cases (spec (r.state i) op).state? with
    | none => rfl
    | some s => exact (hsame s).symm
  · rw [hops, run_snoc, hown]
    simp only [familyStep, Outcome.state?_map]
    cases (spec (r.state i) op).state? with
    | none => simp
    | some s => simp

/-- A call on another object is none of its business. -/
theorem OwnRun.other {t : ι → τ} {r : Run ε υ (ι → τ) (ι × ο)} {i j : ι} (h : OwnRun spec t r i)
    (he : r.ended = false) (hj : j ≠ i) (op : ο) :
    OwnRun spec t (r.call (familyStep spec) (j, op)) i := by
  have hops : opsOf i (r.call (familyStep spec) (j, op)).trace = opsOf i r.trace := by
    simp [Run.call_of_open _ he, opsOf, hj]
  rw [Run.call_of_open _ he] at hops ⊢
  refine ⟨?_, ?_, fun _ => hops ▸ h.ended he⟩
  · rw [hops, h.trace]
    simp [callsOf, hj]
  · rw [hops, h.state]
    simp only [familyStep, Outcome.state?_map]
    cases (spec (r.state j) op).state? with
    | none => rfl
    | some s => exact (Function.update_of_ne (Ne.symm hj) s r.state).symm

/-- Of objects that have nothing in common, each one makes the run of its own calls. -/
theorem family_run (t : ι → τ) (ops : List (ι × ο)) (i : ι) :
    OwnRun spec t (run (familyStep spec) t ops) i := by
  apply run_induction (familyStep spec) (P := fun r => OwnRun spec t r i)
  · exact ⟨rfl, rfl, fun _ => rfl⟩
  · rintro r ⟨j, op⟩ he ih
    by_cases hj : j = i
    · subst hj
      exact ih.own spec he op
    · exact ih.other spec he hj op

end calls
