-- Calls of a C++ object. A call returns a value and the next state, throws
-- with the state that it leaves behind, or has no defined behaviour.
import Mathlib.Data.List.Basic

namespace calls

/-! ## The outcome of a call -/

/-- How a call ends. A throw keeps the state: what the call wrote before the
throw stays written. After undefined behaviour there is no state. -/
inductive Outcome (ε υ σ α : Type) where
  | returned (a : α) (s : σ)
  | threw (e : ε) (s : σ)
  | undefined (u : υ)
deriving DecidableEq, Repr

variable {ε υ σ τ α β : Type}

/-- The state after the call, if there is one. -/
def Outcome.state? : Outcome ε υ σ α → Option σ
  | .returned _ s => some s
  | .threw _ s => some s
  | .undefined _ => none

/-- The call returned normally. -/
def Outcome.Returned : Outcome ε υ σ α → Prop
  | .returned _ _ => True
  | _ => False

instance : (o : Outcome ε υ σ α) → Decidable o.Returned
  | .returned _ _ => isTrue trivial
  | .threw _ _ => isFalse id
  | .undefined _ => isFalse id

/-- The call threw. -/
def Outcome.Threw : Outcome ε υ σ α → Prop
  | .threw _ _ => True
  | _ => False

instance : (o : Outcome ε υ σ α) → Decidable o.Threw
  | .returned _ _ => isFalse id
  | .threw _ _ => isTrue trivial
  | .undefined _ => isFalse id

/-- The same ending with another view of the state. -/
def Outcome.map (f : σ → τ) : Outcome ε υ σ α → Outcome ε υ τ α
  | .returned a s => .returned a (f s)
  | .threw e s => .threw e (f s)
  | .undefined u => .undefined u

/-- How the call ended, without the state. -/
def Outcome.ending : Outcome ε υ σ α → Outcome ε υ Unit α := Outcome.map (fun _ => ())

@[simp] theorem Outcome.state?_returned (a : α) (s : σ) :
    (returned a s : Outcome ε υ σ α).state? = some s := rfl

@[simp] theorem Outcome.state?_threw (e : ε) (s : σ) :
    (threw e s : Outcome ε υ σ α).state? = some s := rfl

@[simp] theorem Outcome.state?_undefined (u : υ) :
    (undefined u : Outcome ε υ σ α).state? = none := rfl

theorem Outcome.state?_map (f : σ → τ) (o : Outcome ε υ σ α) :
    (o.map f).state? = o.state?.map f := by
  cases o <;> rfl

theorem Outcome.map_of_eq {f : σ → τ} {g : τ → σ} (h : ∀ s, g (f s) = s) (o : Outcome ε υ σ α) :
    (o.map f).map g = o := by
  cases o <;> simp [Outcome.map, h]

@[simp] theorem Outcome.Returned_returned (a : α) (s : σ) :
    (returned a s : Outcome ε υ σ α).Returned := trivial

@[simp] theorem Outcome.not_Returned_threw (e : ε) (s : σ) :
    ¬ (threw e s : Outcome ε υ σ α).Returned := id

@[simp] theorem Outcome.not_Returned_undefined (u : υ) :
    ¬ (undefined u : Outcome ε υ σ α).Returned := id

@[simp] theorem Outcome.Threw_threw (e : ε) (s : σ) :
    (threw e s : Outcome ε υ σ α).Threw := trivial

@[simp] theorem Outcome.not_Threw_returned (a : α) (s : σ) :
    ¬ (returned a s : Outcome ε υ σ α).Threw := id

@[simp] theorem Outcome.not_Threw_undefined (u : υ) :
    ¬ (undefined u : Outcome ε υ σ α).Threw := id

/-! ## The code of a method -/

/-- The body of a method of an object with state `σ`. -/
structure Code (ε υ σ α : Type) where
  exec : σ → Outcome ε υ σ α

instance : CoeFun (Code ε υ σ α) (fun _ => σ → Outcome ε υ σ α) := ⟨Code.exec⟩

instance : Monad (Code ε υ σ) where
  pure a := ⟨fun s => .returned a s⟩
  bind x f := ⟨fun s => match x s with
    | .returned a s' => f a s'
    | .threw e s' => .threw e s'
    | .undefined u => .undefined u⟩

/-- Read the state. -/
def read : Code ε υ σ σ := ⟨fun s => .returned s s⟩

/-- Write the state. -/
def update (f : σ → σ) : Code ε υ σ Unit := ⟨fun s => .returned () (f s)⟩

/-- `throw e`. -/
def raise (e : ε) : Code ε υ σ α := ⟨fun s => .threw e s⟩

/-- The call has no defined behaviour from here on. -/
def undefinedBy (u : υ) : Code ε υ σ α := ⟨fun _ => .undefined u⟩

/-- Code that throws nothing, on a part of the state. -/
def within (part : σ → τ) (put : σ → τ → σ) (x : Code Empty υ τ α) : Code ε υ σ α :=
  ⟨fun s => match x (part s) with
    | .returned a t => .returned a (put s t)
    | .threw e _ => e.elim
    | .undefined u => .undefined u⟩

@[simp] theorem pure_exec (a : α) (s : σ) : (pure a : Code ε υ σ α) s = .returned a s := rfl

@[simp] theorem read_exec (s : σ) : (read : Code ε υ σ σ) s = .returned s s := rfl

@[simp] theorem update_exec (f : σ → σ) (s : σ) :
    (update f : Code ε υ σ Unit) s = .returned () (f s) := rfl

@[simp] theorem raise_exec (e : ε) (s : σ) : (raise e : Code ε υ σ α) s = .threw e s := rfl

@[simp] theorem undefinedBy_exec (u : υ) (s : σ) :
    (undefinedBy u : Code ε υ σ α) s = .undefined u := rfl

theorem bind_exec (x : Code ε υ σ α) (f : α → Code ε υ σ β) (s : σ) :
    (x >>= f) s = match x s with
      | .returned a s' => f a s'
      | .threw e s' => .threw e s'
      | .undefined u => .undefined u := rfl

theorem bind_of_returned {x : Code ε υ σ α} {a : α} {s s' : σ} (f : α → Code ε υ σ β)
    (h : x s = .returned a s') : (x >>= f) s = f a s' := by
  rw [bind_exec, h]

/-- A result that is thrown away. -/
theorem state?_bind_pure (x : Code ε υ σ α) (b : β) (s : σ) :
    ((x >>= fun _ => pure b) s).state? = (x s).state? := by
  rw [bind_exec]
  cases x s <;> rfl

theorem within_returned {part : σ → τ} {put : σ → τ → σ} {x : Code Empty υ τ α} {s : σ} {a : α}
    {t : τ} (h : x (part s) = .returned a t) :
    (within part put x : Code ε υ σ α) s = .returned a (put s t) := by
  simp [within, h]

theorem within_undefined {part : σ → τ} {put : σ → τ → σ} {x : Code Empty υ τ α} {s : σ} {u : υ}
    (h : x (part s) = .undefined u) : (within part put x : Code ε υ σ α) s = .undefined u := by
  simp [within, h]

theorem code_ite (c : Prop) [Decidable c] (x y : Code ε υ σ α) (s : σ) :
    (if c then x else y) s = if c then x s else y s := by
  split <;> rfl

/-! ## Code that does not throw, and code that throws before it writes -/

def Code.NoThrow (x : Code ε υ σ α) : Prop := ∀ s e s', x s ≠ .threw e s'

/-- A throw leaves the state as it was. -/
def Code.Rejects (x : Code ε υ σ α) : Prop := ∀ s e s', x s = .threw e s' → s' = s

theorem noThrow_update (f : σ → σ) : (update f : Code ε υ σ Unit).NoThrow := by
  intro s e s' h; cases h

theorem noThrow_undefinedBy (u : υ) : (undefinedBy u : Code ε υ σ α).NoThrow := by
  intro s e s' h; cases h

theorem Code.NoThrow.bind {x : Code ε υ σ α} {f : α → Code ε υ σ β} (hx : x.NoThrow)
    (hf : ∀ a, (f a).NoThrow) : (x >>= f).NoThrow := by
  intro s e s' h
  rw [bind_exec] at h
  cases hs : x s with
  | returned a s1 => rw [hs] at h; exact hf a s1 e s' h
  | threw e1 s1 => exact hx s e1 s1 hs
  | undefined u => rw [hs] at h; cases h

theorem noThrow_within (part : σ → τ) (put : σ → τ → σ) (x : Code Empty υ τ α) :
    (within part put x : Code ε υ σ α).NoThrow := by
  intro s e s' h
  unfold within at h
  simp only at h
  cases hs : x (part s) with
  | returned a t => simp [hs] at h
  | threw e1 t => exact e1.elim
  | undefined u => simp [hs] at h

theorem noThrow_read : (read : Code ε υ σ σ).NoThrow := by
  intro s e s' h; cases h

theorem Code.NoThrow.rejects {x : Code ε υ σ α} (hx : x.NoThrow) : x.Rejects :=
  fun s e s' h => absurd h (hx s e s')

theorem rejects_raise (e : ε) : (raise e : Code ε υ σ α).Rejects := by
  intro s e' s' h
  cases h
  rfl

/-- A method that reads the state first and then rejects. -/
theorem rejects_read {f : σ → Code ε υ σ α} (hf : ∀ s, (f s).Rejects) : (read >>= f).Rejects :=
  fun s e s' h => hf s s e s' h

theorem rejects_ite {c : Prop} [Decidable c] {x y : Code ε υ σ α} (hx : x.Rejects)
    (hy : y.Rejects) : (if c then x else y).Rejects := by
  split
  · exact hx
  · exact hy

/-! ## Two objects that end each call in the same way -/

/-- The same ending, with related states. -/
def Outcome.Matches (R : σ → τ → Prop) : Outcome ε υ σ Unit → Outcome ε υ τ Unit → Prop
  | .returned _ s, .returned _ t => R s t
  | .threw e s, .threw e' t => e = e' ∧ R s t
  | .undefined u, .undefined u' => u = u'
  | _, _ => False

/-- Every call of the object matches the same call of its model. -/
def Simulates {ο : Type} (R : σ → τ → Prop) (step : σ → ο → Outcome ε υ σ Unit)
    (spec : τ → ο → Outcome ε υ τ Unit) : Prop :=
  ∀ s t op, R s t → (step s op).Matches R (spec t op)

theorem Outcome.Matches.returned_iff {R : σ → τ → Prop} {o : Outcome ε υ σ Unit}
    {p : Outcome ε υ τ Unit} (h : o.Matches R p) : o.Returned ↔ p.Returned := by
  cases o <;> cases p <;> simp_all [Outcome.Matches]

theorem Outcome.Matches.threw_iff {R : σ → τ → Prop} {o : Outcome ε υ σ Unit}
    {p : Outcome ε υ τ Unit} (h : o.Matches R p) : o.Threw ↔ p.Threw := by
  cases o <;> cases p <;> simp_all [Outcome.Matches]

theorem Outcome.Matches.of_returned {R : σ → τ → Prop} {o : Outcome ε υ σ Unit} {t : τ}
    (h : o.Matches R (.returned () t)) : ∃ s, o = .returned () s ∧ R s t := by
  cases o with
  | returned a s => exact ⟨s, rfl, h⟩
  | threw e s => exact h.elim
  | undefined u => exact h.elim

theorem Outcome.Matches.of_state {R : σ → τ → Prop} {o : Outcome ε υ σ Unit}
    {p : Outcome ε υ τ Unit} {s : σ} (h : o.Matches R p) (hs : o.state? = some s) :
    ∃ t, p.state? = some t ∧ R s t := by
  cases o with
  | returned a s1 =>
    cases hs
    cases p with
    | returned b t => exact ⟨t, rfl, h⟩
    | threw e t => exact h.elim
    | undefined u => exact h.elim
  | threw e s1 =>
    cases hs
    cases p with
    | returned b t => exact h.elim
    | threw e' t => exact ⟨t, rfl, h.2⟩
    | undefined u => exact h.elim
  | undefined u => cases hs

theorem Outcome.Matches.state_none {R : σ → τ → Prop} {o : Outcome ε υ σ Unit}
    {p : Outcome ε υ τ Unit} (h : o.Matches R p) (hs : o.state? = none) : p.state? = none := by
  cases o with
  | returned a s => cases hs
  | threw e s => cases hs
  | undefined u =>
    cases p with
    | returned b t => exact h.elim
    | threw e t => exact h.elim
    | undefined u' => rfl

/-- The states after the call are related. After undefined behaviour those before it stand. -/
theorem Outcome.Matches.after {R : σ → τ → Prop} {o : Outcome ε υ σ Unit}
    {p : Outcome ε υ τ Unit} {s : σ} {t : τ} (h : o.Matches R p) (hR : R s t) :
    R (o.state?.getD s) (p.state?.getD t) := by
  cases ho : o.state? with
  | none =>
    rw [h.state_none ho]
    exact hR
  | some s' =>
    obtain ⟨t', ht', hR'⟩ := h.of_state ho
    rw [ht']
    exact hR'

/-- The states that are related are those after the two calls. -/
theorem Outcome.Matches.with_states {R : σ → τ → Prop} {o : Outcome ε υ σ Unit}
    {p : Outcome ε υ τ Unit} (h : o.Matches R p) :
    o.Matches (fun s t => R s t ∧ o.state? = some s ∧ p.state? = some t) p := by
  cases o <;> cases p <;> simp_all [Outcome.Matches]

/-- Both endings, seen through other states. -/
theorem Outcome.Matches.map {σ' τ' : Type} {R : σ → τ → Prop} {S : σ' → τ' → Prop} {f : σ → σ'}
    {g : τ → τ'} (hS : ∀ s t, R s t → S (f s) (g t)) {o : Outcome ε υ σ Unit}
    {p : Outcome ε υ τ Unit} (h : o.Matches R p) : (o.map f).Matches S (p.map g) := by
  cases o <;> cases p <;> simp_all [Outcome.Matches, Outcome.map]

/-- The same guard with the same exception in both. -/
theorem Outcome.Matches.guard {R : σ → τ → Prop} {c : Prop} [Decidable c] {e : ε} {s : σ} {t : τ}
    {o : Outcome ε υ σ Unit} {p : Outcome ε υ τ Unit} (hR : R s t) (h : ¬ c → o.Matches R p) :
    (if c then .threw e s else o).Matches R (if c then .threw e t else p) := by
  by_cases hc : c
  · rw [if_pos hc, if_pos hc]
    exact ⟨rfl, hR⟩
  · rw [if_neg hc, if_neg hc]
    exact h hc

/-- A model of a model. -/
theorem Outcome.Matches.comp {ρ : Type} {R : σ → τ → Prop} {S : τ → ρ → Prop}
    {o : Outcome ε υ σ Unit} {p : Outcome ε υ τ Unit} {q : Outcome ε υ ρ Unit}
    (h : o.Matches R p) (h' : p.Matches S q) : o.Matches (fun s r => ∃ t, R s t ∧ S t r) q := by
  cases p with
  | returned a t =>
    cases o with
    | returned b s =>
      cases q with
      | returned b r => exact ⟨t, h, h'⟩
      | threw e r => exact h'.elim
      | undefined u => exact h'.elim
    | threw e s => exact h.elim
    | undefined u => exact h.elim
  | threw e t =>
    cases o with
    | returned b s => exact h.elim
    | threw e' s =>
      cases q with
      | returned b r => exact h'.elim
      | threw e'' r => exact ⟨h.1.trans h'.1, t, h.2, h'.2⟩
      | undefined u => exact h'.elim
    | undefined u => exact h.elim
  | undefined u =>
    cases o with
    | returned b s => exact h.elim
    | threw e s => exact h.elim
    | undefined u' =>
      cases q with
      | returned b r => exact h'.elim
      | threw e r => exact h'.elim
      | undefined u'' => exact h.trans h'

theorem Outcome.Matches.ending_eq {R : σ → τ → Prop} {o : Outcome ε υ σ Unit}
    {p : Outcome ε υ τ Unit} (h : o.Matches R p) : o.ending = p.ending := by
  cases o <;> cases p <;> simp_all [Outcome.Matches, Outcome.ending, Outcome.map]

/-- The object ends by undefined behaviour only where its model does. -/
theorem Outcome.Matches.undefined_iff {R : σ → τ → Prop} {o : Outcome ε υ σ Unit}
    {p : Outcome ε υ τ Unit} (h : o.Matches R p) (u : υ) : o = .undefined u ↔ p = .undefined u := by
  cases o <;> cases p <;> simp_all [Outcome.Matches]

end calls
