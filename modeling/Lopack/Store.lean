-- A store of cells. A handle names one cell: `alloc` gives a new handle each
-- time, and `free` empties a cell for good.
import Mathlib.Logic.Function.Basic
import Mathlib.Tactic.Ring

namespace store

/-- Cells by handle. No handle from `next` on was ever given out, so those
cells are empty. -/
structure Store (α : Type) where
  next : Nat
  cell : Nat → Option α
  fresh : ∀ i, next ≤ i → cell i = none

variable {α : Type}

def Store.empty : Store α := ⟨0, fun _ => none, fun _ _ => rfl⟩

theorem Store.lt_next {s : Store α} {i : Nat} {a : α} (h : s.cell i = some a) : i < s.next := by
  by_contra hi
  rw [s.fresh i (by omega)] at h
  cases h

/-- A new cell. Its handle is `s.next`. -/
def Store.alloc (s : Store α) (a : α) : Store α :=
  ⟨s.next + 1, Function.update s.cell s.next (some a), fun i hi => by
    rw [Function.update_of_ne (by omega)]
    exact s.fresh i (by omega)⟩

/-- The store with another content in a cell that was given out. -/
def Store.put (s : Store α) (i : Nat) (x : Option α) (h : i < s.next) : Store α :=
  ⟨s.next, Function.update s.cell i x, fun j hj => by
    rw [Function.update_of_ne (by omega)]
    exact s.fresh j hj⟩

/-- Change a cell that is in use. -/
def Store.modify (s : Store α) (i : Nat) (f : α → α) : Option (Store α) :=
  match h : s.cell i with
  | none => none
  | some a => some (s.put i (some (f a)) (Store.lt_next h))

/-- Empty a cell that is in use. -/
def Store.free (s : Store α) (i : Nat) : Option (Store α) :=
  match h : s.cell i with
  | none => none
  | some _ => some (s.put i none (Store.lt_next h))

@[simp] theorem Store.empty_cell (i : Nat) : (Store.empty : Store α).cell i = none := rfl

@[simp] theorem Store.empty_next : (Store.empty : Store α).next = 0 := rfl

@[simp] theorem Store.alloc_next (s : Store α) (a : α) : (s.alloc a).next = s.next + 1 := rfl

@[simp] theorem Store.alloc_cell_next (s : Store α) (a : α) :
    (s.alloc a).cell s.next = some a := by
  simp [alloc]

theorem Store.alloc_cell_of_ne {s : Store α} {i : Nat} (a : α) (h : i ≠ s.next) :
    (s.alloc a).cell i = s.cell i := by
  simp only [alloc]
  rw [Function.update_of_ne h]

/-- A cell in use is kept by an allocation. -/
theorem Store.alloc_cell_of_some {s : Store α} {i : Nat} {b : α} (a : α) (h : s.cell i = some b) :
    (s.alloc a).cell i = some b := by
  rw [alloc_cell_of_ne a (lt_next h).ne, h]

/-- What is in a cell after an allocation is the new value, or it was there before. -/
theorem Store.alloc_some {s : Store α} {a b : α} {i : Nat} (h : (s.alloc a).cell i = some b) :
    b = a ∨ s.cell i = some b := by
  by_cases hi : i = s.next
  · rw [hi, alloc_cell_next] at h
    cases h
    exact .inl rfl
  · rw [alloc_cell_of_ne a hi] at h
    exact .inr h

/-- A cell in use can be changed, and no other cell changes with it. -/
theorem Store.modify_of_some {s : Store α} {i : Nat} {a : α} (f : α → α)
    (h : s.cell i = some a) :
    ∃ s', s.modify i f = some s' ∧ s'.next = s.next ∧ s'.cell i = some (f a) ∧
      ∀ j, j ≠ i → s'.cell j = s.cell j := by
  refine ⟨s.put i (some (f a)) (Store.lt_next h), ?_, rfl, by simp [put], ?_⟩
  · unfold modify
    split
    · rename_i hn
      rw [h] at hn
      cases hn
    · rename_i b hb
      rw [h] at hb
      cases hb
      rfl
  · intro j hj
    simp only [put]
    rw [Function.update_of_ne hj]

/-- A cell in use can be emptied, and no other cell changes with it. -/
theorem Store.free_of_some {s : Store α} {i : Nat} {a : α} (h : s.cell i = some a) :
    ∃ s', s.free i = some s' ∧ s'.next = s.next ∧ s'.cell i = none ∧
      ∀ j, j ≠ i → s'.cell j = s.cell j := by
  refine ⟨s.put i none (Store.lt_next h), ?_, rfl, by simp [put], ?_⟩
  · unfold free
    split
    · rename_i hn
      rw [h] at hn
      cases hn
    · rfl
  · intro j hj
    simp only [put]
    rw [Function.update_of_ne hj]

theorem Store.modify_of_none {s : Store α} {i : Nat} (f : α → α) (h : s.cell i = none) :
    s.modify i f = none := by
  unfold modify
  split
  · rfl
  · rename_i a ha
    rw [h] at ha
    cases ha

theorem Store.free_of_none {s : Store α} {i : Nat} (h : s.cell i = none) : s.free i = none := by
  unfold free
  split
  · rfl
  · rename_i a ha
    rw [h] at ha
    cases ha

/-- Whatever cell is changed, no other cell changes with it. -/
theorem Store.modify_others {s s' : Store α} {i : Nat} {f : α → α} (h : s.modify i f = some s') :
    s'.next = s.next ∧ ∀ j, j ≠ i → s'.cell j = s.cell j := by
  cases hi : s.cell i with
  | none =>
    rw [Store.modify_of_none f hi] at h
    cases h
  | some a =>
    obtain ⟨s1, hs1, hnext, _, hother⟩ := Store.modify_of_some f hi
    rw [hs1] at h
    cases h
    exact ⟨hnext, hother⟩

/-! ## Counting cells -/

/-- How many of the cells in use hold a value with `p`. -/
def Store.count (s : Store α) (p : α → Bool) : Nat :=
  (List.range s.next).countP (fun i => (s.cell i).any p)

/-- How many cells are in use. -/
def Store.size (s : Store α) : Nat := s.count (fun _ => true)

theorem Store.count_alloc (s : Store α) (a : α) (p : α → Bool) :
    (s.alloc a).count p = s.count p + if p a then 1 else 0 := by
  have hold : (List.range s.next).countP (fun i => ((s.alloc a).cell i).any p) = s.count p := by
    refine List.countP_congr (fun i hi => ?_)
    rw [List.mem_range] at hi
    rw [Store.alloc_cell_of_ne a (Nat.ne_of_lt hi)]
  unfold count at hold ⊢
  rw [Store.alloc_next, List.range_succ, List.countP_append, hold]
  simp [List.countP_cons]

theorem Store.size_alloc (s : Store α) (a : α) : (s.alloc a).size = s.size + 1 :=
  s.count_alloc a (fun _ => true)

/-- When only one cell has changed, only this cell can change a count. -/
theorem Store.count_change {s s' : Store α} {i : Nat} (hi : i < s.next) (hnext : s'.next = s.next)
    (hother : ∀ j, j ≠ i → s'.cell j = s.cell j) (p : α → Bool) :
    s'.count p + (if (s.cell i).any p then 1 else 0) =
      s.count p + if (s'.cell i).any p then 1 else 0 := by
  have hsplit := List.perm_cons_erase (List.mem_range.mpr hi)
  have hrest : ((List.range s.next).erase i).countP (fun j => (s'.cell j).any p) =
      ((List.range s.next).erase i).countP (fun j => (s.cell j).any p) := by
    refine List.countP_congr (fun j hj => ?_)
    rw [hother j (List.nodup_range.mem_erase_iff.mp hj).1]
  unfold count
  rw [hnext, hsplit.countP_eq, hsplit.countP_eq, List.countP_cons, List.countP_cons, hrest]
  omega

theorem Store.count_eq_zero {s : Store α} (h : ∀ i, s.cell i = none) (p : α → Bool) :
    s.count p = 0 := by
  unfold count
  rw [List.countP_eq_zero]
  intro i _
  simp [h i]

theorem Store.cell_of_size_eq_zero {s : Store α} (h : s.size = 0) (i : Nat) : s.cell i = none := by
  rcases Nat.lt_or_ge i s.next with hi | hi
  · unfold size count at h
    rw [List.countP_eq_zero] at h
    simpa using h i (List.mem_range.mpr hi)
  · exact s.fresh i hi

end store
