-- The nodes below a node in post-order, for a graph given by the ordered list of
-- the next nodes of each node. Nodes may be shared and listed twice. And a search
-- in a list that stops at the first element that is accepted.
import Mathlib.Data.Set.Finite.Lattice
import Mathlib.Data.Set.Finite.List
import Mathlib.Order.OrderIsoNat

namespace graphs

variable {α β : Type}

/-! ## Cycles -/

section Cycles

variable (next : α → List α)

/-- There is an edge from `a` to `b`. -/
def Edge (a b : α) : Prop := b ∈ next a

def Reaches (a b : α) : Prop := Relation.ReflTransGen (Edge next) a b

/-- A walk leads from `a` back to `a`. -/
def OnCycle (a : α) : Prop := Relation.TransGen (Edge next) a a

/-- No node that `a` reaches lies on a cycle. -/
def AcyclicFrom (a : α) : Prop := ∀ b, Reaches next a b → ¬ OnCycle next b

/-- The walks from `a` end. -/
def Ends (a : α) : Prop := Acc (fun b a => Edge next a b) a

variable {next}

theorem Ends.of_edge {a b : α} (h : Ends next a) (hab : Edge next a b) : Ends next b :=
  Acc.inv h hab

theorem Ends.of_reaches {a b : α} (h : Ends next a) (hab : Reaches next a b) : Ends next b := by
  induction hab with
  | refl => exact h
  | tail _ hbc ih => exact ih.of_edge hbc

theorem Ends.not_onCycle {a : α} (h : Ends next a) : ¬ OnCycle next a := by
  induction h with
  | intro a _ ih =>
    intro hcycle
    -- the second node of the walk lies on the same cycle
    obtain ⟨b, hab, hba⟩ := Relation.TransGen.head'_iff.mp hcycle
    exact ih b hab (Relation.TransGen.tail' hba hab)

/-- Where a rank falls along every edge there is no cycle. -/
theorem acyclicFrom_of_rank (rank : α → Nat) (h : ∀ a b, Edge next a b → rank b < rank a) (a : α) :
    AcyclicFrom next a := by
  intro b _ hcycle
  have hfall : ∀ c, Relation.TransGen (Edge next) b c → rank c < rank b := by
    intro c hc
    induction hc with
    | single hbc => exact h _ _ hbc
    | tail _ hcd ih => exact Nat.lt_trans (h _ _ hcd) ih
  exact Nat.lt_irrefl _ (hfall b hcycle)

/-- With finitely many nodes that have a next one, finitely many are reached. -/
theorem reaches_finite (hfin : {a | next a ≠ []}.Finite) (a : α) :
    {b | Reaches next a b}.Finite := by
  have hnexts : (⋃ c ∈ {c | next c ≠ []}, {b | b ∈ next c}).Finite :=
    hfin.biUnion (fun c _ => List.finite_toSet (next c))
  apply ((Set.finite_singleton a).union hnexts).subset
  intro b hb
  rcases Relation.ReflTransGen.cases_tail hb with hab | ⟨c, _, hcb⟩
  · exact .inl hab
  · refine .inr (Set.mem_biUnion (x := c) ?_ hcb)
    exact List.ne_nil_of_mem hcb

/-- On the nodes that are reached, "below" is transitive and irreflexive, and they are finitely
many. -/
theorem ends_of_acyclic (hfin : {a | next a ≠ []}.Finite) {a : α} (h : AcyclicFrom next a) :
    Ends next a := by
  have := (reaches_finite hfin a).to_subtype
  let below : {b | Reaches next a b} → {b | Reaches next a b} → Prop :=
    fun c b => Relation.TransGen (Edge next) b.1 c.1
  have htrans : IsTrans _ below := ⟨fun _ _ _ hcb hdc => hdc.trans hcb⟩
  have hirrefl : Std.Irrefl below := ⟨fun b hb => h b.1 b.2 hb⟩
  have hwf : WellFounded below := Finite.wellFounded_of_trans_of_irrefl below
  have hall : ∀ b : {b | Reaches next a b}, Ends next b.1 := by
    intro b
    induction b using hwf.induction with
    | _ b ih =>
      apply Acc.intro
      intro c hbc
      have hc : Reaches next a c := Relation.ReflTransGen.tail b.2 hbc
      exact ih ⟨c, hc⟩ (Relation.TransGen.single hbc)
  exact hall ⟨a, Relation.ReflTransGen.refl⟩

/-- The walks end exactly where no cycle is reached. -/
theorem ends_iff_acyclic (hfin : {a | next a ≠ []}.Finite) (a : α) :
    Ends next a ↔ AcyclicFrom next a := by
  constructor
  · intro h b hab
    exact (h.of_reaches hab).not_onCycle
  · exact ends_of_acyclic hfin

end Cycles

/-! ## Post-order -/

section Order

variable (next : α → List α)

/-- The nodes below `a`, each after the nodes below it, and `a` last. -/
noncomputable def postOrderFrom (a : α) (h : Ends next a) : List α :=
  h.ndrecOn (C := fun _ => List α)
    (fun a _ below => (next a).attach.flatMap (fun b => below b.1 b.2) ++ [a])

open Classical in
/-- The post-order from `a`, and no nodes where a walk does not end. -/
noncomputable def postOrder (a : α) : List α :=
  if h : Ends next a then postOrderFrom next a h else []

variable {next}

theorem postOrderFrom_eq {a : α} (h : Ends next a) : postOrderFrom next a h =
    (next a).attach.flatMap (fun b => postOrderFrom next b.1 (h.of_edge b.2)) ++ [a] := by
  cases h
  rfl

theorem postOrder_of_ends {a : α} (h : Ends next a) :
    postOrder next a = (next a).flatMap (postOrder next) ++ [a] := by
  have hbelow : ∀ b : {b // b ∈ next a},
      postOrderFrom next b.1 (h.of_edge b.2) = postOrder next b.1 := by
    intro b
    unfold postOrder
    rw [dif_pos (h.of_edge b.2)]
  conv_lhs => unfold postOrder
  rw [dif_pos h, postOrderFrom_eq]
  conv_rhs => rw [← List.attach_map_subtype_val (next a), List.flatMap_map]
  simp only [hbelow]

end Order

/-! ## The first that accepts -/

section Ask

variable (accepts : List β → β → Bool)

/-- Ask the elements of a list one after the other, up to the first that accepts. The answer may
depend on those that were asked before. -/
def ask : List β → List β → List β × Bool
  | asked, [] => (asked, false)
  | asked, b :: bs => if accepts asked b then (asked ++ [b], true) else ask (asked ++ [b]) bs

variable {accepts}

theorem ask_singleton (asked : List β) (b : β) :
    ask accepts asked [b] = (asked ++ [b], accepts asked b) := by
  by_cases hb : accepts asked b = true
  · simp [ask, hb]
  · simp [ask, Bool.eq_false_iff.mpr hb]

theorem ask_append (asked l more : List β) :
    ask accepts asked (l ++ more) =
      if (ask accepts asked l).2 then ask accepts asked l
      else ask accepts (ask accepts asked l).1 more := by
  induction l generalizing asked with
  | nil => simp [ask]
  | cons b bs ih =>
    rw [List.cons_append]
    by_cases hb : accepts asked b = true
    · simp [ask, hb]
    · simp only [ask, hb, if_false, Bool.false_eq_true]
      exact ih (asked ++ [b])

variable (accepts)

/-- `asked` is the shortest beginning of `all` that ends with the first element that accepts, and
all of `all` when none does. -/
structure FirstAccepted (all asked : List β) (found : Bool) : Prop where
  within : asked <+: all
  rejected : ∀ before b, before ++ [b] <+: asked → before ++ [b] ≠ asked →
    accepts before b = false
  found_iff : found = true ↔ ∃ before b, asked = before ++ [b] ∧ accepts before b = true
  complete : found = false → asked = all

variable {accepts}

theorem ask_spec (asked l : List β)
    (h : ∀ before b, before ++ [b] <+: asked → accepts before b = false) :
    FirstAccepted accepts (asked ++ l) (ask accepts asked l).1 (ask accepts asked l).2 := by
  induction l generalizing asked with
  | nil =>
    refine ⟨by simp [ask], fun before b hb _ => h before b hb, ?_, by simp [ask]⟩
    simp only [ask, Bool.false_eq_true, false_iff]
    rintro ⟨before, b, rfl, hb⟩
    rw [h before b (List.prefix_refl _)] at hb
    cases hb
  | cons x xs ih =>
    unfold ask
    split
    · rename_i hx
      refine ⟨by simp, ?_, ?_, by simp⟩
      · intro before b hb hne
        rcases List.prefix_concat_iff.mp hb with heq | hb
        · exact absurd heq hne
        · exact h before b hb
      · exact iff_of_true rfl ⟨asked, x, rfl, hx⟩
    · rename_i hx
      have hmore := ih (asked ++ [x]) (by
        intro before b hb
        rcases List.prefix_concat_iff.mp hb with heq | hb
        · obtain ⟨rfl, hbx⟩ := List.append_inj' heq rfl
          cases hbx
          exact Bool.eq_false_iff.mpr hx
        · exact h before b hb)
      rwa [List.append_assoc] at hmore

end Ask

end graphs
