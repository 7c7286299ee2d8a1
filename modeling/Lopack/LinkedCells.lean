-- Trees in linked cells. A leaf cell holds a content. A node cell holds a label
-- and links to its children, in order. The links are handles, so a node can be
-- linked while it is still empty and filled later through its own handle.
import Mathlib.Data.Finset.Card
import Mathlib.Data.Finset.Range
import Mathlib.Data.List.Nodup
import Lopack.Store
import Lopack.RoseTree

namespace linked

open store rose

/-! ## Cells -/

inductive Link (γ : Type) where
  | leaf (edge : γ) (handle : Nat)
  | node (handle : Nat)
deriving DecidableEq, Repr

structure Cells (α β γ : Type) where
  leaves : Store α
  nodes : Store (β × List (Link γ))

/-- A leaf as its parent sees it: what stands on the link, the handle and the content. -/
structure LeafAt (α γ : Type) where
  edge : γ
  handle : Nat
  content : α
deriving DecidableEq, Repr

structure NodeAt (β : Type) where
  handle : Nat
  label : β
deriving DecidableEq, Repr

/-- A tree with the handles of its cells. -/
abbrev Held (α β γ : Type) := RoseTree (LeafAt α γ) (NodeAt β)

variable {α β γ : Type}

def link : Held α β γ → Link γ
  | .leaf l => .leaf l.edge l.handle
  | .node n _ => .node n.handle

mutual

/-- The cells hold the tree `t`. -/
def Holds (c : Cells α β γ) : Held α β γ → Prop
  | .leaf l => c.leaves.cell l.handle = some l.content
  | .node n ts => c.nodes.cell n.handle = some (n.label, ts.map link) ∧ HoldsAll c ts

def HoldsAll (c : Cells α β γ) : List (Held α β γ) → Prop
  | [] => True
  | t :: ts => Holds c t ∧ HoldsAll c ts

end

theorem holdsAll_iff (c : Cells α β γ) (ts : List (Held α β γ)) :
    HoldsAll c ts ↔ ∀ t ∈ ts, Holds c t := by
  induction ts with
  | nil => simp [HoldsAll]
  | cons t ts ih => simp [HoldsAll, ih]

theorem holds_node (c : Cells α β γ) (n : NodeAt β) (ts : List (Held α β γ)) :
    Holds c (.node n ts) ↔
      c.nodes.cell n.handle = some (n.label, ts.map link) ∧ ∀ t ∈ ts, Holds c t := by
  rw [Holds, holdsAll_iff]

/-- A tree is held as long as its own cells stay as they are. -/
theorem Holds.congr {c c' : Cells α β γ} {t : Held α β γ} (h : Holds c t)
    (hl : ∀ l ∈ t.leaves, c'.leaves.cell l.handle = c.leaves.cell l.handle)
    (hn : ∀ n ∈ t.nodes, c'.nodes.cell n.handle = c.nodes.cell n.handle) : Holds c' t := by
  induction t using RoseTree.ind with
  | leaf l =>
    unfold Holds at h ⊢
    rw [hl l (by simp), h]
  | node n ts ih =>
    rw [holds_node] at h ⊢
    refine ⟨by rw [hn n (by simp), h.1], ?_⟩
    intro t ht
    apply ih t ht (h.2 t ht)
    · intro l hlt
      exact hl l (by simp only [RoseTree.leaves_node, List.mem_flatMap]; exact ⟨t, ht, hlt⟩)
    · intro n' hnt
      apply hn n'
      simp only [RoseTree.nodes_node, List.mem_cons, List.mem_flatMap]
      exact Or.inr ⟨t, ht, hnt⟩

theorem Holds.leaf_lt {c : Cells α β γ} {t : Held α β γ} (h : Holds c t) :
    ∀ l ∈ t.leaves, l.handle < c.leaves.next := by
  induction t using RoseTree.ind with
  | leaf l =>
    intro l' hl'
    rw [RoseTree.leaves_leaf, List.mem_singleton] at hl'
    subst hl'
    exact Store.lt_next h
  | node n ts ih =>
    rw [holds_node] at h
    intro l hl
    simp only [RoseTree.leaves_node, List.mem_flatMap] at hl
    obtain ⟨t, ht, hlt⟩ := hl
    exact ih t ht (h.2 t ht) l hlt

theorem Holds.node_lt {c : Cells α β γ} {t : Held α β γ} (h : Holds c t) :
    ∀ n ∈ t.nodes, n.handle < c.nodes.next := by
  induction t using RoseTree.ind with
  | leaf l => simp
  | node n ts ih =>
    rw [holds_node] at h
    intro n' hn'
    simp only [RoseTree.nodes_node, List.mem_cons, List.mem_flatMap] at hn'
    rcases hn' with rfl | ⟨t, ht, hnt⟩
    · exact Store.lt_next h.1
    · exact ih t ht (h.2 t ht) n' hnt

theorem Holds.leaf_cell {c : Cells α β γ} {t : Held α β γ} (h : Holds c t) :
    ∀ l ∈ t.leaves, c.leaves.cell l.handle = some l.content := by
  induction t using RoseTree.ind with
  | leaf l =>
    intro l' hl'
    rw [RoseTree.leaves_leaf, List.mem_singleton] at hl'
    subst hl'
    exact h
  | node n ts ih =>
    rw [holds_node] at h
    intro l hl
    simp only [RoseTree.leaves_node, List.mem_flatMap] at hl
    obtain ⟨t, ht, hlt⟩ := hl
    exact ih t ht (h.2 t ht) l hlt

theorem Holds.node_used {c : Cells α β γ} {t : Held α β γ} (h : Holds c t) :
    ∀ n ∈ t.nodes, (c.nodes.cell n.handle).isSome := by
  induction t using RoseTree.ind with
  | leaf l => simp
  | node n ts ih =>
    rw [holds_node] at h
    intro n' hn'
    simp only [RoseTree.nodes_node, List.mem_cons, List.mem_flatMap] at hn'
    rcases hn' with rfl | ⟨t, ht, hnt⟩
    · rw [h.1]
      rfl
    · exact ih t ht (h.2 t ht) n' hnt

/-! ## Reading a tree -/

/-- Read the tree under a link. The fuel bounds the depth of the walk. -/
def readTree (c : Cells α β γ) : Nat → Link γ → Option (Held α β γ)
  | 0, _ => none
  | _ + 1, .leaf e h => (c.leaves.cell h).map (fun a => .leaf ⟨e, h, a⟩)
  | n + 1, .node h => match c.nodes.cell h with
    | none => none
    | some (b, ls) => (ls.mapM (readTree c n)).map (.node ⟨h, b⟩)

/-- Enough fuel for any tree whose nodes are distinct cells. -/
def Cells.read (c : Cells α β γ) (l : Link γ) : Option (Held α β γ) :=
  readTree c (c.nodes.next + 1) l

theorem mapM_readTree {c : Cells α β γ} {n : Nat} {ts : List (Held α β γ)}
    (h : ∀ t ∈ ts, readTree c n (link t) = some t) :
    (ts.map link).mapM (readTree c n) = some ts := by
  induction ts with
  | nil => rfl
  | cons t ts ih =>
    rw [List.map_cons, List.mapM_cons, h t (by simp), ih (fun t' ht => h t' (by simp [ht]))]
    rfl

theorem nodes_length_le {t : Held α β γ} {n : NodeAt β} {ts : List (Held α β γ)} (ht : t ∈ ts) :
    t.nodes.length < (RoseTree.node n ts : Held α β γ).nodes.length := by
  have hsub : t.nodes.Sublist (ts.flatMap RoseTree.nodes) := by
    rw [List.flatMap_def]
    exact List.sublist_flatten_of_mem (List.mem_map_of_mem ht)
  rw [RoseTree.nodes_node, List.length_cons]
  have := hsub.length_le
  omega

theorem readTree_of_holds {c : Cells α β γ} {t : Held α β γ} {n : Nat} (h : Holds c t)
    (hn : t.nodes.length < n) : readTree c n (link t) = some t := by
  induction t using RoseTree.ind generalizing n with
  | leaf l =>
    obtain ⟨k, rfl⟩ : ∃ k, n = k + 1 := ⟨n - 1, by omega⟩
    unfold Holds at h
    simp [link, readTree, h]
  | node b ts ih =>
    obtain ⟨k, rfl⟩ : ∃ k, n = k + 1 := ⟨n - 1, by omega⟩
    rw [holds_node] at h
    have hts : (ts.map link).mapM (readTree c k) = some ts := by
      apply mapM_readTree
      intro t ht
      have := nodes_length_le (n := b) ht
      exact ih t ht (h.2 t ht) (by omega)
    simp [link, readTree, h.1, hts]

theorem length_le_of_nodup {hs : List Nat} {n : Nat} (hd : hs.Nodup) (hlt : ∀ h ∈ hs, h < n) :
    hs.length ≤ n := by
  have hsub : hs.toFinset ⊆ Finset.range n := by
    intro h hh
    rw [Finset.mem_range]
    exact hlt h (List.mem_toFinset.mp hh)
  have := Finset.card_le_card hsub
  rwa [List.toFinset_card_of_nodup hd, Finset.card_range] at this

/-- The fuel is enough: the nodes of the tree are distinct handles that were given out. -/
theorem Holds.nodes_length_le_next {c : Cells α β γ} {t : Held α β γ} (h : Holds c t)
    (hd : (t.nodes.map NodeAt.handle).Nodup) : t.nodes.length ≤ c.nodes.next := by
  have := length_le_of_nodup (n := c.nodes.next) hd (by
    intro i hi
    obtain ⟨n, hn, rfl⟩ := List.mem_map.mp hi
    exact h.node_lt n hn)
  rwa [List.length_map] at this

theorem read_of_holds {c : Cells α β γ} {t : Held α β γ} (h : Holds c t)
    (hd : (t.nodes.map NodeAt.handle).Nodup) : c.read (link t) = some t := by
  have := h.nodes_length_le_next hd
  exact readTree_of_holds h (by omega)

/-! ## Freeing a tree -/

/-- Free the tree under a link, the children first. It fails on a cell that is not in use. -/
def freeTree : Nat → Cells α β γ → Link γ → Option (Cells α β γ)
  | 0, _, _ => none
  | _ + 1, c, .leaf _ h => (c.leaves.free h).map (fun s => { c with leaves := s })
  | n + 1, c, .node h => match c.nodes.cell h with
    | none => none
    | some (_, ls) => match ls.foldlM (freeTree n) c with
      | none => none
      | some c1 => (c1.nodes.free h).map (fun s => { c1 with nodes := s })

def Cells.release (c : Cells α β γ) (l : Link γ) : Option (Cells α β γ) :=
  freeTree (c.nodes.next + 1) c l

/-- `c'` is `c` with the leaf cells `ls` and the node cells `ns` emptied. -/
structure Emptied (c c' : Cells α β γ) (ls ns : List Nat) : Prop where
  leaves_next : c'.leaves.next = c.leaves.next
  nodes_next : c'.nodes.next = c.nodes.next
  leaf : ∀ i, c'.leaves.cell i = if i ∈ ls then none else c.leaves.cell i
  node : ∀ i, c'.nodes.cell i = if i ∈ ns then none else c.nodes.cell i

theorem Emptied.refl (c : Cells α β γ) : Emptied c c [] [] :=
  ⟨rfl, rfl, by simp, by simp⟩

theorem Emptied.trans {c c1 c2 : Cells α β γ} {l1 l2 n1 n2 : List Nat}
    (h1 : Emptied c c1 l1 n1) (h2 : Emptied c1 c2 l2 n2) :
    Emptied c c2 (l1 ++ l2) (n1 ++ n2) := by
  refine ⟨h2.leaves_next.trans h1.leaves_next, h2.nodes_next.trans h1.nodes_next, ?_, ?_⟩
  · intro i
    rw [h2.leaf, h1.leaf]
    by_cases hi1 : i ∈ l1 <;> by_cases hi2 : i ∈ l2 <;> simp [hi1, hi2]
  · intro i
    rw [h2.node, h1.node]
    by_cases hi1 : i ∈ n1 <;> by_cases hi2 : i ∈ n2 <;> simp [hi1, hi2]

/-- The handles of the leaf cells and of the node cells of a tree. -/
def leafHandles (t : Held α β γ) : List Nat := t.leaves.map LeafAt.handle

def nodeHandles (t : Held α β γ) : List Nat := t.nodes.map NodeAt.handle

/-- A tree that shares no cell with the emptied ones is still held. -/
theorem Holds.emptied {c c' : Cells α β γ} {t : Held α β γ} {ls ns : List Nat} (h : Holds c t)
    (he : Emptied c c' ls ns) (hl : ∀ i ∈ leafHandles t, i ∉ ls)
    (hn : ∀ i ∈ nodeHandles t, i ∉ ns) : Holds c' t := by
  apply h.congr
  · intro l hlt
    rw [he.leaf, if_neg (hl _ (List.mem_map_of_mem hlt))]
  · intro n hnt
    rw [he.node, if_neg (hn _ (List.mem_map_of_mem hnt))]

theorem freeAll_of_holds {n : Nat} {ts : List (Held α β γ)}
    (ih : ∀ t ∈ ts, ∀ c : Cells α β γ, Holds c t → (leafHandles t).Nodup →
      (nodeHandles t).Nodup →
      ∃ c', freeTree n c (link t) = some c' ∧ Emptied c c' (leafHandles t) (nodeHandles t))
    (c : Cells α β γ) (h : ∀ t ∈ ts, Holds c t) (hl : (ts.flatMap leafHandles).Nodup)
    (hn : (ts.flatMap nodeHandles).Nodup) :
    ∃ c', (ts.map link).foldlM (freeTree n) c = some c' ∧
      Emptied c c' (ts.flatMap leafHandles) (ts.flatMap nodeHandles) := by
  induction ts generalizing c with
  | nil => exact ⟨c, rfl, Emptied.refl c⟩
  | cons t ts ihts =>
    rw [List.flatMap_cons, List.nodup_append] at hl hn
    obtain ⟨c1, hc1, he1⟩ := ih t (by simp) c (h t (by simp)) hl.1 hn.1
    have hrest : ∀ t' ∈ ts, Holds c1 t' := by
      intro t' ht'
      apply (h t' (by simp [ht'])).emptied he1
      · intro i hi hmem
        exact hl.2.2 i hmem i (List.mem_flatMap.mpr ⟨t', ht', hi⟩) rfl
      · intro i hi hmem
        exact hn.2.2 i hmem i (List.mem_flatMap.mpr ⟨t', ht', hi⟩) rfl
    obtain ⟨c2, hc2, he2⟩ := ihts (fun t' ht' => ih t' (by simp [ht'])) c1 hrest hl.2.1 hn.2.1
    refine ⟨c2, ?_, ?_⟩
    · rw [List.map_cons, List.foldlM_cons, hc1]
      exact hc2
    · simpa using he1.trans he2

theorem leafHandles_node (b : NodeAt β) (ts : List (Held α β γ)) :
    leafHandles (.node b ts) = ts.flatMap leafHandles := by
  unfold leafHandles
  rw [RoseTree.leaves_node, List.map_flatMap]

theorem nodeHandles_node (b : NodeAt β) (ts : List (Held α β γ)) :
    nodeHandles (.node b ts) = b.handle :: ts.flatMap nodeHandles := by
  unfold nodeHandles
  rw [RoseTree.nodes_node, List.map_cons, List.map_flatMap]

/-- Freeing a tree of distinct cells empties each of its cells once and no other cell. -/
theorem freeTree_of_holds {c : Cells α β γ} {t : Held α β γ} {n : Nat} (h : Holds c t)
    (hl : (leafHandles t).Nodup) (hd : (nodeHandles t).Nodup) (hn : t.nodes.length < n) :
    ∃ c', freeTree n c (link t) = some c' ∧ Emptied c c' (leafHandles t) (nodeHandles t) := by
  induction t using RoseTree.ind generalizing n c with
  | leaf l =>
    obtain ⟨k, rfl⟩ : ∃ k, n = k + 1 := ⟨n - 1, by omega⟩
    unfold Holds at h
    obtain ⟨s', hs', hnext, hself, hother⟩ := Store.free_of_some h
    refine ⟨{ c with leaves := s' }, by simp [link, freeTree, hs'], hnext, rfl, ?_, ?_⟩
    · intro i
      simp only [leafHandles, RoseTree.leaves_leaf, List.map_cons, List.map_nil, List.mem_singleton]
      by_cases hi : i = l.handle
      · simp [hi, hself]
      · simp [hi, hother i hi]
    · simp [nodeHandles]
  | node b ts ih =>
    obtain ⟨k, rfl⟩ : ∃ k, n = k + 1 := ⟨n - 1, by omega⟩
    rw [holds_node] at h
    rw [leafHandles_node] at hl
    rw [nodeHandles_node, List.nodup_cons] at hd
    obtain ⟨c1, hc1, he1⟩ := freeAll_of_holds (n := k) (fun t ht c' ht' hl' hd' =>
      ih t ht ht' hl' hd' (by have := nodes_length_le (n := b) ht; omega)) c h.2 hl hd.2
    have hcell : c1.nodes.cell b.handle = some (b.label, ts.map link) := by
      rw [he1.node, if_neg hd.1, h.1]
    obtain ⟨s', hs', hnext, hself, hother⟩ := Store.free_of_some hcell
    refine ⟨{ c1 with nodes := s' }, by simp [link, freeTree, h.1, hc1, hs'], he1.leaves_next,
      hnext.trans he1.nodes_next, ?_, ?_⟩
    · rw [leafHandles_node]
      exact he1.leaf
    · intro i
      rw [nodeHandles_node]
      by_cases hi : i = b.handle
      · simp [hi, hself]
      · simp [hi, hother i hi, he1.node]

theorem release_of_holds {c : Cells α β γ} {t : Held α β γ} (h : Holds c t)
    (hl : (leafHandles t).Nodup) (hd : (nodeHandles t).Nodup) :
    ∃ c', c.release (link t) = some c' ∧ Emptied c c' (leafHandles t) (nodeHandles t) := by
  have := h.nodes_length_le_next hd
  exact freeTree_of_holds h hl hd (by omega)

/-! ## A tree with an open path -/

/-- The cells hold the frames of an open path. The innermost node has the links `below`
after its closed children, and each other node has a link to the next node inwards. -/
def OpenHolds (c : Cells α β γ) : List (Link γ) → List (Frame (LeafAt α γ) (NodeAt β)) → Prop
  | _, [] => True
  | below, f :: fs =>
    c.nodes.cell f.label.handle = some (f.label.label, f.closed.map link ++ below) ∧
      (∀ t ∈ f.closed, Holds c t) ∧ OpenHolds c [.node f.label.handle] fs

theorem plug_holds {c : Cells α β γ} {t : Held α β γ} {fs : List (Frame (LeafAt α γ) (NodeAt β))}
    (ht : Holds c t) (h : OpenHolds c [link t] fs) : Holds c (plug t fs) := by
  induction fs generalizing t with
  | nil => exact ht
  | cons f fs ih =>
    obtain ⟨hcell, hclosed, hrest⟩ := h
    apply ih
    · rw [holds_node]
      refine ⟨by simpa using hcell, ?_⟩
      intro t' ht'
      rcases List.mem_append.mp ht' with ht' | ht'
      · exact hclosed t' ht'
      · rw [List.mem_singleton] at ht'
        exact ht' ▸ ht
    · exact hrest

/-- The cells of an open path hold the whole tree. -/
theorem whole_holds {c : Cells α β γ} {t : Held α β γ} {fs : List (Frame (LeafAt α γ) (NodeAt β))}
    (h : OpenHolds c [] fs) (hw : whole fs = some t) : Holds c t := by
  cases fs with
  | nil => cases hw
  | cons f fs =>
    cases hw
    obtain ⟨hcell, hclosed, hrest⟩ := h
    apply plug_holds _ hrest
    rw [holds_node]
    exact ⟨by simpa using hcell, hclosed⟩

/-- An open path is held as long as its own cells stay as they are. -/
theorem OpenHolds.congr {c c' : Cells α β γ} {below : List (Link γ)}
    {fs : List (Frame (LeafAt α γ) (NodeAt β))} (h : OpenHolds c below fs)
    (hl : ∀ l ∈ pathLeaves fs, c'.leaves.cell l.handle = c.leaves.cell l.handle)
    (hn : ∀ n ∈ pathNodes fs, c'.nodes.cell n.handle = c.nodes.cell n.handle) :
    OpenHolds c' below fs := by
  induction fs generalizing below with
  | nil => trivial
  | cons f fs ih =>
    simp only [pathLeaves, pathNodes, List.mem_append, List.mem_cons, List.mem_flatMap] at hl hn
    obtain ⟨hcell, hclosed, hrest⟩ := h
    refine ⟨by rw [hn f.label (by simp), hcell], ?_, ?_⟩
    · intro t ht
      apply (hclosed t ht).congr
      · exact fun l hlt => hl l (Or.inr ⟨t, ht, hlt⟩)
      · exact fun n hnt => hn n (Or.inr (Or.inr ⟨t, ht, hnt⟩))
    · exact ih hrest (fun l hlt => hl l (Or.inl hlt)) (fun n hnt => hn n (Or.inl hnt))

theorem OpenHolds.leaf_lt {c : Cells α β γ} {below : List (Link γ)}
    {fs : List (Frame (LeafAt α γ) (NodeAt β))} (h : OpenHolds c below fs) :
    ∀ l ∈ pathLeaves fs, l.handle < c.leaves.next := by
  induction fs generalizing below with
  | nil => simp [pathLeaves]
  | cons f fs ih =>
    obtain ⟨_, hclosed, hrest⟩ := h
    intro l hl
    simp only [pathLeaves, List.mem_append, List.mem_flatMap] at hl
    rcases hl with hl | ⟨t, ht, hl⟩
    · exact ih hrest l hl
    · exact (hclosed t ht).leaf_lt l hl

theorem OpenHolds.node_lt {c : Cells α β γ} {below : List (Link γ)}
    {fs : List (Frame (LeafAt α γ) (NodeAt β))} (h : OpenHolds c below fs) :
    ∀ n ∈ pathNodes fs, n.handle < c.nodes.next := by
  induction fs generalizing below with
  | nil => simp [pathNodes]
  | cons f fs ih =>
    obtain ⟨hcell, hclosed, hrest⟩ := h
    intro n hn
    simp only [pathNodes, List.mem_append, List.mem_cons, List.mem_flatMap] at hn
    rcases hn with hn | rfl | ⟨t, ht, hn⟩
    · exact ih hrest n hn
    · exact Store.lt_next hcell
    · exact (hclosed t ht).node_lt n hn

theorem OpenHolds.whole_or_nil {c : Cells α β γ} {fs : List (Frame (LeafAt α γ) (NodeAt β))}
    (h : OpenHolds c [] fs) :
    fs = [] ∨ ∃ t, Holds c t ∧ t.leaves = pathLeaves fs ∧ t.nodes = pathNodes fs := by
  cases hw : whole fs with
  | none =>
    cases fs with
    | nil => exact .inl rfl
    | cons f fs => cases hw
  | some t => exact .inr ⟨t, whole_holds h hw, whole_leaves hw, whole_nodes hw⟩

/-- The cells of a path are in use. -/
theorem OpenHolds.leaf_cell {c : Cells α β γ} {fs : List (Frame (LeafAt α γ) (NodeAt β))}
    (h : OpenHolds c [] fs) : ∀ l ∈ pathLeaves fs, c.leaves.cell l.handle = some l.content := by
  rcases h.whole_or_nil with rfl | ⟨t, ht, hleaves, _⟩
  · simp [pathLeaves]
  · rw [← hleaves]
    exact ht.leaf_cell

theorem OpenHolds.node_used {c : Cells α β γ} {fs : List (Frame (LeafAt α γ) (NodeAt β))}
    (h : OpenHolds c [] fs) : ∀ n ∈ pathNodes fs, (c.nodes.cell n.handle).isSome := by
  rcases h.whole_or_nil with rfl | ⟨t, ht, _, hnodes⟩
  · simp [pathNodes]
  · rw [← hnodes]
    exact ht.node_used

/-- A new leaf is none of the path, and its cell changes none of them. -/
theorem OpenHolds.alloc_leaf {c : Cells α β γ} {below : List (Link γ)}
    {fs : List (Frame (LeafAt α γ) (NodeAt β))} (h : OpenHolds c below fs) (a : α) :
    c.leaves.next ∉ (pathLeaves fs).map LeafAt.handle ∧
      OpenHolds { c with leaves := c.leaves.alloc a } below fs := by
  refine ⟨?_, h.congr ?_ (fun _ _ => rfl)⟩
  · intro hmem
    obtain ⟨l, hl, heq⟩ := List.mem_map.mp hmem
    exact Nat.ne_of_lt (h.leaf_lt l hl) heq
  · intro l hl
    exact Store.alloc_cell_of_ne a (Nat.ne_of_lt (h.leaf_lt l hl))

/-- The same for a new node. -/
theorem OpenHolds.alloc_node {c : Cells α β γ} {below : List (Link γ)}
    {fs : List (Frame (LeafAt α γ) (NodeAt β))} (h : OpenHolds c below fs)
    (b : β × List (Link γ)) :
    c.nodes.next ∉ (pathNodes fs).map NodeAt.handle ∧
      OpenHolds { c with nodes := c.nodes.alloc b } below fs := by
  refine ⟨?_, h.congr (fun _ _ => rfl) ?_⟩
  · intro hmem
    obtain ⟨n, hn, heq⟩ := List.mem_map.mp hmem
    exact Nat.ne_of_lt (h.node_lt n hn) heq
  · intro n hn
    exact Store.alloc_cell_of_ne b (Nat.ne_of_lt (h.node_lt n hn))

/-- A link of the innermost node to a complete tree is a closed child. -/
theorem OpenHolds.absorb {c : Cells α β γ} {t : Held α β γ} {f : Frame (LeafAt α γ) (NodeAt β)}
    {fs : List (Frame (LeafAt α γ) (NodeAt β))} (h : OpenHolds c [link t] (f :: fs))
    (ht : Holds c t) : OpenHolds c [] (f.add t :: fs) := by
  obtain ⟨hcell, hclosed, hrest⟩ := h
  refine ⟨by simpa [Frame.add] using hcell, ?_, hrest⟩
  intro t' ht'
  rcases List.mem_append.mp ht' with ht' | ht'
  · exact hclosed t' ht'
  · rw [List.mem_singleton] at ht'
    exact ht' ▸ ht

/-- The innermost node is complete: it becomes a closed child of the node around it. -/
theorem OpenHolds.close {c : Cells α β γ} {f g : Frame (LeafAt α γ) (NodeAt β)}
    {fs : List (Frame (LeafAt α γ) (NodeAt β))} (h : OpenHolds c [] (f :: g :: fs)) :
    OpenHolds c [] (g.add (.node f.label f.closed) :: fs) := by
  obtain ⟨hf, hfc, hg⟩ := h
  apply OpenHolds.absorb hg
  rw [holds_node]
  exact ⟨by simpa using hf, hfc⟩

/-- Add a link at the end of the children of a node. -/
def Cells.addLink (c : Cells α β γ) (h : Nat) (l : Link γ) : Option (Cells α β γ) :=
  (c.nodes.modify h (fun x => (x.1, x.2 ++ [l]))).map (fun s => { c with nodes := s })

/-- A link added to the innermost node: every other cell of the path stays as it was. -/
theorem OpenHolds.addLink {c : Cells α β γ} {below : List (Link γ)}
    {f : Frame (LeafAt α γ) (NodeAt β)} {fs : List (Frame (LeafAt α γ) (NodeAt β))}
    (h : OpenHolds c below (f :: fs)) (hd : ((pathNodes (f :: fs)).map NodeAt.handle).Nodup)
    (l : Link γ) :
    ∃ c', c.addLink f.label.handle l = some c' ∧ c'.leaves = c.leaves ∧
      c'.nodes.next = c.nodes.next ∧
      (∀ j, j ≠ f.label.handle → c'.nodes.cell j = c.nodes.cell j) ∧
      OpenHolds c' (below ++ [l]) (f :: fs) := by
  obtain ⟨hcell, hclosed, hrest⟩ := h
  obtain ⟨s, hs, hnext, hself, hother⟩ :=
    Store.modify_of_some (fun x => (x.1, x.2 ++ [l])) hcell
  simp only [pathNodes, List.map_append, List.map_cons, List.nodup_append, List.nodup_cons] at hd
  refine ⟨{ c with nodes := s }, by simp [Cells.addLink, hs], rfl, hnext, hother, ?_, ?_, ?_⟩
  · simpa using hself
  · intro t ht
    refine (hclosed t ht).congr (fun _ _ => rfl) ?_
    intro n hn
    apply hother
    intro heq
    apply hd.2.1.1
    rw [← heq]
    exact List.mem_map_of_mem (List.mem_flatMap.mpr ⟨t, ht, hn⟩)
  · refine hrest.congr (fun _ _ => rfl) ?_
    intro n hn
    apply hother
    intro heq
    exact hd.2.2 n.handle (List.mem_map_of_mem hn) f.label.handle (by simp) heq

/-! ## What a change touches -/

/-- `c'` is `c` after changes of the leaf cells `ls`, of the node cells `ns` and of new cells. -/
structure Touches (c c' : Cells α β γ) (ls ns : List Nat) : Prop where
  leaves_next : c.leaves.next ≤ c'.leaves.next
  nodes_next : c.nodes.next ≤ c'.nodes.next
  leaf : ∀ i, i < c.leaves.next → i ∉ ls → c'.leaves.cell i = c.leaves.cell i
  node : ∀ i, i < c.nodes.next → i ∉ ns → c'.nodes.cell i = c.nodes.cell i

theorem Touches.refl (c : Cells α β γ) (ls ns : List Nat) : Touches c c ls ns :=
  ⟨le_rfl, le_rfl, fun _ _ _ => rfl, fun _ _ _ => rfl⟩

theorem Touches.trans {c c1 c2 : Cells α β γ} {ls ns : List Nat} (h1 : Touches c c1 ls ns)
    (h2 : Touches c1 c2 ls ns) : Touches c c2 ls ns := by
  refine ⟨h1.leaves_next.trans h2.leaves_next, h1.nodes_next.trans h2.nodes_next, ?_, ?_⟩
  · intro i hi hls
    rw [h2.leaf i (Nat.lt_of_lt_of_le hi h1.leaves_next) hls, h1.leaf i hi hls]
  · intro i hi hns
    rw [h2.node i (Nat.lt_of_lt_of_le hi h1.nodes_next) hns, h1.node i hi hns]

/-- One leaf cell, or none. -/
theorem touches_leaf {c : Cells α β γ} {s : Store α} {m : Nat} {ls : List Nat} (ns : List Nat)
    (hnext : s.next = c.leaves.next) (hother : ∀ j, j ≠ m → s.cell j = c.leaves.cell j)
    (hm : m ∈ ls) : Touches c { c with leaves := s } ls ns := by
  refine ⟨hnext.ge, le_rfl, ?_, fun _ _ _ => rfl⟩
  intro i _ hi
  apply hother
  rintro rfl
  exact hi hm

theorem touches_alloc_leaf (c : Cells α β γ) (a : α) (ls ns : List Nat) :
    Touches c { c with leaves := c.leaves.alloc a } ls ns :=
  ⟨Nat.le_succ _, le_rfl, fun _ hi _ => Store.alloc_cell_of_ne a (Nat.ne_of_lt hi),
    fun _ _ _ => rfl⟩

theorem touches_alloc_node (c : Cells α β γ) (b : β × List (Link γ)) (ls ns : List Nat) :
    Touches c { c with nodes := c.nodes.alloc b } ls ns :=
  ⟨le_rfl, Nat.le_succ _, fun _ _ _ => rfl,
    fun _ hi _ => Store.alloc_cell_of_ne b (Nat.ne_of_lt hi)⟩

theorem touches_addLink {c c' : Cells α β γ} {b : Nat} {l : Link γ} {ns : List Nat}
    (h : c.addLink b l = some c') (ls : List Nat) (hb : b ∈ ns) : Touches c c' ls ns := by
  obtain ⟨s, hs, rfl⟩ := Option.map_eq_some_iff.mp h
  obtain ⟨hnext, hother⟩ := Store.modify_others hs
  refine ⟨le_rfl, hnext.ge, fun _ _ _ => rfl, ?_⟩
  intro i _ hi
  apply hother
  rintro rfl
  exact hi hb

theorem Emptied.touches {c c' : Cells α β γ} {ls ns ls' ns' : List Nat} (h : Emptied c c' ls ns)
    (hl : ∀ i ∈ ls, i ∈ ls') (hn : ∀ i ∈ ns, i ∈ ns') : Touches c c' ls' ns' := by
  refine ⟨h.leaves_next.ge, h.nodes_next.ge, ?_, ?_⟩
  · intro i _ hi
    rw [h.leaf, if_neg (fun hmem => hi (hl i hmem))]
  · intro i _ hi
    rw [h.node, if_neg (fun hmem => hi (hn i hmem))]

/-- A path with other cells is held as before. -/
theorem OpenHolds.touched {c c' : Cells α β γ} {ls ns : List Nat} {below : List (Link γ)}
    {fs : List (Frame (LeafAt α γ) (NodeAt β))} (h : OpenHolds c below fs)
    (ht : Touches c c' ls ns) (hl : ∀ i ∈ (pathLeaves fs).map LeafAt.handle, i ∉ ls)
    (hn : ∀ i ∈ (pathNodes fs).map NodeAt.handle, i ∉ ns) : OpenHolds c' below fs := by
  apply h.congr
  · intro l hlt
    exact ht.leaf _ (h.leaf_lt l hlt) (hl _ (List.mem_map_of_mem hlt))
  · intro n hnt
    exact ht.node _ (h.node_lt n hnt) (hn _ (List.mem_map_of_mem hnt))

end linked
