-- Ordered trees of any depth and width, and a tree with one open path: the
-- nodes from the root to the node that still takes children.
import Mathlib.Data.List.Basic
import Mathlib.Data.List.Nodup

namespace rose

/-! ## Trees -/

inductive RoseTree (α β : Type) where
  | leaf (a : α)
  | node (b : β) (children : List (RoseTree α β))

variable {α β γ δ : Type}

/-- Induction on a tree: the children of a node are smaller trees. -/
theorem RoseTree.ind {P : RoseTree α β → Prop} (leaf : ∀ a, P (.leaf a))
    (node : ∀ b ts, (∀ t ∈ ts, P t) → P (.node b ts)) (t : RoseTree α β) : P t :=
  @RoseTree.rec α β P (fun ts => ∀ t ∈ ts, P t) leaf node
    (fun _ h => absurd h List.not_mem_nil)
    (fun _ _ h hs t ht => by
      rcases List.mem_cons.mp ht with rfl | ht
      · exact h
      · exact hs t ht) t

mutual

/-- The leaves, left to right. -/
def RoseTree.leaves : RoseTree α β → List α
  | .leaf a => [a]
  | .node _ ts => leavesAll ts

def leavesAll : List (RoseTree α β) → List α
  | [] => []
  | t :: ts => t.leaves ++ leavesAll ts

end

mutual

/-- The labels of the nodes, each before those of its children. -/
def RoseTree.nodes : RoseTree α β → List β
  | .leaf _ => []
  | .node b ts => b :: nodesAll ts

def nodesAll : List (RoseTree α β) → List β
  | [] => []
  | t :: ts => t.nodes ++ nodesAll ts

end

mutual

def RoseTree.map (f : α → γ) (g : β → δ) : RoseTree α β → RoseTree γ δ
  | .leaf a => .leaf (f a)
  | .node b ts => .node (g b) (mapAll f g ts)

def mapAll (f : α → γ) (g : β → δ) : List (RoseTree α β) → List (RoseTree γ δ)
  | [] => []
  | t :: ts => t.map f g :: mapAll f g ts

end

theorem leavesAll_eq (ts : List (RoseTree α β)) : leavesAll ts = ts.flatMap RoseTree.leaves := by
  induction ts with
  | nil => rfl
  | cons t ts ih => rw [leavesAll, ih, List.flatMap_cons]

theorem nodesAll_eq (ts : List (RoseTree α β)) : nodesAll ts = ts.flatMap RoseTree.nodes := by
  induction ts with
  | nil => rfl
  | cons t ts ih => rw [nodesAll, ih, List.flatMap_cons]

theorem mapAll_eq (f : α → γ) (g : β → δ) (ts : List (RoseTree α β)) :
    mapAll f g ts = ts.map (RoseTree.map f g) := by
  induction ts with
  | nil => rfl
  | cons t ts ih => rw [mapAll, ih, List.map_cons]

@[simp] theorem RoseTree.leaves_leaf (a : α) : (leaf a : RoseTree α β).leaves = [a] := rfl

@[simp] theorem RoseTree.leaves_node (b : β) (ts : List (RoseTree α β)) :
    (node b ts).leaves = ts.flatMap RoseTree.leaves := leavesAll_eq ts

@[simp] theorem RoseTree.nodes_leaf (a : α) : (leaf a : RoseTree α β).nodes = [] := rfl

@[simp] theorem RoseTree.nodes_node (b : β) (ts : List (RoseTree α β)) :
    (node b ts).nodes = b :: ts.flatMap RoseTree.nodes := by
  rw [RoseTree.nodes, nodesAll_eq]

@[simp] theorem RoseTree.map_leaf (f : α → γ) (g : β → δ) (a : α) :
    (leaf a : RoseTree α β).map f g = .leaf (f a) := rfl

@[simp] theorem RoseTree.map_node (f : α → γ) (g : β → δ) (b : β) (ts : List (RoseTree α β)) :
    (node b ts).map f g = .node (g b) (ts.map (RoseTree.map f g)) := by
  rw [RoseTree.map, mapAll_eq]

/-! ## The rightmost spine -/

/-- `Spine t bs`: from the root of `t`, each label of `bs` is the label of the last child
of the node before it. -/
inductive Spine : RoseTree α β → List β → Prop
  | tip (b : β) (ts : List (RoseTree α β)) : Spine (.node b ts) [b]
  | down (b : β) (ts : List (RoseTree α β)) {t : RoseTree α β} {bs : List β} :
      Spine t bs → Spine (.node b (ts ++ [t])) (b :: bs)

theorem Spine.head {t : RoseTree α β} {bs : List β} (h : Spine t bs) :
    ∃ b bs' ts, bs = b :: bs' ∧ t = .node b ts := by
  cases h with
  | tip b ts => exact ⟨b, [], ts, rfl, rfl⟩
  | down b ts _ => exact ⟨b, _, _, rfl, rfl⟩

/-! ## An open path -/

/-- A node of the open path: its label, and its children that are complete. -/
structure Frame (α β : Type) where
  label : β
  closed : List (RoseTree α β)

/-- The tree around `t`, when `t` is the last child of the innermost node of the path. The
innermost node stands first. -/
def plug (t : RoseTree α β) : List (Frame α β) → RoseTree α β
  | [] => t
  | f :: fs => plug (.node f.label (f.closed ++ [t])) fs

/-- The whole tree of an open path. -/
def whole : List (Frame α β) → Option (RoseTree α β)
  | [] => none
  | f :: fs => some (plug (.node f.label f.closed) fs)

/-- The leaves of the closed children along the path, left to right. -/
def pathLeaves : List (Frame α β) → List α
  | [] => []
  | f :: fs => pathLeaves fs ++ f.closed.flatMap RoseTree.leaves

def pathNodes : List (Frame α β) → List β
  | [] => []
  | f :: fs => pathNodes fs ++ f.label :: f.closed.flatMap RoseTree.nodes

theorem plug_leaves (t : RoseTree α β) (fs : List (Frame α β)) :
    (plug t fs).leaves = pathLeaves fs ++ t.leaves := by
  induction fs generalizing t with
  | nil => rfl
  | cons f fs ih => simp [plug, ih, pathLeaves]

theorem plug_nodes (t : RoseTree α β) (fs : List (Frame α β)) :
    (plug t fs).nodes = pathNodes fs ++ t.nodes := by
  induction fs generalizing t with
  | nil => rfl
  | cons f fs ih => simp [plug, ih, pathNodes]

theorem whole_leaves {fs : List (Frame α β)} {t : RoseTree α β} (h : whole fs = some t) :
    t.leaves = pathLeaves fs := by
  cases fs with
  | nil => cases h
  | cons f fs =>
    cases h
    rw [plug_leaves, RoseTree.leaves_node, pathLeaves]

theorem whole_nodes {fs : List (Frame α β)} {t : RoseTree α β} (h : whole fs = some t) :
    t.nodes = pathNodes fs := by
  cases fs with
  | nil => cases h
  | cons f fs =>
    cases h
    rw [plug_nodes, RoseTree.nodes_node, pathNodes]

theorem plug_spine {t : RoseTree α β} {bs : List β} (h : Spine t bs) (fs : List (Frame α β)) :
    Spine (plug t fs) ((fs.map Frame.label).reverse ++ bs) := by
  induction fs generalizing t bs with
  | nil => exact h
  | cons f fs ih =>
    have := ih (Spine.down f.label f.closed h)
    simpa [plug] using this

/-- The open path is the rightmost spine of its tree. -/
theorem whole_spine {fs : List (Frame α β)} {t : RoseTree α β} (h : whole fs = some t) :
    Spine t (fs.map Frame.label).reverse := by
  cases fs with
  | nil => cases h
  | cons f fs =>
    cases h
    simpa using plug_spine (Spine.tip f.label f.closed) fs

/-- A complete child for the innermost node. -/
def Frame.add (f : Frame α β) (t : RoseTree α β) : Frame α β := ⟨f.label, f.closed ++ [t]⟩

@[simp] theorem Frame.add_label (f : Frame α β) (t : RoseTree α β) :
    (f.add t).label = f.label := rfl

@[simp] theorem pathLeaves_add_leaf (f : Frame α β) (fs : List (Frame α β)) (a : α) :
    pathLeaves (f.add (.leaf a) :: fs) = pathLeaves (f :: fs) ++ [a] := by
  simp [pathLeaves, Frame.add]

@[simp] theorem pathNodes_add_leaf (f : Frame α β) (fs : List (Frame α β)) (a : α) :
    pathNodes (f.add (.leaf a) :: fs) = pathNodes (f :: fs) := by
  simp [pathNodes, Frame.add]

@[simp] theorem pathLeaves_open (b : β) (fs : List (Frame α β)) :
    pathLeaves (⟨b, []⟩ :: fs) = pathLeaves fs := by
  simp [pathLeaves]

@[simp] theorem pathNodes_open (b : β) (fs : List (Frame α β)) :
    pathNodes (⟨b, []⟩ :: fs) = pathNodes fs ++ [b] := by
  simp [pathNodes]

@[simp] theorem pathLeaves_close (f g : Frame α β) (fs : List (Frame α β)) :
    pathLeaves (g.add (.node f.label f.closed) :: fs) = pathLeaves (f :: g :: fs) := by
  simp [pathLeaves, Frame.add]

@[simp] theorem pathNodes_close (f g : Frame α β) (fs : List (Frame α β)) :
    pathNodes (g.add (.node f.label f.closed) :: fs) = pathNodes (f :: g :: fs) := by
  simp [pathNodes, Frame.add]

/-! ## Other labels on an open path -/

def Frame.map (f : α → γ) (g : β → δ) (x : Frame α β) : Frame γ δ :=
  ⟨g x.label, x.closed.map (RoseTree.map f g)⟩

theorem Frame.map_add (f : α → γ) (g : β → δ) (x : Frame α β) (t : RoseTree α β) :
    (x.add t).map f g = (x.map f g).add (t.map f g) := by
  simp [Frame.map, Frame.add]

theorem plug_map (f : α → γ) (g : β → δ) (t : RoseTree α β) (fs : List (Frame α β)) :
    (plug t fs).map f g = plug (t.map f g) (fs.map (Frame.map f g)) := by
  induction fs generalizing t with
  | nil => rfl
  | cons x fs ih => simp [plug, ih, Frame.map]

theorem whole_map (f : α → γ) (g : β → δ) (fs : List (Frame α β)) :
    whole (fs.map (Frame.map f g)) = (whole fs).map (RoseTree.map f g) := by
  cases fs with
  | nil => rfl
  | cons x fs => simp [whole, plug_map, Frame.map]

end rose
