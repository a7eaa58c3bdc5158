import TolerantSql.Tree.Basic

/-!
# The nodes of a tree

What holds of a parse tree is often said of each node anywhere in it: what its
children are, and in which order. `Tree.nodes` lists the nodes with their
children, so that such a statement is one about the members of a list, and
composes the way forests do.
-/

namespace TolerantSql

mutual

/-- **The nodes of a tree**, the root first, each with its children. -/
def Tree.nodes : Tree → List (NodeKind × Forest)
  | .node kind children => (kind, children) :: Forest.nodes children
  | .leaf _ => []

/-- The nodes of trees side by side. -/
def Forest.nodes : List Tree → List (NodeKind × Forest)
  | [] => []
  | t :: rest => t.nodes ++ Forest.nodes rest

end

namespace Forest

@[simp] theorem nodes_nil : nodes [] = [] := rfl

@[simp] theorem nodes_cons (t : Tree) (f : Forest) : nodes (t :: f) = t.nodes ++ nodes f := rfl

@[simp] theorem nodes_append (f g : Forest) : nodes (f ++ g) = nodes f ++ nodes g := by
  induction f with
  | nil => rfl
  | cons t f ih => rw [List.cons_append, nodes_cons, nodes_cons, ih, List.append_assoc]

theorem mem_nodes {f : Forest} {n : NodeKind × Forest} :
    n ∈ nodes f ↔ ∃ t ∈ f, n ∈ t.nodes := by
  induction f with
  | nil => simp
  | cons t f ih => simp [ih]

theorem mem_leaves {f : Forest} {l : Leaf} : l ∈ leaves f ↔ ∃ t ∈ f, l ∈ t.leaves := by
  induction f with
  | nil => simp
  | cons t f ih => simp [ih]

theorem terminals_singleton (t : Tree) : terminals [t] = t.terminals := by
  simp [terminals, Tree.terminals]

theorem errors_singleton (t : Tree) : errors [t] = t.errors := by
  simp [errors, Tree.errors]

/-- Leaves have no nodes. -/
theorem nodes_eq_nil {f : Forest} (h : ∀ t ∈ f, ∃ l, t = .leaf l) : nodes f = [] := by
  refine List.eq_nil_iff_forall_not_mem.2 fun n hn => ?_
  obtain ⟨t, ht, hmem⟩ := mem_nodes.1 hn
  obtain ⟨l, rfl⟩ := h t ht
  cases hmem

end Forest

namespace Tree

@[simp] theorem nodes_node (kind : NodeKind) (children : Forest) :
    (node kind children).nodes = (kind, children) :: Forest.nodes children := rfl

@[simp] theorem nodes_leaf (l : Leaf) : (leaf l).nodes = [] := rfl

@[simp] theorem leaves_node (kind : NodeKind) (children : Forest) :
    (node kind children).leaves = Forest.leaves children := rfl

@[simp] theorem leaves_leaf (l : Leaf) : (leaf l).leaves = [l] := rfl

/-- The children of a node below the root have no leaves but those of the tree. -/
theorem leaves_subset_of_mem_nodes {t : Tree} {n : NodeKind × Forest} (h : n ∈ t.nodes) :
    Forest.leaves n.2 ⊆ t.leaves := by
  induction t using Tree.induct with
  | leaf l => cases h
  | node kind children ih =>
    rcases List.mem_cons.1 h with rfl | h
    · exact List.Subset.refl _
    · obtain ⟨child, hchild, hmem⟩ := Forest.mem_nodes.1 h
      intro l hl
      exact Forest.mem_leaves.2 ⟨child, hchild, ih child hchild hmem hl⟩

/-- Every leaf below the root is a child of some node. -/
theorem exists_parent_of_leaf {kind : NodeKind} {children : Forest} {l : Leaf}
    (h : l ∈ (node kind children).leaves) :
    ∃ n ∈ (node kind children).nodes, .leaf l ∈ n.2 := by
  generalize ht : node kind children = t at h ⊢
  induction t using Tree.induct generalizing kind children with
  | leaf l' => cases ht
  | node kind' children' ih =>
    obtain ⟨child, hchild, hl⟩ := Forest.mem_leaves.1 h
    cases child with
    | leaf l' =>
      obtain rfl : l = l' := List.mem_singleton.1 hl
      exact ⟨(kind', children'), List.mem_cons_self, hchild⟩
    | node kind'' children'' =>
      obtain ⟨n, hn, hmem⟩ := ih _ hchild rfl hl
      exact ⟨n, List.mem_cons_of_mem _ (Forest.mem_nodes.2 ⟨_, hchild, hn⟩), hmem⟩

/-- Every node below the root is a child of some node. -/
theorem exists_parent_of_node {t : Tree} {n : NodeKind × Forest} (h : n ∈ t.nodes) :
    t = .node n.1 n.2 ∨ ∃ m ∈ t.nodes, .node n.1 n.2 ∈ m.2 := by
  induction t using Tree.induct with
  | leaf l => cases h
  | node kind children ih =>
    rcases List.mem_cons.1 h with rfl | h
    · exact .inl rfl
    · obtain ⟨child, hchild, hmem⟩ := Forest.mem_nodes.1 h
      refine .inr ?_
      rcases ih child hchild hmem with rfl | ⟨m, hm, hn⟩
      · exact ⟨(kind, children), List.mem_cons_self, hchild⟩
      · exact ⟨m, List.mem_cons_of_mem _ (Forest.mem_nodes.2 ⟨child, hchild, hm⟩), hn⟩

end Tree

end TolerantSql
