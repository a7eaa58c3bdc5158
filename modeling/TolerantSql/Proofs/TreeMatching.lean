import Mathlib.Data.List.Forall2
import TolerantSql.Tree.Basic

/-!
# Matching trees with expected ones

An expected tree says less than the trees it admits: it leaves open where tokens
stand, and with a placeholder which token stands there. Matching is therefore a
preorder (`Tree.admits_refl`, `Tree.admits_trans`), trees that admit each other
differ in the places of their tokens only (`Tree.eraseSpans_of_admits` and
`Tree.admits_of_eraseSpans`), and an expected tree in which more tokens are left
open admits at least as much (`Tree.admits_blank`).

All of it is true of leaves by the cases of a leaf, and of trees because matching
compares them node by node: `Tree.admits_induct` is induction over two trees that
match.
-/

namespace TolerantSql

/-! ## Leaves -/

namespace Leaf

variable {l l' l'' : Leaf}

/-- The leaf with its token left open. Errors say what they say. -/
def blank : Leaf → Leaf
  | token _ => placeholder
  | leaf => leaf

theorem admits_refl (l : Leaf) : l.admits l = true := by
  cases l <;> simp [admits]

/-- A placeholder in the middle admits a token or a placeholder, and only a
placeholder admits it. -/
theorem admits_trans (h : l.admits l' = true) (h' : l'.admits l'' = true) :
    l.admits l'' = true := by
  cases l <;> cases l' <;> cases l'' <;> simp_all [admits]

/-- Leaves that admit each other are equal up to places. -/
theorem erase_of_admits (h : l.admits l' = true) (h' : l'.admits l = true) :
    l.mapToken (fun t => { t with span := .empty 0 })
      = l'.mapToken (fun t => { t with span := .empty 0 }) := by
  cases l <;> cases l' <;> simp_all [mapToken, admits]

/-- Leaves that are equal up to places are as expected of each other. -/
theorem admits_of_erase
    (h : l.mapToken (fun t => { t with span := .empty 0 })
      = l'.mapToken (fun t => { t with span := .empty 0 })) : l.admits l' = true := by
  cases l <;> cases l' <;> simp_all [mapToken, admits]

theorem admits_blank (h : l.admits l' = true) : l.blank.admits l' = true := by
  cases l <;> cases l' <;> simp_all [blank, admits]

end Leaf

/-! ## Trees -/

mutual

/-- **The tree with tokens left open at the chosen places.** A place is the way to
it from the root, by the numbers of the children. -/
def Tree.blank (chosen : List Nat → Bool) : Tree → Tree
  | .node kind children => .node kind (Forest.blank chosen 0 children)
  | .leaf l => .leaf (if chosen [] then l.blank else l)

/-- The same for trees side by side, of which the first has a given number. -/
def Forest.blank (chosen : List Nat → Bool) (index : Nat) : List Tree → List Tree
  | [] => []
  | t :: rest =>
    t.blank (fun place => chosen (index :: place)) :: Forest.blank chosen (index + 1) rest

end

/-- Forests match when they do tree by tree. -/
theorem Forest.admits_iff {es as : Forest} :
    Forest.admits es as = true ↔ List.Forall₂ (fun e a : Tree => e.admits a = true) es as := by
  induction es generalizing as with
  | nil => cases as <;> simp [Forest.admits]
  | cons e es ih => cases as <;> simp [Forest.admits, ih]

namespace Tree

variable {e a b : Tree}

theorem admits_node {kind kind' : NodeKind} {es as : Forest} :
    (node kind es).admits (node kind' as) = true
      ↔ kind = kind' ∧ List.Forall₂ (fun e a : Tree => e.admits a = true) es as := by
  rw [admits, Bool.and_eq_true, beq_iff_eq, Forest.admits_iff]

/-- **Induction over two trees that match**: a property holds of them if it holds of
leaves that match and passes from the children of two nodes, pair by pair, to the
nodes. -/
theorem admits_induct {motive : (e a : Tree) → e.admits a = true → Prop}
    (node : ∀ kind es as h, List.Forall₂ (fun e a : Tree => ∃ h, motive e a h) es as →
      motive (.node kind es) (.node kind as) h)
    (leaf : ∀ (l l' : Leaf) (h : l.admits l' = true), motive (.leaf l) (.leaf l') h)
    (h : e.admits a = true) : motive e a h := by
  induction e using Tree.induct generalizing a with
  | leaf l =>
    cases a with
    | node kind' as => cases h
    | leaf l' => exact leaf l l' h
  | node kind es ih =>
    cases a with
    | leaf l' => cases h
    | node kind' as =>
      obtain ⟨rfl, hchildren⟩ := admits_node.1 h
      refine node kind es as h ?_
      clear h
      induction hchildren with
      | nil => exact .nil
      | cons hchild _ ihs =>
        obtain ⟨ihchild, ih⟩ := List.forall_mem_cons.1 ih
        exact .cons ⟨hchild, ihchild hchild⟩ (ihs ih)

theorem admits_refl (a : Tree) : a.admits a = true := by
  induction a using Tree.induct with
  | leaf l => exact l.admits_refl
  | node kind children ih => exact admits_node.2 ⟨rfl, List.forall₂_same.2 ih⟩

theorem admits_trans (h : e.admits a = true) (h' : a.admits b = true) : e.admits b = true := by
  induction h using admits_induct generalizing b with
  | leaf l l' hl =>
    cases b with
    | node kind bs => cases h'
    | leaf l'' => exact Leaf.admits_trans hl h'
  | node kind es as h ih =>
    cases b with
    | leaf l'' => cases h'
    | node kind' bs =>
      obtain ⟨rfl, hbs⟩ := admits_node.1 h'
      refine admits_node.2 ⟨rfl, ?_⟩
      clear h h'
      induction ih generalizing bs with
      | nil => exact hbs
      | cons hchild _ ihs =>
        cases hbs with
        | cons hb hbs =>
          obtain ⟨_, hchild⟩ := hchild
          exact .cons (hchild hb) (ihs _ hbs)

/-- **Trees that admit each other are equal up to places.** -/
theorem eraseSpans_of_admits (h : e.admits a = true) (h' : a.admits e = true) :
    e.eraseSpans = a.eraseSpans := by
  induction h using admits_induct with
  | leaf l l' hl => exact congrArg leaf (Leaf.erase_of_admits hl h')
  | node kind es as h ih =>
    obtain ⟨-, hback⟩ := admits_node.1 h'
    refine congrArg (node kind) ?_
    clear h h'
    induction ih with
    | nil => rfl
    | cons hchild _ ihs =>
      cases hback with
      | cons hb hback =>
        obtain ⟨_, hchild⟩ := hchild
        exact congrArg₂ List.cons (hchild hb) (ihs hback)

/-- **Leaving tokens open admits at least as much.** -/
theorem admits_blank (h : e.admits a = true) (chosen : List Nat → Bool) :
    (e.blank chosen).admits a = true := by
  induction h using admits_induct generalizing chosen with
  | leaf l l' hl =>
    show Leaf.admits (if chosen [] then l.blank else l) l' = true
    split
    · exact Leaf.admits_blank hl
    · exact hl
  | node kind es as h ih =>
    refine admits_node.2 ⟨rfl, ?_⟩
    clear h
    generalize 0 = index
    induction ih generalizing index with
    | nil => exact .nil
    | cons hchild _ ihs =>
      obtain ⟨_, hchild⟩ := hchild
      exact .cons (hchild _) (ihs (index + 1))

end Tree

mutual

/-- **Trees that are equal up to places** are as expected of each other. -/
theorem Tree.admits_of_eraseSpans (t t' : Tree) (h : t.eraseSpans = t'.eraseSpans) :
    t.admits t' = true := by
  cases t with
  | node kind children =>
    cases t' with
    | node kind' children' =>
      obtain ⟨hkind, hchildren⟩ := Tree.node.inj h
      rw [Tree.admits, hkind, Forest.admits_of_eraseSpans children children' hchildren,
        beq_self_eq_true, Bool.true_and]
    | leaf l' => cases h
  | leaf l =>
    cases t' with
    | node kind' children' => cases h
    | leaf l' => exact Leaf.admits_of_erase (Tree.leaf.inj h)

theorem Forest.admits_of_eraseSpans (f f' : Forest)
    (h : Forest.mapTokens (fun t => { t with span := .empty 0 }) f
      = Forest.mapTokens (fun t => { t with span := .empty 0 }) f') :
    Forest.admits f f' = true := by
  cases f with
  | nil =>
    cases f' with
    | nil => rfl
    | cons t' f' => cases h
  | cons t f =>
    cases f' with
    | nil => cases h
    | cons t' f' =>
      obtain ⟨htree, hforest⟩ := List.cons.inj h
      rw [Forest.admits, Tree.admits_of_eraseSpans t t' htree,
        Forest.admits_of_eraseSpans f f' hforest, Bool.true_and]

end

/-- **Matching is a preorder**, and two trees are equal in it when they are equal up to
the places of their tokens. An expected tree goes on to admit what it admits when
any of its tokens are left open. -/
theorem Tree.admits_preorder :
    (∀ a : Tree, a.admits a = true)
    ∧ (∀ e a b : Tree, e.admits a = true → a.admits b = true → e.admits b = true)
    ∧ (∀ a b : Tree, a.admits b = true ∧ b.admits a = true ↔ a.eraseSpans = b.eraseSpans)
    ∧ ∀ (e a : Tree) (chosen : List Nat → Bool),
      e.admits a = true → (e.blank chosen).admits a = true := by
  refine ⟨admits_refl, fun _ _ _ => admits_trans, fun a b => ⟨?_, fun h => ?_⟩, ?_⟩
  · rintro ⟨h, h'⟩
    exact eraseSpans_of_admits h h'
  · exact ⟨admits_of_eraseSpans a b h, admits_of_eraseSpans b a h.symm⟩
  · exact fun e a chosen h => admits_blank h chosen

/-- A table name at one place admits the same name at another, and so it does with its
token left open; but it does not admit the tree in which it is left open. -/
theorem Tree.admits_preorder_tableName :
    let tree (start : Nat) : Tree :=
      .node .renameTo [.token ⟨.keyword .TO, "TO", ⟨0, 2⟩⟩,
        .node .tableName [.token ⟨.identifier, "t", ⟨start, start + 1⟩⟩]]
    let pattern := (tree 3).blank (· == [1, 0])
    pattern = .node .renameTo [.token ⟨.keyword .TO, "TO", ⟨0, 2⟩⟩, .node .tableName [.placeholder]]
    ∧ (tree 3).admits (tree 9) = true ∧ (tree 9).admits (tree 3) = true
    ∧ (tree 3).eraseSpans = (tree 9).eraseSpans
    ∧ pattern.admits (tree 3) = true ∧ pattern.admits (tree 9) = true
    ∧ (tree 3).admits pattern = false ∧ (tree 3).eraseSpans ≠ pattern.eraseSpans := by
  intro tree pattern
  obtain ⟨hrefl, htrans, hkernel, hblank⟩ := Tree.admits_preorder
  have hthere : (tree 3).admits (tree 9) = true := by decide
  have hback : (tree 9).admits (tree 3) = true := by decide
  have hopen : pattern.admits (tree 3) = true := hblank _ _ _ (hrefl (tree 3))
  have hclosed : (tree 3).admits pattern = false := by decide
  refine ⟨by decide, hthere, hback, (hkernel _ _).1 ⟨hthere, hback⟩, hopen,
    htrans _ _ _ hopen hthere, hclosed, fun h => ?_⟩
  rw [((hkernel _ _).2 h).1] at hclosed
  cases hclosed

end TolerantSql
