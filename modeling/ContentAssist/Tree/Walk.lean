import ContentAssist.Sorting
import ContentAssist.Tree.Node

/-! # Walking a tree

The children of a node are the nodes in its fields and in the lists in its fields. They come in the
order of their start offsets; those without one come last, and ties keep the order of the fields.

`Tree.visit` walks a tree in this order. A visitor is asked on the way down, where it may skip a
node, and on the way up, and it carries a state. The first answer that it finds ends the walk.

Main fact: `subtrees_tree`, the walk goes to the children. -/

namespace ContentAssist

/-- A node with the subtrees of its children, in the order of the walk. -/
inductive Tree where
  | mk (root : Node) (subtrees : List Tree)

namespace Tree

/-- The node at the top. -/
def root : Tree → Node
  | mk n _ => n

/-- The subtrees of the children. -/
def subtrees : Tree → List Tree
  | mk _ ts => ts

end Tree

/-- The fields with positions and remarks of the parser; they hold no child nodes. -/
def bookkeepingFields : List String := ["range", "loc", "comments", "errors", "tokens"]

/-- Whether a value is a node: an object with a type, whatever that is. -/
def isNode (v : Json) : Bool := (v.field? "type").isSome

/-- Whether a start offset comes before or with another one; unknown ones come last. -/
def startsNoLater : Option Int → Option Int → Bool
  | some a, some b => a ≤ b
  | some _, none => true
  | none, some _ => false
  | none, none => true

/-- Sorts by start offset; elements that tie keep their order. -/
def sortByStart {α : Type} (start? : α → Option Int) (as : List α) : List α :=
  sortStable (fun a b => startsNoLater (start? a) (start? b)) as

namespace Node

/-- The nodes among values. -/
def nodesOf (ns : List Node) : List Node := ns.filter fun n => isNode n.value

/-- The nodes in the given fields of a value, in the order of the fields. -/
def fieldNodes (n : Node) : List (String × Json) → List Node
  | [] => []
  | (key, v) :: rest =>
    if key ∈ bookkeepingFields then fieldNodes n rest
    else
      let field : Node := ⟨.field key :: n.place, v⟩
      nodesOf (field :: field.items) ++ fieldNodes n rest

/-- The children of a node, in the order of the walk. -/
def children (n : Node) : List Node := sortByStart Node.start? (n.fieldNodes n.value.fields)

end Node

mutual

/-- The tree below a value. -/
def treeAt (place : Place) : Json → Tree
  | .obj fields =>
    .mk ⟨place, .obj fields⟩ (sortByStart (·.root.start?) (fieldTrees place fields))
  | v => .mk ⟨place, v⟩ []

/-- The trees of the nodes in the given fields, in the order of the fields. -/
def fieldTrees (place : Place) : List (String × Json) → List Tree
  | [] => []
  | (key, v) :: rest =>
    if key ∈ bookkeepingFields then fieldTrees place rest
    else
      (match v with
        | .arr items => itemTrees (.field key :: place) 0 items
        | v => if isNode v then [treeAt (.field key :: place) v] else []) ++ fieldTrees place rest

/-- The trees of the nodes among the items of a list. -/
def itemTrees (place : Place) (index : Nat) : List Json → List Tree
  | [] => []
  | v :: rest =>
    (if isNode v then [treeAt (.item index :: place) v] else []) ++ itemTrees place (index + 1) rest

end

/-- The tree below a node. -/
def Node.tree (n : Node) : Tree := treeAt n.place n.value

namespace Node

theorem root_tree (n : Node) : n.tree.root = n := by
  obtain ⟨place, v⟩ := n
  cases v <;> simp [Node.tree, treeAt, Tree.root]

theorem itemTrees_eq (place : Place) (index : Nat) (vs : List Json) :
    itemTrees place index vs = (nodesOf (itemsFrom place index vs)).map Node.tree := by
  induction vs generalizing index with
  | nil => rfl
  | cons v vs ih =>
    rw [itemTrees, ih, itemsFrom, nodesOf, nodesOf, List.filter_cons]
    by_cases h : isNode v = true
    · rw [if_pos h, if_pos h]
      rfl
    · rw [if_neg h, if_neg h]
      rfl

theorem fieldTrees_eq (n : Node) (fields : List (String × Json)) :
    fieldTrees n.place fields = (n.fieldNodes fields).map Node.tree := by
  induction fields with
  | nil => rfl
  | cons f rest ih =>
    obtain ⟨key, v⟩ := f
    rw [fieldTrees.eq_def, fieldNodes.eq_def]
    by_cases hk : key ∈ bookkeepingFields
    · simp only [hk, if_true, ih]
    · simp only [hk, if_false, ih, List.map_append]
      congr 1
      cases v with
      | arr items => exact itemTrees_eq _ _ _
      | obj fields =>
        by_cases h : isNode (.obj fields) = true <;>
          simp [nodesOf, items, itemsFrom, Json.items, h, Node.tree]
      | _ => rfl

/-- **The walk goes to the children**: the subtrees of a node's tree are the trees of its children.
-/
theorem subtrees_tree (n : Node) : n.tree.subtrees = n.children.map Node.tree := by
  obtain ⟨place, v⟩ := n
  cases v with
  | obj fields =>
    have h : (fun a b : Node => startsNoLater a.start? b.start?) =
        fun a b => startsNoLater a.tree.root.start? b.tree.root.start? := by
      simp only [root_tree]
    rw [Node.tree, treeAt, Tree.subtrees, children, fieldTrees_eq ⟨place, .obj fields⟩ fields,
      sortByStart, sortByStart, sortStable_map, h]
    rfl
  | _ =>
    simp [Node.tree, treeAt, Tree.subtrees, children, Json.fields, fieldNodes, sortByStart,
      sortStable]

end Node

/-! ### Visiting -/

/-- What a visitor wants on the way down. -/
inductive Entry (α : Type) where
  /-- Walk the children, then come back. -/
  | descend
  /-- Leave out the children, and do not come back. -/
  | skip
  /-- End the walk with an answer. -/
  | found (answer : α)

/-- The two operations of a walk; both may change the state. -/
structure Visitor (σ α : Type) where
  /-- On the way down. -/
  enter : Node → σ → Entry α × σ
  /-- On the way up. -/
  leave : Node → σ → Option α × σ

/-- A visitor that does nothing on the way up. -/
def Visitor.entering {σ α : Type} (enter : Node → σ → Entry α × σ) : Visitor σ α :=
  ⟨enter, fun _ s => (none, s)⟩

mutual

/-- Walks a tree. Gives the answer that ended the walk, if any, and the state reached. -/
def Tree.visit {σ α : Type} (v : Visitor σ α) : Tree → σ → Option α × σ
  | .mk n ts, s =>
    match v.enter n s with
    | (.found a, s) => (some a, s)
    | (.skip, s) => (none, s)
    | (.descend, s) =>
      match visitAll v ts s with
      | (some a, s) => (some a, s)
      | (none, s) => v.leave n s

/-- Walks trees one after the other, up to the first answer. -/
def visitAll {σ α : Type} (v : Visitor σ α) : List Tree → σ → Option α × σ
  | [], s => (none, s)
  | t :: ts, s =>
    match t.visit v s with
    | (some a, s) => (some a, s)
    | (none, s) => visitAll v ts s

end

/-- Walks the tree below a node. -/
def Node.visit {σ α : Type} (n : Node) (v : Visitor σ α) (s : σ) : Option α × σ := n.tree.visit v s

/-- All nodes of the tree below a node, each before its children. -/
def Node.all (n : Node) : List Node :=
  (n.visit (α := Unit) (.entering fun m seen => (.descend, m :: seen)) []).2.reverse

end ContentAssist
