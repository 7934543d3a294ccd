import Binisaya.Node

/-! The subtrees of a program tree. What a program assigns or declares at any depth is told by its subtrees, and what
holds at every node of a tree holds at every node of its parts. -/

namespace Binisaya.Node

mutual

/-- The subtrees of a tree in the order of the text, the tree itself first. -/
def subtrees : Node → List Node
  | .null => [.null]
  | .program types body => .program types body :: subtreesOf body
  | .exprStmt e => .exprStmt e :: e.subtrees
  | .print items => .print items :: subtreesOf items
  | .declare name init type => .declare name init type :: init.subtrees
  | .block body => .block body :: subtreesOf body
  | .branch condition yes no => .branch condition yes no :: (condition.subtrees ++ (yes.subtrees ++ no.subtrees))
  | .loop condition body => .loop condition body :: (condition.subtrees ++ body.subtrees)
  | .input names => [.input names]
  | .literal v label => [.literal v label]
  | .group e => .group e :: e.subtrees
  | .unary symbol e => .unary symbol e :: e.subtrees
  | .binary symbol left right => .binary symbol left right :: (left.subtrees ++ right.subtrees)
  | .ident name => [.ident name]
  | .assign name e => .assign name e :: e.subtrees

/-- The subtrees of trees, one tree after the other. -/
def subtreesOf : List Node → List Node
  | [] => []
  | s :: ss => s.subtrees ++ subtreesOf ss

end

/-- The nodes right below a node. -/
def parts : Node → List Node
  | .null | .input _ | .literal .. | .ident _ => []
  | .program _ body | .block body => body
  | .print items => items
  | .exprStmt e | .declare _ e _ | .group e | .unary _ e | .assign _ e => [e]
  | .branch condition yes no => [condition, yes, no]
  | .loop condition body => [condition, body]
  | .binary _ left right => [left, right]

/-- The names that a node itself assigns to: that of an assignment and those of an input. -/
def targets : Node → List String
  | .assign name _ => [name]
  | .input names => names
  | _ => []

/-- The names that a node itself binds: those that it assigns to, or the one that it declares. -/
def binds : Node → List String
  | .declare name _ _ => [name]
  | t => t.targets

/-- The names whose declared types a node itself asks for: the one that it declares and those that it reads. -/
def typeUses : Node → List String
  | .declare name _ _ => [name]
  | .input names => names
  | _ => []

theorem binds_of_mem_typeUses {t : Node} {name : String} (h : name ∈ t.typeUses) : name ∈ t.binds := by
  cases t with
  | declare | input => exact h
  | _ => cases h

theorem mem_subtreesOf {t : Node} {ss : List Node} : t ∈ subtreesOf ss ↔ ∃ s ∈ ss, t ∈ s.subtrees := by
  induction ss with
  | nil => simp [subtreesOf]
  | cons s ss ih => simp [subtreesOf, ih]

theorem subtrees_eq (s : Node) : s.subtrees = s :: subtreesOf s.parts := by
  cases s <;> simp [subtrees, parts, subtreesOf]

/-- Something holds at every node of a tree. -/
def Everywhere (p : Node → Prop) (s : Node) : Prop := ∀ t ∈ s.subtrees, p t

namespace Everywhere

variable {p : Node → Prop} {s t : Node}

theorem self (h : s.Everywhere p) : p s := by
  apply h
  rw [subtrees_eq]
  exact List.mem_cons_self

theorem part (h : s.Everywhere p) (ht : t ∈ s.parts) : t.Everywhere p := by
  intro u hu
  apply h
  rw [subtrees_eq]
  exact List.mem_cons_of_mem s (mem_subtreesOf.2 ⟨t, ht, hu⟩)

end Everywhere

end Binisaya.Node
