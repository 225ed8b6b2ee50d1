import GoGloss.Proofs.Precedence

/-!
# The shapes of trees

The types of trees are wider than the grammar: they have room for a key outside a
composite literal, for a slice with a third bound and no second one, for a clause
among ordinary statements. This module says which trees are meant.

There are two kinds of rules. `Node.Shaped` is about a node by itself: how many
indices it has, which of its parts are there. `Node.MayHold` is about a node and
what stands directly under it: most nodes may stand anywhere (`Node.Plain`), some
only in one place, and a `bad` node nowhere. A tree is well-formed if all its nodes
keep both.
-/

namespace GoGloss

/-! ## What a node is like by itself -/

namespace Expr

/-- A signature that starts with `func`. -/
def isFuncType : Expr → Bool
  | .funcType _ (some _) _ _ => true
  | _ => false

/-- A signature without `func`. -/
def isMethodType : Expr → Bool
  | .funcType _ none _ _ => true
  | _ => false

/-- What is asked of an expression by itself. -/
def Shaped : Expr → Prop
  | .funcLit _ type _ => type.isFuncType
  | .indexList _ _ indices => 2 ≤ indices.length
  | .slice _ _ _ hi max full => if full then hi.isSome ∧ max.isSome else max = none
  | .call _ _ args dots => dots.isSome → args ≠ []
  | _ => True

end Expr

namespace Stmt

/-- A statement that may follow `else`. -/
def isElse : Stmt → Bool
  | .ifElse .. | .block .. => true
  | _ => false

/-- An assignment that declares its names. -/
def isDefinition : Stmt → Bool
  | .assign _ _ .define _ _ => true
  | _ => false

def isCaseClause : Stmt → Bool
  | .caseClause .. => true
  | _ => false

def isCommClause : Stmt → Bool
  | .commClause .. => true
  | _ => false

/-- The guard `x.(type)`, alone or as the only value that one name is declared by. -/
def GuardsTypes (s : Stmt) : Prop :=
  (∃ span place x, s = .expr span (.typeAssert place x none)) ∨
    ∃ span v opPos place x, s = .assign span [v] .define opPos [.typeAssert place x none]

/-- What is asked of a statement by itself. -/
def Shaped : Stmt → Prop
  | .go _ _ call | .defer _ _ call => ∃ span f args dots, call.unparen = .call span f args dots
  | .ifElse _ _ _ _ otherwise => ∀ s ∈ otherwise, s.isElse
  | .loop _ _ _ post _ => ∀ s ∈ post, s.isDefinition = false
  | .range _ key value op _ _ =>
    (op = none ∧ key = none ∧ value = none) ∨
      ((op = some .define ∨ op = some .assign) ∧ key.isSome)
  | .switch _ _ _ body => ∀ s ∈ body.stmts, s.isCaseClause
  | .typeSwitch _ _ guard body => guard.GuardsTypes ∧ ∀ s ∈ body.stmts, s.isCaseClause
  | .select _ body => ∀ s ∈ body.stmts, s.isCommClause
  | _ => True

end Stmt

/-- What is asked of a declaration by itself. -/
def Decl.Shaped : Decl → Prop
  | .func _ _ _ _ type _ => type.isFuncType
  | _ => True

namespace Node

/-- What is asked of a node by itself. -/
def Shaped : Node → Prop
  | .expr x => x.Shaped
  | .stmt s => s.Shaped
  | .decl d => d.Shaped
  | .field _ | .spec _ => True

/-! ## What may stand where -/

def isComposite : Node → Bool
  | .expr (.composite ..) => true
  | _ => false

def isKeyValue : Node → Bool
  | .expr (.keyValue ..) => true
  | _ => false

def isInterface : Node → Bool
  | .expr (.interfaceType ..) => true
  | _ => false

def isField : Node → Bool
  | .field _ => true
  | _ => false

/-- A `switch`, on a value or on a type. -/
def isSwitch : Node → Bool
  | .stmt (.switch ..) | .stmt (.typeSwitch ..) => true
  | _ => false

def isSelect : Node → Bool
  | .stmt (.select ..) => true
  | _ => false

/-- Whether a node may stand directly under `parent`, in a role. -/
def MayHold (parent : Node) (role : Role) : Node → Prop
  -- a key stands in a composite literal, a literal without a type there or next to a key
  | .expr (.keyValue ..) => parent.isComposite ∧ role = .element
  | .expr (.composite _ none _ _ _) => (parent.isComposite ∧ role = .element) ∨ parent.isKeyValue
  -- a signature without `func` is the type of a method, which an interface has
  | .expr (.funcType _ none _ _) => parent.isField
  | .field f => f.type.isMethodType → parent.isInterface ∧ f.names ≠ []
  -- dots alone are the length of an array
  | .expr (.ellipsis _ _ none) => role = .length
  -- clauses stand in the statement they belong to
  | .stmt (.caseClause ..) => parent.isSwitch ∧ role = .body
  | .stmt (.commClause ..) => parent.isSelect ∧ role = .body
  | .expr (.bad _) | .stmt (.bad _) | .decl (.bad _) => False
  | _ => True

/-- A node that may stand in any place. -/
def Plain (n : Node) : Prop :=
  ∀ parent role, MayHold parent role n

/-- Every node of a tree is shaped as it should be and stands where it may stand. -/
structure WellFormed (n : Node) : Prop where
  shaped : ∀ m ∈ n.nodes, m.Shaped
  placed : ∀ m ∈ n.nodes, ∀ p ∈ m.children, MayHold m p.1 p.2

/-- A well-formed tree that may stand by itself. -/
def Stands (n : Node) : Prop :=
  n.Plain ∧ n.WellFormed

theorem wellFormed_iff {n : Node} :
    n.WellFormed ↔ n.Shaped ∧ ∀ p ∈ n.children, MayHold n p.1 p.2 ∧ p.2.WellFormed := by
  constructor
  · rintro ⟨hshaped, hplaced⟩
    obtain ⟨hn, hbelow⟩ := forall_mem_nodes.mp hshaped
    obtain ⟨hheld, hbelow'⟩ := forall_mem_nodes.mp hplaced
    exact ⟨hn, fun p hp => ⟨hheld p hp, hbelow p hp, hbelow' p hp⟩⟩
  · rintro ⟨hn, hchildren⟩
    refine ⟨forall_mem_nodes.mpr ⟨hn, fun p hp => (hchildren p hp).2.shaped⟩, ?_⟩
    refine forall_mem_nodes.mpr ⟨fun p hp => (hchildren p hp).1, fun p hp => ?_⟩
    exact (hchildren p hp).2.placed

end Node

/-- A type that may stand anywhere is no signature of a method. -/
theorem Expr.isMethodType_of_plain {t : Expr} (h : (Node.expr t).Plain) :
    t.isMethodType = false := by
  unfold isMethodType
  split
  · -- it could not even be the root of a tree
    exact absurd (h (.stmt (.empty default)) .root) (by simp [Node.MayHold, Node.isField])
  · rfl

end GoGloss
