import GoGloss.Proofs.Adjacent
import GoGloss.Proofs.Precedence

/-!
# Expressions said as they are written

Most expressions are not said as they are written: there are words for some operators
and for types. What is left are names and literals, parentheses, selectors, indices,
slices, calls and type assertions, and the operators that have no words. Even then the
text of a tree may be read as another one: behind a number a point is part of it, two
operators in a row may be one, and the dots of a call are said in front of its comma.

An expression is verbatim if none of its nodes is of such a kind.
-/

namespace GoGloss

namespace Expr

/-- Whether an expression is a number. -/
def isNumber : Expr → Bool
  | .literal lit => lit.kind.isNumber
  | _ => false

/-- Whether an expression has an operator in front, the star apart. -/
def isUnary : Expr → Bool
  | .unary .. => true
  | _ => false

/-- Whether a node is said as it is written, given that the nodes under it are. -/
def isEchoed : Expr → Bool
  | .ident _ | .literal _ | .paren .. | .index .. | .indexList .. | .slice .. => true
  | .selector _ x _ | .typeAssert _ x _ => !x.isNumber
  | .call _ _ _ dots => dots.isNone
  | .unary _ _ _ x => !x.isUnary
  | .binary _ _ op _ _ => !(op matches .add | .sub | .div)
  | _ => false

end Expr

/-- Whether a node is an expression that is said as it is written. -/
def Node.isEchoed : Node → Bool
  | .expr x => x.isEchoed
  | _ => false

/-- All nodes of a tree are said as they are written. -/
def Node.Verbatim (n : Node) : Prop :=
  ∀ m ∈ n.nodes, m.isEchoed = true

/-- All nodes of an expression are said as they are written. -/
def Expr.Verbatim (x : Expr) : Prop :=
  (Node.expr x).Verbatim

instance (x : Expr) : Decidable x.Verbatim :=
  inferInstanceAs (Decidable (∀ m ∈ (Node.expr x).nodes, m.isEchoed = true))

namespace Expr.Verbatim

variable {x : Expr}

theorem echoed (h : x.Verbatim) : x.isEchoed = true :=
  (Node.forall_mem_nodes.mp h).1

/-- The parts of a verbatim expression are verbatim. -/
theorem below (h : x.Verbatim) : Node.All (fun _ n => n.Verbatim) (Node.exprChildren x) :=
  (Node.forall_mem_nodes.mp h).2

/-- What a verbatim expression stands for. -/
theorem operand {p : Role} {y : Expr} (h : x.Verbatim)
    (hy : (p, Node.expr y) ∈ Node.exprChildren x) : y.Verbatim :=
  h.below _ hy

/-- What binds as an operator in front of its operand does has no operator at all otherwise. -/
theorem seven_le_tightness (h : x.Verbatim) (hunary : x.isUnary = false)
    (htight : 6 ≤ x.tightness) : 7 ≤ x.tightness := by
  have hecho := h.echoed
  cases x with
  | binary _ _ op =>
      have hlt := op.precedence_lt
      simp only [tightness] at htight
      omega
  | unary => cases hunary
  | star => cases hecho
  | _ => exact Nat.le_refl 7

end Expr.Verbatim

end GoGloss
