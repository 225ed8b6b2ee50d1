import GoGloss.Proofs.Bare
import GoGloss.Tree.Outline

/-!
# Precedence

The operands and operators of an expression stand in a row in the source, and the
tree says which operator takes which operands. Two rules fix it. An operator
between two operands takes on its left what binds at least as tightly as itself
and on its right only what binds more tightly, so operators of one precedence
group to the left. An operator in front of an operand takes no operator between
operands, and what is written after an operand takes no operator at all.

`Expr.Fits` states the rules for one operator and `Node.Binds` for all of a tree.
`Expr.bare_eq_of_parts_eq` says that they leave no choice: trees that bind and have
the same operands and operators in the same order are equal up to spans.
-/

namespace GoGloss

/-! ## All nodes of a tree -/

namespace Node

theorem map_node_outline (n : Node) (depth depth' : Nat) (role role' : Role) :
    (n.outline depth role).map Row.node = (n.outline depth' role').map Row.node := by
  rw [outline, outline]
  simp only [List.map_cons, List.map_flatMap]
  congr 1
  simp only [List.flatMap_def]
  congr 1
  refine List.map_congr_left fun p _ => ?_
  have := sizeOf_lt_of_mem_children p.2
  exact map_node_outline p.1.2 _ _ _ _
termination_by sizeOf n

/-- The nodes of the tree under a node, the node itself first. -/
def nodes (n : Node) : List Node :=
  (n.outline 0 .root).map Row.node

theorem nodes_eq (n : Node) : n.nodes = n :: n.children.flatMap fun p => p.2.nodes := by
  have hchildren : (n.children.attach.flatMap fun p => (p.1.2.outline 1 p.1.1).map Row.node) =
      n.children.flatMap fun p => p.2.nodes := by
    rw [List.flatMap_subtype (g := fun p => p.2.nodes) fun p _ => map_node_outline p.2 _ _ _ _,
      List.unattach_attach]
  rw [nodes, outline, List.map_cons, List.map_flatMap, hchildren]

/-- All nodes of a tree are the one on top and all nodes of the trees under it. -/
theorem forall_mem_nodes {P : Node → Prop} {n : Node} :
    (∀ m ∈ n.nodes, P m) ↔ P n ∧ ∀ p ∈ n.children, ∀ m ∈ p.2.nodes, P m := by
  rw [nodes_eq, List.forall_mem_cons, List.forall_mem_flatMap]

/-- Something holds of all nodes of a list, each in its role. -/
def All (P : Role → Node → Prop) (ps : List (Role × Node)) : Prop :=
  ∀ p ∈ ps, P p.1 p.2

section All

variable {P : Role → Node → Prop} {role : Role}

@[simp]
theorem all_nil : All P [] := by
  simp [All]

@[simp]
theorem all_cons {n : Node} {ps : List (Role × Node)} :
    All P ((role, n) :: ps) ↔ P role n ∧ All P ps :=
  List.forall_mem_cons

@[simp]
theorem all_append {ps qs : List (Role × Node)} : All P (ps ++ qs) ↔ All P ps ∧ All P qs :=
  List.forall_mem_append

@[simp]
theorem all_exprs {xs : List Expr} : All P (exprs role xs) ↔ ∀ x ∈ xs, P role (.expr x) :=
  List.forall_mem_map

@[simp]
theorem all_expr? {x : Option Expr} : All P (expr? role x) ↔ ∀ y ∈ x, P role (.expr y) := by
  simp [expr?]

@[simp]
theorem all_fields {fs : List Field} : All P (fields role fs) ↔ ∀ f ∈ fs, P role (.field f) :=
  List.forall_mem_map

@[simp]
theorem all_stmts {ss : List Stmt} : All P (stmts role ss) ↔ ∀ s ∈ ss, P role (.stmt s) :=
  List.forall_mem_map

@[simp]
theorem all_stmt? {s : Option Stmt} : All P (stmt? role s) ↔ ∀ t ∈ s, P role (.stmt t) := by
  simp [stmt?]

@[simp]
theorem all_body {b : Block} : All P (body b) ↔ ∀ s ∈ b.stmts, P .body (.stmt s) :=
  all_stmts

@[simp]
theorem all_specs {ss : List Spec} :
    All P (ss.map fun s => (role, .spec s)) ↔ ∀ s ∈ ss, P role (.spec s) :=
  List.forall_mem_map

end All

end Node

/-! ## The rules -/

namespace BinaryOp

theorem precedence_pos (op : BinaryOp) : 1 ≤ op.precedence := by
  cases op <;> decide

theorem precedence_lt (op : BinaryOp) : op.precedence < 6 := by
  cases op <;> decide

end BinaryOp

namespace Expr

/--
How tightly the outermost operator of an expression binds. An operator in front of
an operand binds more tightly than any between operands, and what has no operator
on the outside holds together best.
-/
def tightness : Expr → Nat
  | .binary _ _ op _ _ => op.precedence
  | .unary .. | .star .. => 6
  | _ => 7

/-- The outermost operator of an expression takes only what it may take. -/
def Fits : Expr → Prop
  | .binary _ l op _ r => op.precedence ≤ l.tightness ∧ op.precedence < r.tightness
  | .unary _ _ _ x | .star _ _ x => 6 ≤ x.tightness
  | .selector _ x _ | .index _ x _ | .indexList _ x _ | .slice _ x _ _ _ _
  | .typeAssert _ x _ | .call _ x _ _ => 7 ≤ x.tightness
  | _ => True

instance : DecidablePred Fits := fun x => by
  unfold Fits
  split <;> infer_instance

end Expr

namespace Node

/-- Every operator in the tree under a node takes only what it may take. -/
def Binds (n : Node) : Prop :=
  ∀ x, .expr x ∈ n.nodes → x.Fits

theorem binds_iff {n : Node} :
    n.Binds ↔ (∀ x, n = .expr x → x.Fits) ∧ ∀ p ∈ n.children, p.2.Binds := by
  simp only [Binds, nodes_eq n, List.mem_cons, List.mem_flatMap, or_imp, forall_and]
  grind

theorem binds_expr {x : Expr} :
    (expr x).Binds ↔ x.Fits ∧ ∀ p ∈ exprChildren x, p.2.Binds := by
  simp [binds_iff (n := expr x), children]

/-- Nodes under a node of a tree are nodes of the tree. -/
theorem nodes_subset {m n : Node} (h : m ∈ n.nodes) : m.nodes ⊆ n.nodes := by
  rw [nodes_eq, List.mem_cons, List.mem_flatMap] at h
  obtain rfl | ⟨p, hp, hm⟩ := h
  · exact fun _ h => h
  · have := sizeOf_lt_of_mem_children hp
    intro k hk
    rw [nodes_eq n]
    exact List.mem_cons_of_mem _ (List.mem_flatMap.mpr ⟨p, hp, nodes_subset hm hk⟩)
termination_by sizeOf n

theorem Binds.of_mem {m n : Node} (h : n.Binds) (hm : m ∈ n.nodes) : m.Binds :=
  fun x hx => h x (nodes_subset hm hx)

end Node

namespace Expr

/-! ## The row of operands and operators -/

/-- What stands in the place of an operand that is taken out. -/
def hole : Expr := .bad default

/-- An expression with another operand under the operator in front, or before what follows. -/
def withOperand (x y : Expr) : Expr :=
  match x with
  | .unary span op opPos _ => .unary span op opPos y
  | .star span pos _ => .star span pos y
  | .selector span _ member => .selector span y member
  | .index span _ i => .index span y i
  | .indexList span _ is => .indexList span y is
  | .slice span _ lo hi max full => .slice span y lo hi max full
  | .typeAssert span _ t => .typeAssert span y t
  | .call span _ args dots => .call span y args dots
  | _ => x

/-- What an operator in front, or what follows an operand, is without its operand. -/
def frame (x : Expr) : Expr := (x.withOperand hole).bare

/-- What stands in a row in the source, brackets and what is in them counted as one. -/
inductive Part where
  /-- An operand on its own. -/
  | operand (x : Expr)
  /-- An operator in front of an operand. -/
  | before (frame : Expr)
  /-- An operator between operands. -/
  | between (op : BinaryOp)
  /-- A selector, an assertion, an index or a call after an operand. -/
  | after (frame : Expr)

/-- The operands and operators of an expression in the order of the source. -/
def parts : Expr → List Part
  | .binary _ l op _ r => l.parts ++ .between op :: r.parts
  | .unary span op opPos x => .before (unary span op opPos x).frame :: x.parts
  | .star span pos x => .before (star span pos x).frame :: x.parts
  | .selector span x member => x.parts ++ [.after (selector span x member).frame]
  | .index span x i => x.parts ++ [.after (index span x i).frame]
  | .indexList span x is => x.parts ++ [.after (indexList span x is).frame]
  | .slice span x lo hi max full => x.parts ++ [.after (slice span x lo hi max full).frame]
  | .typeAssert span x t => x.parts ++ [.after (typeAssert span x t).frame]
  | .call span x args dots => x.parts ++ [.after (call span x args dots).frame]
  | x => [.operand x.bare]

/-- The forms of an expression that binds, by its outermost operator and what that takes. -/
inductive Form : Expr → Prop where
  | operand {x : Expr} (hparts : x.parts = [.operand x.bare]) (htight : 7 ≤ x.tightness) : Form x
  | before {x y : Expr} (hparts : x.parts = .before x.frame :: y.parts) (htight : x.tightness = 6)
      (hbare : x.bare = x.frame.withOperand y.bare) (hy : 6 ≤ y.tightness) (form : Form y) : Form x
  | between {x l r : Expr} {op : BinaryOp} (hparts : x.parts = l.parts ++ .between op :: r.parts)
      (htight : x.tightness = op.precedence)
      (hbare : x.bare = .binary default l.bare op default r.bare)
      (hl : op.precedence ≤ l.tightness) (hr : op.precedence < r.tightness)
      (left : Form l) (right : Form r) : Form x
  | after {x y : Expr} (hparts : x.parts = y.parts ++ [.after x.frame]) (htight : 7 ≤ x.tightness)
      (hbare : x.bare = x.frame.withOperand y.bare) (hy : 7 ≤ y.tightness) (form : Form y) : Form x

theorem form_of_binds (x : Expr) (h : (Node.expr x).Binds) : Form x := by
  rw [Node.binds_expr] at h
  obtain ⟨hfits, hbelow⟩ := h
  match x with
  | .binary _ l _ _ r =>
      exact .between rfl rfl rfl hfits.1 hfits.2 (form_of_binds l (hbelow _ (.head _)))
        (form_of_binds r (hbelow _ (.tail _ (.head _))))
  | .unary _ _ _ y | .star _ _ y =>
      exact .before rfl rfl rfl hfits (form_of_binds y (hbelow _ (.head _)))
  | .selector _ y _ | .index _ y _ | .indexList _ y _ | .slice _ y _ _ _ _
  | .typeAssert _ y _ | .call _ y _ _ =>
      exact .after rfl (Nat.le_refl 7) rfl hfits (form_of_binds y (hbelow _ (.head _)))
  | .ident _ | .literal _ | .funcLit .. | .composite .. | .paren .. | .keyValue ..
  | .arrayType .. | .structType .. | .funcType .. | .interfaceType .. | .mapType ..
  | .chanType .. | .ellipsis .. | .bad _ => exact .operand rfl (Nat.le_refl 7)

namespace Form

variable {x y : Expr}

/-- No operator between operands binds more loosely than the outermost one. -/
theorem tightness_le (h : Form x) (op : BinaryOp) (hop : .between op ∈ x.parts) :
    x.tightness ≤ op.precedence := by
  have hlt := op.precedence_lt
  induction h with
  | operand hparts => simp [hparts] at hop
  | before hparts _ _ _ _ ih | after hparts _ _ _ _ ih =>
      have := ih (by simpa [hparts] using hop)
      omega
  | @between x l r op' hparts _ _ _ _ _ _ ihl ihr =>
      have hcases : .between op ∈ l.parts ∨ op = op' ∨ .between op ∈ r.parts := by
        simpa [hparts] using hop
      rcases hcases with hop | rfl | hop
      · have := ihl hop
        omega
      · omega
      · have := ihr hop
        omega

theorem not_mem_between (h : Form x) (htight : 6 ≤ x.tightness) (op : BinaryOp) :
    .between op ∉ x.parts := by
  intro hop
  have := h.tightness_le op hop
  have := op.precedence_lt
  omega

/-- Without an operator on the outside, an expression starts with an operand. -/
theorem parts_eq_operand_cons (h : Form x) (htight : 7 ≤ x.tightness) :
    ∃ z ps, x.parts = .operand z :: ps := by
  induction h with
  | operand hparts => exact ⟨_, _, hparts⟩
  | before _ htight' => omega
  | @between _ _ _ op _ htight' =>
      have := op.precedence_lt
      omega
  | after hparts _ _ hy _ ih =>
      obtain ⟨z, ps, hps⟩ := ih hy
      exact ⟨z, _, by rw [hparts, hps, List.cons_append]⟩

/--
An operator on the right of the outermost one binds more tightly than that, and
one on its left at least as tightly, so a row does not have two places for it.
-/
theorem between_inj {l l' r r' : Expr} {op op' : BinaryOp}
    (left : Form l) (right : Form r) (left' : Form l') (right' : Form r')
    (hl : op.precedence ≤ l.tightness) (hr : op.precedence < r.tightness)
    (hl' : op'.precedence ≤ l'.tightness) (hr' : op'.precedence < r'.tightness)
    (h : l.parts ++ .between op :: r.parts = l'.parts ++ .between op' :: r'.parts) :
    l.parts = l'.parts ∧ op = op' ∧ r.parts = r'.parts := by
  rcases List.append_eq_append_iff.mp h with ⟨ps, hps, hqs⟩ | ⟨ps, hps, hqs⟩
  · cases ps with
    | nil => simp_all
    | cons p ps =>
        obtain ⟨rfl, hright⟩ := List.cons.inj hqs
        have := left'.tightness_le op (by simp [hps])
        have := right.tightness_le op' (by simp [hright])
        omega
  · cases ps with
    | nil => simp_all
    | cons p ps =>
        obtain ⟨rfl, hright⟩ := List.cons.inj hqs
        have := left.tightness_le op' (by simp [hps])
        have := right'.tightness_le op (by simp [hright])
        omega

/-! A row shows what the outermost operator is: one between operands if there is any, else the
first part if it stands in front, else the last part if it follows. -/

theorem bare_eq_of_operand (h : Form x) {z : Expr} (hparts : x.parts = [.operand z]) :
    x.bare = z := by
  cases h with
  | operand hx => simpa [hx] using hparts
  | before hx => simp [hx] at hparts
  | between hx | after hx => simp [hx, List.append_eq_singleton_iff] at hparts

theorem exists_of_before (h : Form x) {f : Expr} {ps : List Part}
    (hparts : x.parts = .before f :: ps) (hbetween : ∀ op, .between op ∉ ps) :
    ∃ y, Form y ∧ y.parts = ps ∧ x.bare = f.withOperand y.bare := by
  have hnot : ∀ op, .between op ∉ x.parts := by simpa [hparts] using hbetween
  cases h with
  | operand hx => simp [hx] at hparts
  | @before _ y hx _ hbare _ form =>
      obtain ⟨rfl, rfl⟩ : x.frame = f ∧ y.parts = ps := by simpa [hx] using hparts
      exact ⟨y, form, rfl, hbare⟩
  | @between _ _ _ op hx => exact (hnot op (by simp [hx])).elim
  | after hx htight hbare hy form =>
      obtain ⟨z, qs, hz⟩ := (after hx htight hbare hy form).parts_eq_operand_cons htight
      simp [hz] at hparts

theorem exists_of_after (h : Form x) {f z : Expr} {ps qs : List Part}
    (hparts : x.parts = ps ++ [.after f]) (hstart : ps = .operand z :: qs)
    (hbetween : ∀ op, .between op ∉ ps) :
    ∃ y, Form y ∧ y.parts = ps ∧ x.bare = f.withOperand y.bare := by
  have hnot : ∀ op, .between op ∉ x.parts := by simpa [hparts] using hbetween
  cases h with
  | operand hx | before hx => simp [hx, hstart] at hparts
  | @between _ _ _ op hx => exact (hnot op (by simp [hx])).elim
  | @after _ y hx _ hbare _ form =>
      obtain ⟨rfl, hf⟩ := List.append_inj' (hx.symm.trans hparts) rfl
      obtain rfl : x.frame = f := by simpa using hf
      exact ⟨y, form, rfl, hbare⟩

theorem exists_of_between (h : Form x) (op : BinaryOp) (hop : .between op ∈ x.parts) :
    ∃ l op' r, Form l ∧ Form r ∧ op'.precedence ≤ l.tightness ∧ op'.precedence < r.tightness ∧
      x.parts = l.parts ++ .between op' :: r.parts ∧
      x.bare = .binary default l.bare op' default r.bare := by
  have htight := h.tightness_le op hop
  have hlt := op.precedence_lt
  cases h with
  | operand | before | after => omega
  | between hx _ hbare hl hr left right => exact ⟨_, _, _, left, right, hl, hr, hx, hbare⟩

/-- The row of its parts leaves no choice for an expression that binds. -/
theorem bare_eq (hx : Form x) (hy : Form y) (h : x.parts = y.parts) : x.bare = y.bare := by
  induction hx generalizing y with
  | operand hparts _ => exact (hy.bare_eq_of_operand (h ▸ hparts)).symm
  | before hparts _ hbare htight form ih =>
      obtain ⟨z, hz, hps, hbare'⟩ :=
        hy.exists_of_before (h ▸ hparts) (form.not_mem_between htight)
      rw [hbare, hbare', ih hz hps.symm]
  | after hparts _ hbare htight form ih =>
      obtain ⟨z, qs, hstart⟩ := form.parts_eq_operand_cons htight
      obtain ⟨z, hz, hps, hbare'⟩ :=
        hy.exists_of_after (h ▸ hparts) hstart (form.not_mem_between (by omega))
      rw [hbare, hbare', ih hz hps.symm]
  | @between _ _ _ op hparts _ hbare hl hr left right ihl ihr =>
      obtain ⟨l', op', r', left', right', hl', hr', hparts', hbare'⟩ :=
        hy.exists_of_between op (by simp [← h, hparts])
      obtain ⟨hleft, rfl, hright⟩ := between_inj left right left' right' hl hr hl' hr'
        (by rw [← hparts, h, hparts'])
      rw [hbare, hbare', ihl left' hleft, ihr right' hright]

end Form

/--
Trees that bind and have the same operands and operators in the same order are
equal up to spans.
-/
theorem bare_eq_of_parts_eq {x y : Expr} (hx : (Node.expr x).Binds) (hy : (Node.expr y).Binds)
    (h : x.parts = y.parts) : x.bare = y.bare :=
  (form_of_binds x hx).bare_eq (form_of_binds y hy) h

end Expr

end GoGloss
