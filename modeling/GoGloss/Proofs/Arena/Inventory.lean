import GoGloss.Proofs.Arena.Integrity
import Mathlib.Data.List.Nodup

/-!
# An inventory of the arena

Which nodes of an arena belong to the tree that its root stands for, and which were
left over. The books of the reader (`Ledger`) have the answer: with only the root in
hand, the nodes in use are those the root leads to, so each of them but the root has
one parent. What was left behind are expressions, one for each label, and statements,
one for each condition and tag.
-/

namespace GoGloss.Flat

/-- Whether a statement has a label, which was read as an expression. -/
def StmtNode.isLabeled : StmtNode → Bool
  | .labeled .. => true
  | _ => false

/-- Whether a statement has a condition or a tag, which was read as a statement: an `if`, a
loop with a condition, a `switch` with a tag. -/
def StmtNode.hasHeader : StmtNode → Bool
  | .ifElse .. => true
  | .loop _ header _ _ | .switch _ header _ => header.isSome
  | _ => false

namespace Arena

/-- Whether the node of a number is a statement with some property. -/
def isStmt (a : Arena) (P : StmtNode → Bool) : AnyId → Bool
  | ⟨.stmt, raw⟩ => (a.node? (⟨raw⟩ : StmtId)).any P
  | _ => false

/-- The references lead from one node to another. -/
def Reaches (a : Arena) : AnyId → AnyId → Prop :=
  Relation.ReflTransGen a.Refers

end Arena

/--
The nodes that a root leads to, listed in `walk`, and how many others there are. Parents
are looked for among the nodes of the walk: a statement that was left behind still
refers to the expression taken from it, but is itself no part of the tree.
-/
structure Inventory (a : Arena) (root : AnyId) (walk : List AnyId) : Prop where
  nodup : walk.Nodup
  mem_walk : ∀ {i}, i ∈ walk ↔ a.Reaches root i
  inside : ∀ {i}, a.Reaches root i → i.raw < a.size i.kind
  /-- No node is the parent of the root. -/
  top : ∀ {p}, a.Reaches root p → ¬a.Refers p root
  /-- Every other node has one parent, which refers to it once. -/
  parent : ∀ {i}, a.Reaches root i → i ≠ root → ∃ p, a.Reaches root p ∧
    (a.refsOf p).count i = 1 ∧ ∀ q, a.Reaches root q → a.Refers q i → q = p
  decls : ∀ i : DeclId, i.raw < a.size .decl → a.Reaches root i.any
  fields : ∀ i : FieldId, i.raw < a.size .field → a.Reaches root i.any
  exprs : a.size .expr =
    walk.countP (·.kind = .expr) + walk.countP (a.isStmt StmtNode.isLabeled)
  stmts : a.size .stmt =
    walk.countP (·.kind = .stmt) + walk.countP (a.isStmt StmtNode.hasHeader)

/-! ## Counting -/

/-- What occurs once in some lists is in one of them, once. -/
theorem exists_of_count_flatMap {f : AnyId → List AnyId} {ps : List AnyId} {i : AnyId}
    (h : (ps.flatMap f).count i = 1) :
    ∃ p ∈ ps, (f p).count i = 1 ∧ ∀ q ∈ ps, i ∈ f q → q = p := by
  have hmem : i ∈ ps.flatMap f := List.count_pos_iff.mp (by omega)
  obtain ⟨p, hp, hi⟩ := List.mem_flatMap.mp hmem
  have hperm := List.perm_cons_erase hp
  have hcount := (hperm.flatMap_right f).count_eq i
  have hpos := List.count_pos_iff.mpr hi
  rw [List.flatMap_cons, List.count_append] at hcount
  refine ⟨p, hp, by omega, fun q hq hqi => ?_⟩
  rcases List.mem_cons.mp (hperm.subset hq) with rfl | hrest
  · rfl
  · have := List.count_pos_iff.mpr (List.mem_flatMap.mpr ⟨q, hrest, hqi⟩)
    omega

/-- What is in a list at most once, and if so told by a property, is counted by it. -/
theorem count_flatMap_eq_countP {f : AnyId → List Kind} {P : AnyId → Bool} {k : Kind}
    (h : ∀ i, (f i).count k = if P i then 1 else 0) (is : List AnyId) :
    (is.flatMap f).count k = is.countP P := by
  induction is with
  | nil => rfl
  | cons i is ih => rw [List.flatMap_cons, List.count_append, List.countP_cons, ih, h, Nat.add_comm]

theorem StmtNode.behind_eq (s : StmtNode) :
    s.behind = (if s.isLabeled then [.expr] else []) ++ (if s.hasHeader then [.stmt] else []) := by
  cases s with
  | loop _ header _ _ | switch _ header _ => cases header <;> rfl
  | _ => rfl

/-- What a node leaves behind is told by the two properties of statements. -/
theorem Arena.behindOf_eq (a : Arena) (i : AnyId) :
    a.behindOf i = (if a.isStmt StmtNode.isLabeled i then [.expr] else []) ++
      (if a.isStmt StmtNode.hasHeader i then [.stmt] else []) := by
  have hstmt : ∀ s : Option StmtNode, s.elim [] StmtNode.behind =
      (if s.any StmtNode.isLabeled then [.expr] else []) ++
        (if s.any StmtNode.hasHeader then [.stmt] else []) := by
    intro s
    cases s with
    | none => rfl
    | some s => exact s.behind_eq
  obtain ⟨k, raw⟩ := i
  cases k with
  | stmt => exact hstmt (a.node? (⟨raw⟩ : StmtId))
  | expr | decl | field =>
      simp only [behindOf, isStmt]
      cases a.node? (⟨raw⟩ : NodeId _) <;> rfl

theorem Arena.count_behindOf_expr (a : Arena) (i : AnyId) :
    (a.behindOf i).count .expr = if a.isStmt StmtNode.isLabeled i then 1 else 0 := by
  rw [behindOf_eq]
  cases a.isStmt StmtNode.isLabeled i <;> cases a.isStmt StmtNode.hasHeader i <;> rfl

theorem Arena.count_behindOf_stmt (a : Arena) (i : AnyId) :
    (a.behindOf i).count .stmt = if a.isStmt StmtNode.hasHeader i then 1 else 0 := by
  rw [behindOf_eq]
  cases a.isStmt StmtNode.isLabeled i <;> cases a.isStmt StmtNode.hasHeader i <;> rfl

/-- Only expressions and statements are left behind. -/
theorem Arena.kind_of_mem_behindOf {a : Arena} {i : AnyId} {k : Kind} (h : k ∈ a.behindOf i) :
    k = .expr ∨ k = .stmt := by
  rw [behindOf_eq] at h
  rcases List.mem_append.mp h with h | h
  · exact .inl (by simpa using (List.mem_ite_nil_right.mp h).2)
  · exact .inr (by simpa using (List.mem_ite_nil_right.mp h).2)

/-! ## The books with only the root in hand -/

namespace Ledger

variable {ls : List Lexeme} {log : List Event} {root : AnyId} {live left : List AnyId}

theorem nodup_live {held : List AnyId} (h : Ledger log held live left) : live.Nodup :=
  List.Nodup.of_append_left (h.all.nodup_iff.mpr (nodup_made log))

variable (h : Ledger log [root] live left)
include h

theorem mem_live_of_refers {p i : AnyId} (hp : p ∈ live) (hi : (replay log).Refers p i) :
    i ∈ live :=
  h.used.subset (List.mem_append_right _ (List.mem_flatMap.mpr ⟨p, hp, hi⟩))

/-- The nodes in use are those that the root leads to. -/
theorem mem_live_iff (hkept : Kept ls log) {i : AnyId} :
    i ∈ live ↔ (replay log).Reaches root i := by
  constructor
  · -- A parent was made later, so it comes earlier in the list of what was made.
    induction hn : (made log).idxOf i using Nat.strongRecOn generalizing i with
    | ind n ih =>
      intro hi
      rcases List.mem_append.mp (h.used.symm.subset hi) with hroot | hrefs
      · rw [List.mem_singleton.mp hroot]
        exact .refl
      · obtain ⟨p, hp, hpi⟩ := List.mem_flatMap.mp hrefs
        exact (ih _ (hn ▸ hkept.idxOf_lt_of_refers hpi) rfl hp).tail hpi
  · intro hi
    induction hi with
    | refl => exact h.used.subset List.mem_cons_self
    | tail _ hpi ih => exact h.mem_live_of_refers ih hpi

/-- A node in use is the root or has one parent. -/
theorem count_refs {i : AnyId} (hi : i ∈ live) :
    (live.flatMap (replay log).refsOf).count i = if i = root then 0 else 1 := by
  have hcount := h.used.count_eq i
  rw [List.count_eq_one_of_mem h.nodup_live hi, List.singleton_append, List.count_cons] at hcount
  by_cases hroot : i = root
  · simp_all
  · simp_all [Ne.symm hroot]

/-- Declarations and fields are all in use. -/
theorem mem_live_of_kind {i : AnyId} (hi : i ∈ made log) (hexpr : i.kind ≠ .expr)
    (hstmt : i.kind ≠ .stmt) : i ∈ live := by
  rcases List.mem_append.mp (h.all.symm.subset hi) with hlive | hleft
  · exact hlive
  · have hkind := h.paid.subset (List.mem_map.mpr ⟨i, hleft, rfl⟩)
    obtain ⟨p, -, hp⟩ := List.mem_flatMap.mp hkind
    exact ((Arena.kind_of_mem_behindOf hp).elim hexpr hstmt).elim

/-- The nodes of a kind are those in use, and those left behind for others in use. -/
theorem size_eq (k : Kind) : (replay log).size k =
    live.countP (·.kind = k) + (live.flatMap (replay log).behindOf).count k := by
  have hleft : (live.flatMap (replay log).behindOf).count k = left.countP (·.kind = k) := by
    rw [← h.paid.count_eq, List.count, List.countP_map]
    rfl
  rw [hleft, ← List.countP_append, h.all.countP_eq, List.countP_eq_length_filter,
    length_filter_made]

end Ledger

variable {k : Kind}

theorem Together.inventory {src : String} {f : Fragment k} {g : GoGloss.Fragment k.Tree}
    {log : List Event} (h : Together src f g log) :
    ∃ walk, Inventory f.arena f.root.any walk := by
  obtain ⟨root, _⟩ := f
  obtain ⟨rfl, hmirror, -, live, left, hledger⟩ := h
  have hlive : ∀ {i}, i ∈ live ↔ (replay log).Reaches root.any i :=
    hledger.mem_live_iff hmirror.kept
  have hall : ∀ {l : Kind} (i : NodeId l), l ≠ .expr → l ≠ .stmt →
      i.raw < (replay log).size l → (replay log).Reaches root.any i.any :=
    fun i hexpr hstmt hi => hlive.mp (hledger.mem_live_of_kind (mem_made.mpr hi) hexpr hstmt)
  refine ⟨live, hledger.nodup_live, hlive, fun hi => ?_, fun {p} hp href => ?_,
    fun {i} hi hne => ?_, fun i => hall i (by decide) (by decide),
    fun i => hall i (by decide) (by decide), ?_, ?_⟩
  · exact mem_made.mp (hledger.mem_made_of_live (hlive.mpr hi))
  · have hcount := hledger.count_refs (hlive.mpr .refl)
    rw [if_pos rfl, List.count_eq_zero] at hcount
    exact hcount (List.mem_flatMap.mpr ⟨p, hlive.mpr hp, href⟩)
  · have hcount := hledger.count_refs (hlive.mpr hi)
    rw [if_neg hne] at hcount
    obtain ⟨p, hp, hone, honly⟩ := exists_of_count_flatMap hcount
    exact ⟨p, hlive.mp hp, hone, fun q hq => honly q (hlive.mpr hq)⟩
  · rw [hledger.size_eq, count_flatMap_eq_countP (replay log).count_behindOf_expr]
  · rw [hledger.size_eq, count_flatMap_eq_countP (replay log).count_behindOf_stmt]

/--
**No orphans and no shared nodes.** Whichever way a source is read into an arena, the
nodes that the root leads to form a tree, which has all declarations and all fields.
The expressions besides are one for each labeled statement of the tree; the statements
besides are one for each `if`, each loop with a condition and each `switch` with a tag.
-/
theorem parsed_inventory (src : String) :
    (∀ f, parseExpr src = .ok f → ∃ walk, Inventory f.arena f.root.any walk) ∧
    (∀ f, parseDecl src = .ok f → ∃ walk, Inventory f.arena f.root.any walk) ∧
    (∀ f, parseStmt src = .ok f → ∃ walk, Inventory f.arena f.root.any walk) := by
  have hread : ∀ {k : Kind} {p : Builder (NodeId k)} {q : Grammar.Parser k.Tree} (f : Fragment k),
      Twin [] p q One → Fragment.read p src = .ok f →
      ∃ walk, Inventory f.arena f.root.any walk := by
    intro k p q f htwin hf
    obtain ⟨_, _, _, htogether⟩ := Together.of_read htwin hf
    exact htogether.inventory
  exact ⟨fun f => hread f twin_wholeExpr, fun f => hread f twin_wholeDecl,
    fun f => hread f twin_wholeStmt⟩

/-- A label, a condition and a tag inside one another. -/
theorem parsed_inventory_labeled :
    ∃ f, parseStmt "L: for x := y; x < z; x++ { if f(x) { switch g := x; g { case 1: break L } } }"
        = .ok f ∧ ∃ walk, Inventory f.arena f.root.any walk := by
  generalize hsrc :
    "L: for x := y; x < z; x++ { if f(x) { switch g := x; g { case 1: break L } } }" = src
  have hok : (GoGloss.parseStmt src).toOption.isSome := by
    subst hsrc
    decide +kernel
  obtain ⟨f, hf⟩ := exists_of_isSome twin_wholeStmt hok
  exact ⟨f, hf, (parsed_inventory src).2.2 f hf⟩

end GoGloss.Flat
