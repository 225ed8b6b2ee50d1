import GoGloss.Proofs.Lossless
import GoGloss.Proofs.Precedence

/-!
# The spans of a tree

Every node knows the bytes it was read from and the places of some of its tokens.
In a tree that was read these fit together: `Node.SpansNest` says of a tree that
every span in it is a stretch of the source, and that a node covers its places and
what stands directly under it.

A line of a declaration has no span of its own; its places count as those of the
declaration, and what it holds as standing under the declaration. The empty
statement takes no token. Its span is a point in front of the token ahead, which
may lie behind the node it belongs to, so it alone is not covered.
-/

namespace GoGloss

/-! ## Stretches of a source -/

/-- An offset between two characters of a source, or at one of its ends. -/
def IsBoundary (src : String) (n : Nat) : Prop :=
  ∃ before behind, src.toList = before ++ behind ∧ n = byteSize before

theorem isBoundary_zero (src : String) : IsBoundary src 0 :=
  ⟨[], src.toList, rfl, rfl⟩

theorem isBoundary_utf8ByteSize (src : String) : IsBoundary src src.utf8ByteSize :=
  ⟨src.toList, [], (List.append_nil _).symm, (byteSize_toList src).symm⟩

/-- A lexeme of a source starts and stops at boundaries. -/
theorem isBoundary_of_mem_tokenize {src : String} {l : Lexeme} (hl : l ∈ tokenize src) :
    IsBoundary src l.start ∧ IsBoundary src l.stop := by
  obtain ⟨before, text, rest, hsrc, hstart, hstop, -⟩ := (layout_tokenize src).liesIn l hl
  rw [Nat.zero_add] at hstart
  refine ⟨⟨before, text ++ rest, hsrc, hstart⟩, before ++ text, rest, ?_, ?_⟩
  · rw [hsrc, List.append_assoc]
  · rw [hstop, hstart, byteSize_append]

namespace Span

/-- A span that starts and stops between characters of a source, in this order. -/
structure IsStretch (src : String) (s : Span) : Prop where
  ordered : s.start ≤ s.stop
  stop_le : s.stop ≤ src.utf8ByteSize
  start_boundary : IsBoundary src s.start
  stop_boundary : IsBoundary src s.stop

/-- A stretch of a source that reaches nowhere outside of `s`. -/
structure LiesIn (src : String) (p s : Span) : Prop where
  stretch : p.IsStretch src
  start_le : s.start ≤ p.start
  le_stop : p.stop ≤ s.stop

theorem LiesIn.widen {src : String} {p s t : Span} (h : p.LiesIn src s)
    (hstart : t.start ≤ s.start) (hstop : s.stop ≤ t.stop) : p.LiesIn src t :=
  ⟨h.stretch, Nat.le_trans hstart h.start_le, Nat.le_trans h.le_stop hstop⟩

end Span

/-! ## Places -/

/-- Where the braces of a block stand. -/
def Block.places (b : Block) : List Span :=
  [b.lbrace, b.rbrace]

/-- The places an expression keeps, of its own tokens. -/
def Expr.places : Expr → List Span
  | .ident n => [n.pos]
  | .literal lit => [lit.span]
  | .funcLit _ _ body => body.places
  | .composite _ _ lbrace _ rbrace => [lbrace, rbrace]
  | .paren _ lparen _ rparen => [lparen, rparen]
  | .selector _ _ member => [member.pos]
  | .call _ _ _ dots => dots.toList
  | .star _ pos _ | .ellipsis _ pos _ => [pos]
  | .unary _ _ opPos _ | .binary _ _ _ opPos _ => [opPos]
  | .keyValue _ _ colon _ => [colon]
  | .funcType _ func _ _ => func.toList
  | .index .. | .indexList .. | .slice .. | .typeAssert .. | .arrayType .. | .structType ..
  | .interfaceType .. | .mapType .. | .chanType .. | .bad _ => []

/-- The places of a field's names and its tag. -/
def Field.places (f : Field) : List Span :=
  f.names.map Name.pos ++ f.tag.toList.map Literal.span

/-- The places a statement keeps, of its own tokens. -/
def Stmt.places : Stmt → List Span
  | .assign _ _ _ opPos _ | .send _ _ opPos _ | .step _ _ _ opPos => [opPos]
  | .labeled _ label _ => [label.pos]
  | .go _ pos _ | .defer _ pos _ | .ret _ pos _ => [pos]
  | .jump _ _ label => label.toList.map Name.pos
  | .block _ body | .ifElse _ _ _ body _ | .loop _ _ _ _ body | .range _ _ _ _ _ body
  | .switch _ _ _ body | .typeSwitch _ _ _ body | .select _ body => body.places
  | .empty _ | .expr .. | .decl .. | .caseClause .. | .commClause .. | .bad _ => []

/-- Where the name of an import stands. -/
def ImportName.pos : ImportName → Span
  | .dot pos | .blank pos => pos
  | .name n => n.pos

/-- The places a line of a declaration keeps, of its own tokens. -/
def Spec.places : Spec → List Span
  | .importing name path => name.toList.map ImportName.pos ++ [path.span]
  | .value names _ _ => names.map Name.pos
  | .type name assign _ => name.pos :: assign.toList

/-- The places a declaration and its lines keep, of their own tokens. -/
def Decl.places : Decl → List Span
  | .group _ _ wordPos lparen specs rparen =>
    wordPos :: (lparen.toList ++ specs.flatMap Spec.places ++ rparen.toList)
  | .func _ funcPos _ name _ body => funcPos :: name.pos :: body.elim [] Block.places
  | .bad _ => []

/-! ## Nesting -/

namespace Node

/-- The bytes a node was read from; a line of a declaration does not know them. -/
def span? : Node → Option Span
  | .expr x => some x.span
  | .field f => some f.span
  | .stmt s => some s.span
  | .decl d => some d.span
  | .spec _ => none

/-- The places a node keeps, of its own tokens. -/
def places : Node → List Span
  | .expr x => x.places
  | .field f => f.places
  | .stmt s => s.places
  | .decl d => d.places
  | .spec s => s.places

/-- The nodes with a span directly under a node; the lines of a declaration are looked through. -/
def below (n : Node) : List Node :=
  n.children.flatMap fun p =>
    match p.2 with
    | .spec s => (specChildren s).map Prod.snd
    | m => [m]

def isEmptyStmt : Node → Bool
  | .stmt (.empty _) => true
  | _ => false

/-- The span `s` of a node is a stretch of the source and covers all that belongs to the node. -/
structure Covers (src : String) (n : Node) (s : Span) : Prop where
  stretch : s.IsStretch src
  places : ∀ p ∈ n.places, p.LiesIn src s
  below : ∀ m ∈ n.below, m.isEmptyStmt = false → ∀ t ∈ m.span?, t.LiesIn src s

/-- Every node of a tree covers what belongs to it. -/
def SpansNest (src : String) (n : Node) : Prop :=
  ∀ m ∈ n.nodes, ∀ s ∈ m.span?, m.Covers src s

variable {src : String}

theorem spansNest_iff {n : Node} :
    n.SpansNest src ↔
      (∀ s ∈ n.span?, n.Covers src s) ∧ ∀ p ∈ n.children, p.2.SpansNest src :=
  forall_mem_nodes

/-! ## Trees inside a stretch of the source

What is read between two tokens is a tree whose spans nest and that lies in the
stretch between these tokens. -/

/-- The spans that a node has to answer for in the node above it. -/
def extent : Node → List Span
  | .stmt (.empty _) => []
  | .spec s => s.places ++ (specChildren s).filterMap (·.2.span?)
  | n => n.span?.toList

/-- The spans of a tree nest, and the node on top lies in `s`. -/
structure LiesIn (src : String) (s : Span) (n : Node) : Prop where
  nest : n.SpansNest src
  extent : ∀ p ∈ n.extent, p.LiesIn src s

theorem LiesIn.widen {s t : Span} {n : Node} (h : n.LiesIn src s) (hstart : t.start ≤ s.start)
    (hstop : s.stop ≤ t.stop) : n.LiesIn src t :=
  ⟨h.nest, fun p hp => (h.extent p hp).widen hstart hstop⟩

/-- A node answers for its own span, unless it is the empty statement. -/
theorem mem_extent {n : Node} {t : Span} (hempty : n.isEmptyStmt = false) (ht : t ∈ n.span?) :
    t ∈ n.extent := by
  unfold extent
  split
  · simp [isEmptyStmt] at hempty
  · simp [span?] at ht
  · exact Option.mem_toList.mpr ht

/-- What a child answers for, the node above it has to cover. -/
theorem liesIn_of_mem_below {s t : Span} {m n : Node}
    (hbelow : All (fun _ => LiesIn src s) n.children) (hm : m ∈ n.below)
    (hempty : m.isEmptyStmt = false) (ht : t ∈ m.span?) : t.LiesIn src s := by
  obtain ⟨p, hp, hm⟩ := List.mem_flatMap.mp hm
  refine (hbelow p hp).extent t ?_
  split at hm <;> rename_i hchild
  · -- a line of a declaration answers for what it holds
    obtain ⟨q, hq, rfl⟩ := List.mem_map.mp hm
    rw [hchild, extent]
    exact List.mem_append_right _ (List.mem_filterMap.mpr ⟨q, hq, ht⟩)
  · obtain rfl := List.mem_singleton.mp hm
    exact mem_extent hempty ht

/-- A node lies in its span if that covers its places and what is under it. -/
theorem liesIn_span {n : Node} {s : Span} (hspan : n.span? = some s) (hs : s.IsStretch src)
    (hplaces : ∀ p ∈ n.places, p.LiesIn src s) (hbelow : All (fun _ => LiesIn src s) n.children) :
    n.LiesIn src s := by
  refine ⟨spansNest_iff.mpr ⟨fun t ht => ?_, fun p hp => (hbelow p hp).nest⟩, fun t ht => ?_⟩
  · obtain rfl : s = t := by simpa [hspan] using ht
    exact ⟨hs, hplaces, fun m hm hempty t ht => liesIn_of_mem_below hbelow hm hempty ht⟩
  · unfold extent at ht
    split at ht
    · simp at ht
    · simp [span?] at hspan
    · obtain rfl : t = s := by simpa [hspan] using ht
      exact ⟨hs, Nat.le_refl _, Nat.le_refl _⟩

theorem liesIn_spec {s : Spec} {t : Span} (hplaces : ∀ p ∈ s.places, p.LiesIn src t)
    (hbelow : All (fun _ => LiesIn src t) (specChildren s)) : (spec s).LiesIn src t := by
  have hexpr : ∀ p ∈ specChildren s, p.2.isEmptyStmt = false := by
    cases s <;> simp [specChildren, expr?, exprs, or_imp, forall_and, isEmptyStmt]
  refine ⟨spansNest_iff.mpr ⟨fun u hu => ?_, fun p hp => (hbelow p hp).nest⟩, fun u hu => ?_⟩
  · cases hu
  · rcases List.mem_append.mp hu with hu | hu
    · exact hplaces u hu
    · obtain ⟨p, hp, hu⟩ := List.mem_filterMap.mp hu
      exact (hbelow p hp).extent u (mem_extent (hexpr p hp) hu)

end Node

/-- The braces and the statements of a block lie in `s`. -/
def Block.LiesIn (src : String) (s : Span) (b : Block) : Prop :=
  (∀ p ∈ b.places, p.LiesIn src s) ∧ ∀ x ∈ b.stmts, (Node.stmt x).LiesIn src s

end GoGloss
