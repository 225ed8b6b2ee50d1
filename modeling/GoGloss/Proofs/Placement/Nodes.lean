import GoGloss.Proofs.Placement.Basic

/-!
# Nodes over what was read

A node is made at the end of a production, over all that was taken since the production
started, so it covers all that was made on the way. `Made` says so of a node, and there is
one rule for each kind.
-/

namespace GoGloss

open Node

namespace Grammar

variable {α : Type} {src : String} {b : Nat} {e : Bool} {c c' : Cursor}

/-! ## The span since an offset -/

/-- A token was taken since the offset `b`. -/
class Took (src : String) (b : Nat) (c : Cursor) : Prop where
  le : Small src → b ≤ c.lastStop

instance [hc : c.Onto src c'] [h : Took src b c] : Took src b c' :=
  ⟨fun hsmall => Nat.le_trans (h.le hsmall) hc.lastStop_le⟩

/-- What lies somewhere takes up bytes there. -/
class Solid (α : Type) [Placed α] : Prop where
  le : ∀ {src s} {a : α}, Placed.lies src s a → s.start ≤ s.stop

instance : Solid Span :=
  ⟨fun h => Nat.le_trans h.start_le (Nat.le_trans h.stretch.ordered h.le_stop)⟩
theorem Solid.of_span [Placed α] {f : α → Span}
    (h : ∀ {src s} {a : α}, Placed.lies src s a → (f a).LiesIn src s) : Solid α :=
  ⟨fun ha => (inferInstance : Solid Span).le (h ha)⟩

instance : Solid Expr := .of_span fun h => h.extent _ (mem_extent rfl rfl)
instance : Solid Decl := .of_span fun h => h.extent _ (mem_extent rfl rfl)
instance : Solid Block := .of_span fun h => h.1 _ (.head _)

theorem Lies.took [Placed α] [hs : Solid α] {a : α} (h : Lies src b c a) : Took src b c :=
  ⟨fun hsmall => hs.le (h.lies hsmall)⟩

instance [Placed α] [Solid α] {p : Parser α} {r : Read src b c p} : Took src b r.after :=
  r.lies.took

/-- A reader that takes a token. -/
class Steps (src : String) (p : Parser α) : Prop where
  yields : ∀ c, c.Ready src → Yields p c fun _ c' => c.head.start ≤ c'.lastStop

instance : Steps src (take : Parser Span) := ⟨fun _ hc => yields_take.mpr hc.head_bounds.2.2.1⟩
instance {t : Token} : Steps src (expect t : Parser Span) :=
  ⟨fun _ hc => yields_expect.mpr fun _ => hc.head_bounds.2.2.1⟩
instance {p : Parser α} [h : Steps src p] : Steps src (discard p) :=
  ⟨fun c hc => yields_discard.mpr (h.yields c hc)⟩

instance [Placed α] {p : Parser α} [hp : Steps src p] [hc : c.Ready src] [hb : c.From src b]
    {r : Read src b c p} : Took src b r.after :=
  ⟨fun _ => Nat.le_trans hb.le (hp.yields c hc _ _ r.run)⟩

/-- The span from `b` to where the cursor stands. -/
class IsSpan (src : String) (b : Nat) (c : Cursor) (s : Span) : Prop where
  inside : s.Inside src.utf8ByteSize
  eq : Small src → s = ⟨b, c.lastStop⟩
  stretch : Small src → s.IsStretch src

instance [hc : c.Ready src] [hb : c.From src b] [h : Took src b c] :
    IsSpan src b c (c.spanFrom b) := by
  have hle := hb.le
  have hstop := hc.lastStop_le
  have hbounds := hc.head_bounds
  have heq : Small src → c.spanFrom b = ⟨b, c.lastStop⟩ := by
    intro hsmall
    have := h.le hsmall
    unfold Small at hsmall
    simp only [Cursor.spanFrom, Span.of, Span.mk.injEq]
    omega
  refine ⟨Span.inside_of (Nat.le_max_right ..) (by omega), heq, fun hsmall => ?_⟩
  rw [heq hsmall]
  exact ⟨h.le hsmall, by simp only; omega, hb.boundary hsmall, hc.lastStop⟩

/-! ## Nodes -/

section Parts

variable [Placed α] {s p : Span} {n : Name} {x : Expr} {f : Field} {t : Stmt} {y : Block}

theorem lies_iff {a : α} : Lies src b c a ↔
    Placed.inside src.utf8ByteSize a ∧ (Small src → Placed.lies src ⟨b, c.lastStop⟩ a) :=
  ⟨fun h => ⟨h.1, h.2⟩, fun h => ⟨h.1, h.2⟩⟩

@[simp] theorem inside_expr {size : Nat} : Placed.inside size x ↔ x.span.Inside size := .rfl
@[simp] theorem lies_span : Placed.lies src s p ↔ p.LiesIn src s := .rfl
@[simp] theorem lies_name : Placed.lies src s n ↔ n.pos.LiesIn src s := .rfl
@[simp] theorem lies_literal {l : Literal} : Placed.lies src s l ↔ l.span.LiesIn src s := .rfl
@[simp] theorem lies_importName {n : ImportName} :
    Placed.lies src s n ↔ n.pos.LiesIn src s := .rfl
@[simp] theorem lies_expr : Placed.lies src s x ↔ (Node.expr x).LiesIn src s := .rfl
@[simp] theorem lies_field : Placed.lies src s f ↔ (Node.field f).LiesIn src s := .rfl
@[simp] theorem lies_stmt : Placed.lies src s t ↔ (Node.stmt t).LiesIn src s := .rfl
@[simp] theorem lies_decl {d : Decl} : Placed.lies src s d ↔ (Node.decl d).LiesIn src s := .rfl
@[simp] theorem lies_spec {x : Spec} : Placed.lies src s x ↔ (Node.spec x).LiesIn src s := .rfl
@[simp] theorem lies_block : Placed.lies src s y ↔ y.LiesIn src s := .rfl
@[simp] theorem lies_option {o : Option α} :
    Placed.lies src s o ↔ ∀ a ∈ o, Placed.lies src s a := .rfl
@[simp] theorem lies_list {as : List α} :
    Placed.lies src s as ↔ ∀ a ∈ as, Placed.lies src s a := .rfl

end Parts

/-- A node lies where its parts lie. -/
theorem liesIn_of_parts {n : Node} {s : Span} (hs : IsSpan src b c s) (hspan : n.span? = some s)
    (hparts : Small src → (∀ p ∈ n.places, p.LiesIn src ⟨b, c.lastStop⟩) ∧
      All (fun _ => Node.LiesIn src ⟨b, c.lastStop⟩) n.children) (hsmall : Small src) :
    n.LiesIn src ⟨b, c.lastStop⟩ := by
  obtain ⟨hplaces, hbelow⟩ := hparts hsmall
  have heq := hs.eq hsmall
  exact liesIn_span (hspan.trans (congrArg some heq)) (heq ▸ hs.stretch hsmall) hplaces hbelow

/-- An expression over all that was taken since `b`. -/
class Made (src : String) (b : Nat) (c : Cursor) (x : Expr) : Prop where
  isSpan : IsSpan src b c x.span
  lies : Small src → (Node.expr x).LiesIn src ⟨b, c.lastStop⟩

instance {x : Expr} [h : Made src b c x] : Lies src b c x := ⟨h.isSpan.inside, h.lies⟩

instance {x : Expr} [h : Made src b c x] [hc : c.Landed src] : Fills e src b c x where
  framed _ y hy := by
    obtain rfl : x = y := Option.some.inj hy
    exact ⟨h.isSpan.eq, hc⟩

theorem made {x : Expr} (hs : IsSpan src b c x.span)
    (hparts : Small src → (∀ p ∈ x.places, p.LiesIn src ⟨b, c.lastStop⟩) ∧
      All (fun _ => Node.LiesIn src ⟨b, c.lastStop⟩) (exprChildren x) := by
        simp_all [lies_iff, Expr.places, exprChildren, Block.LiesIn]) : Made src b c x :=
  ⟨hs, liesIn_of_parts (n := .expr x) hs rfl hparts⟩

theorem madeStmt {x : Stmt} (hs : IsSpan src b c x.span)
    (hexpr : ∀ y ∈ x.expr?, y.span.Inside src.utf8ByteSize := by
      simp_all [lies_iff, Stmt.expr?])
    (hparts : Small src → (∀ p ∈ x.places, p.LiesIn src ⟨b, c.lastStop⟩) ∧
      All (fun _ => Node.LiesIn src ⟨b, c.lastStop⟩) (stmtChildren x) := by
        simp_all [lies_iff, Stmt.places, stmtChildren, Block.LiesIn]) : Lies src b c x :=
  ⟨⟨hs.inside, hexpr⟩, liesIn_of_parts (n := .stmt x) hs rfl hparts⟩

/-- A node without anything under it, all of which is one token. -/
theorem leaf_liesIn {n : Node} {p s : Span} (h : p.LiesIn src s) (hspan : n.span? = some p)
    (hplaces : n.places = [p]) (hchildren : n.children = []) : n.LiesIn src s := by
  have hself : p.LiesIn src p := ⟨h.stretch, Nat.le_refl _, Nat.le_refl _⟩
  have hn := liesIn_span hspan h.stretch (by simpa [hplaces] using hself) (by simp [hchildren])
  exact hn.widen h.start_le h.le_stop

instance {n : Name} [h : Lies src b c n] : Lies src b c (Expr.ident n) :=
  ⟨h.inside, fun hsmall => leaf_liesIn (h.lies hsmall) rfl rfl rfl⟩
instance {l : Literal} [h : Lies src b c l] : Lies src b c (Expr.literal l) :=
  ⟨h.inside, fun hsmall => leaf_liesIn (h.lies hsmall) rfl rfl rfl⟩
instance {p : Span} [h : Lies src b c p] : Lies src b c (Expr.ellipsis p p none) :=
  ⟨h.inside, fun hsmall => leaf_liesIn (h.lies hsmall) rfl rfl rfl⟩

variable {s : Span} [hs : IsSpan src b c s] {x : Expr} [Lies src b c x]

section Operands

variable {l r : Span} {n : Name} {y : Expr} {xs : List Expr} {dots : Option Span}
  [Lies src b c l] [Lies src b c r] [Lies src b c n] [Lies src b c y] [Lies src b c xs]
  [Lies src b c dots]

instance : Made src b c (.paren s l x r) := made hs
instance : Made src b c (.selector s x n) := made hs
instance : Made src b c (.index s x y) := made hs
instance : Made src b c (.indexList s x xs) := made hs
instance : Made src b c (.call s x xs dots) := made hs
instance : Made src b c (.star s l x) := made hs
instance {op} : Made src b c (.unary s op l x) := made hs
instance {op} : Made src b c (.binary s x op l y) := made hs
instance : Made src b c (.keyValue s x l y) := made hs
instance : Made src b c (.mapType s x y) := made hs
instance {dir} : Made src b c (.chanType s dir x) := made hs
instance : Lies src b c (Stmt.expr s x) := madeStmt hs
instance : Lies src b c (Stmt.send s x l y) := madeStmt hs
instance {op} : Lies src b c (Stmt.step s x op l) := madeStmt hs
instance : Lies src b c (Stmt.go s l x) := madeStmt hs
instance : Lies src b c (Stmt.defer s l x) := madeStmt hs
instance : Lies src b c (Stmt.ret s l xs) := madeStmt hs

end Operands

section Optional

variable {l r : Span} {o p q : Option Expr} {xs ys : List Expr} {n : Option Name} {d : Decl}
  [Lies src b c l] [Lies src b c r] [Lies src b c o] [Lies src b c p] [Lies src b c q]
  [Lies src b c xs] [Lies src b c ys] [Lies src b c n] [Lies src b c d]

instance : Made src b c (.composite s o l xs r) := made hs
instance {full} : Made src b c (.slice s x o p q full) := made hs
instance : Made src b c (.typeAssert s x o) := made hs
instance : Made src b c (.arrayType s o x) := made hs
instance : Made src b c (.ellipsis s l o) := made hs
instance {op} : Lies src b c (Stmt.assign s xs op l ys) := madeStmt hs
instance {kind} : Lies src b c (Stmt.jump s kind n) := madeStmt hs
instance : Lies src b c (Stmt.decl s d) := madeStmt hs

end Optional

section Fields

variable {func : Option Span} {fs gs : List Field} [Lies src b c func] [Lies src b c fs]
  [Lies src b c gs]

instance : Made src b c (.structType s fs) := made hs
instance : Made src b c (.funcType s func fs gs) := made hs
instance : Made src b c (.interfaceType s fs) := made hs

end Fields

section Bodies

variable {body : Block} {init : Option Stmt} {o : Option Expr} {ss : List Stmt} {n : Name}
  {t : Stmt} [Lies src b c body] [Lies src b c init] [Lies src b c o] [Lies src b c ss]
  [Lies src b c n] [Lies src b c t]

instance : Made src b c (.funcLit s x body) := made hs
instance : Lies src b c (Stmt.labeled s n t) := madeStmt hs
instance : Lies src b c (Stmt.block s body) := madeStmt hs
instance {other} [Lies src b c other] : Lies src b c (Stmt.ifElse s init x body other) :=
  madeStmt hs
instance {post} [Lies src b c post] : Lies src b c (Stmt.loop s init o post body) := madeStmt hs
instance {value op} [Lies src b c value] : Lies src b c (Stmt.range s o value op x body) :=
  madeStmt hs
instance : Lies src b c (Stmt.switch s init o body) := madeStmt hs
instance : Lies src b c (Stmt.typeSwitch s init t body) := madeStmt hs
instance : Lies src b c (Stmt.select s body) := madeStmt hs
instance {xs} [Lies src b c xs] : Lies src b c (Stmt.caseClause s xs ss) := madeStmt hs
instance : Lies src b c (Stmt.commClause s init ss) := madeStmt hs

end Bodies

/-! ### Fields and declarations -/

instance {names : List Name} {tag : Option Literal} [hn : Lies src b c names]
    [ht : Lies src b c tag] : Lies src b c (Field.mk s names x tag) :=
  ⟨trivial, liesIn_of_parts (n := .field ⟨s, names, x, tag⟩) hs rfl (by
    simp_all [lies_iff, Node.places, Field.places, children, or_imp, forall_and])⟩

section Specs

variable {n : Name} {names : List Name} {o : Option Expr} {xs : List Expr} {assign : Option Span}
  [Lies src b c n] [Lies src b c names] [Lies src b c o] [Lies src b c xs] [Lies src b c assign]

instance {n : Option ImportName} {path : Literal} [Lies src b c n] [Lies src b c path] :
    Lies src b c (Spec.importing n path) :=
  ⟨trivial, fun _ => liesIn_spec (by simp_all [lies_iff, Spec.places, or_imp])
    (by simp [specChildren])⟩
instance : Lies src b c (Spec.value names o xs) :=
  ⟨trivial, fun _ => liesIn_spec (by simp_all [lies_iff, Spec.places])
    (by simp_all [lies_iff, specChildren])⟩
instance : Lies src b c (Spec.type n assign x) :=
  ⟨trivial, fun _ => liesIn_spec (by simp_all [lies_iff, Spec.places])
    (by simp_all [lies_iff, specChildren])⟩

end Specs

section Decls

variable {n : Name} {word func : Span} {l r : Option Span} {specs : List Spec}
  {receiver : Option (List Field)} {body : Option Block} [Lies src b c n] [Lies src b c word]
  [Lies src b c func] [Lies src b c l] [Lies src b c r] [Lies src b c specs]
  [Lies src b c receiver] [Lies src b c body]

instance {w} : Lies src b c (Decl.group s w word l specs r) :=
  ⟨trivial, liesIn_of_parts (n := .decl (.group s w word l specs r)) hs rfl fun hsmall => by
    have hplaces : Placed.lies src ⟨b, c.lastStop⟩ specs → ∀ x ∈ specs, ∀ p ∈ x.places,
        p.LiesIn src ⟨b, c.lastStop⟩ :=
      fun h x hx p hp => (h x hx).extent p (List.mem_append_left _ hp)
    simp_all [lies_iff, Node.places, Decl.places, children, declChildren]
    grind⟩

instance : Lies src b c (Decl.func s func receiver n x body) :=
  ⟨trivial, liesIn_of_parts (n := .decl (.func s func receiver n x body)) hs rfl (by
    cases receiver <;> cases body <;>
    simp_all [lies_iff, Node.places, Decl.places, children, declChildren, Block.LiesIn])⟩

end Decls

end Grammar

end GoGloss
