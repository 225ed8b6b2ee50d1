import GoGloss.Proofs.Fitting.Basic

/-!
# Nodes that fit a level

A node may stand by itself and fits a level if it is shaped as it should be and what
stands under it serves there. For most nodes that is all there is to say. The others
are those that hold what may stand only there: composite literals, arrays, interfaces
and switches.
-/

namespace GoGloss

namespace Node

variable {i : Int} {n m : Node} {role : Role}

/-- What stands under a node in a role may do so, if the node is read at a level. -/
structure Serves (i : Int) (n : Node) (role : Role) (m : Node) : Prop where
  held : n.MayHold role m
  wellFormed : m.WellFormed
  fits : m.Fits (if n.encloses role then 0 else i)

theorem Sound.serves (h : m.Sound (if n.encloses role then 0 else i)) : Serves i n role m :=
  ⟨h.stands.1 n role, h.stands.2, h.fits⟩

/-- A node over what serves there. -/
theorem intact_of (hshaped : n.Shaped) (hheader : ∀ part ∈ n.header, part.Sealed)
    (htype : i < 0 → n.HasLiteralType) (hbelow : All (Serves i n) n.children) :
    n.WellFormed ∧ n.Fits i :=
  ⟨wellFormed_iff.mpr ⟨hshaped, fun p hp => ⟨(hbelow p hp).held, (hbelow p hp).wellFormed⟩⟩,
    fits_of_children hheader htype fun p hp => (hbelow p hp).fits⟩

/-- An expression over nodes that may stand by themselves. -/
theorem expr_sound {x : Expr}
    (hself : (expr x).Plain ∧ x.Shaped ∧ (i < 0 → (expr x).HasLiteralType))
    (hbelow : All (fun role m => m.Sound (if (expr x).encloses role then 0 else i))
      (exprChildren x)) : (expr x).Sound i := by
  obtain ⟨hplain, hshaped, htype⟩ := hself
  have hintact := intact_of (n := expr x) hshaped (fun _ h => absurd h List.not_mem_nil) htype
    fun p hp => (hbelow p hp).serves
  exact ⟨⟨hplain, hintact.1⟩, hintact.2⟩

/-- A statement over nodes that serve there, of which those in its header are sealed. -/
theorem stmt_intact {s : Stmt} (hshaped : s.Shaped)
    (hheader : ∀ part ∈ (stmt s).header, part.Sound (-1))
    (hrest : All (fun role m => m ∈ (stmt s).header ∨ Serves i (stmt s) role m) (stmtChildren s)) :
    (stmt s).WellFormed ∧ (stmt s).Fits i := by
  refine intact_of hshaped (fun part hpart => (hheader part hpart).fits.sealed) (fun _ => trivial)
    fun p hp => ?_
  rcases hrest p hp with hin | hserves
  · exact ((hheader p.2 hin).mono fun _ => by decide).serves
  · exact hserves

/-- A statement over nodes that may stand by themselves. -/
theorem stmt_sound {s : Stmt} (hself : (stmt s).Plain ∧ s.Shaped)
    (hheader : ∀ part ∈ (stmt s).header, part.Sound (-1))
    (hrest : All (fun _ m => m ∈ (stmt s).header ∨ m.Sound i) (stmtChildren s)) :
    (stmt s).Sound i := by
  have hserves : All (fun role m => m ∈ (stmt s).header ∨ Serves i (stmt s) role m)
      (stmtChildren s) := fun p hp => (hrest p hp).imp_right Sound.serves
  have hintact := stmt_intact hself.2 hheader hserves
  exact ⟨⟨hself.1, hintact.1⟩, hintact.2⟩

end Node

open Node

namespace Grammar

variable {L : Levels} {i : Int}

/-! ## Expressions -/

section

variable {span pos pos' : Span} {x y : Expr} {xs : List Expr} {x? y? z? : Option Expr}
  {fs fs' : List Field}

theorem fit_expr (hself : (Node.expr x).Plain ∧ x.Shaped ∧ (Node.expr x).HasLiteralType)
    (hbelow : L.judged →
      All (fun role m => m.Sound (if (Node.expr x).encloses role then 0 else i)) (exprChildren x)) :
    Fit L i x :=
  ⟨fun hj => expr_sound ⟨hself.1, hself.2.1, fun _ => hself.2.2⟩ (hbelow hj)⟩

instance {n : Name} : Fit L i (Expr.ident n) :=
  fit_expr ⟨fun _ _ => trivial, trivial, trivial⟩ fun _ => by simp [exprChildren]

instance {l : Literal} : Fit L i (Expr.literal l) :=
  fit_expr ⟨fun _ _ => trivial, trivial, trivial⟩ fun _ => by simp [exprChildren]

instance [hx : Fit L 0 x] : Fit L i (Expr.paren span pos x pos') :=
  fit_expr ⟨fun _ _ => trivial, trivial, trivial⟩ fun hj => by
    simpa [exprChildren, encloses] using hx.fits hj

instance {n : Name} [hx : Fit L i x] : Fit L i (Expr.selector span x n) :=
  fit_expr ⟨fun _ _ => trivial, trivial, trivial⟩ fun hj => by
    simpa [exprChildren, encloses] using hx.fits hj

instance [hx : Fit L i x] [hy : Fit L 0 y] : Fit L i (Expr.index span x y) :=
  fit_expr ⟨fun _ _ => trivial, trivial, trivial⟩ fun hj => by
    simpa [exprChildren, encloses] using ⟨hx.fits hj, hy.fits hj⟩

theorem fit_indexList [hx : Fit L i x] [hy : Fit L 0 y] [hxs : Fit L 0 xs]
    (hne : xs ≠ []) : Fit L i (Expr.indexList span x (y :: xs)) := by
  have hshaped : (Expr.indexList span x (y :: xs)).Shaped := by
    obtain ⟨z, zs, rfl⟩ := List.exists_cons_of_ne_nil hne
    simp [Expr.Shaped]
  exact fit_expr ⟨fun _ _ => trivial, hshaped, trivial⟩ fun hj => by
    simpa [exprChildren, encloses] using ⟨hx.fits hj, hy.fits hj, hxs.fits hj⟩

theorem fit_slice {full : Bool} [hx : Fit L i x] (hx? : Fit L 0 x?)
    (hy? : Fit L 0 y?) (hz? : Fit L 0 z?)
    (hshaped : L.judged → (Expr.slice span x x? y? z? full).Shaped) :
    Fit L i (Expr.slice span x x? y? z? full) :=
  ⟨fun hj => expr_sound ⟨fun _ _ => trivial, hshaped hj, fun _ => trivial⟩
    (by simpa [exprChildren, encloses] using
      ⟨hx.fits hj, hx?.fits hj, hy?.fits hj, hz?.fits hj⟩)⟩

instance [hx : Fit L i x] [hx? : Fit L i x?] :
    Fit L i (Expr.typeAssert span x x?) :=
  fit_expr ⟨fun _ _ => trivial, trivial, trivial⟩ fun hj => by
    simpa [exprChildren, encloses] using ⟨hx.fits hj, hx?.fits hj⟩

/-- The dots after the arguments of a call are those of the last one. -/
instance {args : List (Expr × Option Span)} [hx : Fit L i x] [hargs : Fit L 0 args] :
    Fit L i (Expr.call span x (args.map (·.1)) (args.getLast?.bind (·.2))) := by
  refine ⟨fun hj => expr_sound ⟨fun _ _ => trivial, fun hdots hnone => ?_, fun _ => trivial⟩ ?_⟩
  · simp_all
  · simp only [exprChildren, all_cons, all_exprs, encloses, List.forall_mem_map]
    exact ⟨hx.fits hj, fun a ha => (hargs.fits hj a ha).1⟩

instance [hx : Fit L i x] : Fit L i (Expr.star span pos x) :=
  fit_expr ⟨fun _ _ => trivial, trivial, trivial⟩ fun hj => by
    simpa [exprChildren, encloses] using hx.fits hj

instance {op : UnaryOp} [hx : Fit L i x] : Fit L i (Expr.unary span op pos x) :=
  fit_expr ⟨fun _ _ => trivial, trivial, trivial⟩ fun hj => by
    simpa [exprChildren, encloses] using hx.fits hj

instance {op : BinaryOp} [hx : Fit L i x] [hy : Fit L i y] :
    Fit L i (Expr.binary span x op pos y) :=
  fit_expr ⟨fun _ _ => trivial, trivial, trivial⟩ fun hj => by
    simpa [exprChildren, encloses] using ⟨hx.fits hj, hy.fits hj⟩

instance [hfs : Fit L i fs] : Fit L i (Expr.structType span fs) :=
  fit_expr ⟨fun _ _ => trivial, trivial, trivial⟩ fun hj => by
    simpa [exprChildren, encloses] using hfs.fits hj

instance [hfs : Fit L i fs] [hfs' : Fit L i fs'] :
    Fit L i (Expr.funcType span (some pos) fs fs') :=
  fit_expr ⟨fun _ _ => trivial, trivial, trivial⟩ fun hj => by
    simpa [exprChildren, encloses] using ⟨hfs.fits hj, hfs'.fits hj⟩

instance [hx : Fit L i x] [hy : Fit L i y] : Fit L i (Expr.mapType span x y) :=
  fit_expr ⟨fun _ _ => trivial, trivial, trivial⟩ fun hj => by
    simpa [exprChildren, encloses] using ⟨hx.fits hj, hy.fits hj⟩

instance {dir : ChanDir} [hx : Fit L i x] : Fit L i (Expr.chanType span dir x) :=
  fit_expr ⟨fun _ _ => trivial, trivial, trivial⟩ fun hj => by
    simpa [exprChildren, encloses] using hx.fits hj

instance [hx : Fit L i x] : Fit L i (Expr.ellipsis span pos (some x)) :=
  fit_expr ⟨fun _ _ => trivial, trivial, trivial⟩ fun hj => by
    simpa [exprChildren, encloses] using hx.fits hj

theorem fit_funcLit {body : Block} [hx : Fit L i x] [hbody : Fit L 0 body]
    (hfunc : x.isFuncType) : Fit L i (Expr.funcLit span x body) :=
  fit_expr ⟨fun _ _ => trivial, hfunc, trivial⟩ fun hj => by
    simpa [exprChildren, encloses] using ⟨hx.fits hj, hbody.fits hj⟩

/-! ### Arrays, literals and interfaces -/

/-- The length of an array, which may be dots alone. -/
def IsLength (x : Expr) : Prop :=
  (Node.expr x).WellFormed ∧ (Node.expr x).Fits 0 ∧ ∀ parent, MayHold parent .length (.expr x)

theorem fit_arrayType (hx? : ∀ y ∈ x?, L.judged → IsLength y) [hx : Fit L i x] :
    Fit L i (Expr.arrayType span x? x) := by
  refine ⟨fun hj => ?_⟩
  have hintact := intact_of (n := .expr (.arrayType span x? x)) (i := i) trivial
    (by simp [header]) (fun _ => trivial) ?_
  · exact ⟨⟨fun _ _ => trivial, hintact.1⟩, hintact.2⟩
  · have hserves : Serves i (.expr (.arrayType span x? x)) .elem (.expr x) :=
      Sound.serves (hx.fits hj)
    simp only [children, exprChildren, all_append, all_expr?, all_cons, all_nil, and_true]
    exact ⟨fun y hy => ⟨(hx? y hy hj).2.2 _, (hx? y hy hj).1, (hx? y hy hj).2.1⟩, hserves⟩

/-- A key or a value in a composite literal, or an element without a key. -/
def IsElementPart (x : Expr) : Prop :=
  (Node.expr x).WellFormed ∧ (Node.expr x).Fits 0 ∧ ∀ parent role,
    ((parent.isComposite ∧ role = .element) ∨ parent.isKeyValue) → MayHold parent role (.expr x)

/-- An element of a composite literal, with its key if it has one. -/
def IsElement (x : Expr) : Prop :=
  (Node.expr x).WellFormed ∧ (Node.expr x).Fits 0 ∧
    ∀ parent, parent.isComposite → MayHold parent .element (.expr x)

theorem IsElementPart.isElement (h : IsElementPart x) : IsElement x :=
  ⟨h.1, h.2.1, fun parent hparent => h.2.2 parent _ (.inl ⟨hparent, rfl⟩)⟩

theorem isElement_keyValue (hx : IsElementPart x) (hy : IsElementPart y) :
    IsElement (.keyValue span x pos y) := by
  have hintact := intact_of (n := .expr (.keyValue span x pos y)) (i := 0) trivial
    (by simp [header]) (fun _ => trivial) ?_
  · exact ⟨hintact.1, hintact.2, fun _ hparent => ⟨hparent, rfl⟩⟩
  · simp only [children, exprChildren, all_cons, all_nil, and_true]
    exact ⟨⟨hx.2.2 _ _ (.inr rfl), hx.1, hx.2.1⟩, hy.2.2 _ _ (.inr rfl), hy.1, hy.2.1⟩

theorem composite_intact (span : Span) (t : Option Expr) (lbrace : Span) (es : List Expr)
    (rbrace : Span) (ht : ∀ y ∈ t, (Node.expr y).Sound i)
    (htype : i < 0 → ∃ y ∈ t, y.unparen.isLiteralType) (hes : ∀ y ∈ es, IsElement y) :
    (Node.expr (.composite span t lbrace es rbrace)).WellFormed ∧
      (Node.expr (.composite span t lbrace es rbrace)).Fits i := by
  refine intact_of trivial (by simp [header]) htype ?_
  simp only [children, exprChildren, all_append, all_expr?, all_exprs]
  refine ⟨fun y hy => Sound.serves (ht y hy), fun y hy => ?_⟩
  exact ⟨(hes y hy).2.2 _ rfl, (hes y hy).1, (hes y hy).2.1⟩

end

instance {span : Span} {names : List Name} {t : Expr} {tag : Option Literal}
    [ht : Fit L i t] : Fit L i (Field.mk span names t tag) := by
  refine ⟨fun hj => ?_⟩
  have hsound : (Node.expr t).Sound i := ht.fits hj
  have hserves : Serves i (.field ⟨span, names, t, tag⟩) .type (.expr t) := Sound.serves hsound
  have hintact := intact_of (n := .field ⟨span, names, t, tag⟩) (i := i) trivial (by simp [header])
    (fun _ => trivial) (by simpa [children] using hserves)
  refine ⟨⟨fun _ _ hmethod => ?_, hintact.1⟩, hintact.2⟩
  simp [Expr.isMethodType_of_plain hsound.stands.1] at hmethod

/-- A member of an interface: a type that stands by itself, or a signature with a name. -/
def IsMember (i : Int) (f : Field) : Prop :=
  (Node.field f).WellFormed ∧ (Node.field f).Fits i ∧ (f.type.isMethodType → f.names ≠ [])

theorem isMember_method {span sigSpan : Span} {n : Name} {params results : List Field}
    (hparams : Fit L i params) (hresults : Fit L i results) (hj : L.judged) :
    IsMember i ⟨span, [n], .funcType sigSpan none params results, none⟩ := by
  have hsig := intact_of (n := .expr (.funcType sigSpan none params results)) (i := i) trivial
    (by simp [header]) (fun _ => trivial) ?_
  · have hintact := intact_of (i := i)
      (n := .field ⟨span, [n], .funcType sigSpan none params results, none⟩) trivial
      (by simp [header]) (fun _ => trivial) (by simpa [children] using ⟨rfl, hsig.1, hsig.2⟩)
    exact ⟨hintact.1, hintact.2, fun _ => List.cons_ne_nil n []⟩
  · simp only [children, exprChildren, all_append, all_fields]
    exact ⟨fun f hf => Sound.serves (hparams.fits hj f hf),
      fun f hf => Sound.serves (hresults.fits hj f hf)⟩

theorem isMember_of_fit {f : Field} (hf : Fit L i f) (hj : L.judged) : IsMember i f := by
  obtain ⟨hstands, hfits⟩ : (Node.field f).Sound i := hf.fits hj
  refine ⟨hstands.2, hfits, fun hmethod => ?_⟩
  -- a field that may stand anywhere is none of a method
  exact Bool.noConfusion (hstands.1 (.stmt (.empty default)) .root hmethod).1

theorem fit_interfaceType {span : Span} {fs : List Field}
    (hfs : ∀ f ∈ fs, L.judged → IsMember i f) : Fit L i (Expr.interfaceType span fs) := by
  refine ⟨fun hj => ?_⟩
  have hintact := intact_of (n := .expr (.interfaceType span fs)) (i := i) trivial
    (by simp [header]) (fun _ => trivial) ?_
  · exact ⟨⟨fun _ _ => trivial, hintact.1⟩, hintact.2⟩
  · simp only [children, exprChildren, all_fields]
    intro f hf
    obtain ⟨hwf, hfits, hnames⟩ := hfs f hf hj
    exact ⟨fun hmethod => ⟨rfl, hnames hmethod⟩, hwf, hfits⟩

/-! ## Declarations -/

theorem fit_spec {s : Spec} (hbelow : L.judged → All (fun _ m => m.Sound i) (specChildren s)) :
    Fit L i s := by
  refine ⟨fun hj => ?_⟩
  have hserves : All (Serves i (.spec s)) (specChildren s) :=
    fun p hp => Sound.serves (hbelow hj p hp)
  have hintact := intact_of (n := .spec s) trivial (by simp [header]) (fun _ => trivial) hserves
  exact ⟨⟨fun _ _ => trivial, hintact.1⟩, hintact.2⟩

instance {n : Option ImportName} {path : Literal} : Fit L i (Spec.importing n path) :=
  fit_spec fun _ => by simp [specChildren]

instance {names : List Name} {t : Option Expr} {xs : List Expr} [ht : Fit L i t]
    [hxs : Fit L i xs] : Fit L i (Spec.value names t xs) :=
  fit_spec fun hj => by simpa [specChildren] using ⟨ht.fits hj, hxs.fits hj⟩

instance {n : Name} {assign : Option Span} {t : Expr} [ht : Fit L i t] :
    Fit L i (Spec.type n assign t) :=
  fit_spec fun hj => by simpa [specChildren] using ht.fits hj

theorem fit_decl {d : Decl} (hself : (Node.decl d).Plain ∧ d.Shaped)
    (hbelow : L.judged → All (fun _ m => m.Sound i) (declChildren d)) : Fit L i d := by
  refine ⟨fun hj => ?_⟩
  have hserves : All (Serves i (.decl d)) (declChildren d) :=
    fun p hp => Sound.serves (hbelow hj p hp)
  have hintact := intact_of (n := .decl d) hself.2 (by simp [header]) (fun _ => trivial) hserves
  exact ⟨⟨hself.1, hintact.1⟩, hintact.2⟩

instance {span pos : Span} {word : DeclWord} {lparen rparen : Option Span} {specs : List Spec}
    [hspecs : Fit L i specs] :
    Fit L i (Decl.group span word pos lparen specs rparen) :=
  fit_decl ⟨fun _ _ => trivial, trivial⟩ fun hj => by simpa [declChildren] using hspecs.fits hj

instance {span pos place : Span} {receiver : Option (List Field)} {n : Name}
    {params results : List Field} {body : Option Block} [hreceiver : Fit L i receiver]
    [htype : Fit L i (Expr.funcType place (some pos) params results)]
    [hbody : Fit L i body] :
    Fit L i
      (Decl.func span pos receiver n (.funcType place (some pos) params results) body) := by
  refine fit_decl ⟨fun _ _ => trivial, rfl⟩ fun hj => ?_
  refine all_append.mpr ⟨?_, all_cons.mpr ⟨htype.fits hj, ?_⟩⟩
  · cases receiver with
    | none => exact all_nil
    | some fs => exact all_fields.mpr (hreceiver.fits hj fs rfl)
  · cases body with
    | none => exact all_nil
    | some b => exact all_body.mpr (hbody.fits hj b rfl)

/-! ## Statements -/

section

variable {span pos : Span} {x y : Expr} {x? y? : Option Expr} {xs ys : List Expr}
  {s : Stmt} {s? t? : Option Stmt} {body : Block}

/-- A statement without a header. -/
theorem fit_stmt (hself : (Node.stmt s).Plain ∧ s.Shaped ∧ (Node.stmt s).header = [])
    (hbelow : L.judged → All (fun _ m => m.Sound i) (stmtChildren s)) : Fit L i s :=
  ⟨fun hj => stmt_sound ⟨hself.1, hself.2.1⟩ (by simp [hself.2.2])
    fun p hp => .inr (hbelow hj p hp)⟩

instance : Fit L i (Stmt.empty span) :=
  fit_stmt ⟨fun _ _ => trivial, trivial, rfl⟩ fun _ => by simp [stmtChildren]

instance [hx : Fit L i x] : Fit L i (Stmt.expr span x) :=
  fit_stmt ⟨fun _ _ => trivial, trivial, rfl⟩ fun hj => by simpa [stmtChildren] using hx.fits hj

instance {d : Decl} [hd : Fit L i d] : Fit L i (Stmt.decl span d) :=
  fit_stmt ⟨fun _ _ => trivial, trivial, rfl⟩ fun hj => by simpa [stmtChildren] using hd.fits hj

instance {op : AssignOp} [hxs : Fit L i xs] [hys : Fit L i ys] :
    Fit L i (Stmt.assign span xs op pos ys) :=
  fit_stmt ⟨fun _ _ => trivial, trivial, rfl⟩ fun hj => by
    simpa [stmtChildren] using ⟨hxs.fits hj, hys.fits hj⟩

instance [hx : Fit L i x] [hy : Fit L i y] : Fit L i (Stmt.send span x pos y) :=
  fit_stmt ⟨fun _ _ => trivial, trivial, rfl⟩ fun hj => by
    simpa [stmtChildren] using ⟨hx.fits hj, hy.fits hj⟩

instance {op : StepOp} [hx : Fit L i x] : Fit L i (Stmt.step span x op pos) :=
  fit_stmt ⟨fun _ _ => trivial, trivial, rfl⟩ fun hj => by simpa [stmtChildren] using hx.fits hj

instance {label : Name} [hs : Fit L i s] : Fit L i (Stmt.labeled span label s) :=
  fit_stmt ⟨fun _ _ => trivial, trivial, rfl⟩ fun hj => by simpa [stmtChildren] using hs.fits hj

instance [hxs : Fit L i xs] : Fit L i (Stmt.ret span pos xs) :=
  fit_stmt ⟨fun _ _ => trivial, trivial, rfl⟩ fun hj => by simpa [stmtChildren] using hxs.fits hj

instance {kind : Jump} {label : Option Name} : Fit L i (Stmt.jump span kind label) :=
  fit_stmt ⟨fun _ _ => trivial, trivial, rfl⟩ fun _ => by simp [stmtChildren]

instance [hbody : Fit L i body] : Fit L i (Stmt.block span body) :=
  fit_stmt ⟨fun _ _ => trivial, trivial, rfl⟩ fun hj => by
    simpa [stmtChildren] using hbody.fits hj

theorem unparen_eq_of_isCall (h : x.isCall) :
    ∃ span f args dots, x.unparen = .call span f args dots := by
  unfold Expr.isCall at h
  split at h
  · exact ⟨_, _, _, _, ‹_›⟩
  · cases h

theorem fit_go [hx : Fit L i x] (hcall : x.isCall) : Fit L i (Stmt.go span pos x) :=
  fit_stmt ⟨fun _ _ => trivial, unparen_eq_of_isCall hcall, rfl⟩ fun hj => by
    simpa [stmtChildren] using hx.fits hj

theorem fit_defer [hx : Fit L i x] (hcall : x.isCall) :
    Fit L i (Stmt.defer span pos x) :=
  fit_stmt ⟨fun _ _ => trivial, unparen_eq_of_isCall hcall, rfl⟩ fun hj => by
    simpa [stmtChildren] using hx.fits hj

/-! ### Statements with a header -/

theorem fit_ifElse [hs? : Fit L (-1) s?] [hx : Fit L (-1) x] [hbody : Fit L i body]
    (hotherwise : ∀ t ∈ t?, Fit L i t ∧ t.isElse) :
    Fit L i (Stmt.ifElse span s? x body t?) := by
  refine ⟨fun hj => stmt_sound ⟨fun _ _ => trivial, fun t ht => (hotherwise t ht).2⟩ ?_ ?_⟩
  · simpa [header, or_imp, forall_and] using ⟨hs?.fits hj, hx.fits hj⟩
  · have hbody : ∀ t ∈ body.stmts, (Node.stmt t).Sound i := hbody.fits hj
    have hothers : ∀ t ∈ t?, (Node.stmt t).Sound i := fun t ht => (hotherwise t ht).1.fits hj
    simp +contextual [stmtChildren, header, hbody, hothers]

theorem fit_loop [hs? : Fit L (-1) s?] [hx? : Fit L (-1) x?] [ht? : Fit L (-1) t?]
    [hbody : Fit L i body] (hpost : ∀ t ∈ t?, t.isDefinition = false) :
    Fit L i (Stmt.loop span s? x? t? body) := by
  refine ⟨fun hj => stmt_sound ⟨fun _ _ => trivial, hpost⟩ ?_ ?_⟩
  · simpa [header, or_imp, forall_and] using ⟨hs?.fits hj, hx?.fits hj, ht?.fits hj⟩
  · have hbody : ∀ t ∈ body.stmts, (Node.stmt t).Sound i := hbody.fits hj
    simp +contextual [stmtChildren, header, hbody]

theorem fit_range {op : Option AssignOp} (hx? : Fit L (-1) x?) (hy? : Fit L (-1) y?)
    (hx : Fit L (-1) x) [hbody : Fit L i body]
    (hshaped : L.judged → (Stmt.range span x? y? op x body).Shaped) :
    Fit L i (Stmt.range span x? y? op x body) := by
  refine ⟨fun hj => stmt_sound ⟨fun _ _ => trivial, hshaped hj⟩ ?_ ?_⟩
  · simpa [header, or_imp, forall_and] using ⟨hx?.fits hj, hy?.fits hj, hx.fits hj⟩
  · have hbody : ∀ t ∈ body.stmts, (Node.stmt t).Sound i := hbody.fits hj
    simp +contextual [stmtChildren, header, hbody]

/-! ### Switches -/

/-- A clause of one kind, which may stand in the statement it belongs to. -/
def IsClause (kind : Stmt → Bool) (i : Int) (s : Stmt) : Prop :=
  (Node.stmt s).WellFormed ∧ (Node.stmt s).Fits i ∧ kind s

theorem isClause_caseClause [hxs : Fit L i xs] {ss : List Stmt} [hss : Fit L i ss]
    (hj : L.judged) : IsClause Stmt.isCaseClause i (.caseClause span xs ss) := by
  have hintact := stmt_intact (s := .caseClause span xs ss) (i := i) trivial (by simp [header]) ?_
  · exact ⟨hintact.1, hintact.2, rfl⟩
  · simp only [stmtChildren, all_append, all_exprs, all_stmts]
    exact ⟨fun x hx => .inr (Sound.serves (hxs.fits hj x hx)),
      fun t ht => .inr (Sound.serves (hss.fits hj t ht))⟩

theorem isClause_commClause [hs? : Fit L i s?] {ss : List Stmt} [hss : Fit L i ss]
    (hj : L.judged) : IsClause Stmt.isCommClause i (.commClause span s? ss) := by
  have hintact := stmt_intact (s := .commClause span s? ss) (i := i) trivial (by simp [header]) ?_
  · exact ⟨hintact.1, hintact.2, rfl⟩
  · simp only [stmtChildren, all_append, all_stmt?, all_stmts]
    exact ⟨fun x hx => .inr (Sound.serves (hs?.fits hj x hx)),
      fun t ht => .inr (Sound.serves (hss.fits hj t ht))⟩

/-- A statement over clauses, the rest of which is its header. -/
theorem clauses_sound {kind : Stmt → Bool} (hself : (Node.stmt s).Plain ∧ s.Shaped)
    (hheader : ∀ part ∈ (Node.stmt s).header, part.Sound (-1))
    (hchildren : All (fun role m => m ∈ (Node.stmt s).header ∨
      role = .body ∧ ∃ t ∈ body.stmts, m = .stmt t) (stmtChildren s))
    (hbody : ∀ t ∈ body.stmts, IsClause kind i t)
    (hheld : ∀ t, kind t → MayHold (.stmt s) .body (.stmt t)) : (Node.stmt s).Sound i := by
  have hintact := stmt_intact (i := i) hself.2 hheader fun p hp => (hchildren p hp).imp_right ?_
  · exact ⟨⟨hself.1, hintact.1⟩, hintact.2⟩
  · rintro ⟨hrole, t, ht, hp⟩
    obtain ⟨hwf, hfits, hkind⟩ := hbody t ht
    rw [hrole, hp]
    exact ⟨hheld t hkind, hwf, hfits⟩

theorem fit_switch [hs? : Fit L (-1) s?] [hx? : Fit L (-1) x?]
    (hbody : ∀ t ∈ body.stmts, L.judged → IsClause Stmt.isCaseClause i t) :
    Fit L i (Stmt.switch span s? x? body) := by
  refine ⟨fun hj => clauses_sound ⟨fun _ _ => trivial, fun t ht => (hbody t ht hj).2.2⟩ ?_ ?_
    (fun t ht => hbody t ht hj) ?_⟩
  · simpa [header, or_imp, forall_and] using ⟨hs?.fits hj, hx?.fits hj⟩
  · simp +contextual [stmtChildren, header]
  · intro t ht
    cases t <;> simp_all [Stmt.isCaseClause, MayHold, isSwitch]

/-- The guard of a type switch is recognized by `isTypeGuard`. -/
theorem guardsTypes_of_isTypeGuard (h : s.isTypeGuard) : s.GuardsTypes := by
  have hassert : ∀ x : Expr, x.isTypeGuard → ∃ place y, x = .typeAssert place y none := by
    intro x hx
    unfold Expr.isTypeGuard at hx
    split at hx
    · exact ⟨_, _, rfl⟩
    · cases hx
  unfold Stmt.isTypeGuard at h
  split at h
  · obtain ⟨place, y, rfl⟩ := hassert _ h
    exact .inl ⟨_, _, _, rfl⟩
  · obtain ⟨place, y, rfl⟩ := hassert _ h
    exact .inr ⟨_, _, _, _, _, rfl⟩
  · cases h

theorem fit_typeSwitch [hs? : Fit L (-1) s?] [hs : Fit L (-1) s] (hguard : s.isTypeGuard)
    (hbody : ∀ t ∈ body.stmts, L.judged → IsClause Stmt.isCaseClause i t) :
    Fit L i (Stmt.typeSwitch span s? s body) := by
  refine ⟨fun hj => clauses_sound ⟨fun _ _ => trivial, guardsTypes_of_isTypeGuard hguard,
    fun t ht => (hbody t ht hj).2.2⟩ ?_ ?_ (fun t ht => hbody t ht hj) ?_⟩
  · simpa [header, or_imp, forall_and] using ⟨hs?.fits hj, hs.fits hj⟩
  · simp +contextual [stmtChildren, header]
  · intro t ht
    cases t <;> simp_all [Stmt.isCaseClause, MayHold, isSwitch]

theorem fit_select (hbody : ∀ t ∈ body.stmts, L.judged → IsClause Stmt.isCommClause i t) :
    Fit L i (Stmt.select span body) := by
  refine ⟨fun hj => clauses_sound ⟨fun _ _ => trivial, fun t ht => (hbody t ht hj).2.2⟩
    (by simp [header]) ?_ (fun t ht => hbody t ht hj) ?_⟩
  · simp +contextual [stmtChildren]
  · intro t ht
    cases t <;> simp_all [Stmt.isCommClause, MayHold, isSelect]

/-- The expression of a statement that is nothing else fits where the statement does. -/
theorem fit_of_exprStmt (hs : Fit L i (Stmt.expr span x)) : Fit L i x := by
  refine ⟨fun hj => ?_⟩
  obtain ⟨hstands, hfits⟩ : (Node.stmt (.expr span x)).Sound i := hs.fits hj
  have hchild : ((.expr, .expr x) : Role × Node) ∈ (Node.stmt (.expr span x)).children := .head _
  obtain ⟨hheld, hwf⟩ := (wellFormed_iff.mp hstands.2).2 _ hchild
  refine ⟨⟨fun parent role => ?_, hwf⟩, hfits.below hchild rfl⟩
  -- what may stand only somewhere may not stand under a statement
  unfold MayHold at hheld ⊢
  split at hheld <;> simp_all [isComposite, isKeyValue, isField]

end

end Grammar

end GoGloss
