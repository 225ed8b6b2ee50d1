import GoGloss.Proofs.Arena.Books

/-!
# Nodes and the trees they stand for

The reader of trees and the reader that builds an arena make the same nodes in the
same order, so the tree of a node is the one with its number on the workbench. A
node stands for a tree if it is of the same form, and what it stores stands for what
the tree holds. The relations below (`ExprOf`, `StmtOf` and so on) say so for one
node, and leave what it stores as a list of parts, in the order of its slots.

A part is what the reader of arenas has in its hands: the number of a node, a name, a
literal, a list on its shelf. Two are more than they seem. A label is an identifier
in the arena that no node will refer to, and a header a statement whose expression
another node takes over.
-/

namespace GoGloss.Flat

/-- Something that goes into a node, and what it stands for. -/
inductive Part where
  | node {k : Kind} (i : NodeId k) (t : k.Tree)
  | ident (n : Ident) (name : Name)
  | literal (lit : Literal)
  | list {s : Shelf} (r : ListRef s) (items : List s.Item)
  /-- The name of an identifier that was read as an expression. -/
  | label (i : ExprId) (n : Ident) (name : Name)
  /-- The expression of a statement in a header. -/
  | header (s : StmtId) (i : ExprId) (x : Expr)

/-- The node of a number stands for a tree: it has the tree's place on the workbench. -/
def StandsFor (log : List Event) (w : Workbench) {k : Kind} (i : NodeId k) (t : k.Tree) : Prop :=
  i.any ∈ made log ∧ (trees w k)[i.raw]? = some t

/-- An identifier stands for a name, which is a lexeme. -/
def Names (ls : List Lexeme) (log : List Event) (n : Ident) (name : Name) : Prop :=
  (replay log).symbols.texts[n.sym]? = some name.text ∧ n.pos = name.pos ∧
    Written ls (.name name.text) name.pos

namespace Part

/-- What a part says about the arena and the workbench is so. -/
def Holds (ls : List Lexeme) (log : List Event) (w : Workbench) : Part → Prop
  | .node i t => StandsFor log w i t
  | .ident n name => Names ls log n name
  | .literal lit => Written ls (.literal lit.kind lit.text) lit.span
  | .list r items => GivenOut log r items
  | .label i n name => (replay log).node? i = some (.ident n) ∧ Names ls log n name
  | .header s i x => (replay log).node? s = some (.expr i) ∧ StandsFor log w i x

/-- What a part puts into a node. -/
def slots : Part → List Slot
  | .node i _ | .header _ i _ => [.node i]
  | .ident n _ | .label _ n _ => [.ident n]
  | .literal lit => [.literal (Lit.of lit)]
  | .list r _ => [.list r]

/-- The node that a part goes over to. -/
def taken : Part → List AnyId
  | .node i _ => [i.any]
  | _ => []

/-- The node that a part leaves behind. -/
def dropped : Part → List AnyId
  | .label i _ _ => [i.any]
  | .header s _ _ => [s.any]
  | _ => []

/-- The node that the reader holds with a part. -/
def held (p : Part) : List AnyId :=
  p.dropped ++ p.taken

variable {ls : List Lexeme} {log : List Event} {w w' : Workbench}

theorem Holds.mono {p : Part} (h : p.Holds ls log w) (more : List Event)
    (hw : ∀ {k : Kind} {i : Nat} {t : k.Tree}, (trees w k)[i]? = some t →
      (trees w' k)[i]? = some t) : p.Holds ls (more ++ log) w' := by
  have hgrows := grows_replay more log
  have hmade := (made_suffix more log).subset
  cases p with
  | node i t => exact ⟨hmade h.1, hw h.2⟩
  | ident n name => exact ⟨hgrows.text h.1, h.2⟩
  | literal lit => exact h
  | list r items => exact GivenOut.mono h more
  | label i n name => exact ⟨hgrows.node h.1, hgrows.text h.2.1, h.2.2⟩
  | header s i x => exact ⟨hgrows.node h.1, hmade h.2.1, hw h.2.2⟩

/-- What a part puts into a node is sound. -/
theorem Holds.sound {p : Part} (h : p.Holds ls log w) : ∀ x ∈ p.slots, Sound ls log x := by
  have hident : ∀ {n : Ident} {name : Name}, Names ls log n name → Sound ls log (.ident n) :=
    fun ⟨htext, hpos, hlexeme⟩ => ⟨_, htext, hpos ▸ hlexeme⟩
  cases p with
  | node i t => simpa [slots, Sound] using h.1
  | ident n name => simpa [slots] using hident h
  | literal lit => simpa [slots] using ⟨lit.text, h⟩
  | list r items => simpa [slots] using ⟨items, h⟩
  | label i n name => simpa [slots] using hident h.2
  | header s i x => simpa [slots, Sound] using h.2.1

end Part

/-! ## One part or several -/

section Relations

variable {α β : Type}

/-- A node and the tree it stands for. -/
def One {k : Kind} (i : NodeId k) (t : k.Tree) (ps : List Part) : Prop :=
  ps = [.node i t]

/-- An identifier and the name it stands for. -/
def Named (n : Ident) (name : Name) (ps : List Part) : Prop :=
  n.pos = name.pos ∧ ps = [.ident n name]

/-- The expression of a header. -/
def Headed (i : ExprId) (x : Expr) (ps : List Part) : Prop :=
  ∃ s, ps = [.header s i x]

/-- Both are there or none is. -/
inductive Maybe (R : α → β → List Part → Prop) : Option α → Option β → List Part → Prop where
  | none : Maybe R none none []
  | some {a : α} {b : β} {ps : List Part} (h : R a b ps) : Maybe R (some a) (some b) ps

/-- Two things at once. -/
inductive Pair {γ δ : Type} (R : α → β → List Part → Prop) (S : γ → δ → List Part → Prop) :
    α × γ → β × δ → List Part → Prop where
  | mk {a : α} {b : β} {c : γ} {d : δ} {ps qs : List Part} (h : R a b ps) (h' : S c d qs) :
    Pair R S (a, c) (b, d) (ps ++ qs)

/-- As many of the one as of the other, one by one. -/
inductive Each (R : α → β → List Part → Prop) : List α → List β → List Part → Prop where
  | nil : Each R [] [] []
  | cons {a : α} {b : β} {as : List α} {bs : List β} {ps qs : List Part} (h : R a b ps)
    (hs : Each R as bs qs) : Each R (a :: as) (b :: bs) (ps ++ qs)

/-- A list on its shelf, item by item. -/
def Listed {s : Shelf} (R : s.Item → β → List Part → Prop) (r : ListRef s) (bs : List β)
    (ps : List Part) : Prop :=
  ∃ items qs, Each R items bs qs ∧ ps = .list r items :: qs

end Relations

/-- Statements between braces. -/
inductive BlockOf : BlockNode → Block → List Part → Prop where
  | mk {lbrace rbrace : Span} {r : ListRef .stmts} {ss : List Stmt} {ps : List Part}
    (h : Listed One r ss ps) : BlockOf ⟨lbrace, r, rbrace⟩ ⟨lbrace, ss, rbrace⟩ ps

/-! ## Nodes -/

/-- An expression of the arena and one that is a tree. -/
inductive ExprOf : ExprNode → Expr → List Part → Prop where
  | ident : ExprOf (.ident n) (.ident name) [.ident n name]
  | literal : ExprOf (.literal (Lit.of lit)) (.literal lit) [.literal lit]
  | funcLit (hb : BlockOf b body ps) :
    ExprOf (.funcLit i b) (.funcLit span x body) ([.node i x] ++ ps)
  | composite (ht : Maybe One o t ps) (hxs : Listed One r xs qs) :
    ExprOf (.composite o lbrace r rbrace) (.composite span t lbrace xs rbrace) (ps ++ qs)
  | paren : ExprOf (.paren lparen i rparen) (.paren span lparen x rparen) [.node i x]
  | selector : ExprOf (.selector i n) (.selector span x name) [.node i x, .ident n name]
  | index : ExprOf (.index i j) (.index span x y) [.node i x, .node j y]
  | indexList (hxs : Listed One r xs ps) :
    ExprOf (.indexList i r) (.indexList span x xs) ([.node i x] ++ ps)
  | slice (hlo : Maybe One o t ps) (hhi : Maybe One o' t' qs) (hmax : Maybe One o'' t'' rs) :
    ExprOf (.slice i o o' o'' full) (.slice span x t t' t'' full)
      ([.node i x] ++ ps ++ qs ++ rs)
  | typeAssert (ht : Maybe One o t ps) :
    ExprOf (.typeAssert i o) (.typeAssert span x t) ([.node i x] ++ ps)
  | call (hxs : Listed One r xs ps) :
    ExprOf (.call i r dots) (.call span x xs dots) ([.node i x] ++ ps)
  | star : ExprOf (.star pos i) (.star span pos x) [.node i x]
  | unary : ExprOf (.unary op opPos i) (.unary span op opPos x) [.node i x]
  | binary : ExprOf (.binary i op opPos j) (.binary span x op opPos y) [.node i x, .node j y]
  | keyValue : ExprOf (.keyValue i colon j) (.keyValue span x colon y) [.node i x, .node j y]
  | arrayType (hlength : Maybe One o t ps) :
    ExprOf (.arrayType o i) (.arrayType span t x) (ps ++ [.node i x])
  | structType (hfs : Listed One fr fs ps) : ExprOf (.structType fr) (.structType span fs) ps
  | funcType (hparams : Listed One fr fs ps) (hresults : Listed One fr' fs' qs) :
    ExprOf (.funcType func fr fr') (.funcType span func fs fs') (ps ++ qs)
  | interfaceType (hfs : Listed One fr fs ps) :
    ExprOf (.interfaceType fr) (.interfaceType span fs) ps
  | mapType : ExprOf (.mapType i j) (.mapType span x y) [.node i x, .node j y]
  | chanType : ExprOf (.chanType dir i) (.chanType span dir x) [.node i x]
  | ellipsis (ht : Maybe One o t ps) : ExprOf (.ellipsis pos o) (.ellipsis span pos t) ps

/-- A field of the arena and one that is a tree. -/
inductive FieldOf : FieldNode → Field → List Part → Prop where
  | plain (hnames : Listed Named nr names ps) :
    FieldOf ⟨nr, i, none⟩ ⟨span, names, x, none⟩ (ps ++ [.node i x])
  | tagged (hnames : Listed Named nr names ps) :
    FieldOf ⟨nr, i, some (Lit.of lit)⟩ ⟨span, names, x, some lit⟩
      (ps ++ [.node i x] ++ [.literal lit])

/-- A statement of the arena and one that is a tree. -/
inductive StmtOf : StmtNode → Stmt → List Part → Prop where
  | empty : StmtOf (.empty span) (.empty span) []
  | expr : StmtOf (.expr i) (.expr span x) [.node i x]
  | decl : StmtOf (.decl d) (.decl span e) [.node d e]
  | assign (hlhs : Listed One r xs ps) (hrhs : Listed One r' xs' qs) :
    StmtOf (.assign r op opPos r') (.assign span xs op opPos xs') (ps ++ qs)
  | send : StmtOf (.send i opPos j) (.send span x opPos y) [.node i x, .node j y]
  | step : StmtOf (.step i op opPos) (.step span x op opPos) [.node i x]
  | labeled : StmtOf (.labeled n u) (.labeled span name s) [.label i n name, .node u s]
  | go : StmtOf (.go pos i) (.go span pos x) [.node i x]
  | defer : StmtOf (.defer pos i) (.defer span pos x) [.node i x]
  | ret (hxs : Listed One r xs ps) : StmtOf (.ret pos r) (.ret span pos xs) ps
  | jump (hlabel : Maybe Named m label ps) : StmtOf (.jump kind m) (.jump span kind label) ps
  | block (hb : BlockOf b body ps) : StmtOf (.block b) (.block span body) ps
  | ifElse (hinit : Maybe One u s ps) (hcond : Headed i x ps') (hb : BlockOf b body qs)
    (hother : Maybe One v s' rs) :
    StmtOf (.ifElse u i b v) (.ifElse span s x body s') (ps ++ ps' ++ qs ++ rs)
  | loop (hinit : Maybe One u s ps) (hcond : Maybe Headed o t ps') (hpost : Maybe One v s' qs)
    (hb : BlockOf b body rs) :
    StmtOf (.loop u o v b) (.loop span s t s' body) (ps ++ ps' ++ qs ++ rs)
  | range (hkey : Maybe One o t ps) (hvalue : Maybe One o' t' qs) (hb : BlockOf b body rs) :
    StmtOf (.range o o' op i b) (.range span t t' op x body) (ps ++ qs ++ [.node i x] ++ rs)
  | switch (hinit : Maybe One u s ps) (htag : Maybe Headed o t qs) (hb : BlockOf b body rs) :
    StmtOf (.switch u o b) (.switch span s t body) (ps ++ qs ++ rs)
  | typeSwitch (hinit : Maybe One u s ps) (hb : BlockOf b body qs) :
    StmtOf (.typeSwitch u v b) (.typeSwitch span s g body) (ps ++ [.node v g] ++ qs)
  | select (hb : BlockOf b body ps) : StmtOf (.select b) (.select span body) ps
  | caseClause (hxs : Listed One r xs ps) (hss : Listed One sr ss qs) :
    StmtOf (.caseClause r sr) (.caseClause span xs ss) (ps ++ qs)
  | commClause (hcomm : Maybe One u s ps) (hss : Listed One sr ss qs) :
    StmtOf (.commClause u sr) (.commClause span s ss) (ps ++ qs)

/-- The name of an import in the arena and in a tree. -/
inductive ImportNameOf : ImportIdent → ImportName → List Part → Prop where
  | dot : ImportNameOf (.dot pos) (.dot pos) []
  | blank : ImportNameOf (.blank pos) (.blank pos) []
  | name : ImportNameOf (.name n) (.name name) [.ident n name]

/-- A line of a declaration in the arena and in a tree. -/
inductive SpecOf : SpecNode → Spec → List Part → Prop where
  | importing (hname : Maybe ImportNameOf m imported ps) :
    SpecOf (.importing m (Lit.of lit)) (.importing imported lit) (ps ++ [.literal lit])
  | value (hnames : Listed Named nr names ps) (ht : Maybe One o t qs) (hxs : Listed One r xs rs) :
    SpecOf (.value nr o r) (.value names t xs) (ps ++ qs ++ rs)
  | type : SpecOf (.type n assign i) (.type name assign x) [.ident n name, .node i x]

/-- A declaration of the arena and one that is a tree. -/
inductive DeclOf : DeclNode → Decl → List Part → Prop where
  | group (hspecs : Listed SpecOf sr specs ps) :
    DeclOf (.group word pos lparen sr rparen) (.group span word pos lparen specs rparen) ps
  | func (hreceiver : Maybe (Listed One) receiver fields ps) (hb : Maybe BlockOf u s qs) :
    DeclOf (.func pos receiver n i u) (.func span pos fields name x s)
      (ps ++ [.ident n name] ++ [.node i x] ++ qs)

/-- A node of any kind and the tree it stands for. -/
def Kind.Of : (k : Kind) → k.Node → k.Tree → List Part → Prop
  | .expr => ExprOf
  | .stmt => StmtOf
  | .decl => DeclOf
  | .field => FieldOf

/-! ## The slots of a node are those of its parts -/

theorem Arena.deep_eq_spread (a : Arena) {s : Shelf} {item : s.Item} {x : Slot}
    (hx : x ∈ s.slots item) : a.deep x = a.spread x := by
  -- Only the lines of declarations hold lists, and these are of names or of expressions.
  have hlist : ∀ {t : Shelf} (r : ListRef t), t ≠ .specs →
      a.deep (.list r) = a.spread (.list r) := by
    intro t r ht
    have hflat : ∀ y ∈ a.under (.list r), a.spread y = [y] := by
      intro y hy
      obtain ⟨item, -, hy⟩ := List.mem_flatMap.mp hy
      cases t with
      | idents | exprs | stmts | fields =>
          obtain rfl := List.mem_singleton.mp hy
          rfl
      | specs => exact absurd rfl ht
    rw [Arena.deep, Arena.spread, List.flatMap_congr hflat, List.flatMap_singleton']
  cases s with
  | idents | exprs | stmts | fields =>
      obtain rfl := List.mem_singleton.mp hx
      rfl
  | specs =>
      cases x with
      | node _ | ident _ | literal _ => rfl
      | @list t r =>
          refine hlist r fun ht => ?_
          subst ht
          cases item <;> simp [Shelf.slots, SpecNode.slots] at hx
          rename_i n path
          cases n with
          | none => simp at hx
          | some n => cases n <;> simp [ImportIdent.slots] at hx

section Fits

variable (ls : List Lexeme) (log : List Event) (w : Workbench)

/-- Slots, with all that lies below them, and what is left behind, are those of parts. -/
structure Fits (xs : List Slot) (ks : List Kind) (ps : List Part) : Prop where
  slots : (∀ p ∈ ps, p.Holds ls log w) → xs.flatMap (replay log).deep = ps.flatMap Part.slots
  behind : (ps.flatMap Part.dropped).map AnyId.kind = ks

variable {ls log w}

theorem Fits.append {xs ys : List Slot} {ks ls' : List Kind} {ps qs : List Part}
    (h : Fits ls log w xs ks ps) (h' : Fits ls log w ys ls' qs) :
    Fits ls log w (xs ++ ys) (ks ++ ls') (ps ++ qs) where
  slots hps := by
    obtain ⟨hps, hqs⟩ := List.forall_mem_append.mp hps
    rw [List.flatMap_append, List.flatMap_append, h.slots hps, h'.slots hqs]
  behind := by rw [List.flatMap_append, List.map_append, h.behind, h'.behind]

theorem Fits.append_plain {xs ys : List Slot} {ks : List Kind} {ps qs : List Part}
    (h : Fits ls log w xs ks ps) (h' : Fits ls log w ys [] qs) :
    Fits ls log w (xs ++ ys) ks (ps ++ qs) := by
  simpa using h.append h'

theorem fits_nil : Fits ls log w [] [] [] :=
  ⟨fun _ => rfl, rfl⟩

theorem fits_node {k : Kind} {i : NodeId k} {t : k.Tree} :
    Fits ls log w [.node i] [] [.node i t] :=
  ⟨fun _ => rfl, rfl⟩

theorem fits_ident {n : Ident} {name : Name} : Fits ls log w [.ident n] [] [.ident n name] :=
  ⟨fun _ => rfl, rfl⟩

theorem fits_literal {lit : Literal} : Fits ls log w [.literal (Lit.of lit)] [] [.literal lit] :=
  ⟨fun _ => rfl, rfl⟩

theorem fits_label {i : ExprId} {n : Ident} {name : Name} :
    Fits ls log w [.ident n] [.expr] [.label i n name] :=
  ⟨fun _ => rfl, rfl⟩

theorem Headed.fits {i : ExprId} {x : Expr} {ps : List Part} (h : Headed i x ps) :
    Fits ls log w [.node i] [.stmt] ps := by
  obtain ⟨s, rfl⟩ := h
  exact ⟨fun _ => rfl, rfl⟩

theorem Maybe.fits_headed {o : Option ExprId} {t : Option Expr} {ps : List Part}
    (h : Maybe Headed o t ps) :
    Fits ls log w (o.toList.map .node) (o.toList.map fun _ => .stmt) ps := by
  cases h with
  | none => exact fits_nil
  | some h => exact h.fits

section Plain

variable {α β : Type}

theorem Maybe.fits {R : α → β → List Part → Prop} {o : Option α} {t : Option β}
    {ps : List Part} (h : Maybe R o t ps) {slot : α → Slot}
    (hR : ∀ {a b ps}, R a b ps → Fits ls log w [slot a] [] ps) :
    Fits ls log w (o.toList.map slot) [] ps := by
  cases h with
  | none => exact fits_nil
  | some h => exact hR h

theorem Each.fits {R : α → β → List Part → Prop} {as : List α} {bs : List β} {ps : List Part}
    (h : Each R as bs ps) {slots : α → List Slot}
    (hR : ∀ {a b ps}, R a b ps → Fits ls log w (slots a) [] ps) :
    Fits ls log w (as.flatMap slots) [] ps := by
  induction h with
  | nil => exact fits_nil
  | cons h _ ih => exact (hR h).append ih

theorem Listed.fits {s : Shelf} {R : s.Item → β → List Part → Prop} {r : ListRef s}
    {bs : List β} {ps : List Part} (h : Listed R r bs ps)
    (hR : ∀ {item b ps}, R item b ps → Fits ls log w (s.slots item) [] ps) :
    Fits ls log w [.list r] [] ps := by
  obtain ⟨items, qs, heach, rfl⟩ := h
  have hfits := heach.fits hR
  refine ⟨fun hps => ?_, hfits.behind⟩
  obtain ⟨hr, hqs⟩ := List.forall_mem_cons.mp hps
  have hunder : (replay log).under (.list r) = items.flatMap s.slots := by
    rw [Arena.under, GivenOut.items? hr, Option.getD_some]
  have hspread : (items.flatMap s.slots).flatMap (replay log).spread =
      (items.flatMap s.slots).flatMap (replay log).deep := by
    refine List.flatMap_congr fun x hx => ?_
    obtain ⟨item, -, hx⟩ := List.mem_flatMap.mp hx
    exact (Arena.deep_eq_spread _ hx).symm
  rw [List.flatMap_singleton, Arena.deep, hunder, hspread, hfits.slots hqs, List.flatMap_cons]
  rfl

end Plain

theorem One.fits {k : Kind} {i : NodeId k} {t : k.Tree} {ps : List Part} (h : One i t ps) :
    Fits ls log w [.node i] [] ps := by
  obtain rfl := h
  exact fits_node

theorem Named.fits {n : Ident} {name : Name} {ps : List Part} (h : Named n name ps) :
    Fits ls log w [.ident n] [] ps := by
  obtain ⟨-, rfl⟩ := h
  exact fits_ident

variable {ps : List Part}

theorem BlockOf.fits {b : BlockNode} {body : Block} (h : BlockOf b body ps) :
    Fits ls log w [.list b.stmts] [] ps := by
  obtain ⟨h⟩ := h
  exact h.fits One.fits

theorem ExprOf.fits {n : ExprNode} {x : Expr} (h : ExprOf n x ps) :
    Fits ls log w n.slots [] ps := by
  cases h with
  | ident => exact fits_ident
  | literal => exact fits_literal
  | funcLit hb => exact fits_node.append hb.fits
  | composite ht hxs => exact (ht.fits One.fits).append (hxs.fits One.fits)
  | paren | star | unary | chanType => exact fits_node
  | selector => exact fits_node.append fits_ident
  | index | binary | keyValue | mapType => exact fits_node.append fits_node
  | indexList hxs | call hxs => exact fits_node.append (hxs.fits One.fits)
  | slice hlo hhi hmax =>
      exact ((fits_node.append (hlo.fits One.fits)).append (hhi.fits One.fits)).append
        (hmax.fits One.fits)
  | typeAssert ht => exact fits_node.append (ht.fits One.fits)
  | arrayType hlength => exact (hlength.fits One.fits).append fits_node
  | structType hfs | interfaceType hfs => exact hfs.fits One.fits
  | funcType hparams hresults => exact (hparams.fits One.fits).append (hresults.fits One.fits)
  | ellipsis ht => exact ht.fits One.fits

theorem FieldOf.fits {n : FieldNode} {f : Field} (h : FieldOf n f ps) :
    Fits ls log w n.slots [] ps := by
  cases h with
  | plain hnames =>
      rw [FieldNode.slots, Option.toList_none, List.map_nil, List.append_nil]
      exact (hnames.fits Named.fits).append fits_node
  | tagged hnames => exact ((hnames.fits Named.fits).append fits_node).append fits_literal

theorem StmtOf.fits {n : StmtNode} {s : Stmt} (h : StmtOf n s ps) :
    Fits ls log w n.slots n.behind ps := by
  cases h with
  | empty => exact fits_nil
  | expr | decl | step | go | defer => exact fits_node
  | assign hlhs hrhs => exact (hlhs.fits One.fits).append (hrhs.fits One.fits)
  | send => exact fits_node.append fits_node
  | labeled => exact fits_label.append fits_node
  | ret hxs => exact hxs.fits One.fits
  | jump hlabel => exact hlabel.fits Named.fits
  | block hb | select hb => exact hb.fits
  | ifElse hinit hcond hb hother =>
      exact (((hinit.fits One.fits).append hcond.fits).append hb.fits).append
        (hother.fits One.fits)
  | loop hinit hcond hpost hb =>
      exact (((hinit.fits One.fits).append hcond.fits_headed).append_plain
        (hpost.fits One.fits)).append_plain hb.fits
  | range hkey hvalue hb =>
      exact (((hkey.fits One.fits).append (hvalue.fits One.fits)).append fits_node).append hb.fits
  | switch hinit htag hb =>
      exact ((hinit.fits One.fits).append htag.fits_headed).append_plain hb.fits
  | typeSwitch hinit hb => exact ((hinit.fits One.fits).append fits_node).append hb.fits
  | caseClause hxs hss => exact (hxs.fits One.fits).append (hss.fits One.fits)
  | commClause hcomm hss => exact (hcomm.fits One.fits).append (hss.fits One.fits)

theorem SpecOf.fits {n : SpecNode} {spec : Spec} (h : SpecOf n spec ps) :
    Fits ls log w n.slots [] ps := by
  cases h with
  | @importing m name ps lit hname =>
      have hfits : Fits ls log w (m.elim [] ImportIdent.slots) [] ps := by
        cases hname with
        | none => exact fits_nil
        | some hname =>
            cases hname with
            | dot | blank => exact fits_nil
            | name => exact fits_ident
      exact hfits.append fits_literal
  | value hnames ht hxs =>
      exact ((hnames.fits Named.fits).append (ht.fits One.fits)).append (hxs.fits One.fits)
  | type => exact fits_ident.append fits_node

theorem DeclOf.fits {n : DeclNode} {d : Decl} (h : DeclOf n d ps) :
    Fits ls log w n.slots [] ps := by
  cases h with
  | group hspecs => exact hspecs.fits SpecOf.fits
  | func hreceiver hb =>
      exact (((hreceiver.fits fun h => h.fits One.fits).append fits_ident).append
        fits_node).append (hb.fits BlockOf.fits)

/-- What a node stores and leaves behind is given by its parts. -/
theorem Kind.Of.fits {k : Kind} {n : k.Node} {t : k.Tree} (h : k.Of n t ps) :
    Fits ls log w (k.slots n) (k.behind n) ps := by
  cases k with
  | expr => exact ExprOf.fits h
  | stmt => exact StmtOf.fits h
  | decl => exact DeclOf.fits h
  | field => exact FieldOf.fits h

end Fits

end GoGloss.Flat
