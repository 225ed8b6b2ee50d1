import GoGloss.Proofs.Yields

/-!
# The atoms of a tree

Names and literals are the tokens with a text of their own; they are the atoms of a
tree. `atoms` walks a tree in the order of the source and lists them, and `texts` is
what they read: a name has its text, and that of a literal is what the source has
under its span. On the side of the lexemes, `Cursor.atoms` lists the atoms still ahead.

A reader keeps the atoms when those ahead of it are the atoms of what it returns
followed by those ahead of where it stops: nothing is lost, read twice or put in
another place.
-/

namespace GoGloss

/-- A name or a literal. -/
inductive Atom where
  | name (name : Name)
  | literal (literal : Literal)
deriving DecidableEq

/-- The text of an atom of a tree that was read from `src`. -/
def Atom.text (src : String) : Atom → String
  | .name n => n.text
  | .literal l => l.span.text src

/-- The atom of an import's name; a dot is no name. -/
def ImportName.atoms : ImportName → List Atom
  | .dot _ => []
  | .blank pos => [.name ⟨"_", pos⟩]
  | .name n => [.name n]

mutual

/-- The atoms of an expression. -/
def Expr.atoms : Expr → List Atom
  | .ident name => [.name name]
  | .literal literal => [.literal literal]
  | .funcLit _ type body => type.atoms ++ body.atoms
  | .composite _ type _ elements _ => Expr.atomsOption type ++ Expr.atomsAll elements
  | .paren _ _ inner _ => inner.atoms
  | .selector _ x member => x.atoms ++ [.name member]
  | .index _ x i => x.atoms ++ i.atoms
  | .indexList _ x is => x.atoms ++ Expr.atomsAll is
  | .slice _ x lo hi max _ =>
    x.atoms ++ Expr.atomsOption lo ++ Expr.atomsOption hi ++ Expr.atomsOption max
  | .typeAssert _ x type => x.atoms ++ Expr.atomsOption type
  | .call _ f args _ => f.atoms ++ Expr.atomsAll args
  | .star _ _ x => x.atoms
  | .unary _ _ _ x => x.atoms
  | .binary _ l _ _ r => l.atoms ++ r.atoms
  | .keyValue _ key _ value => key.atoms ++ value.atoms
  | .arrayType _ length elem => Expr.atomsOption length ++ elem.atoms
  | .structType _ fields => Field.atomsAll fields
  | .funcType _ _ params results => Field.atomsAll params ++ Field.atomsAll results
  | .interfaceType _ members => Field.atomsAll members
  | .mapType _ key value => key.atoms ++ value.atoms
  | .chanType _ _ elem => elem.atoms
  | .ellipsis _ _ elem => Expr.atomsOption elem
  | .bad _ => []

/-- The atoms of an expression that may be left out. -/
def Expr.atomsOption : Option Expr → List Atom
  | none => []
  | some x => x.atoms

/-- The atoms of several expressions. -/
def Expr.atomsAll : List Expr → List Atom
  | [] => []
  | x :: xs => x.atoms ++ Expr.atomsAll xs

/-- The atoms of a field: its names, its type, its tag. -/
def Field.atoms : Field → List Atom
  | ⟨_, names, type, tag⟩ => names.map .name ++ type.atoms ++ tag.toList.map .literal

/-- The atoms of several fields. -/
def Field.atomsAll : List Field → List Atom
  | [] => []
  | f :: fs => f.atoms ++ Field.atomsAll fs

/-- The atoms of a receiver, if there is one. -/
def Field.atomsOption : Option (List Field) → List Atom
  | none => []
  | some fs => Field.atomsAll fs

/-- The atoms of a block. -/
def Block.atoms : Block → List Atom
  | ⟨_, stmts, _⟩ => Stmt.atomsAll stmts

/-- The atoms of a body that may be left out. -/
def Block.atomsOption : Option Block → List Atom
  | none => []
  | some b => b.atoms

/-- The atoms of a statement. -/
def Stmt.atoms : Stmt → List Atom
  | .empty _ => []
  | .expr _ x => x.atoms
  | .decl _ d => d.atoms
  | .assign _ lhs _ _ rhs => Expr.atomsAll lhs ++ Expr.atomsAll rhs
  | .send _ chan _ value => chan.atoms ++ value.atoms
  | .step _ x _ _ => x.atoms
  | .labeled _ label s => .name label :: s.atoms
  | .go _ _ call => call.atoms
  | .defer _ _ call => call.atoms
  | .ret _ _ results => Expr.atomsAll results
  | .jump _ _ label => label.toList.map .name
  | .block _ body => body.atoms
  | .ifElse _ init cond body otherwise =>
    Stmt.atomsOption init ++ cond.atoms ++ body.atoms ++ Stmt.atomsOption otherwise
  | .loop _ init cond post body =>
    Stmt.atomsOption init ++ Expr.atomsOption cond ++ Stmt.atomsOption post ++ body.atoms
  | .range _ key value _ x body =>
    Expr.atomsOption key ++ Expr.atomsOption value ++ x.atoms ++ body.atoms
  | .switch _ init tag body => Stmt.atomsOption init ++ Expr.atomsOption tag ++ body.atoms
  | .typeSwitch _ init guard body => Stmt.atomsOption init ++ guard.atoms ++ body.atoms
  | .select _ body => body.atoms
  | .caseClause _ exprs body => Expr.atomsAll exprs ++ Stmt.atomsAll body
  | .commClause _ comm body => Stmt.atomsOption comm ++ Stmt.atomsAll body
  | .bad _ => []

/-- The atoms of a statement that may be left out. -/
def Stmt.atomsOption : Option Stmt → List Atom
  | none => []
  | some s => s.atoms

/-- The atoms of several statements. -/
def Stmt.atomsAll : List Stmt → List Atom
  | [] => []
  | s :: ss => s.atoms ++ Stmt.atomsAll ss

/-- The atoms of a declaration; a receiver stands before the name of its method. -/
def Decl.atoms : Decl → List Atom
  | .group _ _ _ _ specs _ => Spec.atomsAll specs
  | .func _ _ receiver name type body =>
    Field.atomsOption receiver ++ .name name :: (type.atoms ++ Block.atomsOption body)
  | .bad _ => []

/-- The atoms of a line of a declaration. -/
def Spec.atoms : Spec → List Atom
  | .importing name path => name.elim [] ImportName.atoms ++ [.literal path]
  | .value names type values =>
    names.map .name ++ Expr.atomsOption type ++ Expr.atomsAll values
  | .type name _ type => .name name :: type.atoms

/-- The atoms of several lines. -/
def Spec.atomsAll : List Spec → List Atom
  | [] => []
  | s :: ss => s.atoms ++ Spec.atomsAll ss

end

attribute [simp] Expr.atoms Expr.atomsOption Expr.atomsAll Field.atoms Field.atomsAll
  Field.atomsOption Block.atoms Block.atomsOption Stmt.atoms Stmt.atomsOption Stmt.atomsAll
  Decl.atoms Spec.atoms Spec.atomsAll

/-- The texts of the atoms of an expression, as the source has them. -/
def Expr.texts (src : String) (x : Expr) : List String := x.atoms.map (Atom.text src)

/-- The texts of the atoms of a declaration, as the source has them. -/
def Decl.texts (src : String) (d : Decl) : List String := d.atoms.map (Atom.text src)

/-- The texts of the atoms of a statement, as the source has them. -/
def Stmt.texts (src : String) (s : Stmt) : List String := s.atoms.map (Atom.text src)

/-- The texts of the names and literals among some lexemes. -/
def ownTexts (ls : List Lexeme) : List String :=
  (ls.filter (·.token.hasOwnText)).map (·.token.text)

/-- The atom that a lexeme is read as, if it is a name or a literal. -/
def Lexeme.atom? (l : Lexeme) : Option Atom :=
  match l.token with
  | .name text => some (.name ⟨text, l.span⟩)
  | .literal kind text => some (.literal ⟨kind, l.span, text⟩)
  | _ => none

theorem Expr.atomsAll_eq (xs : List Expr) : Expr.atomsAll xs = xs.flatMap Expr.atoms := by
  induction xs with
  | nil => rfl
  | cons x xs ih => simp [Expr.atomsAll, ih]

theorem Field.atomsAll_eq (fs : List Field) : Field.atomsAll fs = fs.flatMap Field.atoms := by
  induction fs with
  | nil => rfl
  | cons f fs ih => simp [Field.atomsAll, ih]

theorem Stmt.atomsAll_eq (ss : List Stmt) : Stmt.atomsAll ss = ss.flatMap Stmt.atoms := by
  induction ss with
  | nil => rfl
  | cons s ss ih => simp [Stmt.atomsAll, ih]

theorem Spec.atomsAll_eq (ss : List Spec) : Spec.atomsAll ss = ss.flatMap Spec.atoms := by
  induction ss with
  | nil => rfl
  | cons s ss ih => simp [Spec.atomsAll, ih]

/-! ## Literals by their spans

A tree keeps a copy of the text of each literal. `recovered` puts in its place what
the source has under the span of the literal.
-/

/-- A literal with the text that is under its span. -/
def Literal.recovered (src : String) (l : Literal) : Literal :=
  { l with text := l.span.text src }

mutual

/-- An expression with the text of its literals as the source has them; bodies are not said. -/
def Expr.recovered (src : String) : Expr → Expr
  | .ident name => .ident name
  | .literal l => .literal (l.recovered src)
  | .funcLit span type body => .funcLit span (type.recovered src) body
  | .composite span type lbrace elements rbrace =>
    .composite span (Expr.recoveredOption src type) lbrace (Expr.recoveredAll src elements) rbrace
  | .paren span lparen x rparen => .paren span lparen (x.recovered src) rparen
  | .selector span x member => .selector span (x.recovered src) member
  | .index span x i => .index span (x.recovered src) (i.recovered src)
  | .indexList span x is => .indexList span (x.recovered src) (Expr.recoveredAll src is)
  | .slice span x lo hi max full =>
    .slice span (x.recovered src) (Expr.recoveredOption src lo) (Expr.recoveredOption src hi)
      (Expr.recoveredOption src max) full
  | .typeAssert span x type => .typeAssert span (x.recovered src) (Expr.recoveredOption src type)
  | .call span f args dots => .call span (f.recovered src) (Expr.recoveredAll src args) dots
  | .star span pos x => .star span pos (x.recovered src)
  | .unary span op opPos x => .unary span op opPos (x.recovered src)
  | .binary span l op opPos r => .binary span (l.recovered src) op opPos (r.recovered src)
  | .keyValue span key colon value =>
    .keyValue span (key.recovered src) colon (value.recovered src)
  | .arrayType span length elem =>
    .arrayType span (Expr.recoveredOption src length) (elem.recovered src)
  | .structType span fields => .structType span (Field.recoveredAll src fields)
  | .funcType span func params results =>
    .funcType span func (Field.recoveredAll src params) (Field.recoveredAll src results)
  | .interfaceType span members => .interfaceType span (Field.recoveredAll src members)
  | .mapType span key value => .mapType span (key.recovered src) (value.recovered src)
  | .chanType span dir elem => .chanType span dir (elem.recovered src)
  | .ellipsis span pos elem => .ellipsis span pos (Expr.recoveredOption src elem)
  | .bad span => .bad span

/-- An expression that may be left out. -/
def Expr.recoveredOption (src : String) : Option Expr → Option Expr
  | none => none
  | some x => some (x.recovered src)

/-- Several expressions. -/
def Expr.recoveredAll (src : String) : List Expr → List Expr
  | [] => []
  | x :: xs => x.recovered src :: Expr.recoveredAll src xs

/-- A field and its tag. -/
def Field.recovered (src : String) : Field → Field
  | ⟨span, names, type, tag⟩ =>
    ⟨span, names, type.recovered src, tag.map (Literal.recovered src)⟩

/-- Several fields. -/
def Field.recoveredAll (src : String) : List Field → List Field
  | [] => []
  | f :: fs => f.recovered src :: Field.recoveredAll src fs

end

/-- The copy that an atom has of its text is what the source has. -/
def Atom.Intact (src : String) : Atom → Prop
  | .name _ => True
  | .literal l => l.span.text src = l.text

theorem Literal.recovered_eq {src : String} {l : Literal} (h : (Atom.literal l).Intact src) :
    l.recovered src = l := by
  rw [Literal.recovered, (h : l.span.text src = l.text)]

mutual

theorem Expr.recovered_eq {src : String} (x : Expr) (h : ∀ a ∈ x.atoms, a.Intact src) :
    x.recovered src = x := by
  cases x with
  | ident | bad => rfl
  | literal l => rw [Expr.recovered, Literal.recovered_eq (h _ List.mem_cons_self)]
  | paren _ _ x _ | star _ _ x | unary _ _ _ x | chanType _ _ x =>
      rw [Expr.recovered, x.recovered_eq h]
  | funcLit _ x _ | selector _ x _ =>
      rw [Expr.recovered, x.recovered_eq (List.forall_mem_append.mp h).1]
  | index _ x y | binary _ x _ _ y | keyValue _ x _ y | mapType _ x y =>
      obtain ⟨hx, hy⟩ := List.forall_mem_append.mp h
      rw [Expr.recovered, x.recovered_eq hx, y.recovered_eq hy]
  | composite _ type _ elements _ =>
      obtain ⟨ht, hxs⟩ := List.forall_mem_append.mp h
      rw [Expr.recovered, Expr.recoveredOption_eq type ht, Expr.recoveredAll_eq elements hxs]
  | indexList _ x xs | call _ x xs _ =>
      obtain ⟨hx, hxs⟩ := List.forall_mem_append.mp h
      rw [Expr.recovered, x.recovered_eq hx, Expr.recoveredAll_eq xs hxs]
  | slice _ x lo hi max _ =>
      simp only [Expr.atoms, List.forall_mem_append] at h
      obtain ⟨⟨⟨hx, hlo⟩, hhi⟩, hmax⟩ := h
      rw [Expr.recovered, x.recovered_eq hx, Expr.recoveredOption_eq lo hlo,
        Expr.recoveredOption_eq hi hhi, Expr.recoveredOption_eq max hmax]
  | typeAssert _ x type =>
      obtain ⟨hx, ht⟩ := List.forall_mem_append.mp h
      rw [Expr.recovered, x.recovered_eq hx, Expr.recoveredOption_eq type ht]
  | arrayType _ length elem =>
      obtain ⟨ht, hx⟩ := List.forall_mem_append.mp h
      rw [Expr.recovered, Expr.recoveredOption_eq length ht, elem.recovered_eq hx]
  | structType _ fs | interfaceType _ fs => rw [Expr.recovered, Field.recoveredAll_eq fs h]
  | funcType _ _ params results =>
      obtain ⟨hparams, hresults⟩ := List.forall_mem_append.mp h
      rw [Expr.recovered, Field.recoveredAll_eq params hparams, Field.recoveredAll_eq results hresults]
  | ellipsis _ _ elem => rw [Expr.recovered, Expr.recoveredOption_eq elem h]

theorem Expr.recoveredOption_eq {src : String} (x : Option Expr)
    (h : ∀ a ∈ Expr.atomsOption x, a.Intact src) : Expr.recoveredOption src x = x := by
  cases x with
  | none => rfl
  | some x => rw [Expr.recoveredOption, x.recovered_eq h]

theorem Expr.recoveredAll_eq {src : String} (xs : List Expr)
    (h : ∀ a ∈ Expr.atomsAll xs, a.Intact src) : Expr.recoveredAll src xs = xs := by
  cases xs with
  | nil => rfl
  | cons x xs =>
      obtain ⟨hx, hxs⟩ := List.forall_mem_append.mp h
      rw [Expr.recoveredAll, x.recovered_eq hx, Expr.recoveredAll_eq xs hxs]

theorem Field.recovered_eq {src : String} (f : Field) (h : ∀ a ∈ f.atoms, a.Intact src) :
    f.recovered src = f := by
  obtain ⟨span, names, type, tag⟩ := f
  simp only [Field.atoms, List.forall_mem_append] at h
  obtain ⟨⟨-, ht⟩, htag⟩ := h
  rw [Field.recovered, type.recovered_eq ht]
  cases tag with
  | none => rfl
  | some l => rw [Option.map_some, Literal.recovered_eq (htag _ List.mem_cons_self)]

theorem Field.recoveredAll_eq {src : String} (fs : List Field)
    (h : ∀ a ∈ Field.atomsAll fs, a.Intact src) : Field.recoveredAll src fs = fs := by
  cases fs with
  | nil => rfl
  | cons f fs =>
      obtain ⟨hf, hfs⟩ := List.forall_mem_append.mp h
      rw [Field.recoveredAll, f.recovered_eq hf, Field.recoveredAll_eq fs hfs]

end

/-! ## The atoms ahead -/

namespace Grammar

/-- The names and literals ahead, up to the end of the source. -/
def Cursor.atoms (c : Cursor) : List Atom :=
  (c.rest.takeWhile (·.token ≠ .eof)).filterMap Lexeme.atom?

/-- Whether a token is always written the same way. -/
def isFixed : Token → Bool
  | .keyword _ | .mark _ => true
  | _ => false

@[simp]
theorem isFixed_mark (m : Mark) : isFixed (.mark m) = true := rfl

@[simp]
theorem isFixed_keyword (k : Keyword) : isFixed (.keyword k) = true := rfl

namespace Cursor

variable {c : Cursor}

@[simp]
theorem atoms_withBench {w : Workbench} : (c.withBench w).atoms = c.atoms := rfl

@[simp]
theorem atoms_withDepth {n : Nat} : (c.withDepth n).atoms = c.atoms := rfl

@[simp]
theorem atoms_withExprLevel {i : Int} : (c.withExprLevel i).atoms = c.atoms := rfl

/-- A token that is always written the same way is no atom. -/
@[simp]
theorem atoms_advance (h : isFixed c.head.token) : c.advance.atoms = c.atoms := by
  cases hrest : c.rest with
  | nil => simp [atoms, hrest]
  | cons l ls =>
      have hl : isFixed l.token := by simpa [head, hrest] using h
      cases ht : l.token <;> simp_all [atoms, Lexeme.atom?, isFixed]

/-- A name or a literal is the first atom ahead. -/
theorem atoms_eq_cons {a : Atom} (h : c.head.atom? = some a) : c.atoms = a :: c.advance.atoms := by
  cases hrest : c.rest with
  | nil => simp [head, hrest, Lexeme.atom?] at h
  | cons l ls =>
      have hl : l.atom? = some a := by simpa [head, hrest] using h
      have hne : l.token ≠ .eof := by
        rintro heof
        simp [heof, Lexeme.atom?] at hl
      simp [atoms, hrest, hl, hne]

/-- No atom is ahead at the end. -/
theorem atoms_eq_nil (h : c.head.token = .eof) : c.atoms = [] := by
  cases hrest : c.rest with
  | nil => simp [atoms, hrest]
  | cons l ls =>
      have hl : l.token = .eof := by simpa [head, hrest] using h
      simp [atoms, hrest, hl]

end Cursor

variable {α : Type} {c : Cursor}

/-- The atoms ahead are those of what the reader returns, and then those still ahead. -/
def KeepsAtoms (p : Parser α) (atoms : α → List Atom) : Prop :=
  ∀ c, Yields p c fun a c' => c.atoms = atoms a ++ c'.atoms

theorem KeepsAtoms.mono {p : Parser α} {f g : α → List Atom} (h : KeepsAtoms p f)
    (hfg : ∀ a, f a = g a) : KeepsAtoms p g := fun c =>
  (h c).mono fun a c' ha => by rw [← hfg a]; exact ha

/-! ## Names and literals -/

theorem name_atoms : KeepsAtoms name fun n => [.name n] := by
  intro c
  simp only [yields_name]
  intro text hname
  simpa using Cursor.atoms_eq_cons (c := c) (by rw [Lexeme.atom?, hname])

theorem textLiteral?_atoms : KeepsAtoms textLiteral? fun lit => lit.toList.map .literal := by
  intro c
  simp only [yields_textLiteral?]
  refine ⟨fun kind text hlit _ => ?_, fun _ => by simp⟩
  simpa using Cursor.atoms_eq_cons (c := c) (by rw [Lexeme.atom?, hlit])

theorem expectEnd_atoms : KeepsAtoms expectEnd fun _ => [] := by
  intro c
  simp only [yields_expectEnd]
  exact ⟨fun h => by simp [h], fun _ => by simp⟩

/-! ## Nesting and repetition -/

theorem KeepsAtoms.nested {p : Parser α} {f : α → List Atom} (h : KeepsAtoms p f) :
    KeepsAtoms (nested p) f := by
  intro c
  simp only [yields_nested]
  intro _
  exact (h _).mono fun a c' ha => by simpa using ha

/-- The atoms of the item that a round read. -/
def Round.atoms (f : α → List Atom) : Round α → List Atom
  | .done => []
  | .last item | .more item => f item

theorem Round.flatMap_items {f : α → List Atom} (items : List α) (r : Round α) :
    (r.items items).flatMap f = items.flatMap f ++ r.atoms f := by
  cases r <;> simp [Round.items, Round.atoms]

theorem KeepsAtoms.collect {round : Parser (Round α)} {f : α → List Atom}
    (h : KeepsAtoms round (Round.atoms f)) :
    KeepsAtoms (collect round) fun items => items.flatMap f := by
  intro c
  refine yields_collect (I := fun items c' => c.atoms = items.flatMap f ++ c'.atoms)
    (by simp) fun items c₁ hinv => (h c₁).mono fun r c₂ hr => ?_
  have hitems : c.atoms = (r.items items).flatMap f ++ c₂.atoms := by
    rw [hinv, hr, Round.flatMap_items, List.append_assoc]
  exact ⟨fun _ => hitems, fun _ => hitems⟩

section Lists

variable {item : Parser α} {f : α → List Atom}

theorem KeepsAtoms.commaRound (h : KeepsAtoms item f) :
    KeepsAtoms (commaRound item) (Round.atoms f) := by
  intro c
  simp only [GoGloss.Grammar.commaRound, yields_bind]
  refine (h c).mono fun a c₁ ha => ?_
  simp +contextual [Round.atoms, ha]

theorem KeepsAtoms.commaList (h : KeepsAtoms item f) :
    KeepsAtoms (commaList item) fun items => items.flatMap f :=
  h.commaRound.collect

theorem KeepsAtoms.commaListUntil {close : Mark} (h : KeepsAtoms item f) :
    KeepsAtoms (commaListUntil close item) fun items => items.flatMap f := by
  refine KeepsAtoms.collect fun c => ?_
  simp only [yields_bind, yields_peek]
  split
  · simp [Round.atoms]
  · rw [yields_ite]
    exact ⟨fun _ => by simp [Round.atoms], fun _ => h.commaRound c⟩

theorem KeepsAtoms.moreUntil {close : Mark} (h : KeepsAtoms item f) :
    KeepsAtoms (moreUntil close item) fun items => items.flatMap f := by
  refine KeepsAtoms.collect fun c => ?_
  simp [Round.atoms]
  intro hcomma
  refine ⟨fun _ => by simp [hcomma], fun _ => (h c.advance).mono fun a c₁ ha => ?_⟩
  simpa [hcomma] using ha

theorem KeepsAtoms.endedListUntil {close : Mark} (h : KeepsAtoms item f) :
    KeepsAtoms (endedListUntil close item) fun items => items.flatMap f := by
  refine KeepsAtoms.collect fun c => ?_
  simp only [yields_bind, yields_peek]
  split
  · simp [Round.atoms]
  · rw [yields_ite]
    refine ⟨fun _ => by simp [Round.atoms], fun _ => ?_⟩
    rw [yields_bind]
    refine (h c).mono fun a c₁ ha => ?_
    rw [yields_bind]
    refine (expectEnd_atoms c₁).mono fun _ c₂ hend => ?_
    simp [Round.atoms, ha, hend]

end Lists

theorem nameList_atoms : KeepsAtoms nameList fun names => names.map .name :=
  name_atoms.commaList.mono fun names => by rw [List.map_eq_flatMap]

end Grammar

end GoGloss
