import GoGloss.Sentence

/-!
# Trees without places

A tree records where each of its parts was read. `bare` forgets all of it: every
span becomes the same one, and what stays is the tree and its texts. Two trees are
equal up to spans when their bare trees are equal.

A span that may be absent stays absent or present, since its presence says
something: a pair of parentheses, the dots of a call, the sign of an alias.

What a tree says in English depends on its bare tree only (`Expr.write_bare` and
its likes).
-/

namespace GoGloss

open Phrase

/-! ## Forgetting the places -/

/-- A name without its place. -/
def Name.bare (n : Name) : Name :=
  ⟨n.text, default⟩

/-- A literal without its place. -/
def Literal.bare (l : Literal) : Literal :=
  ⟨l.kind, default, l.text⟩

/-- The name of an import without its place. -/
def ImportName.bare : ImportName → ImportName
  | .dot _ => .dot default
  | .blank _ => .blank default
  | .name n => .name n.bare

/-- Whether there is a span, without saying which. -/
def bareSpan (span : Option Span) : Option Span :=
  span.map fun _ => default

mutual

/-- An expression without places. -/
def Expr.bare : Expr → Expr
  | .ident n => .ident n.bare
  | .literal l => .literal l.bare
  | .funcLit _ type body => .funcLit default type.bare body.bare
  | .composite _ type _ elements _ =>
    .composite default (Expr.bareOption type) default (Expr.bareAll elements) default
  | .paren _ _ x _ => .paren default default x.bare default
  | .selector _ x member => .selector default x.bare member.bare
  | .index _ x i => .index default x.bare i.bare
  | .indexList _ x is => .indexList default x.bare (Expr.bareAll is)
  | .slice _ x lo hi max full =>
    .slice default x.bare (Expr.bareOption lo) (Expr.bareOption hi) (Expr.bareOption max) full
  | .typeAssert _ x type => .typeAssert default x.bare (Expr.bareOption type)
  | .call _ f args dots => .call default f.bare (Expr.bareAll args) (bareSpan dots)
  | .star _ _ x => .star default default x.bare
  | .unary _ op _ x => .unary default op default x.bare
  | .binary _ l op _ r => .binary default l.bare op default r.bare
  | .keyValue _ key _ value => .keyValue default key.bare default value.bare
  | .arrayType _ length elem => .arrayType default (Expr.bareOption length) elem.bare
  | .structType _ fields => .structType default (Field.bareAll fields)
  | .funcType _ func params results =>
    .funcType default (bareSpan func) (Field.bareAll params) (Field.bareAll results)
  | .interfaceType _ members => .interfaceType default (Field.bareAll members)
  | .mapType _ key value => .mapType default key.bare value.bare
  | .chanType _ dir elem => .chanType default dir elem.bare
  | .ellipsis _ _ elem => .ellipsis default default (Expr.bareOption elem)
  | .bad _ => .bad default

/-- An expression that may be left out. -/
def Expr.bareOption : Option Expr → Option Expr
  | none => none
  | some x => some x.bare

/-- Several expressions. -/
def Expr.bareAll : List Expr → List Expr
  | [] => []
  | x :: xs => x.bare :: Expr.bareAll xs

/-- A field without places. -/
def Field.bare : Field → Field
  | ⟨_, names, type, tag⟩ => ⟨default, names.map Name.bare, type.bare, tag.map Literal.bare⟩

/-- Several fields. -/
def Field.bareAll : List Field → List Field
  | [] => []
  | f :: fs => f.bare :: Field.bareAll fs

/-- A receiver, if there is one. -/
def Field.bareOption : Option (List Field) → Option (List Field)
  | none => none
  | some fs => some (Field.bareAll fs)

/-- A block without places. -/
def Block.bare : Block → Block
  | ⟨_, stmts, _⟩ => ⟨default, Stmt.bareAll stmts, default⟩

/-- A body that may be left out. -/
def Block.bareOption : Option Block → Option Block
  | none => none
  | some b => some b.bare

/-- A statement without places. -/
def Stmt.bare : Stmt → Stmt
  | .empty _ => .empty default
  | .expr _ x => .expr default x.bare
  | .decl _ d => .decl default d.bare
  | .assign _ lhs op _ rhs => .assign default (Expr.bareAll lhs) op default (Expr.bareAll rhs)
  | .send _ chan _ value => .send default chan.bare default value.bare
  | .step _ x op _ => .step default x.bare op default
  | .labeled _ label s => .labeled default label.bare s.bare
  | .go _ _ call => .go default default call.bare
  | .defer _ _ call => .defer default default call.bare
  | .ret _ _ results => .ret default default (Expr.bareAll results)
  | .jump _ kind label => .jump default kind (label.map Name.bare)
  | .block _ body => .block default body.bare
  | .ifElse _ init cond body otherwise =>
    .ifElse default (Stmt.bareOption init) cond.bare body.bare (Stmt.bareOption otherwise)
  | .loop _ init cond post body =>
    .loop default (Stmt.bareOption init) (Expr.bareOption cond) (Stmt.bareOption post) body.bare
  | .range _ key value op x body =>
    .range default (Expr.bareOption key) (Expr.bareOption value) op x.bare body.bare
  | .switch _ init tag body =>
    .switch default (Stmt.bareOption init) (Expr.bareOption tag) body.bare
  | .typeSwitch _ init guard body =>
    .typeSwitch default (Stmt.bareOption init) guard.bare body.bare
  | .select _ body => .select default body.bare
  | .caseClause _ exprs body => .caseClause default (Expr.bareAll exprs) (Stmt.bareAll body)
  | .commClause _ comm body => .commClause default (Stmt.bareOption comm) (Stmt.bareAll body)
  | .bad _ => .bad default

/-- A statement that may be left out. -/
def Stmt.bareOption : Option Stmt → Option Stmt
  | none => none
  | some s => some s.bare

/-- Several statements. -/
def Stmt.bareAll : List Stmt → List Stmt
  | [] => []
  | s :: ss => s.bare :: Stmt.bareAll ss

/-- A declaration without places. -/
def Decl.bare : Decl → Decl
  | .group _ word _ lparen specs rparen =>
    .group default word default (bareSpan lparen) (Spec.bareAll specs) (bareSpan rparen)
  | .func _ _ receiver name type body =>
    .func default default (Field.bareOption receiver) name.bare type.bare (Block.bareOption body)
  | .bad _ => .bad default

/-- A line of a declaration without places. -/
def Spec.bare : Spec → Spec
  | .importing name path => .importing (name.map ImportName.bare) path.bare
  | .value names type values =>
    .value (names.map Name.bare) (Expr.bareOption type) (Expr.bareAll values)
  | .type name assign type => .type name.bare (bareSpan assign) type.bare

/-- Several lines. -/
def Spec.bareAll : List Spec → List Spec
  | [] => []
  | s :: ss => s.bare :: Spec.bareAll ss

end

attribute [simp] Expr.bare Field.bare Block.bare Stmt.bare Decl.bare Spec.bare

@[simp]
theorem Expr.bareOption_eq (x : Option Expr) : Expr.bareOption x = x.map Expr.bare := by
  cases x <;> rfl

@[simp]
theorem Field.bareOption_eq (fs : Option (List Field)) :
    Field.bareOption fs = fs.map Field.bareAll := by
  cases fs <;> rfl

@[simp]
theorem Block.bareOption_eq (b : Option Block) : Block.bareOption b = b.map Block.bare := by
  cases b <;> rfl

@[simp]
theorem Stmt.bareOption_eq (s : Option Stmt) : Stmt.bareOption s = s.map Stmt.bare := by
  cases s <;> rfl

@[simp]
theorem Expr.bareAll_eq (xs : List Expr) : Expr.bareAll xs = xs.map Expr.bare := by
  induction xs with
  | nil => rfl
  | cons x xs ih => simp [Expr.bareAll, ih]

@[simp]
theorem Field.bareAll_eq (fs : List Field) : Field.bareAll fs = fs.map Field.bare := by
  induction fs with
  | nil => rfl
  | cons f fs ih => simp [Field.bareAll, ih]

@[simp]
theorem Stmt.bareAll_eq (ss : List Stmt) : Stmt.bareAll ss = ss.map Stmt.bare := by
  induction ss with
  | nil => rfl
  | cons s ss ih => simp [Stmt.bareAll, ih]

@[simp]
theorem Spec.bareAll_eq (ss : List Spec) : Spec.bareAll ss = ss.map Spec.bare := by
  induction ss with
  | nil => rfl
  | cons s ss ih => simp [Spec.bareAll, ih]

/-! ## English does not mention places -/

theorem nameSequence_bare (names : List Name) :
    nameSequence (names.map Name.bare) = nameSequence names := by
  simp [nameSequence, Function.comp_def, Name.bare]

mutual

/-- What is said goes behind the text so far, which is left alone; places are not said. -/
theorem Expr.write_bare_append (out more : String) (x : Expr) :
    x.bare.write (out ++ more) = out ++ x.write more := by
  cases x with
  | ident | literal | bad | keyValue =>
      simp [Expr.write, String.append_assoc, Name.bare, Literal.bare]
  | funcLit _ x _ | paren _ _ x _ | selector _ x _ | star _ _ x | unary _ _ _ x | chanType _ _ x =>
      simp [Expr.write, String.append_assoc, x.write_bare_append, Name.bare]
  | index _ x y | binary _ x _ _ y | mapType _ x y =>
      simp [Expr.write, String.append_assoc, x.write_bare_append, y.write_bare_append]
  | indexList _ x is =>
      simp [Expr.write, String.append_assoc, x.write_bare_append, Expr.writeAll_bare_append]
  | call _ f args dots =>
      cases dots <;> simp [Expr.write, String.append_assoc, f.write_bare_append,
        Expr.writeAll_bare_append, bareSpan]
  | slice _ x lo hi bound full =>
      cases full <;> simp [Expr.write, String.append_assoc, x.write_bare_append,
        Expr.writeOption_bare_append]
  | composite _ type _ _ _ =>
      cases type with
      | none => simp [Expr.write, String.append_assoc]
      | some type => simp [Expr.write, String.append_assoc, type.write_bare_append]
  | typeAssert _ x type =>
      cases type with
      | none => simp [Expr.write, String.append_assoc, x.write_bare_append]
      | some type =>
          simp [Expr.write, String.append_assoc, x.write_bare_append, type.write_bare_append]
  | arrayType _ length elem =>
      cases length with
      | none => simp [Expr.write, String.append_assoc, elem.write_bare_append]
      | some length =>
          simp [Expr.write, String.append_assoc, length.write_bare_append, elem.write_bare_append]
  | structType _ fields => simp [Expr.write, String.append_assoc, Field.writeAll_bare_append]
  | funcType _ func params results =>
      simp only [Expr.bare, Expr.write, String.append_assoc, Field.bareAll_eq, List.isEmpty_map,
        Field.writeParams_bare_append, Field.writeResults_bare_append]
      split <;> rfl
  | interfaceType _ members =>
      simp [Expr.write, String.append_assoc, Field.writeMembers_bare_append]
  | ellipsis _ _ elem => simp [Expr.write, String.append_assoc, Expr.writeOption_bare_append]

theorem Expr.writeOption_bare_append (out more : String) (x : Option Expr) :
    Expr.writeOption (out ++ more) (x.map Expr.bare) = out ++ Expr.writeOption more x := by
  cases x with
  | none => rfl
  | some x => exact x.write_bare_append out more

theorem Expr.writeAll_bare_append (sep : Nat → String) (i : Nat) (out more : String)
    (xs : List Expr) :
    Expr.writeAll sep i (out ++ more) (xs.map Expr.bare) = out ++ Expr.writeAll sep i more xs := by
  cases xs with
  | nil => rfl
  | cons x xs =>
      simp only [List.map_cons, Expr.writeAll, String.append_assoc, x.write_bare_append,
        Expr.writeAll_bare_append]

theorem Field.write_bare_append (out more : String) (f : Field) :
    f.bare.write (out ++ more) = out ++ f.write more := by
  obtain ⟨span, names, type, tag⟩ := f
  cases names <;> simp [Field.write, String.append_assoc, type.write_bare_append, nameSequence,
    Name.bare, Function.comp_def]

theorem Field.writeAll_bare_append (sep : Nat → String) (i : Nat) (out more : String)
    (fs : List Field) :
    Field.writeAll sep i (out ++ more) (fs.map Field.bare) =
      out ++ Field.writeAll sep i more fs := by
  cases fs with
  | nil => rfl
  | cons f fs =>
      simp only [List.map_cons, Field.writeAll, String.append_assoc, f.write_bare_append,
        Field.writeAll_bare_append]

theorem Field.writeParams_bare_append (out more : String) (fs : List Field) :
    Field.writeParams (out ++ more) (fs.map Field.bare) = out ++ Field.writeParams more fs := by
  cases fs with
  | nil => rfl
  | cons f fs =>
      simp only [List.map_cons, Field.writeParams, String.append_assoc, f.write_bare_append,
        Field.writeAll_bare_append]

theorem Field.writeResults_bare_append (alone : Bool) (out more : String) (fs : List Field) :
    Field.writeResults alone (out ++ more) (fs.map Field.bare) =
      out ++ Field.writeResults alone more fs := by
  cases fs with
  | nil => rfl
  | cons f fs =>
      cases alone <;> simp [Field.writeResults, String.append_assoc, f.write_bare_append,
        Field.writeAll_bare_append]

theorem Field.writeMember_bare_append (out more : String) (f : Field) :
    f.bare.writeMember (out ++ more) = out ++ f.writeMember more := by
  obtain ⟨span, names, type, tag⟩ := f
  have htype := type.write_bare_append out
  cases type with
  | funcType _ _ params results =>
      simp only [Field.bare, Expr.bare, Field.writeMember, String.append_assoc, Field.bareAll_eq,
        List.isEmpty_map, nameSequence_bare, Field.writeParams_bare_append,
        Field.writeResults_bare_append]
      split <;> rfl
  | _ =>
      cases names <;> simp_all [Field.writeMember, String.append_assoc, nameSequence, Name.bare,
        Function.comp_def]

theorem Field.writeMembers_bare_append (i : Nat) (out more : String) (fs : List Field) :
    Field.writeMembers i (out ++ more) (fs.map Field.bare) =
      out ++ Field.writeMembers i more fs := by
  cases fs with
  | nil => rfl
  | cons f fs =>
      simp only [List.map_cons, Field.writeMembers, String.append_assoc,
        f.writeMember_bare_append, Field.writeMembers_bare_append]

end

/-- The two facts proved together, each by itself. -/
theorem bare_and_append {α : Type} {write : String → α → String} {bare : α → α}
    (h : ∀ out more x, write (out ++ more) (bare x) = out ++ write more x) :
    (∀ out x, write out (bare x) = write out x) ∧
      ∀ out more x, write (out ++ more) x = out ++ write more x := by
  have hbare : ∀ out x, write out (bare x) = write out x := by
    intro out x
    simpa using h "" out x
  exact ⟨hbare, fun out more x => by rw [← hbare, h]⟩

theorem Expr.write_bare (out : String) (x : Expr) : x.bare.write out = x.write out :=
  (bare_and_append Expr.write_bare_append).1 out x

theorem Expr.write_eq (out : String) (x : Expr) : x.write out = out ++ x.english := by
  simpa [Expr.english] using (bare_and_append Expr.write_bare_append).2 out "" x

theorem Expr.writeAll_bare (sep : Nat → String) (i : Nat) (out : String) (xs : List Expr) :
    Expr.writeAll sep i out (xs.map Expr.bare) = Expr.writeAll sep i out xs :=
  (bare_and_append (Expr.writeAll_bare_append sep i)).1 out xs

theorem writeValues_bare (lead out : String) (values : List Expr) :
    writeValues lead out (values.map Expr.bare) = writeValues lead out values := by
  simp [writeValues, Expr.writeList, Expr.writeAll_bare]

theorem Name.writeAll_bare (i total : Nat) (out : String) (names : List Name) :
    Name.writeAll i total out (names.map Name.bare) = Name.writeAll i total out names := by
  induction names generalizing i out with
  | nil => rfl
  | cons n ns ih => simp only [List.map_cons, Name.writeAll, ih, Name.bare]

theorem Spec.write_bare (out : String) (s : Spec) : s.bare.write out = s.write out := by
  cases s with
  | importing name path =>
      cases name with
      | none => simp [Spec.write, Literal.bare]
      | some name => cases name <;> simp [Spec.write, Literal.bare, ImportName.bare, Name.bare,
          ImportName.words]
  | value names type values =>
      cases type <;> simp [Spec.write, Name.writeAll_bare, writeValues_bare, Expr.write_bare]
  | type name _ type => simp [Spec.write, Name.bare, Expr.write_bare]

theorem Spec.nameCount_bare (s : Spec) : s.bare.nameCount = s.nameCount := by
  cases s <;> simp [Spec.nameCount]

theorem Spec.writeAll_bare (word : DeclWord) (i total : Nat) (out : String) (ss : List Spec) :
    Spec.writeAll word i total out (ss.map Spec.bare) = Spec.writeAll word i total out ss := by
  have hunder : ∀ (out : String) (s : Spec),
      s.bare.writeUnder word out = s.writeUnder word out := by
    intro out s
    cases word <;> simp only [Spec.writeUnder, Spec.write_bare, Spec.nameCount_bare]
  induction ss generalizing i out with
  | nil => rfl
  | cons s ss ih => simp only [List.map_cons, Spec.writeAll, hunder, ih]

theorem Decl.english_bare (d : Decl) : d.bare.english = d.english := by
  cases d with
  | group _ word _ _ specs _ => simp [Decl.english, Decl.write, Spec.writeAll_bare]
  | func _ _ _ name type _ =>
      have hparams := (bare_and_append Field.writeParams_bare_append).1
      have hresults := fun alone => (bare_and_append (Field.writeResults_bare_append alone)).1
      cases type <;> simp [Decl.english, Decl.write, Name.bare, Field.writeSignature, hparams,
        hresults]
  | bad => rfl

theorem Expr.english_bare (x : Expr) : x.bare.english = x.english :=
  x.write_bare ""

theorem Stmt.english_bare (s : Stmt) : s.bare.english = s.english := by
  cases s with
  | expr _ x => exact x.english_bare
  | decl _ d => exact d.english_bare
  | assign _ lhs op _ rhs =>
      cases op <;> simp [Stmt.english, Stmt.write, Expr.writeList, Expr.writeAll_bare,
        writeValues_bare]
  | _ => rfl

end GoGloss
