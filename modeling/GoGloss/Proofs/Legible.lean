import GoGloss.Proofs.Precedence

/-!
# Legible expressions

The expressions made of names and literals by means of operators, parentheses,
selectors, indices, slices, calls and type assertions, whose types are made of names.
`Expr.spelling` writes one of them down, token by token. Nothing is added on the way:
where the grouping is not what the operators alone make of it, there are parentheses in
the tree already.

Two numbers say how such an expression lies in the levels of the grammar. Operators
between operands, and what follows an operand, enter a level and keep it to the end of
their chain: `Expr.kept` counts these. `Expr.need` is how many levels have to be left
where the expression starts.
-/

namespace GoGloss

theorem Node.Binds.fits {x : Expr} (h : (Node.expr x).Binds) : x.Fits :=
  (Node.binds_expr.mp h).1

theorem Node.Binds.below {x : Expr} (h : (Node.expr x).Binds) :
    Node.All (fun _ n => n.Binds) (Node.exprChildren x) :=
  (Node.binds_expr.mp h).2

namespace Expr

/-! ## Which expressions are legible -/

/-- The name of a type, perhaps of another package. -/
inductive NamesType : Expr → Prop
  | ident {name : Name} : NamesType (.ident name)
  | selector {span : Span} {package member : Name} :
      NamesType (.selector span (.ident package) member)

/-- A type that is a name, perhaps with arguments and perhaps in parentheses. -/
inductive LegibleType : Expr → Prop
  | name {t : Expr} : NamesType t → LegibleType t
  | index {span : Span} {t arg : Expr} :
      NamesType t → LegibleType arg → LegibleType (.index span t arg)
  | indexList {span : Span} {t : Expr} {args : List Expr} :
      NamesType t → 2 ≤ args.length → (∀ a ∈ args, LegibleType a) →
      LegibleType (.indexList span t args)
  | paren {span lparen rparen : Span} {t : Expr} :
      LegibleType t → LegibleType (.paren span lparen t rparen)

/-- An expression that can be written down token by token. -/
inductive Legible : Expr → Prop
  | ident {name : Name} : Legible (.ident name)
  | literal {lit : Literal} : Legible (.literal lit)
  | paren {span lparen rparen : Span} {x : Expr} :
      Legible x → Legible (.paren span lparen x rparen)
  | selector {span : Span} {x : Expr} {member : Name} :
      Legible x → Legible (.selector span x member)
  | index {span : Span} {x i : Expr} : Legible x → Legible i → Legible (.index span x i)
  | indexList {span : Span} {x : Expr} {is : List Expr} :
      Legible x → 2 ≤ is.length → (∀ i ∈ is, Legible i) → Legible (.indexList span x is)
  | slice {span : Span} {x : Expr} {lo hi : Option Expr} :
      Legible x → (∀ y ∈ lo, Legible y) → (∀ y ∈ hi, Legible y) →
      Legible (.slice span x lo hi none false)
  /-- With a third bound the second one may not be left out. -/
  | fullSlice {span : Span} {x hi max : Expr} {lo : Option Expr} :
      Legible x → (∀ y ∈ lo, Legible y) → Legible hi → Legible max →
      Legible (.slice span x lo (some hi) (some max) true)
  | typeGuard {span : Span} {x : Expr} : Legible x → Legible (.typeAssert span x none)
  | typeAssert {span : Span} {x t : Expr} :
      Legible x → LegibleType t → Legible t → Legible (.typeAssert span x (some t))
  /-- A call without dots behind its last argument. -/
  | call {span : Span} {f : Expr} {args : List Expr} :
      Legible f → (∀ a ∈ args, Legible a) → Legible (.call span f args none)
  | star {span pos : Span} {x : Expr} : Legible x → Legible (.star span pos x)
  | unary {span opPos : Span} {op : UnaryOp} {x : Expr} :
      Legible x → Legible (.unary span op opPos x)
  | binary {span opPos : Span} {op : BinaryOp} {l r : Expr} :
      Legible l → Legible r → Legible (.binary span l op opPos r)

/-- A type made of names could be an expression just as well. -/
theorem LegibleType.legible {t : Expr} (h : t.LegibleType) : t.Legible := by
  have hname : ∀ {t : Expr}, t.NamesType → t.Legible
    | _, .ident => .ident
    | _, .selector => .selector .ident
  induction h with
  | name ht => exact hname ht
  | index ht _ ih => exact .index (hname ht) ih
  | indexList ht hlength _ ih => exact .indexList (hname ht) hlength ih
  | paren _ ih => exact .paren ih

theorem tightness_pos (x : Expr) : 1 ≤ x.tightness := by
  cases x with
  | binary _ _ op => exact op.precedence_pos
  | _ => simp [tightness]

/-! ## How they are written -/

mutual

/-- The tokens of a legible expression in the order of the source. -/
def spelling : Expr → List Token
  | .ident name => [.name name.text]
  | .literal lit => [.literal lit.kind lit.text]
  | .paren _ _ x _ => .mark .lparen :: (x.spelling ++ [.mark .rparen])
  | .selector _ x member => x.spelling ++ [.mark .dot, .name member.text]
  | .index _ x i => x.spelling ++ .mark .lbrack :: (i.spelling ++ [.mark .rbrack])
  | .indexList _ x is => x.spelling ++ .mark .lbrack :: (spellings is ++ [.mark .rbrack])
  | .slice _ x lo hi max full =>
    x.spelling ++ .mark .lbrack :: (spellingOption lo ++ .mark .colon :: (spellingOption hi ++
      ((if full then .mark .colon :: spellingOption max else []) ++ [.mark .rbrack])))
  | .typeAssert _ x none => x.spelling ++ [.mark .dot, .mark .lparen, .keyword .type_, .mark .rparen]
  | .typeAssert _ x (some t) =>
    x.spelling ++ .mark .dot :: .mark .lparen :: (t.spelling ++ [.mark .rparen])
  | .call _ f args _ => f.spelling ++ .mark .lparen :: (spellings args ++ [.mark .rparen])
  | .star _ _ x => .mark .star :: x.spelling
  | .unary _ op _ x => .mark op.mark :: x.spelling
  | .binary _ l op _ r => l.spelling ++ .mark op.mark :: r.spelling
  | _ => []

/-- The tokens of an expression that may be left out. -/
def spellingOption : Option Expr → List Token
  | none => []
  | some x => x.spelling

/-- The tokens of several expressions, with commas between them. -/
def spellings : List Expr → List Token
  | [] => []
  | x :: xs => x.spelling ++ moreSpellings xs

/-- The tokens of several expressions, with a comma in front of each. -/
def moreSpellings : List Expr → List Token
  | [] => []
  | x :: xs => .mark .comma :: (x.spelling ++ moreSpellings xs)

end

/-- What an expression without an operator in front starts with. -/
def startsOperand : Token → Bool
  | .name _ | .literal .. | .mark .lparen => true
  | _ => false

/-- What an expression starts with. -/
def startsLegible (t : Token) : Bool :=
  startsOperand t || t = .mark .star || t = .mark .arrow || (UnaryOp.ofToken? t).isSome

theorem startsOperand_iff {t : Token} :
    startsOperand t = true ↔
      (∃ text, t = .name text) ∨ (∃ kind text, t = .literal kind text) ∨ t = .mark .lparen := by
  unfold startsOperand
  split <;> simp_all

/-- A legible expression has a first token, which shows whether there is an operator in front. -/
theorem Legible.exists_spelling_eq {x : Expr} (h : x.Legible) (hbinds : (Node.expr x).Binds) :
    ∃ t ts, x.spelling = t :: ts ∧ startsLegible t = true ∧
      (7 ≤ x.tightness → startsOperand t = true) := by
  induction h with
  | ident | literal | paren => exact ⟨_, _, rfl, rfl, fun _ => rfl⟩
  | selector _ ih | index _ _ ih | indexList _ _ _ ih | slice _ _ _ ih | fullSlice _ _ _ _ ih
  | typeGuard _ ih | typeAssert _ _ _ ih | call _ _ ih =>
      obtain ⟨hfits, hbelow⟩ := Node.binds_expr.mp hbinds
      obtain ⟨t, ts, hspelling, hstarts, hoperand⟩ := ih (hbelow _ (.head _))
      exact ⟨t, _, by rw [spelling, hspelling]; rfl, hstarts, fun _ => hoperand hfits⟩
  | star => exact ⟨_, _, rfl, rfl, by simp [tightness]⟩
  | @unary _ _ op => exact ⟨_, _, rfl, by cases op <;> rfl, by simp [tightness]⟩
  | @binary _ _ op _ _ _ _ ih =>
      obtain ⟨-, hbelow⟩ := Node.binds_expr.mp hbinds
      obtain ⟨t, ts, hspelling, hstarts, -⟩ := ih (hbelow _ (.head _))
      have hlt := op.precedence_lt
      refine ⟨t, _, by rw [spelling, hspelling]; rfl, hstarts, fun htight => ?_⟩
      simp only [tightness] at htight
      omega

/-- A statement may end after a legible expression. -/
theorem Legible.exists_last {x : Expr} (h : x.Legible) :
    ∃ ts t, x.spelling = ts ++ [t] ∧ t.endsStatement = true := by
  -- a closing bracket comes last, or a name or literal
  induction h with
  | ident | literal => exact ⟨[], _, rfl, rfl⟩
  | @paren _ _ _ x => exact ⟨.mark .lparen :: x.spelling, .mark .rparen, rfl, rfl⟩
  | @selector _ x member =>
      exact ⟨x.spelling ++ [.mark .dot], .name member.text, by simp [spelling], rfl⟩
  | @index _ x i =>
      exact ⟨x.spelling ++ .mark .lbrack :: i.spelling, .mark .rbrack, by simp [spelling], rfl⟩
  | @indexList _ x is =>
      exact ⟨x.spelling ++ .mark .lbrack :: spellings is, .mark .rbrack, by simp [spelling], rfl⟩
  | @slice _ x lo hi =>
      exact ⟨x.spelling ++ .mark .lbrack :: (spellingOption lo ++ .mark .colon ::
        spellingOption hi), .mark .rbrack, by simp [spelling], rfl⟩
  | @fullSlice _ x hi max lo =>
      exact ⟨x.spelling ++ .mark .lbrack :: (spellingOption lo ++ .mark .colon ::
        (spellingOption (some hi) ++ .mark .colon :: spellingOption (some max))), .mark .rbrack,
        by simp [spelling], rfl⟩
  | @typeGuard _ x =>
      exact ⟨x.spelling ++ [.mark .dot, .mark .lparen, .keyword .type_], .mark .rparen,
        by simp [spelling], rfl⟩
  | @typeAssert _ x t =>
      exact ⟨x.spelling ++ .mark .dot :: .mark .lparen :: t.spelling, .mark .rparen,
        by simp [spelling], rfl⟩
  | @call _ f args =>
      exact ⟨f.spelling ++ .mark .lparen :: spellings args, .mark .rparen, by simp [spelling], rfl⟩
  | star _ ih | unary _ ih =>
      obtain ⟨ts, t, hspelling, hends⟩ := ih
      exact ⟨_ :: ts, t, by rw [spelling, hspelling]; rfl, hends⟩
  | @binary _ _ op l _ _ _ _ ih =>
      obtain ⟨ts, t, hspelling, hends⟩ := ih
      exact ⟨l.spelling ++ .mark op.mark :: ts, t, by simp [spelling, hspelling], hends⟩

theorem spellings_cons (x : Expr) (xs : List Expr) :
    spellings (x :: xs) = x.spelling ++ moreSpellings xs := by
  rw [spellings]

theorem moreSpellings_cons (x : Expr) (xs : List Expr) :
    moreSpellings (x :: xs) = .mark .comma :: spellings (x :: xs) := by
  rw [moreSpellings, spellings]

/-- There is a comma for every expression. -/
theorem length_le_moreSpellings (xs : List Expr) : xs.length ≤ (moreSpellings xs).length := by
  induction xs with
  | nil => exact Nat.zero_le _
  | cons x xs ih =>
      rw [moreSpellings, List.length_cons, List.length_cons, List.length_append]
      omega

theorem length_le_spellings (xs : List Expr) : xs.length ≤ (spellings xs).length + 1 := by
  cases xs with
  | nil => exact Nat.zero_le _
  | cons x xs =>
      have := length_le_moreSpellings xs
      rw [spellings, List.length_cons, List.length_append]
      omega

/-! ## How deep they lie -/

/-- The levels that are still entered behind an expression. -/
def kept : Expr → Nat
  | .selector _ x _ | .index _ x _ | .indexList _ x _ | .slice _ x _ _ _ _ | .typeAssert _ x _
  | .call _ x _ _ => x.kept + 1
  | .binary _ l _ _ r => l.kept + 1 + r.kept
  | _ => 0

mutual

/-- The levels that a type made of names needs. -/
def typeNeed : Expr → Nat
  | .index _ _ arg => arg.typeNeed + 1
  | .indexList _ _ args => typeNeedAll args
  | .paren _ _ t _ => t.typeNeed + 1
  | _ => 0

/-- The levels that several types need, each on a level of its own. -/
def typeNeedAll : List Expr → Nat
  | [] => 0
  | t :: ts => max (t.typeNeed + 1) (typeNeedAll ts)

end

mutual

/-- The levels that an expression needs. -/
def need : Expr → Nat
  | .paren _ _ x _ | .star _ _ x | .unary _ _ _ x => x.need + 1
  | .selector _ x _ | .typeAssert _ x none => max x.need (x.kept + 1)
  | .index _ x i => max x.need (x.kept + 1 + (i.need + 1))
  | .indexList _ x is => max x.need (x.kept + 1 + needAll is)
  | .slice _ x lo hi bound _ =>
    max x.need (x.kept + 1 + max (needOption lo) (max (needOption hi) (needOption bound)))
  | .typeAssert _ x (some t) => max x.need (x.kept + 1 + (t.typeNeed + 1))
  | .call _ f args _ => max f.need (f.kept + 1 + needAll args)
  | .binary _ l _ _ r => max l.need (l.kept + 1 + r.need)
  | _ => 0

/-- The levels that an expression needs on a level of its own, if it is there. -/
def needOption : Option Expr → Nat
  | none => 0
  | some x => x.need + 1

/-- The levels that several expressions need, each on a level of its own. -/
def needAll : List Expr → Nat
  | [] => 0
  | x :: xs => max (x.need + 1) (needAll xs)

end

theorem typeNeed_lt_typeNeedAll {t : Expr} {ts : List Expr} (h : t ∈ ts) :
    t.typeNeed < typeNeedAll ts := by
  induction h with
  | head => exact Nat.lt_of_succ_le (Nat.le_max_left _ _)
  | tail _ _ ih => exact Nat.lt_of_lt_of_le ih (Nat.le_max_right _ _)

theorem need_lt_needAll {x : Expr} {xs : List Expr} (h : x ∈ xs) : x.need < needAll xs := by
  induction h with
  | head => exact Nat.lt_of_succ_le (Nat.le_max_left _ _)
  | tail _ _ ih => exact Nat.lt_of_lt_of_le ih (Nat.le_max_right _ _)

end Expr

end GoGloss
