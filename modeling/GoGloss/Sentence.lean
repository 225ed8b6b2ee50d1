import GoGloss.Phrase
import GoGloss.Tree

/-!
# Sentences

Every node can be said in English. `write` appends what a node says to the text
so far, and `english` is what it says on its own. What has no wording yet gets a
placeholder that names it, so saying something never fails.

Parentheses of the source are nodes of the tree and come out where they were;
none are added.
-/

namespace GoGloss

open Phrase

/-- What stands for an expression that cannot be said. -/
def badExpr : String := "(bad expr)"

/-- The words for an operator between two operands. -/
def BinaryOp.words : BinaryOp → String
  | .add => "plus"
  | .sub => "minus"
  | .div => "divided by"
  | op => op.text

/-- The names with commas between them. -/
def nameSequence (names : List Name) : String :=
  String.intercalate ", " (names.map Name.text)

/-! ## Expressions -/

mutual

/-- Appends an expression. -/
def Expr.write (out : String) : Expr → String
  | .ident name => out ++ name.text
  | .literal literal => out ++ literal.text
  | .ellipsis _ _ elem => Expr.writeOption (out ++ "...") elem
  | .funcLit _ type _ => type.write (out ++ "(") ++ " literal)"
  | .composite _ (some type) .. => type.write (out ++ "(") ++ " literal)"
  | .composite _ none .. => out ++ "(" ++ badExpr ++ " literal)"
  | .paren _ _ inner _ => inner.write (out ++ "(") ++ ")"
  | .selector _ x member => x.write out ++ "." ++ member.text
  | .index _ x i => i.write (x.write out ++ "[") ++ "]"
  | .indexList _ x is => Expr.writeAll (between ", ") 0 (x.write out ++ "[") is ++ "]"
  | .slice _ x lo hi max full =>
    let out := Expr.writeOption (Expr.writeOption (x.write out ++ "[") lo ++ ":") hi
    (if full then Expr.writeOption (out ++ ":") max else out) ++ "]"
  | .typeAssert _ x (some type) => type.write (x.write out ++ ".(") ++ ")"
  | .typeAssert _ x none => x.write out ++ ".(type)"
  | .call _ f args dots =>
    let out := Expr.writeAll (between ", ") 0 (f.write out ++ "(") args
    (if dots.isSome then out ++ "..." else out) ++ ")"
  | .star _ _ x => x.write (out ++ "pointer to ")
  | .unary _ op _ x => x.write (out ++ op.text)
  | .binary _ l op _ r => r.write (l.write out ++ " " ++ op.words ++ " ")
  | .arrayType _ none elem => elem.write (out ++ "slice of ")
  | .arrayType _ (some length) elem => elem.write (length.write out ++ "-element array of ")
  | .structType _ fields =>
    Field.writeAll (between "; ") 0 (out ++ "struct\x7b") fields ++ "\x7d"
  | .funcType _ _ params results =>
    let out := out ++ "function"
    if params.isEmpty && results.isEmpty then out
    else Field.writeResults params.isEmpty (Field.writeParams (out ++ " ") params) results
  | .interfaceType _ members =>
    Field.writeMembers 0 (out ++ "interface\x7b") members ++ "\x7d"
  | .mapType _ key value => value.write (key.write (out ++ "map of ") ++ " to ")
  | .chanType _ dir elem => elem.write (out ++ dir.text)
  | .keyValue .. | .bad _ => out ++ badExpr

/-- Appends an expression that may be left out. -/
def Expr.writeOption (out : String) : Option Expr → String
  | none => out
  | some x => x.write out

/-- Appends expressions, number `i` and up, each after its separator. -/
def Expr.writeAll (sep : Nat → String) (i : Nat) (out : String) : List Expr → String
  | [] => out
  | x :: xs => Expr.writeAll sep (i + 1) (x.write (out ++ sep i)) xs

/-- Appends a field: its names, if it has any, and its type. -/
def Field.write (out : String) : Field → String
  | ⟨_, names, type, _⟩ =>
    type.write (if names.isEmpty then out else out ++ nameSequence names ++ " ")

/-- Appends fields, number `i` and up, each after its separator. -/
def Field.writeAll (sep : Nat → String) (i : Nat) (out : String) : List Field → String
  | [] => out
  | f :: fs => Field.writeAll sep (i + 1) (f.write (out ++ sep i)) fs

/-- Appends the parameters of a signature, if there are any. -/
def Field.writeParams (out : String) : List Field → String
  | [] => out
  | f :: fs => Field.writeAll (between " and ") 1 (f.write (out ++ "taking ")) fs

/-- Appends the results of a signature, if there are any; `alone` if no parameters came before. -/
def Field.writeResults (alone : Bool) (out : String) : List Field → String
  | [] => out
  | f :: fs =>
    let out := if alone then out ++ "returning " else out ++ " and returning "
    Field.writeAll (between " and ") 1 (f.write out) fs

/-- Appends a member of an interface: a function type is said as a method's signature. -/
def Field.writeMember (out : String) : Field → String
  | ⟨_, names, .funcType _ _ params results, _⟩ =>
    let out := out ++ nameSequence names
    if params.isEmpty && results.isEmpty then out
    else Field.writeResults params.isEmpty (Field.writeParams (out ++ " ") params) results
  | ⟨_, names, type, _⟩ =>
    type.write (if names.isEmpty then out else out ++ nameSequence names ++ " ")

/-- Appends members of an interface, number `i` and up. -/
def Field.writeMembers (i : Nat) (out : String) : List Field → String
  | [] => out
  | f :: fs => Field.writeMembers (i + 1) (f.writeMember (out ++ between "; " i)) fs

end

/-- Appends a signature: `taking … and returning …`, either half of which may be absent. -/
def Field.writeSignature (out : String) (params results : List Field) : String :=
  Field.writeResults params.isEmpty (Field.writeParams out params) results

/-- Appends expressions as an English list. -/
def Expr.writeList (out : String) (xs : List Expr) : String :=
  let total := xs.length
  Expr.writeAll (fun i => separator i total) 0 out xs

/-- An expression in English. -/
def Expr.english (x : Expr) : String :=
  x.write ""

/-! ## Declarations -/

/-- The noun for what a declaration declares. -/
def DeclWord.noun : DeclWord → String
  | .import_ => "import package"
  | .const_ => "constant"
  | .type_ => "type"
  | .var_ => "variable"

/-- What an import says about the name it gives. -/
def ImportName.words : ImportName → String
  | .dot _ => " as ."
  | .blank _ => " for side-effects"
  | .name n => " as " ++ n.text

/-- Appends values with what introduces them; nothing if there are none. -/
def writeValues (lead out : String) (values : List Expr) : String :=
  if values.isEmpty then out
  else Expr.writeList (out ++ lead ++ noun "value" values.length ++ " ") values

/-- Appends names, number `i` of `total` and up, each after its separator. -/
def Name.writeAll (i total : Nat) (out : String) : List Name → String
  | [] => out
  | n :: ns => Name.writeAll (i + 1) total (out ++ separator i total ++ n.text) ns

/-- Appends a line of a declaration. An alias reads like a definition. -/
def Spec.write (out : String) : Spec → String
  | .importing name path => out ++ path.text ++ name.elim "" ImportName.words
  | .value names t values =>
    let out := Name.writeAll 0 names.length out names
    let out := t.elim out fun t => t.write (out ++ " as ")
    writeValues " with initial " out values
  | .type name _ t => t.write (out ++ name.text ++ " as ")

/-- Appends a line of a declaration after the noun for its names; imports share one noun. -/
def Spec.writeUnder (word : DeclWord) (out : String) (s : Spec) : String :=
  match word with
  | .import_ => s.write out
  | _ => s.write (out ++ noun word.noun s.nameCount ++ " ")

/-- Appends lines of a declaration, number `i` of `total` and up. -/
def Spec.writeAll (word : DeclWord) (i total : Nat) (out : String) : List Spec → String
  | [] => out
  | s :: ss => Spec.writeAll word (i + 1) total (s.writeUnder word (out ++ separator i total)) ss

/-- What a declaration of `count` lines starts with. -/
def DeclWord.lead (word : DeclWord) (count : Nat) : String :=
  match word with
  | .import_ => Phrase.noun word.noun count ++ " "
  | _ => "declare "

/-- Appends a declaration. Receivers and bodies have no wording. -/
def Decl.write (out : String) : Decl → String
  | .group _ word _ _ specs _ =>
    Spec.writeAll word 0 specs.length (out ++ word.lead specs.length) specs
  | .func _ _ _ name (.funcType _ _ params results) _ =>
    let out := out ++ "function " ++ name.text
    if params.isEmpty && results.isEmpty then out
    else Field.writeSignature (out ++ " ") params results
  | .func _ _ _ name _ _ => out ++ "function " ++ name.text
  | .bad _ => out ++ "<TODO: BadDecl>"

/-- A declaration in English. -/
def Decl.english (d : Decl) : String :=
  d.write ""

/-! ## Statements -/

/-- Appends a statement. -/
def Stmt.write (out : String) : Stmt → String
  | .empty _ => out
  | .expr _ x => x.write out
  | .decl _ d => d.write out
  | .assign _ lhs .define _ rhs =>
    let out := out ++ "short declare " ++ noun "variable" lhs.length ++ " "
    writeValues " with initial " (Expr.writeList out lhs) rhs
  | .assign _ lhs .assign _ rhs =>
    writeValues " the " (Expr.writeList (out ++ "assign to ") lhs) rhs
  | .assign _ _ op _ _ => out ++ "<TODO: '" ++ op.text ++ "'>"
  | s => out ++ "<TODO: " ++ s.kindName ++ ">"

/-- A statement in English. -/
def Stmt.english (s : Stmt) : String :=
  s.write ""

end GoGloss
