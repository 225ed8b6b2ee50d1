import GoGloss.Sentence

/-!
# How deep saying an expression goes

`Expr.write` calls itself for the expressions it says inside another one.
`Expr.calls` is how many of its calls are active at once, at the deepest point:
the length of the longest chain of expressions each said inside the one before.
What is not said (the elements of a composite literal, the body of a function,
a key and its value) does not count, and the method of an interface is said
without a call for its signature.

That this is what `write` does is the statement of `Expr.writeWithin_eq`, and of
its likes for declarations and statements: given a number of calls that may be
active at once, they say a node if and only if the number is at least `calls`.
-/

namespace GoGloss

open Phrase

/-! ## Counting the calls -/

mutual

/-- How many calls are active at once while an expression is said, its own among them. -/
def Expr.calls : Expr → Nat
  | .ident _ => 1
  | .literal _ => 1
  | .ellipsis _ _ elem => Expr.callsOption elem + 1
  | .funcLit _ type _ => type.calls + 1
  | .composite _ type _ _ _ => Expr.callsOption type + 1
  | .paren _ _ inner _ => inner.calls + 1
  | .selector _ x _ => x.calls + 1
  | .index _ x i => max x.calls i.calls + 1
  | .indexList _ x is => max x.calls (Expr.callsAll is) + 1
  | .slice _ x lo hi bound full =>
    max x.calls (max (Expr.callsOption lo)
      (max (Expr.callsOption hi) (if full then Expr.callsOption bound else 0))) + 1
  | .typeAssert _ x type => max x.calls (Expr.callsOption type) + 1
  | .call _ f args _ => max f.calls (Expr.callsAll args) + 1
  | .star _ _ x => x.calls + 1
  | .unary _ _ _ x => x.calls + 1
  | .binary _ l _ _ r => max l.calls r.calls + 1
  | .keyValue .. => 1
  | .arrayType _ length elem => max (Expr.callsOption length) elem.calls + 1
  | .structType _ fields => Field.callsAll fields + 1
  | .funcType _ _ params results => max (Field.callsAll params) (Field.callsAll results) + 1
  | .interfaceType _ members => Field.callsMembers members + 1
  | .mapType _ key value => max key.calls value.calls + 1
  | .chanType _ _ elem => elem.calls + 1
  | .bad _ => 1

/-- The calls for an expression that may be left out. -/
def Expr.callsOption : Option Expr → Nat
  | none => 0
  | some x => x.calls

/-- The most calls that one of several expressions takes. -/
def Expr.callsAll : List Expr → Nat
  | [] => 0
  | x :: xs => max x.calls (Expr.callsAll xs)

/-- The calls for a field: those for its type. -/
def Field.calls : Field → Nat
  | ⟨_, _, type, _⟩ => type.calls

/-- The most calls that one of several fields takes. -/
def Field.callsAll : List Field → Nat
  | [] => 0
  | f :: fs => max f.calls (Field.callsAll fs)

/-- The calls for a member of an interface; a method's signature is said without one. -/
def Field.callsMember : Field → Nat
  | ⟨_, _, .funcType _ _ params results, _⟩ => max (Field.callsAll params) (Field.callsAll results)
  | ⟨_, _, type, _⟩ => type.calls

/-- The most calls that one of several members takes. -/
def Field.callsMembers : List Field → Nat
  | [] => 0
  | f :: fs => max f.callsMember (Field.callsMembers fs)

end

/-- The most calls active at once while a line of a declaration is said. -/
def Spec.calls : Spec → Nat
  | .importing .. => 0
  | .value _ t values => max (Expr.callsOption t) (Expr.callsAll values)
  | .type _ _ t => t.calls

/-- The most calls that one of several lines takes. -/
def Spec.callsAll : List Spec → Nat
  | [] => 0
  | s :: ss => max s.calls (Spec.callsAll ss)

/-- The most calls active at once while a declaration is said. -/
def Decl.calls : Decl → Nat
  | .group _ _ _ _ specs _ => Spec.callsAll specs
  | .func _ _ _ _ (.funcType _ _ params results) _ =>
    max (Field.callsAll params) (Field.callsAll results)
  | .func .. => 0
  | .bad _ => 0

/-- The most calls active at once while a statement is said. -/
def Stmt.calls : Stmt → Nat
  | .expr _ x => x.calls
  | .decl _ d => d.calls
  | .assign _ lhs .define _ rhs => max (Expr.callsAll lhs) (Expr.callsAll rhs)
  | .assign _ lhs .assign _ rhs => max (Expr.callsAll lhs) (Expr.callsAll rhs)
  | _ => 0

/-! ## Saying with a limited number of calls -/

section Body

variable (call : String → Expr → Option String)

/-- Says an expression that may be left out. -/
def Expr.sayOption (out : String) : Option Expr → Option String
  | none => some out
  | some x => call out x

/-- Says expressions, number `i` and up, each after its separator. -/
def Expr.sayAll (sep : Nat → String) (i : Nat) (out : String) : List Expr → Option String
  | [] => some out
  | x :: xs => do Expr.sayAll sep (i + 1) (← call (out ++ sep i) x) xs

/-- Says a field. -/
def Field.say (out : String) (f : Field) : Option String :=
  call (if f.names.isEmpty then out else out ++ nameSequence f.names ++ " ") f.type

/-- Says fields, number `i` and up, each after its separator. -/
def Field.sayAll (sep : Nat → String) (i : Nat) (out : String) : List Field → Option String
  | [] => some out
  | f :: fs => do Field.sayAll sep (i + 1) (← f.say call (out ++ sep i)) fs

/-- Says the parameters of a signature. -/
def Field.sayParams (out : String) : List Field → Option String
  | [] => some out
  | f :: fs => do Field.sayAll call (between " and ") 1 (← f.say call (out ++ "taking ")) fs

/-- Says the results of a signature. -/
def Field.sayResults (alone : Bool) (out : String) : List Field → Option String
  | [] => some out
  | f :: fs => do
    let out := if alone then out ++ "returning " else out ++ " and returning "
    Field.sayAll call (between " and ") 1 (← f.say call out) fs

/-- Says parameters and results, if there are any. -/
def Field.saySignature (out : String) (params results : List Field) : Option String := do
  if params.isEmpty && results.isEmpty then some out
  else Field.sayResults call params.isEmpty (← Field.sayParams call (out ++ " ") params) results

/-- Says a member of an interface. -/
def Field.sayMember (out : String) : Field → Option String
  | ⟨_, names, .funcType _ _ params results, _⟩ =>
    Field.saySignature call (out ++ nameSequence names) params results
  | f => f.say call out

/-- Says members of an interface, number `i` and up. -/
def Field.sayMembers (i : Nat) (out : String) : List Field → Option String
  | [] => some out
  | f :: fs => do Field.sayMembers (i + 1) (← f.sayMember call (out ++ between "; " i)) fs

/-- What one call of `write` does, where `call` stands for the calls it makes in turn. -/
def Expr.say (out : String) : Expr → Option String
  | .ident name => some (out ++ name.text)
  | .literal lit => some (out ++ lit.text)
  | .ellipsis _ _ elem => Expr.sayOption call (out ++ "...") elem
  | .funcLit _ type _ => do return (← call (out ++ "(") type) ++ " literal)"
  | .composite _ (some type) .. => do return (← call (out ++ "(") type) ++ " literal)"
  | .composite _ none .. => some (out ++ "(" ++ badExpr ++ " literal)")
  | .paren _ _ inner _ => do return (← call (out ++ "(") inner) ++ ")"
  | .selector _ x member => do return (← call out x) ++ "." ++ member.text
  | .index _ x i => do return (← call ((← call out x) ++ "[") i) ++ "]"
  | .indexList _ x is => do
    return (← Expr.sayAll call (between ", ") 0 ((← call out x) ++ "[") is) ++ "]"
  | .slice _ x lo hi bound full => do
    let out ← Expr.sayOption call ((← call out x) ++ "[") lo
    let out ← Expr.sayOption call (out ++ ":") hi
    return (← if full then Expr.sayOption call (out ++ ":") bound else some out) ++ "]"
  | .typeAssert _ x (some type) => do return (← call ((← call out x) ++ ".(") type) ++ ")"
  | .typeAssert _ x none => do return (← call out x) ++ ".(type)"
  | .call _ f args dots => do
    let out ← Expr.sayAll call (between ", ") 0 ((← call out f) ++ "(") args
    return (if dots.isSome then out ++ "..." else out) ++ ")"
  | .star _ _ x => call (out ++ "pointer to ") x
  | .unary _ op _ x => call (out ++ op.text) x
  | .binary _ l op _ r => do call ((← call out l) ++ " " ++ op.words ++ " ") r
  | .arrayType _ none elem => call (out ++ "slice of ") elem
  | .arrayType _ (some length) elem => do
    call ((← call out length) ++ "-element array of ") elem
  | .structType _ fields => do
    return (← Field.sayAll call (between "; ") 0 (out ++ "struct\x7b") fields) ++ "\x7d"
  | .funcType _ _ params results => Field.saySignature call (out ++ "function") params results
  | .interfaceType _ members => do
    return (← Field.sayMembers call 0 (out ++ "interface\x7b") members) ++ "\x7d"
  | .mapType _ key value => do call ((← call (out ++ "map of ") key) ++ " to ") value
  | .chanType _ dir elem => call (out ++ dir.text) elem
  | .keyValue .. => some (out ++ badExpr)
  | .bad _ => some (out ++ badExpr)

/-- Says values with what introduces them; nothing if there are none. -/
def sayValues (lead out : String) (values : List Expr) : Option String :=
  if values.isEmpty then some out
  else Expr.sayAll call (fun i => separator i values.length) 0
    (out ++ lead ++ noun "value" values.length ++ " ") values

/-- Says a line of a declaration. -/
def Spec.say (out : String) : Spec → Option String
  | .importing name path => some (out ++ path.text ++ name.elim "" ImportName.words)
  | .value names none values =>
    sayValues call " with initial " (Name.writeAll 0 names.length out names) values
  | .value names (some t) values => do
    let out ← call (Name.writeAll 0 names.length out names ++ " as ") t
    sayValues call " with initial " out values
  | .type name _ t => call (out ++ name.text ++ " as ") t

/-- Says a line of a declaration after the noun for its names. -/
def Spec.sayUnder (word : DeclWord) (out : String) (s : Spec) : Option String :=
  match word with
  | .import_ => s.say call out
  | _ => s.say call (out ++ noun word.noun s.nameCount ++ " ")

/-- Says lines of a declaration, number `i` of `total` and up. -/
def Spec.sayAll (word : DeclWord) (i total : Nat) (out : String) : List Spec → Option String
  | [] => some out
  | s :: ss => do
    Spec.sayAll word (i + 1) total (← s.sayUnder call word (out ++ separator i total)) ss

/-- Says a declaration. -/
def Decl.say (out : String) : Decl → Option String
  | .group _ word _ _ specs _ =>
    Spec.sayAll call word 0 specs.length (out ++ word.lead specs.length) specs
  | .func _ _ _ name (.funcType _ _ params results) _ =>
    Field.saySignature call (out ++ "function " ++ name.text) params results
  | .func _ _ _ name _ _ => some (out ++ "function " ++ name.text)
  | .bad _ => some (out ++ "<TODO: BadDecl>")

/-- Says a statement. -/
def Stmt.say (out : String) : Stmt → Option String
  | .expr _ x => call out x
  | .decl _ d => d.say call out
  | .assign _ lhs .define _ rhs => do
    let out := out ++ "short declare " ++ noun "variable" lhs.length ++ " "
    sayValues call " with initial "
      (← Expr.sayAll call (fun i => separator i lhs.length) 0 out lhs) rhs
  | .assign _ lhs .assign _ rhs => do
    sayValues call " the "
      (← Expr.sayAll call (fun i => separator i lhs.length) 0 (out ++ "assign to ") lhs) rhs
  | s => some (s.write out)

end Body

/-- Appends an expression if no more than `k` calls have to be active at once for it. -/
def Expr.writeWithin (k : Nat) (out : String) (x : Expr) : Option String :=
  match k with
  | 0 => none
  | k + 1 => Expr.say (fun out y => y.writeWithin k out) out x

/-- Appends a declaration if no more than `k` calls have to be active at once for it. -/
def Decl.writeWithin (k : Nat) (out : String) (d : Decl) : Option String :=
  d.say (Expr.writeWithin k) out

/-- Appends a statement if no more than `k` calls have to be active at once for it. -/
def Stmt.writeWithin (k : Nat) (out : String) (s : Stmt) : Option String :=
  s.say (Expr.writeWithin k) out

/-! ### Exactly `calls` of them -/

theorem Expr.calls_pos (x : Expr) : 0 < x.calls := by
  cases x <;> simp [Expr.calls]

/-- A text that takes `n` calls, if there are that many. -/
def within (k n : Nat) (text : String) : Option String :=
  if n ≤ k then some text else none

section Within

variable (k : Nat) (out : String)

@[simp]
theorem within_zero (text : String) : within k 0 text = some text := by
  simp [within]

@[simp]
theorem within_succ (n : Nat) (text : String) : within (k + 1) (n + 1) text = within k n text := by
  simp [within]

@[simp]
theorem bind_within_some {n : Nat} {text : String} {f : String → String} :
    (within k n text).bind (fun t => some (f t)) = within k n (f text) := by
  unfold within
  split <;> rfl

/-- Two texts one after the other take as many calls as the deeper one. -/
@[simp]
theorem bind_within_within {m : Nat} {n : String → Nat} {text : String} {f : String → String} :
    (within k m text).bind (fun t => within k (n t) (f t)) =
      within k (max m (n text)) (f text) := by
  unfold within
  rw [ite_cond_congr (propext Nat.max_le)]
  by_cases hm : m ≤ k
  · simp [hm]
  · simp [hm]

/-- Says what takes no more than `k` calls. -/
def Expr.writeUpTo (k : Nat) (out : String) (x : Expr) : Option String :=
  within k x.calls (x.write out)

theorem Expr.sayOption_writeUpTo (x : Option Expr) :
    Expr.sayOption (Expr.writeUpTo k) out x =
      within k (Expr.callsOption x) (Expr.writeOption out x) := by
  cases x <;> simp [Expr.sayOption, Expr.callsOption, Expr.writeOption, Expr.writeUpTo]

theorem Expr.sayAll_writeUpTo (sep : Nat → String) (i : Nat) (xs : List Expr) :
    Expr.sayAll (Expr.writeUpTo k) sep i out xs =
      within k (Expr.callsAll xs) (Expr.writeAll sep i out xs) := by
  induction xs generalizing i out with
  | nil => simp [Expr.sayAll, Expr.callsAll, Expr.writeAll]
  | cons x xs ih => simp [Expr.sayAll, Expr.callsAll, Expr.writeAll, Expr.writeUpTo, ih]

theorem Field.say_writeUpTo (f : Field) :
    f.say (Expr.writeUpTo k) out = within k f.calls (f.write out) := by
  cases f
  simp [Field.say, Expr.writeUpTo, Field.calls, Field.write]

theorem Field.sayAll_writeUpTo (sep : Nat → String) (i : Nat) (fs : List Field) :
    Field.sayAll (Expr.writeUpTo k) sep i out fs =
      within k (Field.callsAll fs) (Field.writeAll sep i out fs) := by
  induction fs generalizing i out with
  | nil => simp [Field.sayAll, Field.callsAll, Field.writeAll]
  | cons f fs ih =>
      simp [Field.sayAll, Field.callsAll, Field.writeAll, Field.say_writeUpTo, ih]

theorem Field.sayParams_writeUpTo (fs : List Field) :
    Field.sayParams (Expr.writeUpTo k) out fs =
      within k (Field.callsAll fs) (Field.writeParams out fs) := by
  cases fs <;> simp [Field.sayParams, Field.callsAll, Field.writeParams, Field.say_writeUpTo,
    Field.sayAll_writeUpTo]

theorem Field.sayResults_writeUpTo (alone : Bool) (fs : List Field) :
    Field.sayResults (Expr.writeUpTo k) alone out fs =
      within k (Field.callsAll fs) (Field.writeResults alone out fs) := by
  cases fs <;> simp [Field.sayResults, Field.callsAll, Field.writeResults, Field.say_writeUpTo,
    Field.sayAll_writeUpTo]

theorem Field.saySignature_writeUpTo (params results : List Field) :
    Field.saySignature (Expr.writeUpTo k) out params results =
      within k (max (Field.callsAll params) (Field.callsAll results))
        (if params.isEmpty && results.isEmpty then out
          else Field.writeResults params.isEmpty (Field.writeParams (out ++ " ") params) results)
      := by
  unfold Field.saySignature
  split
  · simp_all [Field.callsAll]
  · simp [Field.sayParams_writeUpTo, Field.sayResults_writeUpTo]

theorem Field.sayMember_writeUpTo (f : Field) :
    f.sayMember (Expr.writeUpTo k) out = within k f.callsMember (f.writeMember out) := by
  obtain ⟨span, names, type, tag⟩ := f
  cases type with
  | funcType span func params results =>
      simp [Field.sayMember, Field.callsMember, Field.writeMember, Field.saySignature_writeUpTo]
  | _ =>
      simp [Field.sayMember, Field.callsMember, Field.writeMember, Field.say_writeUpTo, Field.calls,
        Field.write]

theorem Field.sayMembers_writeUpTo (i : Nat) (fs : List Field) :
    Field.sayMembers (Expr.writeUpTo k) i out fs =
      within k (Field.callsMembers fs) (Field.writeMembers i out fs) := by
  induction fs generalizing i out with
  | nil => simp [Field.sayMembers, Field.callsMembers, Field.writeMembers]
  | cons f fs ih =>
      simp [Field.sayMembers, Field.callsMembers, Field.writeMembers, Field.sayMember_writeUpTo, ih]

/-- One call more than for what is said inside. -/
theorem Expr.say_writeUpTo (x : Expr) :
    x.say (Expr.writeUpTo k) out = Expr.writeUpTo (k + 1) out x := by
  cases x with
  | structType | funcType | interfaceType =>
      simp [Expr.say, Expr.writeUpTo, Expr.calls, Expr.write, Field.sayAll_writeUpTo,
        Field.saySignature_writeUpTo, Field.sayMembers_writeUpTo]
  | composite _ t | typeAssert _ _ t | arrayType _ t =>
      cases t <;> simp [Expr.say, Expr.writeUpTo, Expr.calls, Expr.callsOption, Expr.write]
  | slice _ _ lo hi bound full =>
      cases full <;> simp [Expr.say, Expr.writeUpTo, Expr.calls, Expr.write,
        Expr.sayOption_writeUpTo]
  | _ =>
      simp [Expr.say, Expr.writeUpTo, Expr.calls, Expr.write, Expr.sayOption_writeUpTo,
        Expr.sayAll_writeUpTo]

theorem sayValues_writeUpTo (lead : String) (values : List Expr) :
    sayValues (Expr.writeUpTo k) lead out values =
      within k (Expr.callsAll values) (writeValues lead out values) := by
  cases values with
  | nil => simp [sayValues, Expr.callsAll, writeValues]
  | cons x xs => simp [sayValues, writeValues, Expr.writeList, Expr.sayAll_writeUpTo]

theorem Spec.say_writeUpTo (s : Spec) :
    s.say (Expr.writeUpTo k) out = within k s.calls (s.write out) := by
  cases s with
  | importing name path => simp [Spec.say, Spec.calls, Spec.write]
  | value names t values =>
      cases t <;> simp [Spec.say, Spec.calls, Spec.write, Expr.callsOption, sayValues_writeUpTo,
        Expr.writeUpTo]
  | type name assign t => simp [Spec.say, Spec.calls, Spec.write, Expr.writeUpTo]

theorem Spec.sayAll_writeUpTo (word : DeclWord) (i total : Nat) (ss : List Spec) :
    Spec.sayAll (Expr.writeUpTo k) word i total out ss =
      within k (Spec.callsAll ss) (Spec.writeAll word i total out ss) := by
  have hunder : ∀ (s : Spec) (out : String), s.sayUnder (Expr.writeUpTo k) word out =
      within k s.calls (s.writeUnder word out) := by
    intro s out
    cases word <;> simp [Spec.sayUnder, Spec.writeUnder, Spec.say_writeUpTo]
  induction ss generalizing i out with
  | nil => simp [Spec.sayAll, Spec.callsAll, Spec.writeAll]
  | cons s ss ih => simp [Spec.sayAll, Spec.callsAll, Spec.writeAll, hunder, ih]

theorem Decl.say_writeUpTo (d : Decl) :
    d.say (Expr.writeUpTo k) out = within k d.calls (d.write out) := by
  cases d with
  | group => simp [Decl.say, Decl.calls, Decl.write, Spec.sayAll_writeUpTo]
  | func _ _ _ _ type =>
      cases type <;> simp [Decl.say, Decl.calls, Decl.write, Field.saySignature_writeUpTo,
        Field.writeSignature]
  | bad => simp [Decl.say, Decl.calls, Decl.write]

theorem Stmt.say_writeUpTo (s : Stmt) :
    s.say (Expr.writeUpTo k) out = within k s.calls (s.write out) := by
  cases s with
  | assign _ lhs op _ rhs =>
      cases op <;> simp [Stmt.say, Stmt.calls, Stmt.write, Expr.writeList, sayValues_writeUpTo,
        Expr.sayAll_writeUpTo]
  | expr | decl => simp [Stmt.say, Stmt.calls, Stmt.write, Expr.writeUpTo, Decl.say_writeUpTo]
  | _ => simp [Stmt.say, Stmt.calls]

end Within

/-- **An expression is said within `k` calls exactly if it takes no more.** -/
theorem Expr.writeWithin_eq (k : Nat) : Expr.writeWithin k = Expr.writeUpTo k := by
  induction k with
  | zero =>
      funext out x
      have := x.calls_pos
      rw [Expr.writeUpTo, within, if_neg (by omega), Expr.writeWithin]
  | succ k ih =>
      funext out x
      rw [Expr.writeWithin, ih, Expr.say_writeUpTo]

theorem Expr.writeWithin_eq_some_iff {k : Nat} {out : String} {x : Expr} :
    x.writeWithin k out = some (x.write out) ↔ x.calls ≤ k := by
  simp [Expr.writeWithin_eq, Expr.writeUpTo, within]

theorem Decl.writeWithin_eq_some_iff {k : Nat} {out : String} {d : Decl} :
    d.writeWithin k out = some (d.write out) ↔ d.calls ≤ k := by
  simp [Decl.writeWithin, Expr.writeWithin_eq, Decl.say_writeUpTo, within]

theorem Stmt.writeWithin_eq_some_iff {k : Nat} {out : String} {s : Stmt} :
    s.writeWithin k out = some (s.write out) ↔ s.calls ≤ k := by
  simp [Stmt.writeWithin, Expr.writeWithin_eq, Stmt.say_writeUpTo, within]

end GoGloss
