import GoGloss.Proofs.Calls
import GoGloss.Proofs.Shapes

/-!
# Where the placeholder is written

An expression that `write` has no words for comes out as a placeholder: a `bad` node, a key
with its value, and the type that a composite literal leaves out. In a well-formed tree the
first is nowhere and the others stand among the elements of a composite literal, which are
not said.

To say so of `write` itself, the calls that it makes are checked one by one: `writeWorded`
gives up at a call for an expression without words, and in a well-formed tree it never does.
-/

namespace GoGloss

/-- Whether the placeholder is written for an expression or for its type. -/
def Expr.lacksWords : Expr → Bool
  | .bad _ | .keyValue .. | .composite _ none .. => true
  | _ => false

/-- Appends an expression as `writeWithin` does, unless it comes to one that lacks words. -/
def Expr.writeWorded (k : Nat) (out : String) (x : Expr) : Option String :=
  match k with
  | 0 => none
  | k + 1 => if x.lacksWords then none else x.say (fun out y => y.writeWorded k out) out

/-- A well-formed expression that has words. -/
def Expr.Worded (x : Expr) : Prop :=
  x.lacksWords = false ∧ (Node.expr x).WellFormed

namespace Node

theorem WellFormed.worded {n : Node} (h : n.WellFormed) (hn : n.isKeyValue = false) {role : Role}
    {x : Expr} (hx : (role, .expr x) ∈ n.children) (hrole : role ≠ .element) : x.Worded := by
  obtain ⟨hheld, hwell⟩ := (wellFormed_iff.mp h).2 _ hx
  refine ⟨?_, hwell⟩
  unfold Expr.lacksWords
  split <;> simp_all [MayHold]

/-- What may be said under a node in some role: only elements lack words. -/
def Sayable (role : Role) : Node → Prop
  | .expr x => role ≠ .element → x.Worded
  | .field f => f.type.Worded
  | n => n.WellFormed

theorem WellFormed.sayable {n : Node} (h : n.WellFormed) (hn : n.isKeyValue = false) :
    All Sayable n.children := by
  rintro ⟨role, m⟩ hm
  have hwell := ((wellFormed_iff.mp h).2 _ hm).2
  cases m with
  | expr x => exact h.worded hn hm
  | field f => exact hwell.worded rfl (List.mem_singleton_self (Role.type, _)) nofun
  | stmt | decl | spec => exact hwell

end Node

theorem Expr.Worded.sayable {x : Expr} (h : x.Worded) :
    Node.All Node.Sayable (Node.exprChildren x) := by
  refine h.2.sayable ?_
  cases x with
  | keyValue => cases h.1
  | _ => rfl

/-! ## Calls for what has words -/

section Calls

variable {call call' : String → Expr → Option String}
  (hcall : ∀ out x, x.Worded → call out x = call' out x)
include hcall

theorem Expr.sayOption_congr {x : Option Expr} (hx : ∀ y ∈ x, y.Worded) (out : String) :
    Expr.sayOption call out x = Expr.sayOption call' out x := by
  cases x with
  | none => rfl
  | some x => exact hcall out x (hx x rfl)

theorem Expr.sayAll_congr {xs : List Expr} (hxs : ∀ x ∈ xs, x.Worded) (sep : Nat → String)
    (i : Nat) (out : String) :
    Expr.sayAll call sep i out xs = Expr.sayAll call' sep i out xs := by
  induction xs generalizing i out with
  | nil => rfl
  | cons x xs ih => simp_all [Expr.sayAll]

theorem Field.sayAll_congr {fs : List Field} (hfs : ∀ f ∈ fs, f.type.Worded) (sep : Nat → String)
    (i : Nat) (out : String) :
    Field.sayAll call sep i out fs = Field.sayAll call' sep i out fs := by
  induction fs generalizing i out with
  | nil => rfl
  | cons f fs ih => simp_all [Field.sayAll, Field.say]

theorem Field.saySignature_congr {params results : List Field}
    (h : (∀ f ∈ params, f.type.Worded) ∧ ∀ f ∈ results, f.type.Worded) (out : String) :
    Field.saySignature call out params results = Field.saySignature call' out params results := by
  have hall := @Field.sayAll_congr _ _ hcall
  cases params <;> cases results <;>
    simp_all [Field.saySignature, Field.sayParams, Field.sayResults, Field.say]

theorem Field.sayMembers_congr {fs : List Field} (hfs : ∀ f ∈ fs, f.type.Worded) (i : Nat)
    (out : String) : Field.sayMembers call i out fs = Field.sayMembers call' i out fs := by
  induction fs generalizing i out with
  | nil => rfl
  | cons f fs ih =>
      obtain ⟨hf, hfs⟩ := List.forall_mem_cons.mp hfs
      have hmember : ∀ out, f.sayMember call out = f.sayMember call' out := by
        intro out
        unfold Field.sayMember
        split
        · have hfields := hf.sayable
          simp only [Node.exprChildren, Node.all_append, Node.all_fields] at hfields
          exact Field.saySignature_congr hcall hfields _
        · exact hcall _ _ hf
      simp [Field.sayMembers, hmember, ih hfs]

/-- What one call does depends on the calls for what has words. -/
theorem Expr.say_congr {x : Expr} (hx : x.Worded) (out : String) :
    x.say call out = x.say call' out := by
  have hparts := hx.sayable
  have hoption := @Expr.sayOption_congr _ _ hcall
  have hall := @Expr.sayAll_congr _ _ hcall
  cases x with
  | structType => simp [Expr.say, Field.sayAll_congr hcall (Node.all_fields.mp hparts)]
  | funcType =>
      simp only [Node.exprChildren, Node.all_append, Node.all_fields] at hparts
      exact Field.saySignature_congr hcall hparts _
  | interfaceType => simp [Expr.say, Field.sayMembers_congr hcall (Node.all_fields.mp hparts)]
  | composite _ t | typeAssert _ _ t | arrayType _ t =>
      cases t <;> simp_all [Expr.say, Node.exprChildren, Node.Sayable]
  | slice _ _ _ _ _ full =>
      cases full <;> simp_all [Expr.say, Node.exprChildren, Node.Sayable]
  | _ => simp_all [Expr.say, Node.exprChildren, Node.Sayable]

theorem Spec.sayAll_congr {ss : List Spec} (hss : ∀ s ∈ ss, (Node.spec s).WellFormed)
    (word : DeclWord) (i total : Nat) (out : String) :
    Spec.sayAll call word i total out ss = Spec.sayAll call' word i total out ss := by
  have hall := @Expr.sayAll_congr _ _ hcall
  have hspec : ∀ (s : Spec) (out : String), (Node.spec s).WellFormed →
      s.say call out = s.say call' out := by
    intro s out hs
    have hparts := hs.sayable rfl
    cases s with
    | value _ t _ =>
        cases t <;> simp_all [Spec.say, sayValues, Node.children, Node.specChildren, Node.Sayable]
    | _ => simp_all [Spec.say, Node.children, Node.specChildren, Node.Sayable]
  induction ss generalizing i out with
  | nil => rfl
  | cons s ss ih => cases word <;> simp_all [Spec.sayAll, Spec.sayUnder]

theorem Decl.say_congr {d : Decl} (hd : (Node.decl d).WellFormed) (out : String) :
    d.say call out = d.say call' out := by
  have hparts := hd.sayable rfl
  cases d with
  | group => exact Spec.sayAll_congr hcall (Node.all_specs.mp hparts) _ _ _ _
  | func _ _ _ _ t =>
      have ht := hparts (Role.type, Node.expr t) (by simp [Node.children, Node.declChildren])
      have hfields := Expr.Worded.sayable (ht (by simp))
      cases t with
      | funcType =>
          simp only [Node.exprChildren, Node.all_append, Node.all_fields] at hfields
          exact Field.saySignature_congr hcall hfields _
      | _ => rfl
  | bad => rfl

theorem Stmt.say_congr {s : Stmt} (hs : (Node.stmt s).WellFormed) (out : String) :
    s.say call out = s.say call' out := by
  have hparts := hs.sayable rfl
  have hall := @Expr.sayAll_congr _ _ hcall
  cases s with
  | decl _ d => exact Decl.say_congr hcall (hparts _ (.head _)) out
  | assign _ _ op =>
      cases op <;> simp_all [Stmt.say, sayValues, Node.children, Node.stmtChildren, Node.Sayable]
  | _ => simp_all [Stmt.say, Node.children, Node.stmtChildren, Node.Sayable]

end Calls

theorem Expr.writeWorded_eq (k : Nat) :
    ∀ out x, x.Worded → Expr.writeWorded k out x = Expr.writeWithin k out x := by
  induction k with
  | zero =>
      intro out x _
      rfl
  | succ k ih =>
      intro out x hx
      rw [Expr.writeWorded, hx.1, if_neg (by simp), Expr.say_congr ih hx, Expr.writeWithin]

/-! ## What stands by itself is said without the placeholder -/

theorem Expr.exists_writeWorded {x : Expr} (h : (Node.expr x).Stands) :
    ∃ k, Expr.writeWorded k "" x = some x.english := by
  have hx : x.Worded := by
    refine ⟨?_, h.2⟩
    have hplain := h.1 (.expr x) .type
    unfold Expr.lacksWords
    split <;> simp_all [Node.MayHold, Node.isKeyValue]
  refine ⟨x.calls, ?_⟩
  rw [Expr.writeWorded_eq _ _ _ hx]
  exact Expr.writeWithin_eq_some_iff.mpr (Nat.le_refl _)

theorem Decl.exists_writeWorded {d : Decl} (h : (Node.decl d).WellFormed) :
    ∃ k, d.say (Expr.writeWorded k) "" = some d.english := by
  refine ⟨d.calls, ?_⟩
  rw [Decl.say_congr (Expr.writeWorded_eq _) h]
  exact Decl.writeWithin_eq_some_iff.mpr (Nat.le_refl _)

theorem Stmt.exists_writeWorded {s : Stmt} (h : (Node.stmt s).WellFormed) :
    ∃ k, s.say (Expr.writeWorded k) "" = some s.english := by
  refine ⟨s.calls, ?_⟩
  rw [Stmt.say_congr (Expr.writeWorded_eq _) h]
  exact Stmt.writeWithin_eq_some_iff.mpr (Nat.le_refl _)

end GoGloss
