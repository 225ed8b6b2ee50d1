import GoGloss.Proofs.Bare
import GoGloss.Proofs.Made

/-!
# How interfaces are said

The rule for an interface is `interface{`, its members with semicolons between them, and
`}`. A method is said by its name, and its signature after it unless that is empty. An
embedded type is said as it is said anywhere else.

What `write` does differs from the rule in one point. It tells methods from embedded types
by the type of the member, not by whether it has a name. So an embedded function type is
taken for a method, and its signature is said without the word `function`. All other members
follow the rule.
-/

namespace GoGloss

open Phrase

/-! ## The rule, and what is said -/

/-- Whether an expression is a signature, with `func` in front or not. -/
def Expr.isSignature : Expr → Bool
  | .funcType .. => true
  | _ => false

namespace Field

/-- A signature with a blank in front, nothing if it has neither parameters nor results. -/
def clause (params results : List Field) : String :=
  if params.isEmpty && results.isEmpty then "" else " " ++ writeSignature "" params results

/-- A member of an interface by the rule. -/
def memberText : Field → String
  | ⟨_, [], type, _⟩ => type.english
  | ⟨_, names, .funcType _ _ params results, _⟩ => nameSequence names ++ clause params results
  | ⟨_, names, type, _⟩ => nameSequence names ++ " " ++ type.english

/-- A member as it is said: of an embedded signature the word `function` is missing. -/
def saidText : Field → String
  | ⟨_, [], .funcType _ _ params results, _⟩ => clause params results
  | f => f.memberText

/-- Whether a member is an embedded signature. -/
def embedsSignature (f : Field) : Bool :=
  f.names.isEmpty && f.type.isSignature

end Field

/-- An interface whose members are said as given. -/
def interfaceText (members : List String) : String :=
  "interface\x7b" ++ "; ".intercalate members ++ "\x7d"

/-- A signature is said as a clause after the word or name it belongs to. -/
theorem Field.write_clause (out : String) (params results : List Field) :
    (if params.isEmpty && results.isEmpty then out
      else writeResults params.isEmpty (writeParams (out ++ " ") params) results) =
      out ++ clause params results := by
  unfold clause writeSignature
  split
  · simp
  · have hparams := (bare_and_append writeParams_bare_append).2 (out ++ " ") "" params
    rw [String.append_empty] at hparams
    rw [hparams, (bare_and_append (writeResults_bare_append _)).2, String.append_assoc]

theorem Expr.english_funcType (span : Span) (func : Option Span) (params results : List Field) :
    (Expr.funcType span func params results).english =
      "function" ++ Field.clause params results := by
  rw [Expr.english, Expr.write, String.empty_append, Field.write_clause]

theorem Field.writeMember_eq (f : Field) : f.writeMember "" = f.saidText := by
  obtain ⟨span, names, type, tag⟩ := f
  cases type with
  | funcType _ _ params results =>
      rw [writeMember, String.empty_append, write_clause]
      cases names with
      | nil => simp [saidText, nameSequence]
      | cons name names => simp [saidText, memberText]
  | _ =>
      cases names with
      | nil => simp [writeMember, saidText, memberText, Expr.english]
      | cons name names => simp [writeMember, saidText, memberText, Expr.write_eq]

theorem Field.writeMembers_eq (out : String) (i : Nat) (fs : List Field) :
    Field.writeMembers (i + 1) out fs = "; ".intercalate (out :: fs.map saidText) := by
  induction fs generalizing out i with
  | nil => simp [writeMembers]
  | cons f fs ih =>
      have hmember : f.writeMember (out ++ "; ") = out ++ "; " ++ f.saidText := by
        rw [← f.writeMember_eq]
        simpa using (bare_and_append writeMember_bare_append).2 (out ++ "; ") "" f
      have hbetween : between "; " (i + 1) = "; " := by simp [between]
      rw [writeMembers, hbetween, ih, hmember]
      simp [String.append_assoc]

/-- Each member is said by itself, and semicolons stand between the members. -/
theorem Expr.english_interfaceType (span : Span) (members : List Field) :
    (Expr.interfaceType span members).english = interfaceText (members.map Field.saidText) := by
  rw [Expr.english, Expr.write, String.empty_append, interfaceText]
  cases members with
  | nil => simp [Field.writeMembers]
  | cons f fs =>
      have hmember : f.writeMember "interface\x7b" = "interface\x7b" ++ f.saidText := by
        rw [← f.writeMember_eq]
        simpa using (bare_and_append Field.writeMember_bare_append).2 "interface\x7b" "" f
      rw [Field.writeMembers, show between "; " 0 = "" from rfl, String.append_empty, hmember,
        Field.writeMembers_eq, List.map_cons]
      simp

/-! ## Where the two differ -/

/-- The rule says one word more of an embedded signature, and the same of anything else. -/
theorem Field.memberText_eq (f : Field) :
    f.memberText = (if f.embedsSignature then "function" else "") ++ f.saidText := by
  obtain ⟨span, names, type, tag⟩ := f
  cases names with
  | cons name names => simp [embedsSignature, saidText]
  | nil =>
      cases type with
      | funcType => simp [embedsSignature, Expr.isSignature, memberText, saidText,
          Expr.english_funcType]
      | _ => simp [embedsSignature, Expr.isSignature, saidText]

theorem Field.length_memberText (f : Field) :
    f.memberText.length = f.saidText.length + if f.embedsSignature then 8 else 0 := by
  rw [f.memberText_eq, String.length_append, Nat.add_comm]
  split <;> rfl

/-- So the texts of a whole interface differ in length by eight for each embedded signature. -/
theorem length_interfaceText (members : List Field) :
    (interfaceText (members.map Field.memberText)).length =
      (interfaceText (members.map Field.saidText)).length +
        8 * members.countP Field.embedsSignature := by
  suffices hmembers : ("; ".intercalate (members.map Field.memberText)).length =
      ("; ".intercalate (members.map Field.saidText)).length +
        8 * members.countP Field.embedsSignature by
    simp only [interfaceText, String.length_append, hmembers]
    omega
  induction members with
  | nil => simp
  | cons f fs ih =>
      have hf := f.length_memberText
      cases fs with
      | nil =>
          simp only [List.map_cons, List.map_nil, String.intercalate_singleton, hf,
            List.countP_singleton]
          split <;> rfl
      | cons g gs =>
          rw [List.map_cons, List.map_cons] at ih
          simp only [List.map_cons, String.intercalate_cons_cons, String.length_append, hf, ih,
            List.countP_cons (a := f)]
          split <;> omega

/-- An interface is said by the rule if and only if it embeds no signature. -/
theorem english_interfaceType_eq_iff (span : Span) (members : List Field) :
    (Expr.interfaceType span members).english = interfaceText (members.map Field.memberText) ↔
      ∀ f ∈ members, f.embedsSignature = false := by
  rw [Expr.english_interfaceType]
  constructor
  · intro heq f hf
    have hlength := length_interfaceText members
    rw [← heq] at hlength
    have hnone : members.countP Field.embedsSignature = 0 := by omega
    simpa using List.countP_eq_zero.mp hnone f hf
  · intro hnone
    have htexts : members.map Field.saidText = members.map Field.memberText :=
      List.map_congr_left fun f hf => by simp [f.memberText_eq, hnone f hf]
    rw [htexts]

/-! ## The members of an interface that was read -/

namespace Grammar

instance {src : String} : Admits src Expr.MembersFit where
  sourced {x} h := by
    cases x with
    | interfaceType =>
        obtain ⟨c, c', _, _, horigin⟩ := h rfl
        exact horigin.expr_fits.2
    | _ => trivial

end Grammar

open Grammar

/--
**How an interface is said.** In the tree of an accepted source every member of an interface
is a method or has no name. The interface is said as `interface{`, its members with
semicolons between them, and `}`. That is the text that the rule asks for if and only if no
member without a name is a signature.
-/
theorem interface_said {src : String} {n : Node} (hn : ReadFrom src n) {span : Span}
    {members : List Field} (hmem : .expr (.interfaceType span members) ∈ n.nodes) :
    (∀ f ∈ members, f.names = [] ∨ f.IsMethod) ∧
    (Expr.interfaceType span members).english = interfaceText (members.map Field.saidText) ∧
    ((Expr.interfaceType span members).english = interfaceText (members.map Field.memberText) ↔
      ∀ f ∈ members, f.names = [] → f.type.isSignature = false) := by
  have hfit : (Expr.interfaceType span members).MembersFit := by
    rcases hn.admitted (P := Expr.MembersFit) hmem with hfit | ⟨d, -, hsig⟩
    · exact hfit
    · -- the type in the declaration of a function is no interface
      unfold Decl.IsSignature at hsig
      split at hsig
      · obtain ⟨rfl, _, _, _, htype⟩ := hsig
        cases htype
      · exact hsig.elim
  refine ⟨hfit, Expr.english_interfaceType span members, ?_⟩
  rw [english_interfaceType_eq_iff]
  refine forall₂_congr fun f hf => ?_
  simp [Field.embedsSignature]

/-- An interface none of whose members is an embedded signature. -/
def Expr.embedsNoSignature : Expr → Bool
  | .interfaceType _ members => members.all fun f => !f.embedsSignature
  | _ => false

/-- Methods, an embedded name and a union: all members are said by the rule. -/
theorem interface_said_methods :
    ∃ f span members,
      parseExpr "interface\x7bm(int) error; n(); io.Reader; ~int | func()\x7d" = .ok f ∧
      f.root = .interfaceType span members ∧
      f.root.english = interfaceText (members.map Field.memberText) := by
  generalize hsrc : "interface\x7bm(int) error; n(); io.Reader; ~int | func()\x7d" = src
  have hok : (parseExpr src).toOption.any fun f => f.root.embedsNoSignature := by
    subst hsrc
    decide +kernel
  cases hf : parseExpr src with
  | error e => simp [hf, Except.toOption] at hok
  | ok f =>
      simp only [hf, Except.toOption, Option.any_some, Expr.embedsNoSignature] at hok
      split at hok
      · rename_i span members hroot
        have hmem : .expr (.interfaceType span members) ∈ (Node.expr f.root).nodes := by
          rw [hroot, Node.nodes_eq]
          exact .head _
        refine ⟨f, span, members, rfl, hroot, ?_⟩
        rw [hroot]
        refine (interface_said (.expr hf) hmem).2.2.mpr fun g hg hnames => ?_
        simpa [Field.embedsSignature, hnames] using List.all_eq_true.mp hok g hg
      · cases hok

/-- An embedded signature is said without its first word. -/
theorem embedded_signature_said :
    ((parseExpr "interface\x7bfunc(int)\x7d").toOption.map fun f => f.root.english) =
      some "interface\x7b taking int\x7d" ∧
    ((parseExpr "interface\x7bfunc(int)\x7d").toOption.map fun f => match f.root with
      | .interfaceType _ members => interfaceText (members.map Field.memberText)
      | _ => "") = some "interface\x7bfunction taking int\x7d" := by
  decide +kernel

end GoGloss
