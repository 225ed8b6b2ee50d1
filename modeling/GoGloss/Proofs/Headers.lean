import GoGloss.Proofs.Precedence

/-!
# Composite literals in headers

In the header of a control statement a brace opens the body. So a composite literal
can stand there only where something tells it from the body: brackets around it, or
a type that is no operand.

`Node.Exposes` goes down a tree without entering brackets. What is exposed in a
header is told from the body if it is `Sealed`: every composite literal met has a
type that is written as an array, a struct or a map, parentheses aside.
-/

namespace GoGloss

/-- A type that cannot be taken for an operand. -/
def Expr.isLiteralType : Expr → Bool
  | .arrayType .. | .structType .. | .mapType .. => true
  | _ => false

namespace Node

/-- Whether what stands under a node in a role is enclosed by brackets of the node. -/
def encloses : Node → Role → Bool
  | .expr (.paren ..), _ => true
  | .expr (.call ..), .arg => true
  | .expr (.index ..), .index | .expr (.indexList ..), .index => true
  | .expr (.slice ..), .lo | .expr (.slice ..), .hi | .expr (.slice ..), .max => true
  | .expr (.arrayType ..), .length => true
  | .expr (.composite ..), .element => true
  | .expr (.funcLit ..), .body => true
  | _, _ => false

/-- Going down from a node without entering its brackets, or those met on the way. -/
inductive Exposes : Node → Node → Prop where
  | self (n : Node) : Exposes n n
  | step {n m : Node} {p : Role × Node} (hp : p ∈ n.children) (hopen : n.encloses p.1 = false)
      (h : Exposes p.2 m) : Exposes n m

/-- A composite literal has a type, which cannot be taken for an operand. -/
def HasLiteralType : Node → Prop
  | .expr (.composite _ type _ _ _) => ∃ t ∈ type, t.unparen.isLiteralType
  | _ => True

/-- Every composite literal that is exposed has a type that cannot be taken for an operand. -/
def Sealed (n : Node) : Prop :=
  ∀ m, n.Exposes m → m.HasLiteralType

theorem sealed_iff {n : Node} :
    n.Sealed ↔
      n.HasLiteralType ∧ All (fun role m => n.encloses role = false → m.Sealed) n.children := by
  constructor
  · intro h
    exact ⟨h n (.self n), fun p hp hopen m hm => h m (.step hp hopen hm)⟩
  · rintro ⟨hn, hbelow⟩ m hm
    cases hm with
    | self => exact hn
    | step hp hopen hm => exact hbelow _ hp hopen m hm

/-- What stands in the header of a control statement. -/
def header : Node → List Node
  | .stmt (.ifElse _ init cond _ _) => init.toList.map .stmt ++ [.expr cond]
  | .stmt (.loop _ init cond post _) =>
    init.toList.map .stmt ++ cond.toList.map .expr ++ post.toList.map .stmt
  | .stmt (.range _ key value _ x _) => key.toList.map .expr ++ value.toList.map .expr ++ [.expr x]
  | .stmt (.switch _ init tag _) => init.toList.map .stmt ++ tag.toList.map .expr
  | .stmt (.typeSwitch _ init guard _) => init.toList.map .stmt ++ [.stmt guard]
  | _ => []

/-- What stands in the headers of a tree is sealed. -/
def HeadersSealed (n : Node) : Prop :=
  ∀ m ∈ n.nodes, ∀ part ∈ m.header, part.Sealed

theorem headersSealed_iff {n : Node} :
    n.HeadersSealed ↔
      (∀ part ∈ n.header, part.Sealed) ∧ All (fun _ => HeadersSealed) n.children :=
  forall_mem_nodes

/-! ## Trees that fit a level -/

/--
A tree that may be read at an expression level: its headers are sealed, and below
zero, which is in a header, it is sealed itself.
-/
structure Fits (i : Int) (n : Node) : Prop where
  headers : n.HeadersSealed
  tight : i < 0 → n.Sealed

theorem Fits.mono {i j : Int} {n : Node} (h : n.Fits i) (hij : j < 0 → i < 0) : n.Fits j :=
  ⟨h.headers, fun hj => h.tight (hij hj)⟩

/-- What is enclosed by brackets has to fit the levels outside of headers only. -/
theorem Fits.enclosed {i : Int} {n : Node} (h : n.Fits i) : n.Fits 0 :=
  h.mono fun h => absurd h (by decide)

/-- What fits in a header is sealed. -/
theorem Fits.sealed {n : Node} (h : n.Fits (-1)) : n.Sealed :=
  h.tight (by decide)

/-- What a node holds outside of its brackets fits the levels that it fits itself. -/
theorem Fits.below {i : Int} {n : Node} {p : Role × Node} (h : n.Fits i) (hp : p ∈ n.children)
    (hopen : n.encloses p.1 = false) : p.2.Fits i :=
  ⟨(headersSealed_iff.mp h.headers).2 p hp, fun hi => (sealed_iff.mp (h.tight hi)).2 p hp hopen⟩

/-- A node fits a level if what is under it does, up to brackets. -/
theorem fits_of_children {i : Int} {n : Node} (hheader : ∀ part ∈ n.header, part.Sealed)
    (htype : i < 0 → n.HasLiteralType)
    (hbelow : All (fun role m => m.Fits (if n.encloses role then 0 else i)) n.children) :
    n.Fits i := by
  refine ⟨headersSealed_iff.mpr ⟨hheader, fun p hp => (hbelow p hp).headers⟩, fun hi => ?_⟩
  refine sealed_iff.mpr ⟨htype hi, fun p hp hopen => (hbelow p hp).tight ?_⟩
  simpa [hopen] using hi

end Node

end GoGloss
