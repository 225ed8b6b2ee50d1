import Std.Data.HashMap

/-!
# Symbols

Each distinct name of a fragment has a number, given out in the order of first
appearance. The table keeps the texts by number, and for every hash value the
numbers of the texts that have it; texts that share a hash value share a bucket
and are told apart by comparing them. So the numbers never depend on the hash
function, which only decides how long a look-up takes.
-/

namespace GoGloss

/-- A numbering of distinct texts. -/
structure Symbols where
  /-- The hash function that spreads the texts over buckets. -/
  hash : String → UInt64
  /-- The texts, each at its own number. -/
  texts : Array String
  /-- The numbers of the texts that have a given hash value. -/
  buckets : Std.HashMap UInt64 (List Nat)

namespace Symbols

/-- No symbols yet, and buckets by the given hash function. -/
def withHash (hash : String → UInt64) : Symbols :=
  ⟨hash, #[], ∅⟩

/-- No symbols yet. -/
def empty : Symbols :=
  withHash Hashable.hash

instance : Inhabited Symbols := ⟨empty⟩

/-- The number of symbols. -/
def size (t : Symbols) : Nat :=
  t.texts.size

/-- The text of a symbol; unknown numbers have the empty text. -/
def resolve (t : Symbols) (n : Nat) : String :=
  t.texts.getD n ""

/-- The numbers whose texts have the hash value of `s`. -/
def bucket (t : Symbols) (s : String) : List Nat :=
  t.buckets.getD (t.hash s) []

/-- The number of `s`, if it has one. -/
def find? (t : Symbols) (s : String) : Option Nat :=
  (t.bucket s).find? fun n => t.texts[n]? == some s

/-- Gives the next number to `s`, which joins the given bucket. -/
def append (t : Symbols) (s : String) (key : UInt64) (bucket : List Nat) : Symbols :=
  { t with
    texts := t.texts.push s
    buckets := t.buckets.insert key bucket }

/-- The number of `s`, which is a new one if `s` has not appeared before. -/
def intern (t : Symbols) (s : String) : Nat × Symbols :=
  match t.find? s with
  | some n => (n, t)
  | none => (t.size, t.append s (t.hash s) (t.bucket s ++ [t.size]))

end Symbols

end GoGloss
