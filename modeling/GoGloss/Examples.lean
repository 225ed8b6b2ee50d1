/-!
# Examples

A few fragments that show what can be explained.
-/

namespace GoGloss

/-- The built-in example fragments. -/
def examples : List String :=
  ["var x *[]map[int][2]string",
   "var x func() *[5]*func() rune",
   "var x, y int = 1, 2",
   "var x = (2+5)/3.0 + 4",
   "type T1 = T2",
   "import _ \"image/png\"",
   "func(string, bool) (int, error)",
   "x, y := 1, 2"]

/-- Example number `n`, starting over after the last one. -/
def exampleAt (n : Nat) : String :=
  examples.getD (n % examples.length) ""

end GoGloss
