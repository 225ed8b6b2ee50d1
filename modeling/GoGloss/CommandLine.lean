import GoGloss.Examples
import GoGloss.Explanation

/-!
# The command line

What a run of the program does depends only on its arguments and on the bytes of
standard input. `run` is that function; it gives the exit code and what is
written to standard output and to standard error.

Arguments are looked at from left to right, and the first one that settles the
matter wins: a version or help request, or a mistake.
-/

namespace GoGloss.CommandLine

/-- What the arguments ask for. -/
structure Options where
  fragments : List String := []
  /-- Show the built-in examples instead. -/
  examples : Bool := false
  /-- Report a fragment that cannot be read and go on with the next. -/
  keepGoing : Bool := false
deriving DecidableEq, Repr

/-- What settles a run before any fragment is looked at. -/
inductive Early where
  | version
  | help
  | mistake
deriving DecidableEq, Repr

/-- The exit code of a run, what it writes, and what it complains about. -/
structure Outcome where
  exitCode : Nat
  output : String
  complaint : String := ""
deriving DecidableEq, Repr

/-- The name and the version of the program. -/
def versionText : String := "godecl 0.1.0\n"

/-- How to use the program. -/
def helpText : String :=
  String.intercalate "\n"
    ["Like cdecl, but for Go",
     "",
     "Usage: godecl [OPTIONS] [FRAGMENTS]...",
     "",
     "Arguments:",
     "  [FRAGMENTS]...  Go fragments to explain. Reads standard input line by line when none are given",
     "",
     "Options:",
     "      --examples    Print every built-in example with its English rendering",
     "      --keep-going  Report unparseable fragments and carry on with the rest",
     "  -v, --verbose...  More logging",
     "  -h, --help        Print help",
     "  -V, --version     Print version",
     ""]

/-- What a mistake in the arguments is answered with. -/
def usageText : String :=
  "error: these arguments are not understood; try --help\n"

/-! ## Reading the arguments -/

/-- Takes the examples flag, which may be given once. -/
def Options.withExamples (o : Options) : Except Early Options :=
  if o.examples then .error .mistake else .ok { o with examples := true }

/-- Takes the keep-going flag, which may be given once. -/
def Options.withKeepGoing (o : Options) : Except Early Options :=
  if o.keepGoing then .error .mistake else .ok { o with keepGoing := true }

/-- Takes a fragment. -/
def Options.withFragment (o : Options) (fragment : String) : Options :=
  { o with fragments := o.fragments ++ [fragment] }

/--
Takes an option written in full; none of them has a value. There is nothing to
log, so asking for more of it, any number of times, changes nothing.
-/
def Options.long (o : Options) : String → Except Early Options
  | "examples" => o.withExamples
  | "keep-going" => o.withKeepGoing
  | "verbose" => .ok o
  | "version" => .error .version
  | "help" => .error .help
  | _ => .error .mistake

/-- Takes options of one letter each, written together after one dash. -/
def Options.short (o : Options) : List Char → Except Early Options
  | [] => .ok o
  | 'v' :: cs => o.short cs
  | 'V' :: _ => .error .version
  | 'h' :: _ => .error .help
  | _ => .error .mistake

/-- Takes one argument. A dash on its own is a fragment. -/
def Options.arg (o : Options) (arg : String) : Except Early Options :=
  match arg.toList with
  | '-' :: '-' :: cs => o.long (String.ofList cs)
  | '-' :: c :: cs => o.short (c :: cs)
  | _ => .ok (o.withFragment arg)

/-- Takes the arguments; after two dashes all that follows are fragments. -/
def Options.args (o : Options) : List String → Except Early Options
  | [] => .ok o
  | arg :: args =>
    if arg = "--" then .ok (args.foldl withFragment o)
    else
      match o.arg arg with
      | .ok o => o.args args
      | .error e => .error e

/-! ## Reading standard input -/

/-- A line without the carriage return in front of its line feed. -/
def withoutReturn (line : List UInt8) : List UInt8 :=
  if line.getLast? = some 13 then line.dropLast else line

/--
The lines of some bytes, with `line` holding the bytes of the current one in
reverse. A line feed ends a line, a carriage return in front of it belongs to the
ending, and a last line may lack both.
-/
def linesFrom (line : List UInt8) : List UInt8 → List (List UInt8)
  | [] => if line.isEmpty then [] else [line.reverse]
  | b :: bs =>
    if b = 10 then withoutReturn line.reverse :: linesFrom [] bs else linesFrom (b :: line) bs

/-- The text of a line, if its bytes are UTF-8. -/
def lineText? (line : List UInt8) : Option String :=
  String.fromUTF8? ⟨line.toArray⟩

/-! ## Running -/

/--
Explains fragments, after what is written already. The first one that cannot be
read ends the run, unless it is to keep going; one that is no text ends it always.
-/
def explainAll (keepGoing : Bool) (out : String) : List (Option String) → Outcome
  | [] => ⟨0, out, ""⟩
  | none :: _ => ⟨1, out, "error: the input is not UTF-8\n"⟩
  | some fragment :: fragments =>
    match explain fragment with
    | .ok english => explainAll keepGoing (out ++ english ++ "\n") fragments
    | .error e =>
      if keepGoing then explainAll keepGoing (out ++ "error: " ++ e.message ++ "\n") fragments
      else ⟨1, out, e.report⟩

/-- Writes every example and, indented, its explanation. -/
def showExamples (out : String) : List String → Outcome
  | [] => ⟨0, out, ""⟩
  | src :: srcs =>
    match explain src with
    | .ok english => showExamples (out ++ src ++ "\n  " ++ english ++ "\n") srcs
    | .error e => ⟨1, out ++ src ++ "\n", e.report⟩

/-- A run of the program. -/
def run (args : List String) (input : List UInt8) : Outcome :=
  match Options.args {} args with
  | .error .version => ⟨0, versionText, ""⟩
  | .error .help => ⟨0, helpText, ""⟩
  | .error .mistake => ⟨2, "", usageText⟩
  | .ok o =>
    if o.examples then showExamples "" examples
    else if o.fragments.isEmpty then
      explainAll o.keepGoing "" ((linesFrom [] input).map lineText?)
    else explainAll o.keepGoing "" (o.fragments.map some)

end GoGloss.CommandLine
