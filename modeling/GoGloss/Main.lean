import GoGloss.CommandLine

/-!
# The program

The only part that touches the world: it reads what a run needs, asks
`CommandLine.run` what the run does, and does it.
-/

namespace GoGloss

/-- Reads standard input to its end. -/
partial def readAll (input : IO.FS.Stream) (bytes : ByteArray) : IO ByteArray := do
  let chunk ← input.read 65536
  if chunk.isEmpty then return bytes else readAll input (bytes ++ chunk)

end GoGloss

open GoGloss

/-- Runs the command line on the process's arguments and standard input. -/
def main (args : List String) : IO UInt32 := do
  let input ←
    match CommandLine.Options.args {} args with
    | .ok o =>
      if o.examples || !o.fragments.isEmpty then pure ByteArray.empty
      else readAll (← IO.getStdin) ByteArray.empty
    | .error _ => pure ByteArray.empty
  let outcome := CommandLine.run args input.toList
  IO.print outcome.output
  IO.eprint outcome.complaint
  return outcome.exitCode.toUInt32
