import CallbackLint.Command.Run
import CallbackLint.Files.Archive
import CallbackLint.Grammar.Program

namespace CallbackLint

/-!
# The program

The program gets the files below the current folder as a tape archive on its
standard input, and looks at no other files.  The report goes to the standard
output and all other lines to the standard error output.
-/

namespace Program

/-- Everything that is left of an input, after what has been read. -/
partial def readAll (input : IO.FS.Stream) (before : ByteArray) : IO ByteArray := do
  let next ← input.read 65536
  if next.isEmpty then return before
  readAll input (before ++ next)

/-- What a run can see, from the environment and the standard input.  The input is
left alone unless a folder is to be checked. -/
def lookAround (words : List String) : IO Surroundings := do
  let current := Location.ofText {} ((← IO.getEnv "PWD").getD "/")
  let home := Location.ofText {} ((← IO.getEnv "HOME").getD "/")
  let archive ← match Arguments.read words with
    | .check _ => readAll (← IO.getStdin) .empty
    | _ => pure .empty
  return { files := Archive.unpack current archive.toList, current, home }

end Program

end CallbackLint

def main (words : List String) : IO UInt32 := do
  let surroundings ← CallbackLint.Program.lookAround words
  match CallbackLint.Command.run CallbackLint.Script.parse surroundings words with
  | .ok outcome =>
    for line in outcome.lines do IO.eprintln line
    IO.print outcome.output
    return outcome.status.toUInt32
  | .error breakdown =>
    IO.eprintln s!"error: {breakdown.message}"
    return 1
