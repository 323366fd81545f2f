import Shaderwright.Command.Arguments
import Shaderwright.Command.Run

/-!
# Program

Reads the files a command needs, runs it and prints its outcome. A configuration
file is read first, because it tells which stage files are needed.
-/

namespace Shaderwright

/-- The reason behind an error of the operating system. -/
def readErrorOf : IO.Error → ReadError
  | .noFileOrDirectory _ _ _ => .missing
  | .inappropriateType _ code _ => if code = 21 then .isDirectory else .notDirectory
  | e => .refused (toString e)

def fetch (path : String) : IO (Except ReadError String) := do
  try
    return Tree.textOf (← IO.FS.readBinFile path)
  catch e =>
    return .error (readErrorOf e)

/-- Reads files once; any other file is missing. -/
def fetchAll (paths : List String) : IO Reader := do
  let found ← paths.mapM fun path => return (path, ← fetch path)
  return fun path => (found.lookup path).getD (.error .missing)

/-- Prints what a command line is answered with and gives the exit status. -/
def answer (words : List String) : IO UInt32 := do
  match Command.parse (← IO.getEnv "SEEN_CONFIG") words with
  | .error notice =>
      if notice.status = 0 then IO.println notice.message else IO.eprintln notice.message
      return notice.status
  | .ok command =>
      let known ← fetchAll (command.filesNeeded fun _ => .error .missing)
      let read ← fetchAll (command.filesNeeded known)
      let o := command.run read
      IO.print o.output
      IO.eprint o.errorOutput
      return o.status

end Shaderwright

def main (words : List String) : IO UInt32 := Shaderwright.answer words
