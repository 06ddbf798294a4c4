import AdviceWeaving.CommandLine.Run

/-!
# The entry point

The library works on any file system; here it is given the one of the operating system.
-/

namespace AdviceWeaving

/-- The error that an operation of the operating system ended with. Its code may be given with the sign turned. -/
def IoError.ofSystem : IO.Error → IoError
  | .noFileOrDirectory .. => .notFound
  | .inappropriateType _ code _ => if code = 20 ∨ code = -20 then .notDirectory else .isDirectory
  | e => .other (toString e)

/-- The result of an operation of the operating system. -/
def attempt {α : Type} (action : IO α) : IO (Except IoError α) := do
  match ← action.toBaseIO with
  | .ok a => pure (.ok a)
  | .error e => pure (.error (.ofSystem e))

instance : MonadFiles IO where
  read path := attempt (IO.FS.readBinFile path.display)
  write path content := attempt (IO.FS.writeBinFile path.display content)

end AdviceWeaving

/-- Run the program on the files of the operating system. -/
def main (arguments : List String) : IO UInt32 := do
  let result ← (AdviceWeaving.runCommandLine arguments : IO AdviceWeaving.RunResult)
  (← IO.getStdout).putStr result.stdout
  (← IO.getStderr).putStr result.stderr
  return result.exitCode.toUInt32
