import TextGrammar.CommandLine.Basic
import TextGrammar.Pattern.BuiltIn

/-!
# The program

Reads the files that the command names, carries the command out and prints what it
leaves behind.
-/

namespace TextGrammar

/-- The error number of reading a directory; leading through a file is of the same kind. -/
def isDirectoryCode : UInt32 := 21

/-- The bytes of a file, or why there are none. -/
def fetch (path : String) : IO (Except FileFault (List UInt8)) := do
  try
    return .ok (← IO.FS.readBinFile path).toList
  catch
    | .inappropriateType _ code _ =>
      return .error (if code = isDirectoryCode then .isDirectory path else .notDirectory path)
    | _ => return .error (.notFound path)

/-- The files that were fetched, as a reader. -/
def readerOf (found : Table String (Except FileFault (List UInt8))) : FileReader := fun path =>
  (found.get? path).getD (.error (.notFound path))

/-- Prints how a command ended. The result is the exit code. -/
def report (result : CommandEnd) : IO UInt32 := do
  IO.eprint result.err
  IO.print result.out
  return result.exitCode.toUInt32

/-- Fetches what the arguments name and carries the command out. -/
def runProgram (args : List String) : IO UInt32 := do
  match Command.ofArguments args with
  | .error code => report (.usage code)
  | .ok command =>
    let found ← command.paths.mapM fun path => return (path, ← fetch path)
    report (command.execute (readerOf (Table.ofList found)))

end TextGrammar

/-- The program. -/
def main (args : List String) : IO UInt32 := TextGrammar.runProgram args
