import Restack.CommandLine

/-!
# The program

Gathers what the arguments make the command look at, executes it, and prints its
report.
-/

namespace Restack.CommandLine

/-- What stands at a path of the file system; what cannot be opened counts as missing. -/
def entryAt (path : String) : IO Entry := do
  try
    let bytes ← IO.FS.readBinFile path
    return .file bytes
  catch
    | .inappropriateType none _ _ => return .directory
    | _ => return .missing

/-- What an evaluation with the given options can see. -/
def lookAround (options : Options) : IO World := do
  let entries ← options.paths.mapM fun path => return (path, ← entryAt path)
  let stdin ← if options.readsStdin then (← IO.getStdin).readBinToEnd else pure ByteArray.empty
  return { entry := fun path => (entries.lookup path).getD .missing, stdin }

/-- What the command with the given arguments can see. -/
def worldFor (arguments : List String) : IO World :=
  match readArguments {} arguments with
  | .ok (.evaluate options) => lookAround options
  | _ => return { entry := fun _ => .missing, stdin := ByteArray.empty }

end Restack.CommandLine

/-- Executes the command with the arguments of the program. -/
def main (arguments : List String) : IO UInt32 := do
  let world ← Restack.CommandLine.worldFor arguments
  let report := Restack.CommandLine.execute arguments world
  IO.print report.stdout
  IO.eprint report.stderr
  return report.code.toUInt32
