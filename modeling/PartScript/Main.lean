import PartScript.CommandLine.Ending

/-!
The program: arguments and files go in, texts and a status come out. Everything is decided by the
order that the arguments stand for.
-/

namespace PartScript.CommandLine

/-- The paths that a job reads. -/
def Job.paths : Job → List String
  | .tokens file | .ast file => [file]
  | .run file _ config _ | .fmt file config _ _ _ => file :: config.toList
  | .calc _ _ => []

/-- What stands under a path now, if anything does. -/
def readEntry (path : String) : IO (Option (String × Entry)) := do
  try return some (plainPath path, .text (← IO.FS.readFile (plainPath path)))
  catch
    | .noFileOrDirectory .. => return none
    | _ => return some (plainPath path, .directory)

/-- How the program is used. -/
def usage : String := "usage: partscript [-v] tokens|ast|run|calc|fmt ..."

/-- The text of a failure that a job did not expect. -/
def failureText : Failure → String
  | .diagnostic d => d.text
  | .fault f => f.message

/-- Carry out an order on the files there are, and print what it ends with. -/
def carryOut (order : Order) : IO UInt32 := do
  let files : Files := ⟨← order.job.paths.filterMapM readEntry⟩
  match order.ending files with
  | .done status output complaint =>
    IO.print output
    IO.eprint complaint
    return UInt32.ofNat status
  | .escaped failure output =>
    IO.print output
    IO.eprintln (failureText failure)
    return 1

/-- Say how the program is used. -/
def dismiss (d : Dismissal) : IO UInt32 := do
  match d with
  | .help => IO.println usage
  | .misuse => IO.eprintln usage
  return UInt32.ofNat d.status

end PartScript.CommandLine

/-- Carry out the order that the arguments stand for. -/
def main (args : List String) : IO UInt32 :=
  match PartScript.CommandLine.Order.ofArguments args with
  | .ok order => PartScript.CommandLine.carryOut order
  | .error dismissal => PartScript.CommandLine.dismiss dismissal
