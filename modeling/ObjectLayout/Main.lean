import ObjectLayout.Command.Run

/-! The command line. -/
namespace ObjectLayout.Command

/- The number of an error of the system, which some calls hand over negated. -/
def errorNumber (code : UInt32) : UInt32 := if code < 0 - code then code else 0 - code

def fileError (e : IO.Error) : FileError :=
  match e with
  | .noFileOrDirectory _ _ _ | .noSuchThing _ _ _ => .notFound
  | .permissionDenied _ _ _ => .denied
  | .inappropriateType _ code _ | .illegalOperation code _ =>
      match errorNumber code with
      | 20 => .notADirectory
      | 21 => .isDirectory
      | _ => .other e.toString
  | e => .other e.toString

def attempt {α : Type} (action : IO α) : IO (Except FileError α) := do
  try
    let a ← action
    return .ok a
  catch e => return .error (fileError e)

def terminal : Host IO where
  readFile path := attempt (IO.FS.readBinFile path)
  writeFile path data := attempt (IO.FS.writeBinFile path data)
  display text := IO.print text
  report notice := IO.eprintln notice.text

end ObjectLayout.Command

def main (args : List String) : IO UInt32 :=
  ObjectLayout.Command.main ObjectLayout.Command.terminal args
