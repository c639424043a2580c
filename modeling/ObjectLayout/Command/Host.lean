import ObjectLayout.Build
import ObjectLayout.Table.Json

/-! What an invocation needs of the system it runs on: to read and write files, to show text, and to
report what went wrong. -/
namespace ObjectLayout

inductive FileError where
  | notFound
  | notADirectory
  | isDirectory
  | denied
  | invalidText
  | other (message : String)
  deriving DecidableEq, Repr

def FileError.message : FileError → String
  | .notFound => "No such file or directory (os error 2)"
  | .denied => "Permission denied (os error 13)"
  | .notADirectory => "Not a directory (os error 20)"
  | .isDirectory => "Is a directory (os error 21)"
  | .invalidText => "stream did not contain valid UTF-8"
  | .other message => message

inductive CommandError where
  | read (path : String) (cause : FileError)
  | write (path : String) (cause : FileError)
  | load (path : String) (cause : Table.LoadError)
  | fault (cause : Fault)
  | rootsFailed (failed total : Nat)
  deriving DecidableEq, Repr

def CommandError.message : CommandError → String
  | .read path cause => s!"failed to read '{path}': {cause.message}"
  | .write path cause => s!"failed to write '{path}': {cause.message}"
  | .load path .malformed =>
      s!"failed to parse translation unit '{path}': the text is not the JSON of a type table"
  | .load _ (.invalid cause) => s!"invalid translation unit: {cause.message}"
  | .fault cause => s!"inconsistent type table: {cause.message}"
  | .rootsFailed failed total => s!"{failed} of {total} root types failed"

inductive Notice where
  | usage
  | warning (text : String)
  | skipped (cause : RootFailure)
  | failed (cause : CommandError)
  deriving DecidableEq, Repr

def usageText : String :=
  "Usage: oic <unit.json> [options]\n\n" ++
  "Options:\n" ++
  "  --root=<name>            Root type to build (repeatable, default: all)\n" ++
  "  --chase-raw-pointers     Follow pointers below the root\n" ++
  "  --read-enum-values       Record enumerator values\n" ++
  "  --data-model=<model>     Integer widths: lp64, llp64\n" ++
  "  --emit=<type>            Emit: tree, dot\n" ++
  "  --cache=<path>           Store the finished graph\n" ++
  "  -o <path>                Output file"

def Notice.text : Notice → String
  | .usage => usageText
  | .warning text => s!"warning: {text}"
  | .skipped cause => s!"error: {cause.message}"
  | .failed cause => s!"error: {cause.message}"

structure Host (m : Type → Type) where
  readFile : String → m (Except FileError ByteArray)
  writeFile : String → ByteArray → m (Except FileError Unit)
  display : String → m Unit
  report : Notice → m Unit

end ObjectLayout
