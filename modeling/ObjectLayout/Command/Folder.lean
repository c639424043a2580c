import ObjectLayout.Command.Host

/-! A host in memory: one folder that holds files and nothing else, with what has been shown and
reported. It lets an invocation be run, and reasoned about, without a system around it. -/
namespace ObjectLayout

structure Folder where
  files : List (String × ByteArray)
  shown : List String
  notices : List Notice

namespace Folder

/- Where a path leads: to the folder, to a name in it, to such a name with a slash behind it, which
only a directory can have, or to something that cannot be there. -/
inductive Place where
  | folder
  | name (name : String)
  | directory (name : String)
  | nowhere (cause : FileError)
  deriving DecidableEq, Repr

def below (f : Folder) (name : String) : FileError :=
  if f.files.any (fun file => file.1 = name) then .notADirectory else .notFound

def place (f : Folder) (path : String) : Place :=
  if path.isEmpty then .nowhere .notFound
  else
    let steps := (path.splitOn "/").filter (fun step => step ≠ "")
    match steps.dropWhile (fun step => step = ".") with
    | [] => .folder
    | [name] => if path.endsWith "/" then .directory name else .name name
    | name :: _ :: _ => .nowhere (f.below name)

def read (f : Folder) (path : String) : Except FileError ByteArray :=
  match f.place path with
  | .folder => .error .isDirectory
  | .directory name => .error (f.below name)
  | .nowhere cause => .error cause
  | .name name =>
      match f.files.lookup name with
      | some data => .ok data
      | none => .error .notFound

def write (f : Folder) (path : String) (data : ByteArray) : Except FileError Folder :=
  match f.place path with
  | .folder | .directory _ => .error .isDirectory
  | .nowhere cause => .error cause
  | .name name => .ok { f with files := (name, data) :: f.files.filter (fun file => file.1 ≠ name) }

def host : Host (StateM Folder) where
  readFile path := do return (← get).read path
  writeFile path data := do
    match (← get).write path data with
    | .ok f => do
        set f
        pure (.ok ())
    | .error cause => pure (.error cause)
  display text := modify (fun f => { f with shown := f.shown ++ [text] })
  report notice := modify (fun f => { f with notices := f.notices ++ [notice] })

end Folder
end ObjectLayout
