import ObjectLayout.Command.Host
import ObjectLayout.Command.Settings
import ObjectLayout.Graph.Diagram
import ObjectLayout.Graph.Outline

/-! An invocation: read a table, build the graph of its exported types, show it, store it. What
cannot be built is reported and skipped, and makes the invocation fail in the end. -/
namespace ObjectLayout

def Graph.render (g : Graph) : Emit → Except Fault String
  | .outline => Outline.render g
  | .diagram => Diagram.render g

namespace Command

abbrev Action (m : Type → Type) := ExceptT CommandError m

def orFault {m : Type → Type} [Monad m] {α : Type} (answer : Except Fault α) : Action m α :=
  match answer with
  | .ok a => pure a
  | .error f => throw (.fault f)

def readTable {m : Type → Type} [Monad m] (host : Host m) (path : String) : Action m Table := do
  match ← host.readFile path with
  | .error cause => throw (.read path cause)
  | .ok data =>
      match String.fromUTF8? data with
      | none => throw (.read path .invalidText)
      | some s =>
          match Table.load s with
          | .error cause => throw (.load path cause)
          | .ok t => pure t

def writeFile {m : Type → Type} [Monad m] (host : Host m) (path : String) (data : ByteArray) :
    Action m Unit := do
  match ← host.writeFile path data with
  | .error cause => throw (.write path cause)
  | .ok () => pure ()

def run {m : Type → Type} [Monad m] (host : Host m) (path : String) (settings : Settings) :
    Action m Unit := do
  let t ← readTable host path
  let b ← orFault (t.build settings.options settings.roots)
  b.failures.forM (fun cause => host.report (.skipped cause))
  let text ← orFault (b.session.graph.render settings.emit)
  match settings.output with
  | some output => writeFile host output text.toUTF8
  | none => host.display text
  match settings.cache with
  | some cache => writeFile host cache ⟨b.archive.store.toArray⟩
  | none => pure ()
  if b.failures ≠ [] then
    throw (.rootsFailed b.failures.length (b.failures.length + b.roots.length))

def main {m : Type → Type} [Monad m] (host : Host m) : List String → m UInt32
  | [] => do
      host.report .usage
      pure 1
  | path :: args => do
      if path = "--help" ∨ path = "-h" then
        host.report .usage
        pure 1
      else
        (Settings.warnings args).forM (fun text => host.report (.warning text))
        match ← (run host path (.parse args)).run with
        | .ok () => pure 0
        | .error cause => do
            host.report (.failed cause)
            pure 1

end Command
end ObjectLayout
