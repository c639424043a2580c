import ObjectLayout.Expansion.Session
import ObjectLayout.Storage.Archive

/-! Building one graph for named types of a table. The types are asked for one after the other in
one session; a name that cannot be built is reported and skipped. -/
namespace ObjectLayout

inductive RootFailure where
  | unknown (name : String)
  | unsupported (name : String) (cause : Unsupported)
  deriving DecidableEq, Repr

def RootFailure.message : RootFailure → String
  | .unknown name => s!"no type named '{name}' in translation unit"
  | .unsupported name cause => s!"failed to build type graph for '{name}': {cause.message}"

structure Build where
  session : Session
  roots : List NamedNode
  failures : List RootFailure

namespace Build

def start : Build := ⟨.start .empty, [], []⟩

def add (t : Table) (o : Options) (b : Build) (name : String) : Except Fault Build :=
  match t.lookup name with
  | none => .ok { b with failures := b.failures ++ [.unknown name] }
  | some ty =>
      match b.session.expandRoot t o ty with
      | .error f => .error f
      | .ok (.ok id, s) => .ok { b with session := s, roots := b.roots ++ [⟨name, id⟩] }
      | .ok (.error cause, s) =>
          .ok { b with session := s, failures := b.failures ++ [.unsupported name cause] }

def archive (b : Build) : Archive := ⟨b.roots, b.session.graph⟩

def names (t : Table) (requested : List String) : List String :=
  if requested.isEmpty then t.roots.map NamedType.name else requested

end Build

def Table.build (t : Table) (o : Options) (requested : List String) : Except Fault Build :=
  (Build.names t requested).foldlM (Build.add t o) .start

end ObjectLayout
