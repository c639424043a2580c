import ObjectLayout.Expansion.Options

/-! The settings of an invocation and the arguments that give them. The list of arguments is cut
into settings from left to right, and each changes what the ones before it have set. -/
namespace ObjectLayout

inductive Emit where
  | outline
  | diagram
  deriving DecidableEq, Repr

def Emit.name : Emit → String
  | .outline => "tree"
  | .diagram => "dot"

def Emit.ofName? (s : String) : Option Emit :=
  [Emit.outline, .diagram].find? (fun emit => emit.name = s)

structure Settings where
  options : Options
  emit : Emit
  roots : List String
  cache : Option String
  output : Option String
  deriving DecidableEq, Repr

def Settings.standard : Settings := ⟨.standard, .outline, [], none, none⟩

inductive Argument where
  | chasePointers
  | readEnumerators
  | model (name : String)
  | emit (name : String)
  | root (name : String)
  | cache (path : String)
  | output (path : String)
  | unknown (text : String)
  deriving DecidableEq, Repr

def valueOf? (key s : String) : Option String :=
  if key.toList.isPrefixOf s.toList then some (String.ofList (s.toList.drop key.length)) else none

namespace Argument

def keyed : List (String × (String → Argument)) :=
  [("--data-model=", model), ("--emit=", emit), ("--root=", root), ("--cache=", cache),
   ("-o=", output), ("--output=", output)]

def ofText (s : String) : Argument :=
  if s = "--chase-raw-pointers" then chasePointers
  else if s = "--read-enum-values" then readEnumerators
  else (keyed.findSome? (fun (key, make) => (valueOf? key s).map make)).getD (unknown s)

/- Takes the next argument as a path after `-o`, whatever it looks like. -/
def split : List String → List Argument
  | [] => []
  | [s] => [ofText s]
  | s :: path :: rest =>
      if s = "-o" then output path :: split rest else ofText s :: split (path :: rest)

def warning? : Argument → Option String
  | model name =>
      if (DataModel.ofName? name).isSome then none
      else some s!"unknown data model '{name}', using lp64"
  | emit name =>
      if (Emit.ofName? name).isSome then none
      else some s!"unknown emit type '{name}', options: tree, dot"
  | unknown text => some s!"unknown option '{text}'"
  | chasePointers | readEnumerators | root _ | cache _ | output _ => none

end Argument

namespace Settings

def apply (s : Settings) : Argument → Settings
  | .chasePointers => { s with options := { s.options with chasePointers := true } }
  | .readEnumerators => { s with options := { s.options with readEnumerators := true } }
  | .model name =>
      let model := (DataModel.ofName? name).getD s.options.model
      { s with options := { s.options with model := model } }
  | .emit name => { s with emit := (Emit.ofName? name).getD s.emit }
  | .root name => { s with roots := s.roots ++ [name] }
  | .cache path => { s with cache := some path }
  | .output path => { s with output := some path }
  | .unknown _ => s

def read (s : Settings) (args : List String) : Settings := (Argument.split args).foldl apply s

def parse (args : List String) : Settings := standard.read args

def warnings (args : List String) : List String := (Argument.split args).filterMap Argument.warning?

end Settings
end ObjectLayout
