import StyleTree.Walk.Recursive
import StyleTree.Walk.Machine

namespace StyleTree.Walk

inductive Engine where
  | recursive
  | iterative
  deriving DecidableEq

namespace Engine

instance : Inhabited Engine := ⟨.iterative⟩

def all : List Engine := [.recursive, .iterative]

def name : Engine → String
  | .recursive => "recursive"
  | .iterative => "iterative"

def title : Engine → String
  | .recursive => "Recursive"
  | .iterative => "Iterative"

def ofName? (name : String) : Option Engine := all.find? (·.name = name)

theorem ofName?_name (e : Engine) : ofName? e.name = some e := by cases e <;> decide

def unknownMessage (name : String) : String :=
  "unknown engine '" ++ name ++ "' (expected 'recursive' or 'iterative')"

universe u

def walk {σ : Type u} (e : Engine) (v : Visitor σ) (fuel : Nat) (nodes : List Node) (state : σ) :
    Option (Run σ) :=
  match e with
  | .recursive => Walk.recursive v fuel nodes state
  | .iterative => Walk.iterative v fuel nodes state

end Engine
end StyleTree.Walk
