import ClassForge.JType

namespace ClassForge.Assembler

structure LocalSet where
  bits : Nat
  deriving DecidableEq, Repr, Inhabited

namespace LocalSet

def empty : LocalSet := ⟨0⟩

def below (n : Nat) : LocalSet := ⟨1 <<< n - 1⟩

def contains (s : LocalSet) (id : Nat) : Bool := s.bits.testBit id
def insert (s : LocalSet) (id : Nat) : LocalSet := ⟨s.bits ||| 1 <<< id⟩
def inter (s t : LocalSet) : LocalSet := ⟨s.bits &&& t.bits⟩

def meet (s : LocalSet) : Option LocalSet → LocalSet
  | none => s
  | some t => t.inter s

end LocalSet

inductive Arm
  | first
  | next
  | last
  deriving DecidableEq, Repr

/-- What kind of loop is open. One over an array counts in a slot, which its `continue`s still have
to step. -/
inductive LoopKind
  | test (endless : Bool)
  | items
  | array (counter : Nat) (continues : List Nat)
  deriving DecidableEq, Repr

/-- An open scope with what its end has to know. An if chain and a try with its handlers are one
scope each. -/
inductive Scope
  | body
  /-- `exits` jumps over the remaining arms lie under the open test on the site stack. -/
  | branch (arm : Arm) (exits : Nat)
  /-- `left` is what is assigned at every `break` so far. -/
  | loop (kind : LoopKind) (top : Nat) (breaks : List Nat) (left : Option LocalSet)
  /-- `stop` is the end of the protected range, once a handler is open. -/
  | guarded (start : Nat) (stop : Option Nat) (exits : List Nat) (caught : List JType)
  deriving DecidableEq, Repr, Inhabited

def Scope.name : Scope → String
  | .body => "body"
  | .branch .first _ => "if"
  | .branch .next _ => "else if"
  | .branch .last _ => "else"
  | .loop (.test _) .. => "while"
  | .loop .. => "for"
  | .guarded _ none .. => "try"
  | .guarded _ (some _) .. => "catch"

/-- One open scope and the locals that are surely assigned in it. `merged` is what all completed
arms have assigned; it is missing while there is none. -/
structure Frame where
  scope : Scope
  inherited : LocalSet
  assigned : LocalSet
  merged : Option LocalSet := none
  closed : Bool := false
  /-- Nodes made inside the scope start at this number. -/
  firstNode : Nat := 0
  deriving DecidableEq, Repr, Inhabited

namespace Frame

def merge (f : Frame) : Frame :=
  if f.closed then f else { f with merged := some (f.assigned.meet f.merged) }

def rearm (f : Frame) (scope : Scope) : Frame :=
  { f with scope, assigned := f.inherited, closed := false }

/-- What the enclosing scope knows after this one: the merged state, or that it is never left. -/
def outcome (f outer : Frame) : Frame :=
  match f.merged with
  | none => { outer with closed := true }
  | some s => { outer with assigned := s }

end Frame

end ClassForge.Assembler
