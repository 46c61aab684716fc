import ClassForge.Hierarchy.ClassInfo
import Std.Data.TreeMap

namespace ClassForge

abbrev Registry := Std.TreeMap String ClassInfo

namespace Registry

def empty : Registry := {}

def add (r : Registry) (c : ClassInfo) : Registry := r.insert c.name c

def names (r : Registry) : List String := r.keys

def classes (r : Registry) : List ClassInfo := r.toList.map (·.2)

def merge (r other : Registry) : Registry := other.foldl (fun r name c => r.insert name c) r

end Registry

/-- Where knowledge about classes comes from: a registry, or classes under construction or one
class, over a base. -/
inductive Provider
  | registry (classes : Registry)
  | session (published : Registry) (base : Option Provider)
  | overlay (self : Option ClassInfo) (base : Option Provider)

def Provider.find? : Provider → String → Option ClassInfo
  | .registry r, name => r[name]?
  | .session r base, name =>
    match r[name]? with
    | some c => some c
    | none => match base with
      | some b => b.find? name
      | none => none
  | .overlay self base, name =>
    match self with
    | some c => if c.name = name then some c else
      match base with
      | some b => b.find? name
      | none => none
    | none => match base with
      | some b => b.find? name
      | none => none

/-- Every class the provider holds, those hidden by another of the same name included. -/
def Provider.classes : Provider → List ClassInfo
  | .registry r => r.classes
  | .session r base => r.classes ++ match base with
    | some b => b.classes
    | none => []
  | .overlay self base => self.toList ++ match base with
    | some b => b.classes
    | none => []

end ClassForge
