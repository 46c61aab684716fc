import ClassForge.Diagnostic.Problem

namespace ClassForge.Diagnostic

structure Report where
  code : Code
  message : String
  source : String
  place : String
  deriving DecidableEq, Repr

namespace Report

def ofProblem (source : String) (p : Problem) : Report :=
  match p.outer? with
  | some (code, message, place) => ⟨code, message, source, place⟩
  | none => ⟨.unknown, p.text, source, ""⟩

def le (a b : Report) : Bool :=
  if a.source ≠ b.source then a.source < b.source
  else if a.place ≠ b.place then a.place < b.place
  else a.code.number ≤ b.code.number

def key (d : Report) : String :=
  toString d.code.number.toNat ++ ":" ++ d.source ++ ":" ++ d.place ++ ":" ++ d.message

end Report

structure Bag where
  max : Int := 0
  items : List Report := []

namespace Bag

def isFull (b : Bag) : Bool := 0 < b.max && b.max ≤ b.items.length

def add (b : Bag) (d : Report) : Bool × Bag :=
  if b.isFull then (false, b) else (true, { b with items := b.items ++ [d] })

def addProblem (b : Bag) (source : String) : Option Problem → Bool × Bag
  | some p => b.add (.ofProblem source p)
  | none => (false, b)

def sort (b : Bag) : Bag := { b with items := b.items.mergeSort Report.le }

def unseen (seen : List String) : List Report → List Report
  | [] => []
  | d :: ds => if seen.contains d.key then unseen seen ds else d :: unseen (d.key :: seen) ds

def dedup (b : Bag) : Bag := { b with items := unseen [] b.items }

end Bag

end ClassForge.Diagnostic
