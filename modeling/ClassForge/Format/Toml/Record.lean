import ClassForge.Format.Toml.Document
import ClassForge.Text.Case

namespace ClassForge.Toml

/-! Tables with known keys. Keys are found without regard to case. -/

def isOneOf (keys : List String) (k : String) : Bool := keys.any (Text.sameLetters k)

namespace Table

/-- The entry for a key: the one spelled exactly so, else one that differs in case. -/
def found? (t : Table) (k : String) : Option Value :=
  (t.find? k).orElse fun _ => (List.find? (fun e => Text.sameLetters e.1 k) t).map (·.2)

def textAt (t : Table) (k : String) : Option String :=
  match t.found? k with
  | none => some ""
  | some (.scalar (.text s)) => some s
  | some _ => none

def boolAt (t : Table) (k : String) : Option Bool :=
  match t.found? k with
  | none => some false
  | some (.scalar (.bool b)) => some b
  | some _ => none

def tablesAt (t : Table) (k : String) : Option (List Table) :=
  match t.found? k with
  | none => some []
  | some (.tables ts) => some ts
  | some (.array xs) => xs.mapM fun
    | .table u => some u
    | _ => none
  | some _ => none

def textsAt (t : Table) (k : String) : Option (List String) :=
  match t.found? k with
  | none => some []
  | some (.array xs) => xs.mapM fun
    | .scalar (.text s) => some s
    | _ => none
  | some (.tables []) => some []
  | some _ => none

def intAt (t : Table) (k : String) : Option Int :=
  match t.found? k with
  | none => some 0
  | some (.scalar (.integer n)) => some n
  | some _ => none

def wordAt (t : Table) (k : String) : Option UInt16 := do
  let n ← t.intAt k
  if 0 ≤ n && n < 65536 then some n.toNat.toUInt16 else none

def tableAt (t : Table) (k : String) : Option Table :=
  match t.found? k with
  | none => some []
  | some (.table u) => some u
  | some _ => none

end Table

end ClassForge.Toml
