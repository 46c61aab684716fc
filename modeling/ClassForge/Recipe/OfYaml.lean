import ClassForge.Format.Yaml.Resolve
import ClassForge.Recipe.Basic

namespace ClassForge.Recipe

open Yaml (Node)

def valueOfScalar : Yaml.Scalar → Value
  | .null => .null
  | .bool b => .bool b
  | .integer n => .integer (if Number.fitsInt64 n then .int else .uint64) n
  | .float b => .float b
  | .text s => .text s
  | .moment m => .moment m

def isCollection : Value → Bool
  | .list .. | .map _ => true
  | _ => false

mutual

def valueOfNode : Node → Option Value
  | .scalar tag text style => (Yaml.Scalar.resolve tag text style).map valueOfScalar
  | .sequence ns => (valuesOfNodes ns).map (.list false)
  | .mapping es => (entriesOfNodes es).map .map

def valuesOfNodes : List Node → Option (List Value)
  | [] => some []
  | n :: ns => do
    let v ← valueOfNode n
    return v :: (← valuesOfNodes ns)

def entriesOfNodes : List (Node × Node) → Option (List (Value × Value))
  | [] => some []
  | (k, v) :: es => do
    let key ← valueOfNode k
    if isCollection key then none
    let value ← valueOfNode v
    return (key, value) :: (← entriesOfNodes es)

end

/-! Nodes for declared things. A null leaves what it stands for as it is; in a list it counts for
nothing. -/

def asText (n : Node) (otherwise : String) : Option String :=
  match n, n.scalar? with
  | _, some .null => some otherwise
  | .scalar _ text _, some _ => some text
  | _, _ => none

def asBool (n : Node) (otherwise : Bool) : Option Bool :=
  match n.scalar? with
  | some .null => some otherwise
  | some (.bool b) => some b
  | some (.text s) =>
    if ["y", "Y", "yes", "on"].contains s then some true
    else if ["n", "N", "no", "off"].contains s then some false
    else none
  | _ => none

def asValue (n : Node) : Option (Option Value) :=
  (valueOfNode n).map fun
    | .null => none
    | v => some v

def asList {α : Type} (item : Node → Option (Option α)) : Node → Option (List α)
  | .sequence ns => (ns.mapM item).map (·.filterMap id)
  | n => if n.scalar? = some .null then some [] else none

/-- Reads the entries of a mapping one after the other; an entry with a null key is passed over. -/
def asRecord {α : Type} (set : String → Node → α → Option α) (start : α) : Node → Option (Option α)
  | .mapping es =>
    (es.foldlM (fun (a : α) (e : Node × Node) => match e.1, e.1.scalar? with
      | _, some .null => some a
      | .scalar _ text _, some _ => set text e.2 a
      | _, _ => none) start).map some
  | n => if n.scalar? = some .null then some none else none

def itemText (n : Node) : Option (Option String) :=
  if n.scalar? = some .null then some none else (asText n "").map some

def setField (k : String) (n : Node) (f : FieldDecl) : Option FieldDecl :=
  match k with
  | "name" => (asText n f.name).map ({ f with name := · })
  | "type" => (asText n f.type).map ({ f with type := · })
  | "access" => (asText n f.access).map ({ f with access := · })
  | "static" => (asBool n f.isStatic).map ({ f with isStatic := · })
  | "final" => (asBool n f.isFinal).map ({ f with isFinal := · })
  | "value" => (asValue n).map ({ f with value := · })
  | _ => none

def setMethod (k : String) (n : Node) (m : MethodDecl) : Option MethodDecl :=
  match k with
  | "name" => (asText n m.name).map ({ m with name := · })
  | "returns" => (asText n m.returns).map ({ m with returns := · })
  | "static" => (asBool n m.isStatic).map ({ m with isStatic := · })
  | "value" => (asValue n).map ({ m with value := · })
  | "field" => (asText n m.field).map ({ m with field := · })
  | _ => none

def setClass (k : String) (n : Node) (c : ClassDecl) : Option ClassDecl :=
  match k with
  | "name" => (asText n c.name).map ({ c with name := · })
  | "extends" => (asText n c.super).map ({ c with super := · })
  | "implements" => (asList itemText n).map ({ c with interfaces := · })
  | "final" => (asBool n c.isFinal).map ({ c with isFinal := · })
  | "constructor" => (asBool n c.constructor).map ({ c with constructor := · })
  | "getters" => (asBool n c.getters).map ({ c with getters := · })
  | "to_string" => (asBool n c.toText).map ({ c with toText := · })
  | "main" => (asText n c.main).map ({ c with main := · })
  | "fields" => (asList (asRecord setField {}) n).map ({ c with fields := · })
  | "methods" => (asList (asRecord setMethod {}) n).map ({ c with methods := · })
  | _ => none

def setRecipe (k : String) (n : Node) (r : Recipe) : Option Recipe :=
  match k with
  | "package" => (asText n r.package).map ({ r with package := · })
  | "classes" => (asList (asRecord setClass {}) n).map ({ r with classes := · })
  | _ => none

def ofYaml (text : String) : Except Problem Recipe :=
  match Node.read? text with
  | none => .error (.fault .notYaml "")
  | some none => .ok {}
  | some (some n) =>
    match asRecord setRecipe {} n with
    | none => .error (.fault .notYaml "")
    | some r => .ok (r.getD {})

end ClassForge.Recipe
