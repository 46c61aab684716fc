import ClassForge.Format.Toml.Record
import ClassForge.Recipe.Basic

namespace ClassForge.Recipe

open Toml (Table)

mutual

def valueOfToml : Toml.Value → Value
  | .scalar (.bool b) => .bool b
  | .scalar (.integer n) => .integer .int64 n
  | .scalar (.float b) => .float b
  | .scalar (.text s) => .text s
  | .scalar (.moment m) => .moment m
  | .array xs => .list false (valuesOfToml xs)
  | .table es => .map (entriesOfToml es)
  | .tables ts => .list true (tablesOfToml ts)

def valuesOfToml : List Toml.Value → List Value
  | [] => []
  | x :: xs => valueOfToml x :: valuesOfToml xs

def entriesOfToml : List (String × Toml.Value) → List (Value × Value)
  | [] => []
  | (k, v) :: es => (.text k, valueOfToml v) :: entriesOfToml es

def tablesOfToml : List (List (String × Toml.Value)) → List Value
  | [] => []
  | t :: ts => .map (entriesOfToml t) :: tablesOfToml ts

end

def valueAt (t : Table) (k : String) : Option Value := (t.found? k).map valueOfToml

def fieldOfToml (t : Table) : Option FieldDecl := do
  return {
    name := ← t.textAt "name", type := ← t.textAt "type", access := ← t.textAt "access",
    isStatic := ← t.boolAt "static", isFinal := ← t.boolAt "final", value := valueAt t "value" }

def methodOfToml (t : Table) : Option MethodDecl := do
  return {
    name := ← t.textAt "name", returns := ← t.textAt "returns", isStatic := ← t.boolAt "static",
    value := valueAt t "value", field := ← t.textAt "field" }

def classOfToml (t : Table) : Option ClassDecl := do
  return {
    name := ← t.textAt "name", super := ← t.textAt "extends", interfaces := ← t.textsAt "implements",
    isFinal := ← t.boolAt "final", constructor := ← t.boolAt "constructor", getters := ← t.boolAt "getters",
    toText := ← t.boolAt "to_string", main := ← t.textAt "main",
    fields := ← (← t.tablesAt "field").mapM fieldOfToml, methods := ← (← t.tablesAt "method").mapM methodOfToml }

def ofTable (t : Table) : Option Recipe := do
  return { package := ← t.textAt "package", classes := ← (← t.tablesAt "class").mapM classOfToml }

def classKeys : List String :=
  ["name", "extends", "implements", "final", "constructor", "getters", "to_string", "main", "field", "method"]

def fieldKeys : List String := ["name", "type", "access", "static", "final", "value"]

def methodKeys : List String := ["name", "returns", "static", "value", "field"]

def isKnown : Toml.Key → Bool
  | [k] => Toml.isOneOf ["package", "class"] k
  | [c, k] => Toml.isOneOf ["class"] c && Toml.isOneOf classKeys k
  | [c, m, k] =>
    Toml.isOneOf ["class"] c &&
      ((Toml.isOneOf ["field"] m && Toml.isOneOf fieldKeys k) || (Toml.isOneOf ["method"] m && Toml.isOneOf methodKeys k))
  | _ => false

def ofToml (text : String) : Except Problem Recipe :=
  match Toml.Document.read? text with
  | none => .error (.fault .notToml "")
  | some d =>
    match ofTable d.root with
    | none => .error (.fault .notToml "")
    | some r =>
      match d.order.toList.find? (!isKnown ·) with
      | some k => .error (.fault (.unknownKey (Toml.keyText k)) "")
      | none => .ok r

end ClassForge.Recipe
