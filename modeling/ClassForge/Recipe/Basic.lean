import ClassForge.Assembler.Fault
import ClassForge.Recipe.Value
import ClassForge.Text.Canonical
import ClassForge.Text.Case

namespace ClassForge

namespace Recipe

structure FieldDecl where
  name : String := ""
  type : String := ""
  access : String := ""
  isStatic : Bool := false
  isFinal : Bool := false
  value : Option Value := none

structure MethodDecl where
  name : String := ""
  returns : String := ""
  isStatic : Bool := false
  value : Option Value := none
  field : String := ""

/-- A class: with `constructor` one that takes every instance field without a value, else one
without parameters; with a non-empty `main` a method that prints it. -/
structure ClassDecl where
  name : String := ""
  super : String := ""
  interfaces : List String := []
  isFinal : Bool := false
  constructor : Bool := false
  getters : Bool := false
  toText : Bool := false
  main : String := ""
  fields : List FieldDecl := []
  methods : List MethodDecl := []
  deriving Inhabited

end Recipe

structure Recipe where
  package : String := ""
  classes : List Recipe.ClassDecl := []
  path : String := ""

namespace Recipe

inductive Fault
  | unknownExtension (path : String)
  | unreadable (path reason : String)
  | unknownFormat (number : Nat)
  | notToml
  | notYaml
  | unknownKey (key : String)
  | noClasses
  | classUnnamed (position : Nat)
  | classTwice (name : String)
  | fieldIncomplete (position : Nat)
  | fieldTwice (name : String)
  | unknownAccess (text : String)
  | methodIncomplete (position : Nat)
  | valueAndField (method : String)
  | noValue (method : String)
  | unknownField (method field : String)
  | instanceField (method field : String)
  | cycle (name : String)
  | unknownType (spelling reason : String)
  | misfit (value form : String) (type : JType)
  deriving DecidableEq

def Fault.code : Fault → Diagnostic.Code
  | .unknownExtension _ | .unreadable .. | .unknownFormat _ | .notToml | .notYaml => .recipeDecode
  | .unknownType .. => .recipeUnknownType
  | .misfit .. => .notAssignable
  | _ => .invalidRecipe

def Fault.message : Fault → String
  | .unknownExtension p => p ++ ": unknown recipe extension (want .toml, .yaml or .yml)"
  | .unreadable p r => s!"{p}: {r}"
  | .unknownFormat n => s!"unknown recipe format {n}"
  | .notToml => "failed to parse TOML"
  | .notYaml => "failed to parse YAML"
  | .unknownKey k => "unknown key " ++ k
  | .noClasses => "recipe declares no classes"
  | .classUnnamed i => s!"class {i} has no name"
  | .classTwice n => s!"class {n} declared twice"
  | .fieldIncomplete i => s!"field {i} needs a name and a type"
  | .fieldTwice n => s!"field {n} declared twice"
  | .unknownAccess a => "unknown access " ++ Text.quote a
  | .methodIncomplete i => s!"method {i} needs a name and a return type"
  | .valueAndField m => s!"method {m} sets both value and field"
  | .noValue m => s!"method {m} needs a value or a field"
  | .unknownField m f => s!"method {m} returns unknown field {f}"
  | .instanceField m f => s!"static method {m} returns instance field {f}"
  | .cycle n => "inheritance cycle through " ++ n
  | .unknownType s r => s!"type {Text.quote s}: {r}"
  | .misfit v f t => s!"value {v} ({f}) does not fit {t.spelling}"

inductive Problem
  | fault (cause : Fault) (place : String)
  | assembly (failure : Assembler.Failure)
  deriving DecidableEq

def Problem.report : Problem → Diagnostic.Problem
  | .fault e p => .coded e.code e.message p none
  | .assembly f => f.problem

def Problem.located (place : String) : Problem → Problem
  | .fault e "" => .fault e place
  | .assembly f => .assembly (f.located place)
  | p => p

/-! Names. -/

def internalName (r : Recipe) (name : String) : String :=
  let name := Text.slashed name
  if r.package = "" || name.toList.contains '/' then name else r.package ++ "/" ++ name

def describe (r : Recipe) : String :=
  (if r.path = "" then "recipe" else r.path) ++ s!" ({r.classes.length} classes)"

/-- Without blanks at the ends, and composed, so that names that look the same are the same. -/
def clean (s : String) : String := Text.composed (Text.trim s)

def cleanValue : Option Value → Option Value
  | some (.text s) => some (.text (Text.composed s))
  | v => v

def FieldDecl.normalize (f : FieldDecl) : FieldDecl :=
  { f with
    name := clean f.name, type := clean f.type, access := Text.lower (clean f.access), value := cleanValue f.value }

def MethodDecl.normalize (m : MethodDecl) : MethodDecl :=
  { m with name := clean m.name, returns := clean m.returns, field := clean m.field, value := cleanValue m.value }

def ClassDecl.normalize (c : ClassDecl) : ClassDecl :=
  { c with
    name := clean c.name, super := clean c.super, interfaces := c.interfaces.map clean,
    fields := c.fields.map (·.normalize), methods := c.methods.map (·.normalize) }

def normalize (r : Recipe) : Recipe :=
  { r with package := Text.slashed (clean r.package), classes := r.classes.map (·.normalize) }

/-! Checks. -/

def accessOf? : String → Option Access
  | "" | "private" => some .privateBit
  | "public" => some .publicBit
  | "protected" => some .protectedBit
  | "package" => some .none
  | _ => none

def checkFields (place : String) (seen : List String) (i : Nat) : List FieldDecl → Except Problem Unit
  | [] => .ok ()
  | f :: fs =>
    if f.name = "" || f.type = "" then .error (.fault (.fieldIncomplete i) place)
    else if seen.contains f.name then .error (.fault (.fieldTwice f.name) place)
    else if (accessOf? f.access).isNone then .error (.fault (.unknownAccess f.access) s!"{place}.{f.name}")
    else checkFields place (f.name :: seen) (i + 1) fs

def checkMethods (place : String) (fields : List FieldDecl) (i : Nat) : List MethodDecl → Except Problem Unit
  | [] => .ok ()
  | m :: ms => do
    if m.name = "" || m.returns = "" then .error (.fault (.methodIncomplete i) place)
    if m.field ≠ "" && m.value.isSome then .error (.fault (.valueAndField m.name) place)
    if m.field = "" && m.value.isNone then .error (.fault (.noValue m.name) place)
    if m.field ≠ "" then
      match fields.find? (·.name = m.field) with
      | none => .error (.fault (.unknownField m.name m.field) place)
      | some f => if m.isStatic && !f.isStatic then .error (.fault (.instanceField m.name m.field) place)
    checkMethods place fields (i + 1) ms

def checkClasses (r : Recipe) (seen : List String) (i : Nat) : List ClassDecl → Except Problem Unit
  | [] => .ok ()
  | c :: cs => do
    if c.name = "" then .error (.fault (.classUnnamed i) "")
    if seen.contains c.name then .error (.fault (.classTwice c.name) "")
    let place := r.internalName c.name
    checkFields place [] 1 c.fields
    checkMethods place c.fields 1 c.methods
    checkClasses r (c.name :: seen) (i + 1) cs

def check (r : Recipe) : Except Problem Unit :=
  if r.classes.isEmpty then .error (.fault .noClasses "") else checkClasses r [] 1 r.classes

end Recipe

end ClassForge
