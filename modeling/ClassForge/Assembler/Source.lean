import ClassForge.Assembler.ClassBytes

namespace ClassForge.Assembler

def typeList (ts : List JType) : String := ", ".intercalate (ts.map (·.simpleName))

def modifierText (a : Access) (method : Bool) : String :=
  let s := a.modifiers method
  if s = "" then "" else s ++ " "

def indent (depth : Nat) : String := String.join (List.replicate depth "    ")

def Field.source (f : Field) : String :=
  indent 1 ++ modifierText f.info.access false ++ f.info.type.simpleName ++ " " ++ f.info.name ++
    (match f.init with
      | some v => " = " ++ v.render f.info.type
      | none => "") ++ ";\n"

def Method.sourceHead (m : Method) (owner : ClassInfo) : String :=
  if m.info.name = MethodInfo.initializerName then "static"
  else
    let access := if owner.isInterface then m.info.access.without (.publicBit ||| .abstractBit) else m.info.access
    let name := if m.info.isConstructor then owner.type.simpleName else s!"{m.info.ret.simpleName} {m.info.name}"
    let params := ", ".intercalate (m.paramLocals.map fun p => s!"{p.type.simpleName} {p.name}")
    let throwing :=
      if m.throws.isEmpty then "" else " throws " ++ typeList (m.throws.toList.map (·.2))
    s!"{modifierText access true}{name}({params}){throwing}"

def Method.source (m : Method) (owner : ClassInfo) : String :=
  let head := indent 1 ++ m.sourceHead owner
  if m.bodiless && m.info.name ≠ MethodInfo.initializerName then head ++ ";\n"
  else
    let body := m.rendered.foldl (fun s l => s ++ indent (l.depth + 1) ++ l.text ++ "\n") ""
    head ++ " \x7b\n" ++ body ++ (if m.finished then "" else "        // open\n") ++ "    \x7d\n"

def Draft.source (d : Draft) : String :=
  let access := d.info.access
  let extending :=
    if d.info.super ≠ rootName && !access.isInterface then
      " extends " ++ (JType.ofClass d.info.super).simpleName
    else ""
  let implementing :=
    if d.info.interfaces.isEmpty then ""
    else " implements " ++ typeList (d.info.interfaces.map JType.ofClass)
  modifierText access false ++ (if access.isInterface then "interface " else "class ") ++
    d.info.type.simpleName ++ extending ++ implementing ++ " \x7b\n" ++
    String.join (d.fields.toList.map (·.source)) ++
    String.join (d.methods.toList.map fun m => "\n" ++ m.source d.info) ++ "\x7d\n"

end ClassForge.Assembler
