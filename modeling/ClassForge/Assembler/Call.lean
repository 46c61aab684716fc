import ClassForge.Assembler.Source

namespace ClassForge.Assembler

/-- A call on a class under construction. Fields, methods, locals and nodes are given by number. -/
inductive Call
  | addField (access : Access) (type : JType) (name : String)
  | initField (field : Nat) (value : Literal)
  | addMethod (access : Access) (ret : JType) (name : String) (params : List (String × JType))
  | addConstructor (access : Access) (params : List (String × JType))
  | addStaticInit
  | throws (method : Nat) (types : List JType)
  | annotateClass (annotations : List Annotation)
  | annotateField (field : Nat) (annotations : List Annotation)
  | annotateMethod (method : Nat) (annotations : List Annotation)
  | setLine (line : Int)
  | build (method : Nat) (request : Build)
  | perform (method : Nat) (request : Statement)
  | bytes

inductive Reply
  | done
  | field (number : Nat)
  | method (number : Nat)
  | node (number : Nat)
  | local (number : Nat)
  | bytes (data : Array UInt8)

def Call.isFor (d : Draft) : Call → Bool
  | .initField i _ | .annotateField i _ => i < d.fields.size
  | .throws i _ | .annotateMethod i _ | .build i _ | .perform i _ => i < d.methods.size
  | _ => true

def Draft.replying {α : Type} (f : α → Reply) (r : Except Failure α × Draft) : Except Failure Reply × Draft :=
  (r.1.map f, r.2)

def Draft.call (p : Provider) (d : Draft) : Call → Except Failure Reply × Draft
  | .addField access type name => replying .field (d.change (addField access type name))
  | .initField i v => replying (fun _ => .done) (d.change (initField i v))
  | .addMethod access ret name params => replying .method (d.addMethod access ret name params)
  | .addConstructor access params => replying .method (d.addConstructor access params)
  | .addStaticInit => replying .method d.addStaticInit
  | .throws i types => replying (fun _ => .done) (d.throws p i types)
  | .annotateClass as => replying (fun _ => .done) (d.annotateClass as)
  | .annotateField i as => replying (fun _ => .done) (d.annotateField i as)
  | .annotateMethod i as => replying (fun _ => .done) (d.annotateMethod i as)
  | .setLine n => (.ok .done, d.setLine n)
  | .build i b => replying .node (d.build p i b)
  | .perform i s => replying (fun
      | some id => .local id
      | none => .done) (d.perform p i s)
  | .bytes => replying .bytes (d.bytes p)

end ClassForge.Assembler
