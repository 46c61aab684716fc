import ClassForge.Format.Toml.Syntax
import ClassForge.Text.Quoted

namespace ClassForge.Toml

/-- A value of a document. An array of tables built from headers is kept apart from a written array. -/
inductive Value
  | scalar (v : Scalar)
  | array (items : List Value)
  | table (entries : List (String × Value))
  | tables (tables : List (List (String × Value)))

abbrev Table := List (String × Value)

def Table.find? (t : Table) (k : String) : Option Value := t.lookup k

def Table.set (k : String) (v : Value) : Table → Table
  | [] => [(k, v)]
  | (l, w) :: rest => if k = l then (k, v) :: rest else (l, w) :: set k v rest

/-- A document under construction: its tables, the table that keys go to, the keys in order, those
made only on the way to another, and those that hold an array. -/
structure Document where
  root : Table := []
  context : Key := []
  order : Array Key := #[]
  implied : List Key := []
  arrays : List Key := []

namespace Document

abbrev Build := StateT Document Option

def imply (k : Key) : Build Unit := modify fun d => { d with implied := k :: d.implied.filter (· ≠ k) }

def isArray (d : Document) (k : Key) : Bool := d.arrays.contains k

def note (k : Key) : Build Unit := modify fun d => { d with order := d.order.push k }

/-- Notes whether a key of the current table holds an array; without a key, the table itself. -/
def setKind (k : String) (array : Bool) : Build Unit :=
  modify fun d =>
    let full := if k = "" then d.context else d.context ++ [k]
    let full := if full.isEmpty then [""] else full
    let rest := d.arrays.filter (· ≠ full)
    { d with arrays := if array then full :: rest else rest }

def alter (f : Table → Option Table) : Key → Table → Option Table
  | [], t => f t
  | k :: ks, t =>
    match t.find? k with
    | some (.table u) => do
      let u ← alter f ks u
      return t.set k (.table u)
    | some (.tables us) =>
      match us.getLast? with
      | some u => do
        let u ← alter f ks u
        return t.set k (.tables (us.dropLast ++ [u]))
      | none => none
    | _ => none

def tableAt : Key → Table → Option Table
  | [], t => some t
  | k :: ks, t =>
    match t.find? k with
    | some (.table u) => tableAt ks u
    | some (.tables us) => us.getLast?.bind (tableAt ks)
    | _ => none

/-- Gives a key of the current table its value. An implied key keeps what it has, and an array may
be given again; any other key is given once. -/
def setValue (k : String) (v : Value) : Build Unit := fun d => do
  let t ← tableAt d.context d.root
  let full := d.context ++ [k]
  let write : Option Table := alter (fun t => some (t.set k v)) d.context d.root
  if (t.find? k).isNone then return ((), { d with root := ← write })
  else if d.isArray full then
    return ((), { d with root := ← write, implied := d.implied.filter (· ≠ full) })
  else if d.implied.contains full then
    return ((), { d with implied := d.implied.filter (· ≠ full) })
  else none

def prepare : Key → Key → Build Unit
  | _, [] => pure ()
  | done, k :: ks => do
    let t ← (tableAt done (← get).root : Option Table)
    if (t.find? k).isNone then
      imply (done ++ [k])
      let root ← (alter (fun t => some (t.set k (.table []))) done (← get).root : Option Table)
      modify fun d => { d with root }
    match (t.find? k).getD (.table []) with
    | .table _ | .tables _ => prepare (done ++ [k]) ks
    | _ => failure

def addElement (k : String) (t : Table) : Option Table :=
  match t.find? k with
  | none => some (t.set k (.tables [[]]))
  | some (.tables us) => some (t.set k (.tables (us ++ [[]])))
  | _ => none

def enter (key : Key) (element : Bool) : Build Unit := do
  let path := key.dropLast
  let last := key.getLastD ""
  prepare [] path
  modify fun d => { d with context := path }
  if element then
    let root ← (alter (addElement last) path (← get).root : Option Table)
    modify fun d => { d with root }
  else setValue last (.table [])
  modify fun d => { d with context := key }

def enterDotted (key : Key) : Build String := do
  for k in key.dropLast do
    let path := (← get).context ++ [k]
    imply path
    enter path false
  let last := key.getLastD ""
  note ((← get).context ++ [last])
  return last

def place (v : Value) : Key → Table → Option Table
  | [], t => some t
  | [k], t => some (t.set k v)
  | k :: ks, t =>
    match (t.find? k).getD (.table []) with
    | .table u => do
      let u ← place v ks u
      return t.set k (.table u)
    | _ => none

mutual

def evaluate (key : String) (inArray : Bool) : Item → Build Value
  | .scalar v => pure (.scalar v)
  | .array xs => do
    setKind key true
    return .array (← evaluateAll key xs)
  | .inline es => do
    let outer := (← get).context
    let path := outer ++ [key]
    imply path
    enter path inArray
    let t ← evaluateEntries path [] es
    modify fun d => { d with context := outer }
    return .table t

def evaluateAll (key : String) : List Item → Build (List Value)
  | [] => pure []
  | x :: xs => do
    let v ← evaluate key true x
    return v :: (← evaluateAll key xs)

def evaluateEntries (path : Key) (t : Table) : List (Key × Item) → Build Table
  | [] => pure t
  | (k, x) :: rest => do
    modify fun d => { d with context := path }
    let last ← enterDotted k
    let v ← evaluate last false x
    setValue last v
    setKind last (match x with | .array _ => true | _ => false)
    let t ← (place v k t : Option Table)
    evaluateEntries path t rest

end

def perform : Statement → Build Unit
  | .table k => do
    enter k false
    setKind "" false
    note k
  | .element k => do
    enter k true
    setKind "" false
    note k
  | .assign k x => do
    let outer := (← get).context
    let last ← enterDotted k
    let v ← evaluate last false x
    setValue last v
    setKind last (match x with | .array _ => true | _ => false)
    modify fun d => { d with context := outer }

def read? (text : String) : Option Document := do
  let statements ← Toml.read text
  let ((), d) ← (statements.forM perform).run {}
  return d

end Document

/-! Keys as they are written. -/

def quotedChar (c : Char) : List Char :=
  match c with
  | '"' => ['\\', '"']
  | '\\' => ['\\', '\\']
  | '\x08' => ['\\', 'b']
  | '\t' => ['\\', 't']
  | '\n' => ['\\', 'n']
  | '\x0c' => ['\\', 'f']
  | '\r' => ['\\', 'r']
  | c => if c.toNat < 0x20 || c.toNat = 0x7f then '\\' :: 'u' :: Text.hexPadded 4 c.toNat else [c]

def partText (s : String) : String :=
  if !s.isEmpty && s.toList.all isBare then s
  else "\"" ++ String.ofList (s.toList.flatMap quotedChar) ++ "\""

def keyText (k : Key) : String := ".".intercalate (k.map partText)

end ClassForge.Toml
