import ClassForge.JType
import ClassForge.Text.Quoted

namespace ClassForge

inductive TypeSyntaxError
  | tooManyDimensions
  | unexpectedEnd
  | arrayOfVoid
  | badClass (rest : String)
  | unknownLetter (byte : Char)
  | trailing (whole rest : String)
  | missingOpen (whole : String)
  | missingClose (whole : String)
  | voidParameter (whole : String)
  | emptyName
  | nameArrayOfVoid
  | nameTooManyDimensions
  deriving DecidableEq, Repr

def TypeSyntaxError.message : TypeSyntaxError → String
  | .tooManyDimensions => "descriptor: too many array dimensions"
  | .unexpectedEnd => "descriptor: unexpected end"
  | .arrayOfVoid => "descriptor: array of void"
  | .badClass s => "descriptor: bad class reference " ++ Text.quote s
  | .unknownLetter c => "descriptor: unknown type letter " ++ Text.quoteChar c
  | .trailing s r => s!"descriptor {Text.quote s}: trailing {Text.quote r}"
  | .missingOpen s => s!"method descriptor {Text.quote s}: missing '('"
  | .missingClose s => s!"method descriptor {Text.quote s}: missing ')'"
  | .voidParameter s => s!"method descriptor {Text.quote s}: void parameter"
  | .emptyName => "empty type name"
  | .nameArrayOfVoid => "array of void"
  | .nameTooManyDimensions => "too many array dimensions"

namespace JType

def leadByte (c : Char) : Char :=
  let n := c.toNat
  if n < 0x80 then c
  else if n < 0x800 then Char.ofNat (0xc0 + n / 0x40)
  else if n < 0x10000 then Char.ofNat (0xe0 + n / 0x1000)
  else Char.ofNat (0xf0 + n / 0x40000)

def classPart : List Char → Option (List Char × List Char)
  | [] => none
  | ';' :: r => some ([], r)
  | c :: r => (classPart r).map fun (n, rest) => (c :: n, rest)

def parseBase (dims : UInt8) : List Char → Except TypeSyntaxError (JType × List Char)
  | [] => .error .unexpectedEnd
  | 'Z' :: r => .ok (⟨.prim .boolean, dims⟩, r)
  | 'B' :: r => .ok (⟨.prim .byte, dims⟩, r)
  | 'S' :: r => .ok (⟨.prim .short, dims⟩, r)
  | 'C' :: r => .ok (⟨.prim .char, dims⟩, r)
  | 'I' :: r => .ok (⟨.prim .int, dims⟩, r)
  | 'J' :: r => .ok (⟨.prim .long, dims⟩, r)
  | 'F' :: r => .ok (⟨.prim .float, dims⟩, r)
  | 'D' :: r => .ok (⟨.prim .double, dims⟩, r)
  | 'V' :: r => if dims = 0 then .ok (void, r) else .error .arrayOfVoid
  | 'L' :: r =>
    match classPart r with
    | some (c :: n, rest) => .ok (⟨(ofClass (String.ofList (c :: n))).base, dims⟩, rest)
    | _ => .error (.badClass (String.ofList ('L' :: r)))
  | c :: _ => .error (.unknownLetter (leadByte c))

def parseFrom (dims : UInt8) : List Char → Except TypeSyntaxError (JType × List Char)
  | '[' :: r => if dims = 255 then .error .tooManyDimensions else parseFrom (dims + 1) r
  | s => parseBase dims s

def parseOne (s : List Char) : Except TypeSyntaxError (JType × List Char) := parseFrom 0 s

def parseChars (s : List Char) : Except TypeSyntaxError JType := do
  let (t, rest) ← parseOne s
  if rest.isEmpty then pure t else throw (.trailing (String.ofList s) (String.ofList rest))

def parseDescriptor (s : String) : Except TypeSyntaxError JType := parseChars s.toList

/-- The parameters up to the closing parenthesis, and what follows it. As many steps as characters
suffice. -/
def parseParams (whole : String) : Nat → List Char → Except TypeSyntaxError (List JType × List Char)
  | _, [] => .error (.missingClose whole)
  | _, ')' :: r => .ok ([], r)
  | 0, _ => .error (.missingClose whole)
  | n + 1, s => do
    let (p, rest) ← parseOne s
    if p.isVoid then throw (.voidParameter whole)
    let (ps, rest) ← parseParams whole n rest
    pure (p :: ps, rest)

def parseMethodDescriptor (s : String) : Except TypeSyntaxError (JType × List JType) :=
  match s.toList with
  | '(' :: r => do
    let (params, rest) ← parseParams s r.length r
    let ret ← parseChars rest
    pure (ret, params)
  | _ => .error (.missingOpen s)

/-- The bracket pairs at the end of a spelling, given in reverse, and what stands before them.
Blanks may follow it and each pair. -/
def stripPairs : List Char → Nat × List Char
  | ']' :: '[' :: r =>
    let (n, rest) := stripPairs r
    (n + 1, rest)
  | c :: r => if Text.isBlank c then stripPairs r else (0, c :: r)
  | [] => (0, [])

def pairsAndBase (s : String) : Nat × List Char :=
  let (n, rest) := stripPairs (Text.trimStart s.toList).reverse
  (n, rest.reverse)

def primOfName (name : String) : Option Prim := Prim.all.find? fun p => p.name = name

/-- The type of a spelling without bracket pairs: a primitive, a class (names without a package are in `java.lang`) or a raw
descriptor. -/
def named (cs : List Char) : Except TypeSyntaxError JType :=
  let name := String.ofList cs
  match primOfName name with
  | some p => .ok (ofPrim p)
  | none =>
    if (cs.head? = some 'L' && cs.getLast? = some ';') || cs.head? = some '[' then parseChars cs
    else .ok (ofClass (if cs.any (fun c => c == '.' || c == '/') then name else "java/lang/" ++ name))

/-- The type a source-like spelling names: one without bracket pairs, followed by any number of
them, counted in a byte. -/
def parseName (s : String) : Except TypeSyntaxError JType :=
  let (n, cs) := pairsAndBase s
  let dims := n.toUInt8
  if (Text.trimStart s.toList).isEmpty then .error .emptyName
  else if String.ofList cs = "void" then if dims = 0 then .ok void else .error .nameArrayOfVoid
  else do
    let t ← named cs
    if t.dims.toNat + dims.toNat > 255 then .error .nameTooManyDimensions else .ok ⟨t.base, t.dims + dims⟩

end JType

end ClassForge
