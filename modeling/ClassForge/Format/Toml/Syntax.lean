import ClassForge.Time.Moment

namespace ClassForge.Toml

open Number

abbrev Key := List String

inductive Scalar
  | bool (b : Bool)
  | integer (n : Int)
  | float (bits : UInt64)
  | text (s : String)
  | moment (m : Moment)
  deriving DecidableEq, Repr

inductive Item
  | scalar (v : Scalar)
  | array (items : List Item)
  | inline (entries : List (Key × Item))

/-- A line of a document: the header of a table or of a further table of an array, or a value. -/
inductive Statement
  | table (key : Key)
  | element (key : Key)
  | assign (key : Key) (item : Item)

/-! Characters. -/

def isBlank (c : Char) : Bool := c == ' ' || c == '\t'

def isNewline (c : Char) : Bool := c == '\n' || c == '\r'

def isBare (c : Char) : Bool := c.isAlphanum || c == '_' || c == '-'

def isHex (c : Char) : Bool := (digitValue? 16 c).isSome

/-- Control characters have no place in a document, and a carriage return only before a line feed. -/
def isPlain : List Char → Bool
  | [] => true
  | '\r' :: rest => (match rest with | '\n' :: _ => true | _ => false) && isPlain rest
  | c :: rest => (c == '\t' || c == '\n' || (0x20 ≤ c.toNat && c.toNat != 0x7f)) && isPlain rest

def skipBlanks (cs : List Char) : List Char := cs.dropWhile isBlank

def skipComment (cs : List Char) : List Char := cs.dropWhile (!isNewline ·)

abbrev Read (α : Type) := List Char → Option (α × List Char)

/-! Strings. -/

def validChar? (n : Nat) : Option Char :=
  if n < 0xd800 || (0xe000 ≤ n && n < 0x110000) then some (Char.ofNat n) else none

def escape : Read Char
  | 'b' :: cs => some ('\x08', cs)
  | 't' :: cs => some ('\t', cs)
  | 'n' :: cs => some ('\n', cs)
  | 'f' :: cs => some ('\x0c', cs)
  | 'r' :: cs => some ('\r', cs)
  | '"' :: cs => some ('"', cs)
  | '\\' :: cs => some ('\\', cs)
  | 'u' :: cs => hexEscape 4 cs
  | 'U' :: cs => hexEscape 8 cs
  | _ => none
where
  hexEscape (n : Nat) (cs : List Char) : Option (Char × List Char) := do
    let digits := cs.take n
    if digits.length < n || !digits.all isHex then none
    return (← validChar? (Text.hexNumber digits), cs.drop n)

def basicString : Nat → List Char → Read String
  | 0, _, _ => none
  | _ + 1, done, '"' :: cs => some (String.ofList done.reverse, cs)
  | fuel + 1, done, '\\' :: cs => do
    let (c, cs) ← escape cs
    basicString fuel (c :: done) cs
  | fuel + 1, done, c :: cs => if isNewline c then none else basicString fuel (c :: done) cs
  | _ + 1, _, [] => none

def literalString : List Char → Read String
  | _, [] => none
  | done, '\'' :: cs => some (String.ofList done.reverse, cs)
  | done, c :: cs => if isNewline c then none else literalString (c :: done) cs

def dropFirstNewline : List Char → List Char
  | '\n' :: cs => cs
  | '\r' :: '\n' :: cs => cs
  | cs => cs

/-- How many of a run of `k` quotes belong to a string that the last three close. A closed string
may end in two quotes, and in three behind an escaped backslash. -/
def closingQuotes (k : Nat) (behindBackslash : Bool) : Option Nat :=
  if k ≤ 5 || (k = 6 && behindBackslash) then some (k - 3) else none

def isWide (c : Char) : Bool := isBlank c || isNewline c

/-- The rest of a string over several lines. `escaped` says that an escaped backslash was read last. -/
def multilineString : Nat → List Char → Bool → Read String
  | 0, _, _, _ => none
  | _ + 1, _, _, [] => none
  | fuel + 1, done, escaped, '"' :: cs =>
    let k := (cs.takeWhile (· == '"')).length + 1
    let rest := cs.dropWhile (· == '"')
    if k < 3 then multilineString fuel (List.replicate k '"' ++ done) false rest
    else do
      let n ← closingQuotes k escaped
      return (String.ofList (List.replicate n '"' ++ done).reverse, rest)
  | fuel + 1, done, _, '\\' :: cs =>
    let gap := cs.takeWhile isWide
    if gap.contains '\n' then multilineString fuel done false (cs.dropWhile isWide)
    else do
      let (c, cs) ← escape cs
      multilineString fuel (c :: done) (c == '\\') cs
  | fuel + 1, done, _, c :: cs => multilineString fuel (c :: done) false cs

def multilineLiteral : Nat → List Char → Read String
  | 0, _, _ => none
  | _ + 1, _, [] => none
  | fuel + 1, done, '\'' :: cs =>
    let k := (cs.takeWhile (· == '\'')).length + 1
    let rest := cs.dropWhile (· == '\'')
    if k < 3 then multilineLiteral fuel (List.replicate k '\'' ++ done) rest
    else do
      let n ← closingQuotes k false
      return (String.ofList (List.replicate n '\'' ++ done).reverse, rest)
  | fuel + 1, done, c :: cs => multilineLiteral fuel (c :: done) cs

def string : Read String
  | '"' :: '"' :: '"' :: cs => multilineString (cs.length + 1) [] false (dropFirstNewline cs)
  | '"' :: cs => basicString (cs.length + 1) [] cs
  | '\'' :: '\'' :: '\'' :: cs => multilineLiteral (cs.length + 1) [] (dropFirstNewline cs)
  | '\'' :: cs => literalString [] cs
  | _ => none

/-! Keys. -/

def keyPart (cs : List Char) : Option (String × List Char) :=
  match cs with
  | '"' :: cs => basicString (cs.length + 1) [] cs
  | '\'' :: cs => literalString [] cs
  | _ =>
    let name := cs.takeWhile isBare
    if name.isEmpty then none else some (String.ofList name, cs.dropWhile isBare)

def keyUntil (close : Char) : Nat → List String → Read Key
  | 0, _, _ => none
  | fuel + 1, done, cs => do
    let (part, cs) ← keyPart (skipBlanks cs)
    match skipBlanks cs with
    | '.' :: cs => keyUntil close fuel (part :: done) cs
    | c :: cs => if c == close then some ((part :: done).reverse, cs) else none
    | [] => none

def key (close : Char) (cs : List Char) : Option (Key × List Char) :=
  keyUntil close (cs.length + 1) [] cs

/-! Numbers, dates and truth values. -/

def underscoresOk : Bool → List Char → Bool
  | after, [] => after
  | after, c :: cs => (c != '_' || after) && underscoresOk (isHex c) cs

def hasLeadingZero : List Char → Bool
  | '0' :: c :: _ => !(c == 'b' || c == 'o' || c == 'x')
  | '-' :: '0' :: _ :: _ | '+' :: '0' :: _ :: _ => true
  | _ => false

def integer? (cs : List Char) : Option Scalar := do
  if !underscoresOk false cs || hasLeadingZero cs then none
  let n ← readInt (cs.filter (· != '_'))
  if fitsInt64 n then return .integer n else none

def infinity : UInt64 := 0x7ff0000000000000
def negativeInfinity : UInt64 := 0xfff0000000000000
def notANumber : UInt64 := 0x7ff8000000000001
def negativeNotANumber : UInt64 := 0xfff8000000000001

def isExponentMark (c : Char) : Bool := c == '.' || c == 'e' || c == 'E'

def floatParts (part : List Char) : List Char → List (List Char)
  | [] => if part.isEmpty then [] else [part.reverse]
  | c :: cs =>
    if isExponentMark c then
      if part.isEmpty then floatParts [] cs else part.reverse :: floatParts [] cs
    else floatParts (c :: part) cs

def pointsOk : List Char → Bool
  | [] => true
  | '.' :: cs => (match cs with | d :: _ => isDigit d | [] => false) && pointsOk cs
  | _ :: cs => pointsOk cs

def float? (cs : List Char) : Option Scalar := do
  let parts := floatParts [] cs
  if !parts.all (underscoresOk false) || hasLeadingZero (parts.headD []) || !pointsOk cs then none
  return .float (← readDouble (cs.filter (· != '_')))

/-- Layouts of dates and times: with an offset, without, a date alone, a time alone. -/
def moment? (cs : List Char) : Option Scalar :=
  let cs := cs.map fun c => if c == 'z' then 'Z' else if c == 't' || c == ' ' then 'T' else c
  let date := Moment.dateLayout false
  let time := Moment.timeLayout false
  let both := date ++ Moment.Part.mark 'T' :: time
  let read (layout : List Moment.Part) (zone : String) (_ : Unit) : Option Moment :=
    Moment.read layout { zone } cs
  ((((Moment.read (both ++ [.zone]) {} cs).orElse (read both "datetime-local")).orElse
    (read date "date-local")).orElse (read time "time-local")).map .moment

def special (sign : List Char) (cs : List Char) : Option (Scalar × List Char) :=
  let negative := sign == ['-']
  match cs with
  | 'i' :: 'n' :: 'f' :: cs => some (.float (if negative then negativeInfinity else infinity), cs)
  | 'n' :: 'a' :: 'n' :: cs => some (.float (if negative then negativeNotANumber else notANumber), cs)
  | _ => none

def spanned {α : Type} (p : Char → Bool) (f : List Char → Option α) (cs : List Char) : Option (α × List Char) :=
  (f (cs.takeWhile p)).map (·, cs.dropWhile p)

def isFloatChar (c : Char) : Bool :=
  isDigit c || c == '_' || c == '-' || c == '+' || isExponentMark c

def isMomentChar (c : Char) : Bool := isDigit c || "-:Tt .Zz+".toList.contains c

def trimBlanks (cs : List Char) : List Char := (cs.reverse.dropWhile isBlank).reverse

def decimal (sign : List Char) (cs : List Char) : Option (Scalar × List Char) :=
  let isPart (c : Char) := isDigit c || c == '_'
  match cs.dropWhile isPart with
  | c :: rest =>
    if isExponentMark c then
      let whole := cs.takeWhile isPart
      spanned isFloatChar (fun part => float? (sign ++ whole ++ part)) (c :: rest)
    else spanned isPart (fun part => integer? (sign ++ part)) cs
  | [] => spanned isPart (fun part => integer? (sign ++ part)) cs

/-- A value that begins with a digit. Digits with a hyphen or colon behind them begin a date or time. -/
def numberOrMoment (cs : List Char) : Option (Scalar × List Char) :=
  match cs with
  | '0' :: b :: d :: _ =>
    if b == 'x' && isHex d then spanned (fun c => isHex c || c == '_' || c == 'x') integer? cs
    else if b == 'o' && (digitValue? 8 d).isSome then
      spanned (fun c => (digitValue? 8 c).isSome || c == '_' || c == 'o') integer? cs
    else if b == 'b' && (digitValue? 2 d).isSome then
      spanned (fun c => (digitValue? 2 c).isSome || c == '_' || c == 'b') integer? cs
    else plain
  | _ => plain
where
  plain : Option (Scalar × List Char) :=
    let digits := cs.takeWhile isDigit
    match cs.dropWhile isDigit with
    | c :: _ =>
      if (c == '-' || c == ':') && (digits.length ≥ 2 || digits != ['0']) then
        spanned isMomentChar (fun part => moment? (trimBlanks part)) cs
      else decimal [] cs
    | [] => decimal [] cs

def scalar (cs : List Char) : Option (Scalar × List Char) :=
  match cs with
  | '"' :: _ | '\'' :: _ => (string cs).map fun (s, rest) => (.text s, rest)
  | 't' :: 'r' :: 'u' :: 'e' :: rest => some (.bool true, rest)
  | 'f' :: 'a' :: 'l' :: 's' :: 'e' :: rest => some (.bool false, rest)
  | '-' :: rest => signed '-' rest
  | '+' :: rest => signed '+' rest
  | c :: _ => if isDigit c then numberOrMoment cs else special [] cs
  | [] => none
where
  signed (sign : Char) (rest : List Char) : Option (Scalar × List Char) :=
    match rest with
    | '0' :: b :: _ =>
      if b == 'b' || b == 'o' || b == 'x' then none else decimal [sign] rest
    | c :: _ => if isDigit c then decimal [sign] rest else special [sign] rest
    | [] => none

/-! Collections. -/

def skipWide (inComment : Bool) : List Char → List Char
  | [] => []
  | c :: cs =>
    if inComment then skipWide (!isNewline c) cs
    else if c == '#' then skipWide true cs
    else if isWide c then skipWide false cs
    else c :: cs

mutual

def item : Nat → Read Item
  | 0, _ => none
  | fuel + 1, cs =>
    match skipBlanks cs with
    | '[' :: cs => do
      let (xs, cs) ← items fuel [] cs
      return (.array xs, cs)
    | '\x7b' :: cs =>
      match skipBlanks cs with
      | '\x7d' :: cs => some (.inline [], cs)
      | cs => do
        let (es, cs) ← entries fuel [] cs
        return (.inline es, cs)
    | cs => (scalar cs).map fun (v, rest) => (.scalar v, rest)

def items : Nat → List Item → Read (List Item)
  | 0, _, _ => none
  | fuel + 1, done, cs =>
    match skipWide false cs with
    | ']' :: cs => some (done.reverse, cs)
    | cs => do
      let (x, cs) ← item fuel cs
      match skipWide false cs with
      | ',' :: cs => items fuel (x :: done) cs
      | ']' :: cs => some ((x :: done).reverse, cs)
      | _ => none

def entries : Nat → List (Key × Item) → Read (List (Key × Item))
  | 0, _, _ => none
  | fuel + 1, done, cs => do
    let (k, cs) ← key '=' cs
    let (x, cs) ← item fuel cs
    match skipBlanks cs with
    | ',' :: cs => entries fuel ((k, x) :: done) cs
    | '\x7d' :: cs => some (((k, x) :: done).reverse, cs)
    | _ => none

end

/-! Documents. -/

def lineEnd (cs : List Char) : Option (List Char) :=
  match skipBlanks cs with
  | [] => some []
  | '#' :: cs => some (skipComment cs)
  | c :: cs => if isNewline c then some cs else none

def statement : Read Statement
  | '[' :: '[' :: cs => do
    let (k, cs) ← key ']' cs
    match cs with
    | ']' :: cs => return (.element k, cs)
    | _ => none
  | '[' :: cs => do
    let (k, cs) ← key ']' cs
    return (.table k, cs)
  | cs => do
    let (k, cs) ← key '=' cs
    let (x, cs) ← item (cs.length + 1) cs
    return (.assign k x, cs)

def statements : Nat → List Statement → List Char → Option (List Statement)
  | 0, _, _ => none
  | fuel + 1, done, cs =>
    match skipWide false cs with
    | [] => some done.reverse
    | cs => do
      let (s, cs) ← statement cs
      statements fuel (s :: done) (← lineEnd cs)

def byteOrderMark : Char := Char.ofNat 0xfeff

def read (text : String) : Option (List Statement) :=
  let cs := match text.toList with
    | c :: rest => if c == byteOrderMark then rest else c :: rest
    | [] => []
  if isPlain cs then statements (cs.length + 1) [] cs else none

end ClassForge.Toml
