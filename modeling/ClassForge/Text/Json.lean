import ClassForge.Text.Quoted

namespace ClassForge.Text

def jsonEscape (n : Nat) : List Char := '\\' :: 'u' :: hexPadded 4 n

/-- A character inside a JSON string. Characters with a meaning in HTML are escaped too. -/
def jsonChar (c : Char) : List Char :=
  match c with
  | '"' => ['\\', '"']
  | '\\' => ['\\', '\\']
  | '\n' => ['\\', 'n']
  | '\r' => ['\\', 'r']
  | '\t' => ['\\', 't']
  | c =>
    if c.toNat = 8 then ['\\', 'b']
    else if c.toNat = 12 then ['\\', 'f']
    else if c.toNat < 32 ∨ c = '<' ∨ c = '>' ∨ c = '&' ∨ c.toNat = 0x2028 ∨ c.toNat = 0x2029 then
      jsonEscape c.toNat
    else [c]

def jsonQuote (s : String) : String := String.ofList ('"' :: s.toList.flatMap jsonChar ++ ['"'])

inductive Json
  | null
  | bool (b : Bool)
  | raw (text : String)
  | str (s : String)
  | arr (items : List Json)
  | obj (members : List (String × Json))

namespace Json

def int (n : Int) : Json := .raw (toString n)

mutual

def compact : Json → String
  | .null => "null"
  | .bool b => if b then "true" else "false"
  | .raw t => t
  | .str s => jsonQuote s
  | .arr xs => "[" ++ ",".intercalate (compactAll xs) ++ "]"
  | .obj ms => "\x7b" ++ ",".intercalate (compactMembers ms) ++ "\x7d"

def compactAll : List Json → List String
  | [] => []
  | x :: xs => compact x :: compactAll xs

def compactMembers : List (String × Json) → List String
  | [] => []
  | (k, v) :: ms => (jsonQuote k ++ ":" ++ compact v) :: compactMembers ms

end

def newline (depth : Nat) : String := "\n" ++ String.ofList (List.replicate (2 * depth) ' ')

mutual

def pretty (depth : Nat) : Json → String
  | .null => "null"
  | .bool b => if b then "true" else "false"
  | .raw t => t
  | .str s => jsonQuote s
  | .arr [] => "[]"
  | .arr (x :: xs) =>
    "[" ++ newline (depth + 1) ++ (("," ++ newline (depth + 1)).intercalate (prettyAll (depth + 1) (x :: xs))) ++
      newline depth ++ "]"
  | .obj [] => "\x7b\x7d"
  | .obj (m :: ms) =>
    "\x7b" ++ newline (depth + 1) ++
      (("," ++ newline (depth + 1)).intercalate (prettyMembers (depth + 1) (m :: ms))) ++ newline depth ++ "\x7d"

def prettyAll (depth : Nat) : List Json → List String
  | [] => []
  | x :: xs => pretty depth x :: prettyAll depth xs

def prettyMembers (depth : Nat) : List (String × Json) → List String
  | [] => []
  | (k, v) :: ms => (jsonQuote k ++ ": " ++ pretty depth v) :: prettyMembers depth ms

end

end Json

end ClassForge.Text
