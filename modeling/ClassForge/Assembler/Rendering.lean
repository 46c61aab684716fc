import ClassForge.Assembler.Expr
import ClassForge.Text.Utf8

namespace ClassForge.Assembler

/-- The character of a code; surrogates have none and show the replacement character. -/
def charOfCode (n : Nat) : Char :=
  if n.isValidChar then Char.ofNat n else Text.replacement

def Value.render (t : JType) : Value → String
  | .null => "null"
  | .bool b => if b then "true" else "false"
  | .text s => Text.quote s
  | .int n =>
    if t.kind = .prim .char then Text.quoteChar (charOfCode n.toInt.toNat) else toString n.toInt
  | .long n => toString n.toInt ++ "L"
  | .float b => FloatLayout.general.write .single b.toNat ++ "f"
  | .double b =>
    let s := FloatLayout.general.write .double b.toNat
    if s.toList.any (['.', 'e', 'E', 'n', 'N'].contains ·) then s else s ++ ".0"
  | .type t => t.simpleName ++ ".class"

namespace Expr

mutual

/-- An expression in source-like form, fully parenthesized: what the assembler added is left out. -/
def render : Expr → String
  | .const t v _ => v.render t
  | .self _ asSuper => if asSuper then "super" else "this"
  | .local l => l.name
  | .staticGet _ owner name _ => owner.simpleName ++ "." ++ name
  | .primitiveClass t _ => t.spelling ++ ".class"
  | .fieldGet _ name _ a => render a ++ "." ++ name
  | .arrayGet _ a i => render a ++ "[" ++ render i ++ "]"
  | .arrayLength a => render a ++ ".length"
  | .invoke _ target implicit args =>
    match args with
    | [] => target.owner.simpleName ++ "." ++ target.name ++ "()"
    | a :: rest =>
      if implicit then render a
      else if target.op = .invokestatic then
        target.owner.simpleName ++ "." ++ target.name ++ "(" ++ render a ++ renderMore rest ++ ")"
      else render a ++ "." ++ target.name ++ "(" ++ renderList rest ++ ")"
  | .new t _ _ args => "new " ++ t.simpleName ++ "(" ++ renderList args ++ ")"
  | .newArray t _ n => "new " ++ t.arrayOf.elem.simpleName ++ "[" ++ render n ++ "]"
  | .convert t _ implicit a =>
    if implicit then render a else "((" ++ t.simpleName ++ ") " ++ render a ++ ")"
  | .checkCast _ _ a => render a
  | .neg _ a => "-" ++ render a
  | .not a => "!" ++ render a
  | .binary _ op a b => "(" ++ render a ++ " " ++ op.symbol ++ " " ++ render b ++ ")"
  | .compare c a b => "(" ++ render a ++ " " ++ c.symbol ++ " " ++ render b ++ ")"
  | .nullTest c a => "(" ++ render a ++ " " ++ c.symbol ++ " null)"
  | .instanceOf t _ a => "(" ++ render a ++ " instanceof " ++ t.simpleName ++ ")"
  | .logic conj a b => "(" ++ render a ++ (if conj then " && " else " || ") ++ render b ++ ")"
  | .concat _ a b => "(" ++ render a ++ " + " ++ render b ++ ")"

def renderList : List Expr → String
  | [] => ""
  | e :: es => render e ++ renderMore es

def renderMore : List Expr → String
  | [] => ""
  | e :: es => ", " ++ render e ++ renderMore es

end

end Expr

end ClassForge.Assembler
