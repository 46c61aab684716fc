import ClassForge.Text.Table

namespace ClassForge.Yaml

/-- A place in a text: what follows, the line and column, and how many characters were read. -/
structure Cursor where
  rest : List Char
  line : Nat := 0
  column : Nat := 0
  index : Nat := 0

def isBlank (c : Char) : Bool := c == ' ' || c == '\t'

def isBreak (c : Char) : Bool :=
  c == '\n' || c == '\r' || c.toNat == 0x85 || c.toNat == 0x2028 || c.toNat == 0x2029

def isGap : Option Char → Bool
  | some c => isBlank c || isBreak c
  | none => true

def isAllowed (c : Char) : Bool :=
  let n := c.toNat
  n == 0x09 || n == 0x0a || n == 0x0d || (0x20 ≤ n && n ≤ 0x7e) || n == 0x85 ||
    (0xa0 ≤ n && n ≤ 0xfffd && n != 0xfeff) || 0x10000 ≤ n

namespace Cursor

def peek? (c : Cursor) : Option Char := c.rest.head?

def ahead (c : Cursor) (n : Nat) : Option Char := c.rest[n]?

def skip (c : Cursor) (n : Nat := 1) : Cursor :=
  { c with rest := c.rest.drop n, column := c.column + n, index := c.index + n }

def takeBreak (c : Cursor) : Option (Char × Cursor) :=
  match c.rest with
  | '\r' :: '\n' :: rest => some ('\n', ⟨rest, c.line + 1, 0, c.index + 2⟩)
  | b :: rest =>
    if isBreak b then
      some (if b == '\r' || b.toNat == 0x85 then '\n' else b, ⟨rest, c.line + 1, 0, c.index + 1⟩)
    else none
  | [] => none

def skipWhile (c : Cursor) (p : Char → Bool) : Cursor := c.skip (c.rest.takeWhile p).length

def atMarker (c : Cursor) (mark : Char) : Bool :=
  c.column == 0 && (c.rest.take 3) == [mark, mark, mark] && isGap (c.ahead 3)

def atDocument (c : Cursor) : Bool := c.atMarker '-' || c.atMarker '.'

end Cursor

/-- Blanks and line ends between two pieces of a scalar: the blanks before the first line end, it,
and the further ones. -/
structure Gap where
  blanks : List Char := []
  first : Option Char := none
  more : List Char := []

namespace Gap

/-- What a gap leaves in a scalar: one line end is a blank, of more the first is dropped. -/
def text (g : Gap) : List Char :=
  match g.first with
  | none => g.blanks
  | some '\n' => if g.more.isEmpty then [' '] else g.more
  | some b => b :: g.more

def breaks (g : Gap) : List Char := g.first.toList ++ g.more

def read (indent : Nat) : Nat → Gap → Cursor → Option (Gap × Cursor)
  | 0, g, c => some (g, c)
  | fuel + 1, g, c =>
    match c.peek? with
    | none => some (g, c)
    | some b =>
      if isBlank b then
        if g.first.isNone then read indent fuel { g with blanks := g.blanks ++ [b] } c.skip
        else if b == '\t' && c.column < indent then none
        else read indent fuel g c.skip
      else
        match c.takeBreak with
        | none => some (g, c)
        | some (b, c) =>
          if g.first.isNone then read indent fuel { g with first := some b } c
          else read indent fuel { g with more := g.more ++ [b] } c

end Gap

end ClassForge.Yaml
