import ClassForge.Format.Yaml.Cursor

namespace ClassForge.Yaml

inductive Style
  | plain
  | quoted
  | block
  deriving DecidableEq, Repr

/-! Plain scalars. -/

def continuesPlain (inFlow : Bool) (c : Char) (next : Option Char) : Bool :=
  !(isBlank c || isBreak c || (c == ':' && isGap next) || (inFlow && ",?[]\x7b\x7d".toList.contains c))

def plainRun (inFlow : Bool) : List Char → List Char
  | [] => []
  | c :: cs => if continuesPlain inFlow c cs.head? then c :: plainRun inFlow cs else []

/-- A plain scalar from its first character on. The flag says that it ends at a new line. Outside of
brackets lines must be indented. -/
def plainFrom (inFlow : Bool) (indent : Nat) : Nat → List Char → Gap → Cursor → Option (String × Bool × Cursor)
  | 0, _, _, _ => none
  | fuel + 1, done, gap, c =>
    let stop := some (String.ofList done, gap.first.isSome, c)
    if c.atDocument || c.peek? == some '#' then stop
    else
      let run := plainRun inFlow c.rest
      let done := if run.isEmpty then done else done ++ gap.text ++ run
      let gap := if run.isEmpty then gap else {}
      let c := c.skip run.length
      if c.rest.isEmpty || !isGap c.peek? then some (String.ofList done, gap.first.isSome, c)
      else do
        let (gap, c) ← Gap.read indent c.rest.length gap c
        if !inFlow && c.column < indent then some (String.ofList done, gap.first.isSome, c)
        else plainFrom inFlow indent fuel done gap c

def plain (inFlow : Bool) (indent : Nat) (c : Cursor) : Option (String × Bool × Cursor) :=
  plainFrom inFlow indent (c.rest.length + 1) [] {} c

/-! Quoted scalars. -/

def simpleEscape? : Char → Option Char
  | '0' => some (Char.ofNat 0)
  | 'a' => some '\x07'
  | 'b' => some '\x08'
  | 't' | '\t' => some '\t'
  | 'n' => some '\n'
  | 'v' => some '\x0b'
  | 'f' => some '\x0c'
  | 'r' => some '\r'
  | 'e' => some '\x1b'
  | ' ' => some ' '
  | '"' => some '"'
  | '\'' => some '\''
  | '\\' => some '\\'
  | 'N' => some (Char.ofNat 0x85)
  | '_' => some (Char.ofNat 0xa0)
  | 'L' => some (Char.ofNat 0x2028)
  | 'P' => some (Char.ofNat 0x2029)
  | _ => none

def hexLength : Char → Nat
  | 'x' => 2
  | 'u' => 4
  | 'U' => 8
  | _ => 0

def isHex (c : Char) : Bool := c.isDigit || ('a' ≤ c && c ≤ 'f') || ('A' ≤ c && c ≤ 'F')

/-- The character of an escape and the number of characters it takes behind the backslash. -/
def escape? (c : Char) (rest : List Char) : Option (Char × Nat) :=
  match hexLength c with
  | 0 => (simpleEscape? c).map (·, 1)
  | n =>
    let digits := rest.take n
    let value := Text.hexNumber digits
    if digits.length < n || !digits.all isHex || (0xd800 ≤ value && value ≤ 0xdfff) || 0x10ffff < value then none
    else some (Char.ofNat value, n + 1)

def quotedFrom (double : Bool) : Nat → List Char → Cursor → Option (String × Cursor)
  | 0, _, _ => none
  | fuel + 1, done, c =>
    if c.atDocument then none
    else match c.rest with
      | [] => none
      | a :: rest =>
        if isBlank a || isBreak a then do
          let (gap, c) ← Gap.read 0 c.rest.length {} c
          quotedFrom double fuel (gap.text.reverse ++ done) c
        else if double then
          if a == '"' then some (String.ofList done.reverse, c.skip)
          else if a == '\\' then
            match rest with
            | [] => none
            | b :: more =>
              if isBreak b then do
                let (_, c) ← c.skip.takeBreak
                let (gap, c) ← Gap.read 0 c.rest.length {} c
                quotedFrom double fuel (gap.breaks.reverse ++ done) c
              else do
                let (x, n) ← escape? b more
                quotedFrom double fuel (x :: done) (c.skip (n + 1))
          else quotedFrom double fuel (a :: done) c.skip
        else if a == '\'' then
          if rest.head? == some '\'' then quotedFrom double fuel ('\'' :: done) (c.skip 2)
          else some (String.ofList done.reverse, c.skip)
        else quotedFrom double fuel (a :: done) c.skip

def quoted (double : Bool) (c : Cursor) : Option (String × Cursor) :=
  quotedFrom double (c.rest.length + 1) [] c.skip

/-! Block scalars. -/

inductive Chomp
  | strip
  | clip
  | keep
  deriving DecidableEq, Repr

def chomp? : Option Char → Option Chomp
  | some '+' => some .keep
  | some '-' => some .strip
  | _ => none

def increment? : Option Char → Option Nat
  | some c => if c.isDigit then some (c.toNat - '0'.toNat) else none
  | none => none

def header (c : Cursor) : Option (Chomp × Option Nat × Cursor) :=
  match chomp? c.peek? with
  | some k =>
    match increment? (c.ahead 1) with
    | some 0 => none
    | some n => some (k, some n, c.skip 2)
    | none => some (k, none, c.skip)
  | none =>
    match increment? c.peek? with
    | some 0 => none
    | some n =>
      match chomp? (c.ahead 1) with
      | some k => some (k, some n, c.skip 2)
      | none => some (.clip, some n, c.skip)
    | none => some (.clip, none, c)

/-- Empty lines of a block scalar: their line ends, the deepest indentation, and the cursor behind
the indentation of the next line. Without a known indentation all blanks count as such. -/
def emptyLines (indent : Option Nat) : Nat → Nat → List Char → Cursor → Option (List Char × Nat × Cursor)
  | 0, _, _, _ => none
  | fuel + 1, deepest, breaks, c =>
    let blanks := (c.rest.takeWhile (· == ' ')).length
    let n := match indent with
      | some i => min blanks (i - c.column)
      | none => blanks
    let c := c.skip n
    let deepest := max deepest c.column
    let inside := match indent with
      | some i => c.column < i
      | none => true
    if inside && c.peek? == some '\t' then none
    else match c.takeBreak with
      | some (b, c) => emptyLines indent fuel deepest (breaks ++ [b]) c
      | none => some (breaks, deepest, c)

/-- The lines of a block scalar. `last` is the line end behind the line before, `breaks` those of
empty lines since, and `spaced` says that the line before begins with a blank. -/
def blockLines (literal : Bool) (indent : Nat) :
    Nat → List Char → Option Char → List Char → Bool → Cursor → Option (List Char × Option Char × List Char × Cursor)
  | 0, _, _, _, _, _ => none
  | fuel + 1, done, last, breaks, spaced, c =>
    if c.column != indent || c.rest.isEmpty then some (done, last, breaks, c)
    else
      let blank := isGap c.peek? && !(c.takeBreak.isSome)
      let folds := !literal && !spaced && !blank && last == some '\n'
      let joint := if folds then (if breaks.isEmpty then [' '] else []) else last.toList
      let line := c.rest.takeWhile (!isBreak ·)
      let done := done ++ joint ++ breaks ++ line
      let c := c.skip line.length
      let (last, c) := match c.takeBreak with
        | some (b, c) => (some b, c)
        | none => (none, c)
      match emptyLines (some indent) (c.rest.length + 1) 0 [] c with
      | none => none
      | some (breaks, _, c) => blockLines literal indent fuel done last breaks blank c

/-- A block scalar, from its indicator on, in a collection at column `outer` (-1 at the top). -/
def block (literal : Bool) (outer : Int) (c : Cursor) : Option (String × Cursor) := do
  let (chomp, increment, c) ← header c.skip
  let c := c.skipWhile isBlank
  let c := if c.peek? == some '#' then c.skipWhile (!isBreak ·) else c
  let c ← match c.takeBreak with
    | some (_, c) => some c
    | none => if c.rest.isEmpty then some c else none
  let given : Option Nat := increment.map fun n => if 0 ≤ outer then outer.toNat + n else n
  let (breaks, deepest, c) ← emptyLines given (c.rest.length + 1) 0 [] c
  let indent := given.getD (max deepest (max (outer + 1).toNat 1))
  let (text, last, breaks, c) ← blockLines literal indent (c.rest.length + 1) [] none breaks false c
  let ending := if chomp == .strip then [] else last.toList
  return (String.ofList (text ++ ending ++ (if chomp == .keep then breaks else [])), c)

end ClassForge.Yaml
