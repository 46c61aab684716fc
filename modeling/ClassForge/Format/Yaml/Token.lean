import ClassForge.Format.Yaml.Scalar

namespace ClassForge.Yaml

inductive Token
  | streamEnd
  | documentStart
  | documentEnd
  | version (major minor : Nat)
  | tagRule (handle lead : String)
  | sequenceStart
  | mappingStart
  | blockEnd
  | flowSequenceStart
  | flowSequenceEnd
  | flowMappingStart
  | flowMappingEnd
  | blockEntry
  | flowEntry
  | key
  | value
  | alias (name : String)
  | anchor (name : String)
  | tag (handle suffix : String)
  | scalar (text : String) (style : Style)
  | fault
  deriving DecidableEq, Repr

/-- A place where a mapping key without an indicator may have begun. A required one must be a key. -/
structure KeyPlace where
  token : Nat
  required : Bool
  line : Nat
  column : Nat
  index : Nat

/-- The tokens so far, and what the next hang on: the columns of open block collections, the depth
of brackets, and a possible key per depth, innermost first. -/
structure Scan where
  cursor : Cursor
  tokens : Array Token := #[]
  indent : Int := -1
  indents : List Int := []
  depth : Nat := 0
  keyAllowed : Bool := true
  keys : List (Option KeyPlace) := [none]
  /-- Whether nothing but blanks was read since the last line end. -/
  fresh : Bool := false

namespace Scan

def inFlow (s : Scan) : Bool := 0 < s.depth

def push (s : Scan) (t : Token) : Scan := { s with tokens := s.tokens.push t }

def moveTo (s : Scan) (c : Cursor) : Scan := { s with cursor := c, fresh := false }

def allowKey (s : Scan) (allowed : Bool) : Scan := { s with keyAllowed := allowed }

/-- Whether a key begun at a place may still end here: on the same line, at most 1024 characters on. -/
def isNear (s : Scan) (k : KeyPlace) : Bool :=
  k.line == s.cursor.line && s.cursor.index ≤ k.index + 1024

def currentKey? (s : Scan) : Option KeyPlace := s.keys.head?.join

def setKey (s : Scan) (k : Option KeyPlace) : Scan := { s with keys := k :: s.keys.tail }

def dropKey (s : Scan) : Option Scan :=
  match s.currentKey? with
  | some k => if k.required then none else some (s.setKey none)
  | none => some s

def noteKey (s : Scan) : Option Scan :=
  if s.keyAllowed then do
    let s ← s.dropKey
    let c := s.cursor
    let required := !s.inFlow && s.indent == c.column
    return s.setKey (some ⟨s.tokens.size, required, c.line, c.column, c.index⟩)
  else some s

/-- Opens a block collection at a column right of the present one, its token put at place `at?`. -/
def openBlock (s : Scan) (column : Nat) (t : Token) (at? : Option Nat) : Scan :=
  if s.inFlow || (column : Int) ≤ s.indent then s
  else
    let tokens := match at? with
      | some i => s.tokens.toList.take i ++ t :: s.tokens.toList.drop i |>.toArray
      | none => s.tokens.push t
    { s with tokens, indent := column, indents := s.indent :: s.indents }

def closeBlocksFrom (column : Int) (s : Scan) : List Int → Scan
  | [] => s
  | outer :: rest =>
    if column < s.indent then
      closeBlocksFrom column { s with tokens := s.tokens.push .blockEnd, indent := outer, indents := rest } rest
    else s

def closeBlocks (s : Scan) (column : Int) : Scan :=
  if s.inFlow then s else closeBlocksFrom column s s.indents

/-- From a comment to the end of its line, and on over further lines of comments only. -/
def skipComments : Nat → Cursor → Cursor
  | 0, c => c
  | fuel + 1, c =>
    let c := c.skipWhile (!isBreak ·)
    match Gap.read 0 c.rest.length {} c with
    | some (_, d) => if d.peek? == some '#' then skipComments fuel d else c
    | none => c

def skipGap : Nat → Scan → Scan
  | 0, s => s
  | fuel + 1, s =>
    let tabs := s.inFlow || !s.keyAllowed
    let c := s.cursor.skipWhile fun c => c == ' ' || (tabs && c == '\t')
    let c := if c.peek? == some '#' then skipComments (c.rest.length + 1) c else c
    match c.takeBreak with
    | some (_, c) => skipGap fuel { s with cursor := c, keyAllowed := s.keyAllowed || !s.inFlow }
    | none => { s with cursor := c }

def skipLineComment (s : Scan) : Scan :=
  if s.fresh || s.tokens.back? == some .blockEntry then s
  else
    let c := s.cursor.skipWhile isBlank
    if c.peek? == some '#' then { s with cursor := c.skipWhile (!isBreak ·) } else s

/-! Names. -/

def isWordChar (c : Char) : Bool := c.isAlphanum || c == '_' || c == '-'

def anchorName (c : Cursor) : Option (String × Cursor) :=
  let c := c.skip
  let name := c.rest.takeWhile isWordChar
  let c := c.skip name.length
  let ends := match c.peek? with
    | some x => isGap (some x) || "?:,]\x7d%@\x60".toList.contains x
    | none => true
  if name.isEmpty || !ends then none else some (String.ofList name, c)

def tagText : Nat → List UInt8 → Cursor → Option (List UInt8 × Cursor)
  | 0, done, c => some (done, c)
  | fuel + 1, done, c =>
    match c.rest with
    | '%' :: a :: b :: _ =>
      if isHex a && isHex b then tagText fuel (done ++ [(Text.hexNumber [a, b]).toUInt8]) (c.skip 3)
      else none
    | a :: _ =>
      if isWordChar a || ";/?:@&=+$.!~*'()".toList.contains a then
        tagText fuel (done ++ [a.toNat.toUInt8]) c.skip
      else if a == '%' then none
      else some (done, c)
    | [] => some (done, c)

/-- A tag's text; in angle brackets and rules it may hold commas and square brackets. -/
def tagRest (lead : String) (c : Cursor) : Option (String × Cursor) := do
  let (bytes, c) ← tagText (c.rest.length + 1) [] c
  let text := lead ++ ((String.fromUTF8? ⟨bytes.toArray⟩).getD "")
  if text.isEmpty then none else return (text, c)

/-- A handle: `!`, `!!` or `!name!`; what has no second mark is the beginning of a tag. -/
def tagHandle (c : Cursor) : String × Cursor :=
  let name := (c.rest.drop 1).takeWhile isWordChar
  let c := c.skip (name.length + 1)
  if c.peek? == some '!' then (String.ofList ('!' :: name ++ ['!']), c.skip)
  else (String.ofList ('!' :: name), c)

def tagFrom (c : Cursor) : Option (Token × Cursor) := do
  let (t, c) ←
    if c.ahead 1 == some '<' then do
      let (text, c) ← tagRest "" (c.skip 2)
      if c.peek? == some '>' then some (Token.tag "" text, c.skip) else none
    else
      let (handle, d) := tagHandle c
      if 1 < handle.length && handle.endsWith "!" then do
        let (text, c) ← tagRest "" d
        some (Token.tag handle text, c)
      else if handle == "!" && isGap d.peek? then some (Token.tag "" "!", d)
      else do
        let (text, c) ← tagRest (handle.drop 1).toString d
        some (Token.tag "!" text, c)
  if isGap c.peek? then some (t, c) else none

def directive (c : Cursor) : Option (Token × Cursor) := do
  let c := c.skip
  let name := c.rest.takeWhile isWordChar
  let c := c.skip name.length
  if name.isEmpty || !isGap c.peek? then none
  let c := c.skipWhile isBlank
  let (t, c) ← match String.ofList name with
    | "YAML" =>
      let major := c.rest.takeWhile Char.isDigit
      let c := c.skip major.length
      let minor := (c.rest.drop 1).takeWhile Char.isDigit
      if major.isEmpty || 2 < major.length || c.peek? != some '.' || minor.isEmpty || 2 < minor.length then none
      else
        some (Token.version ((String.ofList major).toNat?.getD 0) ((String.ofList minor).toNat?.getD 0),
          c.skip (minor.length + 1))
    | "TAG" =>
      if c.peek? != some '!' then none
      else do
        let (handle, c) := tagHandle c
        if (handle != "!" && !handle.endsWith "!") || !(c.peek?.any isBlank) then none
        let (lead, c) ← tagRest "" (c.skipWhile isBlank)
        if isGap c.peek? then some (Token.tagRule handle lead, c) else none
    | _ => none
  let c := c.skipWhile isBlank
  let c := if c.peek? == some '#' then c.skipWhile (!isBreak ·) else c
  match c.takeBreak with
  | some (_, c) => some (t, c)
  | none => if c.rest.isEmpty then some (t, c) else none

/-! The tokens. -/

def atTop (s : Scan) (t : Token) (c : Cursor) : Option Scan := do
  let s ← (s.closeBlocks (-1)).dropKey
  return ((s.allowKey false).moveTo c).push t

def openFlow (s : Scan) (t : Token) : Option Scan := do
  let s ← s.noteKey
  return { (s.moveTo s.cursor.skip).push t with depth := s.depth + 1, keys := none :: s.keys, keyAllowed := true }

def closeFlow (s : Scan) (t : Token) : Option Scan := do
  let s ← s.dropKey
  let s := if s.inFlow then { s with depth := s.depth - 1, keys := s.keys.tail } else s
  return ((s.allowKey false).moveTo s.cursor.skip).push t

def entry (s : Scan) : Option Scan := do
  if !s.inFlow && !s.keyAllowed then none
  let s ← (s.openBlock s.cursor.column .sequenceStart none).dropKey
  return ((s.allowKey true).moveTo s.cursor.skip).push .blockEntry

def explicitKey (s : Scan) : Option Scan := do
  if !s.inFlow && !s.keyAllowed then none
  let s ← (s.openBlock s.cursor.column .mappingStart none).dropKey
  return ((s.allowKey !s.inFlow).moveTo s.cursor.skip).push .key

def valueMark (s : Scan) : Option Scan := do
  let s ← match s.currentKey? with
    | some k =>
      if s.isNear k then
        let tokens := s.tokens.toList.take k.token ++ Token.key :: s.tokens.toList.drop k.token
        let s := { s with tokens := tokens.toArray }.openBlock k.column .mappingStart (some k.token)
        some ((s.setKey none).allowKey false)
      else if k.required then none
      else plainValue (s.setKey none)
    | none => plainValue s
  return (s.moveTo s.cursor.skip).push .value
where
  plainValue (s : Scan) : Option Scan :=
    if s.inFlow then some (s.allowKey false)
    else if !s.keyAllowed then none
    else some ((s.openBlock s.cursor.column .mappingStart none).allowKey true)

def word (s : Scan) (read : Cursor → Option (Token × Cursor)) : Option Scan := do
  let s ← s.noteKey
  let (t, c) ← read s.cursor
  return ((s.allowKey false).moveTo c).push t

def plainScalar (s : Scan) : Option Scan := do
  let s ← s.noteKey
  let (text, ended, c) ← plain s.inFlow (s.indent + 1).toNat s.cursor
  return { (s.moveTo c).push (.scalar text .plain) with keyAllowed := ended, fresh := ended }

def blockScalar (s : Scan) (literal : Bool) : Option Scan := do
  let s ← s.dropKey
  let (text, c) ← block literal s.indent s.cursor
  return { (s.moveTo c).push (.scalar text .block) with keyAllowed := true, fresh := true }

def next (s : Scan) : Option Scan :=
  let s := skipGap (s.cursor.rest.length + 1) s
  let s := s.closeBlocks s.cursor.column
  let c := s.cursor
  match c.rest with
  | [] => s.atTop .streamEnd c
  | a :: rest =>
    let gap := isGap rest.head?
    if c.column == 0 && a == '%' then do
      let s ← (s.closeBlocks (-1)).dropKey
      let (t, c) ← directive c
      return ((s.allowKey false).moveTo c).push t
    else if c.atMarker '-' then s.atTop .documentStart (c.skip 3)
    else if c.atMarker '.' then s.atTop .documentEnd (c.skip 3)
    else match a with
      | '[' => s.openFlow .flowSequenceStart
      | '{' => s.openFlow .flowMappingStart
      | ']' => s.closeFlow .flowSequenceEnd
      | '}' => s.closeFlow .flowMappingEnd
      | ',' => do
        let s ← s.dropKey
        return ((s.allowKey true).moveTo c.skip).push .flowEntry
      | '-' => if gap then s.entry else s.plainScalar
      | '?' => if s.inFlow || gap then s.explicitKey else s.plainScalar
      | ':' => if s.inFlow || gap then s.valueMark else s.plainScalar
      | '*' => s.word fun c => (anchorName c).map fun (n, c) => (.alias n, c)
      | '&' => s.word fun c => (anchorName c).map fun (n, c) => (.anchor n, c)
      | '!' => s.word tagFrom
      | '\'' => s.word fun c => (quoted false c).map fun (t, c) => (.scalar t .quoted, c)
      | '"' => s.word fun c => (quoted true c).map fun (t, c) => (.scalar t .quoted, c)
      | '|' => if s.inFlow then none else s.blockScalar true
      | '>' => if s.inFlow then none else s.blockScalar false
      | _ => if isBlank a || "#%@\x60".toList.contains a then none else s.plainScalar

/-- How many tokens can be used when the text breaks off: not those that may yet be keys, and not
the last two, which are read ahead. -/
def settled (s : Scan) : Nat :=
  (s.keys.filterMap id).foldl (fun n k => if k.required || s.isNear k then min n k.token else n) (s.tokens.size - 2)

def run : Nat → Scan → List Token
  | 0, s => s.tokens.toList
  | fuel + 1, s =>
    if s.tokens.back? == some .streamEnd then s.tokens.toList
    else match s.next with
      | some s => run fuel s.skipLineComment
      | none => s.tokens.toList.take s.settled ++ [.fault]

end Scan

def tokens (text : String) : List Token :=
  let cs := match text.toList with
    | c :: cs => if c.toNat == 0xfeff then cs else c :: cs
    | [] => []
  if cs.all isAllowed then Scan.run (cs.length + 1) { cursor := ⟨cs, 0, 0, 0⟩ } else [.fault]

end ClassForge.Yaml
