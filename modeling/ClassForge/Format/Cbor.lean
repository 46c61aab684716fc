import ClassForge.Format.MessagePack

namespace ClassForge.Cbor

open MessagePack.Item (natOf number? take?)

inductive Item
  | uint (value : Nat)
  | nint (value : Nat)
  | bytes (value : List UInt8)
  | text (value : List UInt8)
  | array (items : List Item)
  | map (pairs : List (Item × Item))
  | tag (number : Nat) (item : Item)
  | simple (code : Nat)
  | float (bytes : List UInt8)

namespace Item

def null : Item := .simple 22

def ofText (s : String) : Item := .text (Text.encodeUtf8 s)

def head (major : Nat) (n : Nat) : List UInt8 :=
  let m := major * 32
  if n < 24 then [(m + n).toUInt8]
  else if n < 256 then [(m + 24).toUInt8, n.toUInt8]
  else if n < 65536 then (m + 25).toUInt8 :: be16 n.toUInt16
  else if n < 4294967296 then (m + 26).toUInt8 :: be32 n.toUInt32
  else (m + 27).toUInt8 :: be64 n.toUInt64

mutual

def encode : Item → List UInt8
  | .uint n => head 0 n
  | .nint n => head 1 n
  | .bytes bs => head 2 bs.length ++ bs
  | .text bs => head 3 bs.length ++ bs
  | .array xs => head 4 xs.length ++ encodeAll xs
  | .map kvs => head 5 kvs.length ++ encodePairs kvs
  | .tag n x => head 6 n ++ encode x
  | .simple n => if n < 24 then [(0xe0 + n).toUInt8] else [0xf8, n.toUInt8]
  | .float bs => (if bs.length = 2 then 0xf9 else if bs.length = 4 then 0xfa else 0xfb) :: bs

def encodeAll : List Item → List UInt8
  | [] => []
  | x :: xs => encode x ++ encodeAll xs

def encodePairs : List (Item × Item) → List UInt8
  | [] => []
  | (k, v) :: kvs => encode k ++ encode v ++ encodePairs kvs

end

def readHead : List UInt8 → Option (Nat × Option Nat × List UInt8)
  | [] => none
  | c :: r =>
    let major := c.toNat / 32
    let info := c.toNat % 32
    if info < 24 then some (major, some info, r)
    else match info with
      | 24 => (number? 1 r).map fun (n, r) => (major, some n, r)
      | 25 => (number? 2 r).map fun (n, r) => (major, some n, r)
      | 26 => (number? 4 r).map fun (n, r) => (major, some n, r)
      | 27 => (number? 8 r).map fun (n, r) => (major, some n, r)
      | 31 => some (major, none, r)
      | _ => none

def maxDepth : Nat := 32
def maxElements : Nat := 131072

def chunks (major : Nat) : Nat → List UInt8 → Option (List UInt8 × List UInt8)
  | 0, _ => none
  | fuel + 1, bs =>
    match bs with
    | 0xff :: r => some ([], r)
    | _ => do
      match ← readHead bs with
      | (m, some n, r) =>
        if m ≠ major then none
        else
          let (a, r) ← take? n r
          let (rest, r) ← chunks major fuel r
          pure (a ++ rest, r)
      | _ => none

def parseSimple (c : UInt8) (r : List UInt8) : Option (Item × List UInt8) :=
  match c.toNat % 32 with
  | 24 => match r with
    | n :: r => if n < 32 then none else some (.simple n.toNat, r)
    | [] => none
  | 25 => (take? 2 r).map fun (b, r) => (.float b, r)
  | 26 => (take? 4 r).map fun (b, r) => (.float b, r)
  | 27 => (take? 8 r).map fun (b, r) => (.float b, r)
  | n => if n < 24 then some (.simple n, r) else none

mutual

def parseWithin : Nat → Nat → List UInt8 → Option (Item × List UInt8)
  | 0, _, _ | _, _, [] => none
  | fuel + 1, depth, c :: r => do
    if c.toNat / 32 = 7 then parseSimple c r
    else
      match ← readHead (c :: r) with
      | (0, some n, r) => pure (.uint n, r)
      | (1, some n, r) => pure (.nint n, r)
      | (2, some n, r) => let (b, r) ← take? n r; pure (.bytes b, r)
      | (2, none, r) => let (b, r) ← chunks 2 (r.length + 1) r; pure (.bytes b, r)
      | (3, some n, r) => let (b, r) ← take? n r; pure (.text b, r)
      | (3, none, r) => let (b, r) ← chunks 3 (r.length + 1) r; pure (.text b, r)
      | (4, some n, r) =>
        if depth = 0 ∨ maxElements < n then none
        else let (xs, r) ← parseItems fuel (depth - 1) n r; pure (.array xs, r)
      | (4, none, r) =>
        if depth = 0 then none
        else let (xs, r) ← parseUntilBreak fuel (depth - 1) r; pure (.array xs, r)
      | (5, some n, r) =>
        if depth = 0 ∨ maxElements < n then none
        else let (kvs, r) ← parsePairs fuel (depth - 1) n r; pure (.map kvs, r)
      | (5, none, r) =>
        if depth = 0 then none
        else let (kvs, r) ← parsePairsUntilBreak fuel (depth - 1) r; pure (.map kvs, r)
      | (6, some n, r) =>
        if depth = 0 then none
        else let (x, r) ← parseWithin fuel (depth - 1) r; pure (.tag n x, r)
      | _ => none

def parseItems : Nat → Nat → Nat → List UInt8 → Option (List Item × List UInt8)
  | _, _, 0, r => some ([], r)
  | 0, _, _ + 1, _ => none
  | fuel + 1, depth, n + 1, r => do
    let (x, r) ← parseWithin fuel depth r
    let (xs, r) ← parseItems fuel depth n r
    pure (x :: xs, r)

def parseUntilBreak : Nat → Nat → List UInt8 → Option (List Item × List UInt8)
  | 0, _, _ => none
  | _, _, 0xff :: r => some ([], r)
  | fuel + 1, depth, r => do
    let (x, r) ← parseWithin fuel depth r
    let (xs, r) ← parseUntilBreak fuel depth r
    pure (x :: xs, r)

def parsePairs : Nat → Nat → Nat → List UInt8 → Option (List (Item × Item) × List UInt8)
  | _, _, 0, r => some ([], r)
  | 0, _, _ + 1, _ => none
  | fuel + 1, depth, n + 1, r => do
    let (k, r) ← parseWithin fuel depth r
    let (v, r) ← parseWithin fuel depth r
    let (kvs, r) ← parsePairs fuel depth n r
    pure ((k, v) :: kvs, r)

def parsePairsUntilBreak : Nat → Nat → List UInt8 → Option (List (Item × Item) × List UInt8)
  | 0, _, _ => none
  | _, _, 0xff :: r => some ([], r)
  | fuel + 1, depth, r => do
    let (k, r) ← parseWithin fuel depth r
    let (v, r) ← parseWithin fuel depth r
    let (kvs, r) ← parsePairsUntilBreak fuel depth r
    pure ((k, v) :: kvs, r)

end

def parse (bs : List UInt8) : Option Item := (parseWithin (2 * bs.length + 1) maxDepth bs).map (·.1)

/-- A value without the tags around it. Tags for dates and big numbers must hold what they announce. -/
def untag : Item → Option Item
  | .tag 0 (.text bs) => some (.text bs)
  | .tag 0 _ => none
  | .tag 2 (.bytes bs) => some (.uint (natOf bs))
  | .tag 2 _ => none
  | .tag 3 _ => none
  | .tag 1 (.uint n) => some (.uint n)
  | .tag 1 (.nint n) => some (.nint n)
  | .tag 1 (.float bs) => some (.float bs)
  | .tag 1 _ => none
  | .tag _ x => untag x
  | x => some x

def isNothing (x : Item) : Bool :=
  match x with
  | .simple 22 | .simple 23 => true
  | _ => false

/-! Reading records: missing values are zero. -/

def toWord (x : Item) : Option UInt16 := do
  match ← untag x with
  | .uint n => if n < 65536 then some n.toUInt16 else none
  | x => if isNothing x then some 0 else none

def isUtf8 (bs : List UInt8) : Bool := (Text.decodeUtf8 bs).flatMap Text.encodeChar == bs

def toText (x : Item) : Option String := do
  match ← untag x with
  | .text bs => if isUtf8 bs then some (String.ofList (Text.decodeUtf8 bs)) else none
  | x => if isNothing x then some "" else none

def toList (x : Item) : Option (List Item) := do
  match ← untag x with
  | .array xs => some xs
  | x => if isNothing x then some [] else none

/-- The values of a record's fields by key number; the first value of a repeated key counts. -/
def record (fields : List Nat) (x : Item) : Option (List Item) := do
  match ← untag x with
  | .map kvs =>
    let named := kvs.filterMap fun (k, v) => match k with
      | .uint n => some (n, v)
      | _ => none
    let readable := kvs.all fun (k, _) => match k with
      | .uint _ | .nint _ => true
      | .text bs => isUtf8 bs
      | _ => false
    if readable then some (fields.map fun f => (named.lookup f).getD null) else none
  | x => if isNothing x then some (fields.map fun _ => null) else none

end Item

end ClassForge.Cbor
