import ClassForge.ClassFile.Writer
import ClassForge.Text.Utf8

namespace ClassForge.MessagePack

/-- A MessagePack value. Integers of the two-byte unsigned form, in which numbers are written, are
kept apart. -/
inductive Item
  | nil
  | bool (value : Bool)
  | uint16 (value : UInt16)
  | int (value : Int)
  | float (bytes : List UInt8)
  | str (bytes : List UInt8)
  | bin (bytes : List UInt8)
  | array (items : List Item)
  | map (pairs : List (Item × Item))
  | ext (type : UInt8) (bytes : List UInt8)

namespace Item

def text (s : String) : Item := .str (Text.encodeUtf8 s)

/-- A length behind one of three markers: one with the length in it, one for two bytes, one for four. -/
def sized (fixed : Nat) (limit : Nat) (two four : UInt8) (n : Nat) : List UInt8 :=
  if n < limit then [(fixed + n).toUInt8]
  else if n < 65536 then two :: be16 n.toUInt16
  else four :: be32 n.toUInt32

def strHead (n : Nat) : List UInt8 :=
  if n < 32 then [(0xa0 + n).toUInt8]
  else if n < 256 then [0xd9, n.toUInt8]
  else if n < 65536 then 0xda :: be16 n.toUInt16
  else 0xdb :: be32 n.toUInt32

def binHead (n : Nat) : List UInt8 :=
  if n < 256 then [0xc4, n.toUInt8]
  else if n < 65536 then 0xc5 :: be16 n.toUInt16
  else 0xc6 :: be32 n.toUInt32

def extHead (n : Nat) : List UInt8 :=
  match n with
  | 1 => [0xd4]
  | 2 => [0xd5]
  | 4 => [0xd6]
  | 8 => [0xd7]
  | 16 => [0xd8]
  | n =>
    if n < 256 then [0xc7, n.toUInt8]
    else if n < 65536 then 0xc8 :: be16 n.toUInt16
    else 0xc9 :: be32 n.toUInt32

mutual

def encode : Item → List UInt8
  | .nil => [0xc0]
  | .bool b => [if b then 0xc3 else 0xc2]
  | .uint16 n => 0xcd :: be16 n
  | .int n => 0xd3 :: be64 (UInt64.ofNat (n % 18446744073709551616).toNat)
  | .float bs => if bs.length = 4 then 0xca :: bs else 0xcb :: bs
  | .str bs => strHead bs.length ++ bs
  | .bin bs => binHead bs.length ++ bs
  | .array xs => sized 0x90 16 0xdc 0xdd xs.length ++ encodeAll xs
  | .map kvs => sized 0x80 16 0xde 0xdf kvs.length ++ encodePairs kvs
  | .ext t bs => extHead bs.length ++ t :: bs

def encodeAll : List Item → List UInt8
  | [] => []
  | x :: xs => encode x ++ encodeAll xs

def encodePairs : List (Item × Item) → List UInt8
  | [] => []
  | (k, v) :: kvs => encode k ++ encode v ++ encodePairs kvs

end

def take? (n : Nat) (bs : List UInt8) : Option (List UInt8 × List UInt8) :=
  if bs.length < n then none else some (bs.splitAt n)

def natOf (bs : List UInt8) : Nat := bs.foldl (fun n b => n * 256 + b.toNat) 0

def number? (n : Nat) (bs : List UInt8) : Option (Nat × List UInt8) :=
  (take? n bs).map fun (a, r) => (natOf a, r)

def signed (bits : Nat) (n : Nat) : Int :=
  if n < 1 <<< (bits - 1) then n else (n : Int) - (1 <<< bits : Nat)

inductive Head
  | done (item : Item)
  | strOf (n : Nat)
  | binOf (n : Nat)
  | arrayOf (n : Nat)
  | mapOf (n : Nat)
  | extOf (n : Nat)

def readHead (c : UInt8) (r : List UInt8) : Option (Head × List UInt8) :=
  let m := c.toNat
  let sizedBy (n : Nat) (f : Nat → Head) : Option (Head × List UInt8) :=
    (number? n r).map fun (v, r) => (f v, r)
  if m < 0x80 then some (.done (.int m), r)
  else if m < 0x90 then some (.mapOf (m - 0x80), r)
  else if m < 0xa0 then some (.arrayOf (m - 0x90), r)
  else if m < 0xc0 then some (.strOf (m - 0xa0), r)
  else if 0xe0 ≤ m then some (.done (.int (m - 256 : Int)), r)
  else match m with
    | 0xc0 => some (.done .nil, r)
    | 0xc2 => some (.done (.bool false), r)
    | 0xc3 => some (.done (.bool true), r)
    | 0xc4 => sizedBy 1 .binOf
    | 0xc5 => sizedBy 2 .binOf
    | 0xc6 => sizedBy 4 .binOf
    | 0xc7 => sizedBy 1 .extOf
    | 0xc8 => sizedBy 2 .extOf
    | 0xc9 => sizedBy 4 .extOf
    | 0xca => (take? 4 r).map fun (b, r) => (.done (.float b), r)
    | 0xcb => (take? 8 r).map fun (b, r) => (.done (.float b), r)
    | 0xcc => sizedBy 1 fun n => .done (.int n)
    | 0xcd => sizedBy 2 fun n => .done (.uint16 n.toUInt16)
    | 0xce => sizedBy 4 fun n => .done (.int n)
    | 0xcf => sizedBy 8 fun n => .done (.int n)
    | 0xd0 => sizedBy 1 fun n => .done (.int (signed 8 n))
    | 0xd1 => sizedBy 2 fun n => .done (.int (signed 16 n))
    | 0xd2 => sizedBy 4 fun n => .done (.int (signed 32 n))
    | 0xd3 => sizedBy 8 fun n => .done (.int (signed 64 n))
    | 0xd4 => some (.extOf 1, r)
    | 0xd5 => some (.extOf 2, r)
    | 0xd6 => some (.extOf 4, r)
    | 0xd7 => some (.extOf 8, r)
    | 0xd8 => some (.extOf 16, r)
    | 0xd9 => sizedBy 1 .strOf
    | 0xda => sizedBy 2 .strOf
    | 0xdb => sizedBy 4 .strOf
    | 0xdc => sizedBy 2 .arrayOf
    | 0xdd => sizedBy 4 .arrayOf
    | 0xde => sizedBy 2 .mapOf
    | 0xdf => sizedBy 4 .mapOf
    | _ => none

mutual

/-- One value at the head of the bytes and what follows it. As many steps as bytes suffice. -/
def parseWithin : Nat → List UInt8 → Option (Item × List UInt8)
  | 0, _ | _, [] => none
  | fuel + 1, c :: r => do
    match ← readHead c r with
    | (.done x, r) => pure (x, r)
    | (.strOf n, r) => let (bs, r) ← take? n r; pure (.str bs, r)
    | (.binOf n, r) => let (bs, r) ← take? n r; pure (.bin bs, r)
    | (.arrayOf n, r) => let (xs, r) ← parseItems fuel n r; pure (.array xs, r)
    | (.mapOf n, r) => let (kvs, r) ← parsePairs fuel n r; pure (.map kvs, r)
    | (.extOf n, r) =>
      match ← take? (n + 1) r with
      | (t :: bs, r) => pure (.ext t bs, r)
      | ([], _) => none

def parseItems : Nat → Nat → List UInt8 → Option (List Item × List UInt8)
  | _, 0, r => some ([], r)
  | 0, _ + 1, _ => none
  | fuel + 1, n + 1, r => do
    let (x, r) ← parseWithin fuel r
    let (xs, r) ← parseItems fuel n r
    pure (x :: xs, r)

def parsePairs : Nat → Nat → List UInt8 → Option (List (Item × Item) × List UInt8)
  | _, 0, r => some ([], r)
  | 0, _ + 1, _ => none
  | fuel + 1, n + 1, r => do
    let (k, r) ← parseWithin fuel r
    let (v, r) ← parseWithin fuel r
    let (kvs, r) ← parsePairs fuel n r
    pure ((k, v) :: kvs, r)

end

def parse (bs : List UInt8) : Option Item := (parseWithin (2 * bs.length + 1) bs).map (·.1)

/-! Reading records: missing values are zero, and a record may also be the list of its values. -/

def toWord : Item → Option UInt16
  | .nil => some 0
  | .uint16 n => some n
  | .int n => some (UInt16.ofNat (n % 65536).toNat)
  | _ => none

def toText : Item → Option String
  | .nil => some ""
  | .str bs | .bin bs => some (String.ofList (Text.decodeUtf8 bs))
  | _ => none

def toBytes : Item → Option (List UInt8)
  | .nil => some []
  | .str bs | .bin bs => some bs
  | _ => none

def toList : Item → Option (List Item)
  | .nil => some []
  | .array xs => some xs
  | _ => none

def record (fields : List String) : Item → Option (List Item)
  | .nil => some (fields.map fun _ => .nil)
  | .array [] => some (fields.map fun _ => .nil)
  | .array xs => if xs.length = fields.length then some xs else none
  | .map kvs => do
    let kvs ← kvs.mapM fun (k, v) => do pure (← toText k, v)
    pure (fields.map fun f => (kvs.reverse.lookup f).getD .nil)
  | _ => none

end Item

end ClassForge.MessagePack
