import ClassForge.Format.MessagePack
import ClassForge.Proofs.Reading

/-! MessagePack values whose lengths fit their fields are read back. -/

namespace ClassForge.MessagePack.Item

open List

open ClassFile.Reader (value_be16 value_be32)

variable {bs : List UInt8} {n : Nat} {four : UInt8}

theorem take?_append (a r : List UInt8) : take? a.length (a ++ r) = some (a, r) := by
  simp [take?]

theorem number?_append (a r : List UInt8) : number? a.length (a ++ r) = some (natOf a, r) := by
  simp [number?, take?_append]

theorem natOf_be64 (n : UInt64) : natOf (be64 n) = n.toNat := by
  have bound := n.toNat_lt
  simp [natOf, be64, be32, Nat.shiftRight_eq_div_pow]
  omega

theorem number?_be8 (n : Nat) (r : List UInt8) (fits : n < 256) : number? 1 (n.toUInt8 :: r) = some (n, r) := by
  have read := number?_append [n.toUInt8] r
  simpa [natOf, Nat.mod_eq_of_lt fits] using read

theorem number?_be16 (n : Nat) (r : List UInt8) (fits : n < 65536) :
    number? 2 (be16 n.toUInt16 ++ r) = some (n, r) := by
  have read := number?_append (be16 n.toUInt16) r
  rw [natOf, value_be16, UInt16.toNat_ofNat_of_lt' fits] at read
  exact read

theorem number?_be32 (n : Nat) (r : List UInt8) (fits : n < 4294967296) :
    number? 4 (be32 n.toUInt32 ++ r) = some (n, r) := by
  have read := number?_append (be32 n.toUInt32) r
  rw [natOf, value_be32, UInt32.toNat_ofNat_of_lt' fits] at read
  exact read

theorem number?_be64 (n : UInt64) (r : List UInt8) : number? 8 (be64 n ++ r) = some (n.toNat, r) := by
  have read := number?_append (be64 n) r
  rw [natOf_be64] at read
  exact read

def Announces (bs : List UInt8) (h : Head) : Prop :=
  ∃ c tail, bs = c :: tail ∧ ∀ r, readHead c (tail ++ r) = some (h, r)

theorem announces_fixed (fits : fixed + n < 256)
    (read : ∀ c : UInt8, c.toNat = fixed + n → ∀ r, readHead c r = some (h, r)) : Announces [(fixed + n).toUInt8] h := by
  refine ⟨_, [], rfl, fun r => read _ ?_ r⟩
  simp [Nat.mod_eq_of_lt fits]

theorem announces_behind (marker : UInt8) (h : Nat → Head)
    (read : ∀ r, readHead marker r = (number? width r).map fun p => (h p.1, p.2))
    (value : ∀ r, number? width (bs ++ r) = some (n, r)) : Announces (marker :: bs) (h n) := by
  refine ⟨marker, bs, rfl, fun r => ?_⟩
  rw [read, value]
  rfl

theorem announces_sized (fixed : Nat) (h : Nat → Head) (fits : n < 4294967296)
    (low : fixed ≤ 0x90) (small : ∀ m < 16, ∀ c : UInt8, c.toNat = fixed + m → ∀ r, readHead c r = some (h m, r))
    (medium : ∀ r, readHead two r = (number? 2 r).map fun p => (h p.1, p.2))
    (large : ∀ r, readHead four r = (number? 4 r).map fun p => (h p.1, p.2)) :
    Announces (sized fixed 16 two four n) (h n) := by
  unfold sized
  split
  next few => exact announces_fixed (by omega) (small n few)
  next =>
    split
    next some => exact announces_behind _ h medium fun r => number?_be16 n r some
    next => exact announces_behind _ h large fun r => number?_be32 n r fits

theorem announces_array (fits : n < 4294967296) : Announces (sized 0x90 16 0xdc 0xdd n) (.arrayOf n) := by
  refine announces_sized 0x90 .arrayOf fits (Nat.le_refl _) ?_ (fun _ => rfl) (fun _ => rfl)
  intro m few c value r
  rw [readHead, value, if_neg (by omega), if_neg (by omega), if_pos (by omega)]
  simp

theorem announces_map (fits : n < 4294967296) : Announces (sized 0x80 16 0xde 0xdf n) (.mapOf n) := by
  refine announces_sized 0x80 .mapOf fits (by decide) ?_ (fun _ => rfl) (fun _ => rfl)
  intro m few c value r
  rw [readHead, value, if_neg (by omega), if_pos (by omega)]
  simp

theorem announces_length (h : Nat → Head) (fits : n < 4294967296)
    (small : ∀ r, readHead one r = (number? 1 r).map fun p => (h p.1, p.2))
    (medium : ∀ r, readHead two r = (number? 2 r).map fun p => (h p.1, p.2))
    (large : ∀ r, readHead four r = (number? 4 r).map fun p => (h p.1, p.2)) :
    Announces (if n < 256 then [one, n.toUInt8] else if n < 65536 then two :: be16 n.toUInt16
      else four :: be32 n.toUInt32) (h n) := by
  split
  next few => exact announces_behind _ h small fun r => number?_be8 n r few
  next =>
    split
    next some => exact announces_behind _ h medium fun r => number?_be16 n r some
    next => exact announces_behind _ h large fun r => number?_be32 n r fits

theorem announces_str (fits : n < 4294967296) : Announces (strHead n) (.strOf n) := by
  unfold strHead
  split
  next few =>
    refine announces_fixed (by omega) fun c value r => ?_
    rw [readHead, value, if_neg (by omega), if_neg (by omega), if_neg (by omega), if_pos (by omega)]
    simp
  next => exact announces_length .strOf fits (fun _ => rfl) (fun _ => rfl) (fun _ => rfl)

theorem Announces.ne_nil (head : Announces bs h) : bs ≠ [] := by
  obtain ⟨c, tail, rfl, -⟩ := head
  exact cons_ne_nil c tail

mutual

/-- The forms that are written, with lengths that four bytes hold. -/
def Fits : Item → Prop
  | .nil | .uint16 _ => True
  | .str bs => bs.length < 4294967296
  | .array xs => xs.length < 4294967296 ∧ AllFit xs
  | .map kvs => kvs.length < 4294967296 ∧ PairsFit kvs
  | _ => False

def AllFit : List Item → Prop
  | [] => True
  | x :: xs => Fits x ∧ AllFit xs

def PairsFit : List (Item × Item) → Prop
  | [] => True
  | (k, v) :: kvs => Fits k ∧ Fits v ∧ PairsFit kvs

end

variable {k v x : Item} {kvs : List (Item × Item)} {xs : List Item}

theorem allFit_iff : AllFit xs ↔ ∀ x ∈ xs, Fits x := by
  induction xs with
  | nil => simp [AllFit]
  | cons x xs ih => simp [AllFit, ih]

theorem pairsFit_iff : PairsFit kvs ↔ ∀ p ∈ kvs, Fits p.1 ∧ Fits p.2 := by
  induction kvs with
  | nil => simp [PairsFit]
  | cons p kvs ih => simp [PairsFit, ih, and_assoc]

theorem encode_length_pos (fits : Fits x) : 0 < (encode x).length := by
  have long : ∀ {bs : List UInt8} {h : Head} (tail : List UInt8), Announces bs h → 0 < (bs ++ tail).length := by
    intro bs h tail head
    rw [length_append]
    exact Nat.add_pos_left (length_pos_iff.mpr head.ne_nil) _
  cases x with
  | nil | uint16 => simp [encode]
  | str bs => exact long bs (announces_str fits)
  | array xs => exact long _ (announces_array fits.1)
  | map kvs => exact long _ (announces_map fits.1)
  | bool | int | float | bin | ext => exact fits.elim

/- A value takes a step, and each value of a list one more. Two steps for every byte are enough. -/

def ReadBack (x : Item) : Prop :=
  Fits x → ∀ (fuel : Nat) (rest : List UInt8), 2 * (encode x).length ≤ fuel →
    parseWithin fuel (encode x ++ rest) = some (x, rest)

def AllReadBack (xs : List Item) : Prop :=
  AllFit xs → ∀ (fuel : Nat) (rest : List UInt8), 2 * (encodeAll xs).length < fuel →
    parseItems fuel xs.length (encodeAll xs ++ rest) = some (xs, rest)

def PairsReadBack (kvs : List (Item × Item)) : Prop :=
  PairsFit kvs → ∀ (fuel : Nat) (rest : List UInt8), 2 * (encodePairs kvs).length < fuel →
    parsePairs fuel kvs.length (encodePairs kvs ++ rest) = some (kvs, rest)

theorem readBack_of_announces (body : List UInt8) (head : Fits x → Announces bs h)
    (form : encode x = bs ++ body) (read : Fits x → ∀ (c : UInt8) (tail : List UInt8) (fuel : Nat) (rest : List UInt8),
      readHead c (tail ++ (body ++ rest)) = some (h, body ++ rest) → 2 * body.length < fuel →
      parseWithin (fuel + 1) (c :: (tail ++ (body ++ rest))) = some (x, rest)) : ReadBack x := by
  intro fits fuel rest enough
  obtain ⟨c, tail, rfl, announced⟩ := head fits
  rw [form] at enough ⊢
  simp only [cons_append, append_assoc, length_cons, length_append] at enough ⊢
  obtain ⟨fuel, rfl⟩ : ∃ f, fuel = f + 1 := ⟨fuel - 1, by omega⟩
  exact read fits c tail fuel rest (announced _) (by omega)

theorem readBack_str (bs : List UInt8) : ReadBack (.str bs) := by
  refine readBack_of_announces _ announces_str rfl fun _ c tail fuel rest head _ => ?_
  simp [parseWithin, head, take?_append]

theorem readBack_array (all : AllReadBack xs) : ReadBack (.array xs) := by
  refine readBack_of_announces _ (fun fits => announces_array fits.1) rfl fun fits c tail fuel rest head enough => ?_
  simp [parseWithin, head, all fits.2 fuel rest enough]

theorem readBack_map (all : PairsReadBack kvs) : ReadBack (.map kvs) := by
  refine readBack_of_announces _ (fun fits => announces_map fits.1) rfl fun fits c tail fuel rest head enough => ?_
  simp [parseWithin, head, all fits.2 fuel rest enough]

theorem readBack_of_done (head : Fits x → Announces (encode x) (.done x)) : ReadBack x := by
  refine readBack_of_announces [] head (append_nil _).symm fun _ c tail fuel rest head _ => ?_
  rw [parseWithin, head]
  rfl

theorem readBack_uint16 (n : UInt16) : ReadBack (.uint16 n) := by
  refine readBack_of_done fun _ => ?_
  have value : ∀ r, number? 2 (be16 n ++ r) = some (n.toNat, r) := by
    intro r
    have read := number?_append (be16 n) r
    rw [natOf, value_be16] at read
    exact read
  have head := announces_behind 0xcd (fun v => .done (.uint16 v.toUInt16)) (fun _ => rfl) value
  rwa [Nat.toUInt16_eq, UInt16.ofNat_toNat] at head

theorem allReadBack_cons (first : ReadBack x) (others : AllReadBack xs) : AllReadBack (x :: xs) := by
  intro fits fuel rest enough
  have some := encode_length_pos fits.1
  rw [encodeAll, length_append] at enough
  obtain ⟨fuel, rfl⟩ : ∃ f, fuel = f + 1 := ⟨fuel - 1, by omega⟩
  rw [encodeAll, append_assoc, length_cons, parseItems, first fits.1 fuel _ (by omega)]
  simp [others fits.2 fuel rest (by omega)]

theorem pairsReadBack_cons (key : ReadBack k) (value : ReadBack v)
    (others : PairsReadBack kvs) : PairsReadBack ((k, v) :: kvs) := by
  intro fits fuel rest enough
  have some := encode_length_pos fits.1
  rw [encodePairs, length_append, length_append] at enough
  obtain ⟨fuel, rfl⟩ : ∃ f, fuel = f + 1 := ⟨fuel - 1, by omega⟩
  rw [encodePairs, append_assoc, append_assoc, length_cons, parsePairs,
    key fits.1 fuel _ (by omega)]
  simp [value fits.2.1 fuel _ (by omega), others fits.2.2 fuel rest (by omega)]

theorem readBack (x : Item) : ReadBack x := by
  refine @Item.rec ReadBack AllReadBack PairsReadBack (fun p => ReadBack p.1 ∧ ReadBack p.2)
    ?nil (fun _ => False.elim) readBack_uint16 (fun _ => False.elim) (fun _ => False.elim) readBack_str
    (fun _ => False.elim) ?array ?map (fun _ _ => False.elim) ?noItems ?items ?noPairs ?pairs ?pair x
  case nil => exact readBack_of_done fun _ => ⟨0xc0, [], rfl, fun _ => rfl⟩
  case array => exact fun xs all => readBack_array all
  case map => exact fun kvs all => readBack_map all
  case noItems => exact fun _ fuel rest _ => by cases fuel <;> rfl
  case items => exact fun x xs first others => allReadBack_cons first others
  case noPairs => exact fun _ fuel rest _ => by cases fuel <;> rfl
  case pairs => exact fun p kvs first others => pairsReadBack_cons first.1 first.2 others
  case pair => exact fun k v key value => ⟨key, value⟩

theorem parse_encode (fits : Fits x) : parse (encode x) = some x := by
  have read := readBack x fits (2 * (encode x).length + 1) [] (by omega)
  rw [append_nil] at read
  rw [parse, read]
  rfl

end ClassForge.MessagePack.Item
