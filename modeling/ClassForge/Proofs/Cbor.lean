import ClassForge.Format.Cbor
import ClassForge.Proofs.Packing

/-! CBOR values within the limits of the reader are read back. Longer lists are refused. -/

namespace ClassForge.Cbor.Item

open MessagePack.Item (number? number?_be8 number?_be16 number?_be32 number?_be64 take?_append)

variable {k n : Nat}

theorem major_info (known : major < 8) (small : k < 32) :
    ∃ c : UInt8, (major * 32 + k).toUInt8 = c ∧ c.toNat / 32 = major ∧ c.toNat % 32 = k := by
  refine ⟨_, rfl, ?_⟩
  rw [Text.toNat_toUInt8 (by omega)]
  omega

theorem head_length_pos (major n : Nat) : 0 < (head major n).length := by
  unfold head
  split_ifs <;> exact Nat.succ_pos _

theorem head_append (known : major < 7) (fits : n < 18446744073709551616) (r : List UInt8) :
    ∃ c tail, head major n ++ r = c :: tail ∧ c.toNat / 32 ≠ 7 ∧ readHead (c :: tail) = some (major, some n, r) := by
  have lead : ∀ k tail, k < 32 → (∀ c : UInt8, c.toNat / 32 = major → c.toNat % 32 = k →
      readHead (c :: tail) = some (major, some n, r)) → ∃ c rest, (major * 32 + k).toUInt8 :: tail = c :: rest ∧
      c.toNat / 32 ≠ 7 ∧ readHead (c :: rest) = some (major, some n, r) := by
    intro k tail small read
    obtain ⟨c, first, high, low⟩ := major_info (show major < 8 by omega) small
    exact ⟨c, tail, by rw [first], by omega, read c high low⟩
  unfold head
  split_ifs with few byte word double
  · exact lead n r (by omega) fun c high low => by simp [readHead, high, low, few]
  · exact lead 24 _ (by decide) fun c high low => by simp [readHead, high, low, number?_be8 n r byte]
  · exact lead 25 _ (by decide) fun c high low => by simp [readHead, high, low, number?_be16 n r word]
  · exact lead 26 _ (by decide) fun c high low => by simp [readHead, high, low, number?_be32 n r double]
  · have read := number?_be64 n.toUInt64 r
    rw [show n.toUInt64.toNat = n from UInt64.toNat_ofNat_of_lt' fits] at read
    exact lead 27 _ (by decide) fun c high low => by simp [readHead, high, low, read]

mutual

/-- The forms that are written: numbers and lengths that eight bytes hold, lists and nesting within what the reader
takes, at most `depth` levels of it. -/
def Fits : Nat → Item → Prop
  | _, .uint n => n < 18446744073709551616
  | _, .text bs => bs.length < 18446744073709551616
  | depth, .array xs => 0 < depth ∧ xs.length ≤ maxElements ∧ AllFit (depth - 1) xs
  | depth, .map kvs => 0 < depth ∧ kvs.length ≤ maxElements ∧ PairsFit (depth - 1) kvs
  | _, .simple n => n < 24
  | _, _ => False

def AllFit : Nat → List Item → Prop
  | _, [] => True
  | depth, x :: xs => Fits depth x ∧ AllFit depth xs

def PairsFit : Nat → List (Item × Item) → Prop
  | _, [] => True
  | depth, (k, v) :: kvs => Fits depth k ∧ Fits depth v ∧ PairsFit depth kvs

end

variable {k v x : Item} {kvs : List (Item × Item)} {xs : List Item} {depth n : Nat}

theorem allFit_iff : AllFit depth xs ↔ ∀ x ∈ xs, Fits depth x := by
  induction xs with
  | nil => simp [AllFit]
  | cons x xs ih => simp [AllFit, ih]

theorem pairsFit_iff : PairsFit depth kvs ↔ ∀ p ∈ kvs, Fits depth p.1 ∧ Fits depth p.2 := by
  induction kvs with
  | nil => simp [PairsFit]
  | cons p kvs ih => simp [PairsFit, ih, and_assoc]

theorem encode_length_pos (x : Item) : 0 < (encode x).length := by
  have long : ∀ major n tail, 0 < (head major n ++ tail).length := fun major n tail => by
    rw [List.length_append]
    exact Nat.add_pos_left (head_length_pos major n) _
  cases x with
  | uint n | nint n => exact head_length_pos _ n
  | bytes bs | text bs => exact long _ _ bs
  | array xs | map xs | tag n xs => exact long _ _ _
  | simple n =>
    rw [encode]
    split <;> simp
  | float bs => simp [encode]

/- As for MessagePack, two steps for every byte are enough. -/

def ReadBack (x : Item) : Prop :=
  ∀ depth, Fits depth x → ∀ (fuel : Nat) (rest : List UInt8), 2 * (encode x).length ≤ fuel →
    parseWithin fuel depth (encode x ++ rest) = some (x, rest)

def AllReadBack (xs : List Item) : Prop :=
  ∀ depth, AllFit depth xs → ∀ (fuel : Nat) (rest : List UInt8), 2 * (encodeAll xs).length < fuel →
    parseItems fuel depth xs.length (encodeAll xs ++ rest) = some (xs, rest)

def PairsReadBack (kvs : List (Item × Item)) : Prop :=
  ∀ depth, PairsFit depth kvs → ∀ (fuel : Nat) (rest : List UInt8), 2 * (encodePairs kvs).length < fuel →
    parsePairs fuel depth kvs.length (encodePairs kvs ++ rest) = some (kvs, rest)

theorem readBack_of_head (known : major < 7)
    (form : encode x = head major n ++ body) (fitting : ∀ depth, Fits depth x → n < 18446744073709551616)
    (read : ∀ depth, Fits depth x → ∀ (c : UInt8) (tail rest : List UInt8) (fuel : Nat), c.toNat / 32 ≠ 7 →
      readHead (c :: tail) = some (major, some n, body ++ rest) → 2 * body.length < fuel →
      parseWithin (fuel + 1) depth (c :: tail) = some (x, rest)) : ReadBack x := by
  intro depth fits fuel rest enough
  obtain ⟨c, tail, bytes, notSimple, first⟩ := head_append known (fitting depth fits) (body ++ rest)
  have some := head_length_pos major n
  rw [form] at enough ⊢
  rw [List.length_append] at enough
  obtain ⟨fuel, rfl⟩ : ∃ f, fuel = f + 1 := ⟨fuel - 1, by omega⟩
  rw [List.append_assoc, bytes]
  exact read depth fits c tail rest fuel notSimple first (by omega)

theorem readBack_uint (n : Nat) : ReadBack (.uint n) := by
  refine readBack_of_head (show 0 < 7 by decide) (List.append_nil _).symm (fun _ fits => fits) ?_
  intro depth _ c tail rest fuel notSimple first _
  simp [parseWithin, notSimple, first]

theorem readBack_text (bs : List UInt8) : ReadBack (.text bs) := by
  refine readBack_of_head (show 3 < 7 by decide) rfl (fun _ fits => fits) ?_
  intro depth _ c tail rest fuel notSimple first _
  simp [parseWithin, notSimple, first, take?_append]

theorem lt_of_le_maxElements (few : n ≤ maxElements) : n < 18446744073709551616 :=
  Nat.lt_of_le_of_lt few (by decide)

theorem within (deep : 0 < depth) (few : n ≤ maxElements) : ¬ (depth = 0 ∨ maxElements < n) := by
  omega

theorem readBack_array (all : AllReadBack xs) : ReadBack (.array xs) := by
  refine readBack_of_head (show 4 < 7 by decide) rfl (fun _ fits => lt_of_le_maxElements fits.2.1) ?_
  intro depth fits c tail rest fuel notSimple first enough
  simp [parseWithin, notSimple, first, within fits.1 fits.2.1, all _ fits.2.2 fuel rest enough]

theorem readBack_map (all : PairsReadBack kvs) : ReadBack (.map kvs) := by
  refine readBack_of_head (show 5 < 7 by decide) rfl (fun _ fits => lt_of_le_maxElements fits.2.1) ?_
  intro depth fits c tail rest fuel notSimple first enough
  simp [parseWithin, notSimple, first, within fits.1 fits.2.1, all _ fits.2.2 fuel rest enough]

theorem readBack_simple (n : Nat) : ReadBack (.simple n) := by
  intro depth few fuel rest enough
  have few : n < 24 := few
  obtain ⟨c, first, high, low⟩ := major_info (show 7 < 8 by decide) (show n < 32 by omega)
  have form : encode (.simple n) = [c] := by rw [encode, if_pos few, ← first]
  rw [form, List.length_singleton] at enough
  obtain ⟨fuel, rfl⟩ : ∃ f, fuel = f + 1 := ⟨fuel - 1, by omega⟩
  have other : n ≠ 24 ∧ n ≠ 25 ∧ n ≠ 26 ∧ n ≠ 27 := by omega
  rw [form, List.cons_append, parseWithin, if_pos high]
  simp [parseSimple, low, other, few]

theorem allReadBack_cons (first : ReadBack x) (others : AllReadBack xs) : AllReadBack (x :: xs) := by
  intro depth fits fuel rest enough
  have some := encode_length_pos x
  rw [encodeAll, List.length_append] at enough
  obtain ⟨fuel, rfl⟩ : ∃ f, fuel = f + 1 := ⟨fuel - 1, by omega⟩
  rw [encodeAll, List.append_assoc, List.length_cons, parseItems, first depth fits.1 fuel _ (by omega)]
  simp [others depth fits.2 fuel rest (by omega)]

theorem pairsReadBack_cons (key : ReadBack k) (value : ReadBack v)
    (others : PairsReadBack kvs) : PairsReadBack ((k, v) :: kvs) := by
  intro depth fits fuel rest enough
  have some := encode_length_pos k
  rw [encodePairs, List.length_append, List.length_append] at enough
  obtain ⟨fuel, rfl⟩ : ∃ f, fuel = f + 1 := ⟨fuel - 1, by omega⟩
  rw [encodePairs, List.append_assoc, List.append_assoc, List.length_cons, parsePairs,
    key depth fits.1 fuel _ (by omega)]
  simp [value depth fits.2.1 fuel _ (by omega), others depth fits.2.2 fuel rest (by omega)]

theorem readBack (x : Item) : ReadBack x := by
  refine @Item.rec ReadBack AllReadBack PairsReadBack (fun p => ReadBack p.1 ∧ ReadBack p.2)
    readBack_uint (fun _ _ => False.elim) (fun _ _ => False.elim) readBack_text ?array ?map
    (fun _ _ _ _ => False.elim) readBack_simple (fun _ _ => False.elim) ?noItems ?items ?noPairs ?pairs ?pair x
  case array => exact fun xs all => readBack_array all
  case map => exact fun kvs all => readBack_map all
  case noItems => exact fun _ _ fuel rest _ => by simp [parseItems, encodeAll]
  case items => exact fun x xs first others => allReadBack_cons first others
  case noPairs => exact fun _ _ fuel rest _ => by simp [parsePairs, encodePairs]
  case pairs => exact fun p kvs first others => pairsReadBack_cons first.1 first.2 others
  case pair => exact fun k v key value => ⟨key, value⟩

theorem parse_encode (fits : Fits maxDepth x) : parse (encode x) = some x := by
  have read := readBack x maxDepth fits (2 * (encode x).length + 1) [] (by omega)
  rw [List.append_nil] at read
  rw [parse, read]
  rfl

def Unreadable (depth : Nat) (x : Item) : Prop :=
  ∀ (fuel : Nat) (rest : List UInt8), 2 * (encode x).length ≤ fuel → parseWithin fuel depth (encode x ++ rest) = none

theorem unreadable_crowded (many : maxElements < xs.length) (fits : xs.length < 18446744073709551616)
    (depth : Nat) : Unreadable depth (.array xs) := by
  intro fuel rest enough
  have some := encode_length_pos (.array xs)
  obtain ⟨fuel, rfl⟩ : ∃ f, fuel = f + 1 := ⟨fuel - 1, by omega⟩
  obtain ⟨c, tail, bytes, notSimple, first⟩ := head_append (show 4 < 7 by decide) fits (encodeAll xs ++ rest)
  rw [encode, List.append_assoc, bytes]
  simp [parseWithin, notSimple, first, many]

theorem unreadable_array {depth : Nat} {x : Item} {xs : List Item} (fits : (x :: xs).length < 18446744073709551616)
    (first : Unreadable (depth - 1) x) : Unreadable depth (.array (x :: xs)) := by
  intro fuel rest enough
  have more := head_length_pos 4 (x :: xs).length
  simp only [encode, encodeAll, List.length_append] at enough
  obtain ⟨fuel, rfl⟩ : ∃ f, fuel = f + 1 + 1 := ⟨fuel - 2, by omega⟩
  obtain ⟨c, tail, bytes, notSimple, read⟩ := head_append (show 4 < 7 by decide) fits (encodeAll (x :: xs) ++ rest)
  have unread := first fuel (encodeAll xs ++ rest) (by omega)
  rw [encode, List.append_assoc, bytes, parseWithin, if_neg notSimple, read]
  simp only [Option.bind_eq_bind, Option.bind_some]
  split_ifs
  · rfl
  · rw [List.length_cons, encodeAll, List.append_assoc, parseItems, unread]
    rfl

theorem parsePairs_unreadable (before after : List (Item × Item)) (fits : PairsFit depth before)
    (key : Fits depth k) (value : Unreadable depth v) (fuel : Nat) (rest : List UInt8)
    (enough : 2 * (encodePairs (before ++ (k, v) :: after)).length < fuel) :
    parsePairs fuel depth (before ++ (k, v) :: after).length (encodePairs (before ++ (k, v) :: after) ++ rest) = none := by
  induction before generalizing fuel with
  | nil =>
    simp only [List.nil_append, encodePairs, List.length_append] at enough
    obtain ⟨fuel, rfl⟩ : ∃ f, fuel = f + 1 := ⟨fuel - 1, by omega⟩
    rw [List.nil_append, encodePairs, List.append_assoc, List.append_assoc, List.length_cons, parsePairs,
      readBack k depth key fuel _ (by omega)]
    simp [value fuel _ (by omega)]
  | cons p before ih =>
    obtain ⟨k', v'⟩ := p
    have some := encode_length_pos k'
    simp only [List.cons_append, encodePairs, List.length_append] at enough
    obtain ⟨fuel, rfl⟩ : ∃ f, fuel = f + 1 := ⟨fuel - 1, by omega⟩
    rw [List.cons_append, encodePairs, List.append_assoc, List.append_assoc, List.length_cons, parsePairs,
      readBack k' depth fits.1 fuel _ (by omega)]
    simp only [Option.bind_eq_bind, Option.bind_some, readBack v' depth fits.2.1 fuel _ (by omega),
      ih fits.2.2 fuel (by omega), Option.bind_none]

theorem unreadable_map (before after : List (Item × Item)) (few : (before ++ (k, v) :: after).length ≤ maxElements)
    (fits : PairsFit (depth - 1) before) (key : Fits (depth - 1) k) (value : Unreadable (depth - 1) v) :
    Unreadable depth (.map (before ++ (k, v) :: after)) := by
  intro fuel rest enough
  have more := head_length_pos 5 (before ++ (k, v) :: after).length
  rw [encode, List.length_append] at enough
  obtain ⟨fuel, rfl⟩ : ∃ f, fuel = f + 1 := ⟨fuel - 1, by omega⟩
  obtain ⟨c, tail, bytes, notSimple, first⟩ := head_append (show 5 < 7 by decide) (lt_of_le_maxElements few)
    (encodePairs (before ++ (k, v) :: after) ++ rest)
  have unread := parsePairs_unreadable before after fits key value fuel rest (by omega)
  rw [encode, List.append_assoc, bytes, parseWithin, if_neg notSimple, first]
  simp only [Option.bind_eq_bind, Option.bind_some, unread, Option.bind_none, ite_self]

theorem parse_unreadable (h : Unreadable maxDepth x) : parse (encode x) = none := by
  have unread := h (2 * (encode x).length + 1) [] (by omega)
  rw [List.append_nil] at unread
  rw [parse, unread, Option.map_none]

end ClassForge.Cbor.Item
