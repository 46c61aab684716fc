import ClassForge.Proofs.Reading

/-! Runs of the writer. The first count that does not fit is reported, but does not stop the writer:
what is written afterwards still reaches the bytes. -/

namespace ClassForge.Writer

inductive Item
  | u1 (n : UInt8)
  | u2 (n : UInt16)
  | u4 (n : UInt32)
  | u8 (n : UInt64)
  | raw (bs : Array UInt8)
  | len2 (n : Int) (what : String)
  | len4 (n : Int) (what : String)
  | attr (nameIndex : UInt16) (body : Array UInt8)

namespace Item

def write (w : Writer) : Item → Writer
  | u1 n => w.u1 n
  | u2 n => w.u2 n
  | u4 n => w.u4 n
  | u8 n => w.u8 n
  | raw bs => w.raw bs
  | len2 n what => w.len2 n what
  | len4 n what => w.len4 n what
  | attr i body => w.attr i body

def overflow4? (n : Int) (what : String) : Option Overflow :=
  if 0 ≤ n ∧ n < 4294967296 then none else some (.u4 what n)

def overflow? : Item → Option Overflow
  | len2 n what => if 0 ≤ n ∧ n < 65536 then none else some (.u2 what n)
  | len4 n what => overflow4? n what
  | attr _ body => overflow4? body.size "attribute"
  | _ => none

def count4 (n : Int) : List UInt8 := if 0 ≤ n ∧ n < 4294967296 then be32 n.toNat.toUInt32 else []

/-- The bytes of an item. A count that does not fit has none; the name and the body around it stay. -/
def bytes : Item → List UInt8
  | u1 n => [n]
  | u2 n => be16 n
  | u4 n => be32 n
  | u8 n => be64 n
  | raw bs => bs.toList
  | len2 n _ => if 0 ≤ n ∧ n < 65536 then be16 n.toNat.toUInt16 else []
  | len4 n _ => count4 n
  | attr i body => be16 i ++ count4 body.size ++ body.toList

end Item

theorem fail_eq (w : Writer) (e : Overflow) : w.fail e = ⟨w.bytes, w.overflow.or (some e)⟩ := by
  obtain ⟨bytes, _ | _⟩ := w <;> rfl

theorem write_len4 (w : Writer) (n : Int) (what : String) :
    (w.len4 n what).overflow = w.overflow.or (Item.overflow4? n what) ∧
    (w.len4 n what).bytes.toList = w.bytes.toList ++ Item.count4 n := by
  unfold len4 Item.overflow4? Item.count4
  split <;> simp [u4, fail_eq]

theorem write_item (w : Writer) (i : Item) :
    (i.write w).overflow = w.overflow.or i.overflow? ∧ (i.write w).bytes.toList = w.bytes.toList ++ i.bytes := by
  cases i with
  | u1 | u2 | u4 | u8 | raw => simp [Item.write, Item.overflow?, Item.bytes, u2, u4, u8]
  | len2 n what =>
    unfold Item.write Item.overflow? Item.bytes len2
    dsimp only
    split <;> simp [u2, fail_eq]
  | len4 n what => exact write_len4 w n what
  | attr i body => simp [Item.write, attr, write_len4, u2, Item.overflow?, Item.bytes]

theorem write_items (items : List Item) :
    (items.foldl Item.write empty).overflow = items.findSome? (·.overflow?) ∧
    (items.foldl Item.write empty).bytes.toList = items.flatMap (·.bytes) := by
  suffices run : ∀ w : Writer, (items.foldl Item.write w).overflow = w.overflow.or (items.findSome? (·.overflow?)) ∧
      (items.foldl Item.write w).bytes.toList = w.bytes.toList ++ items.flatMap (·.bytes) from run empty
  induction items with
  | nil => simp
  | cons i items ih =>
    intro w
    obtain ⟨first, bytes⟩ := write_item w i
    obtain ⟨later, others⟩ := ih (i.write w)
    rw [List.foldl_cons, later, others, first, bytes, List.findSome?_cons, List.flatMap_cons, List.append_assoc]
    cases i.overflow? <;> simp

/-- One count that does not fit, and a byte that is written all the same. -/
theorem write_goes_on : ([.len2 70000 "fields", .u1 1].foldl Item.write empty).overflow = some (.u2 "fields" 70000) ∧
    ([.len2 70000 "fields"].foldl Item.write empty).bytes = #[] ∧
    ([.len2 70000 "fields", .u1 1].foldl Item.write empty).bytes = #[1] := ⟨rfl, rfl, rfl⟩

end ClassForge.Writer
