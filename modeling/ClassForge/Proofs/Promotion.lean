import ClassForge.Proofs.Conversions
import ClassForge.Proofs.Evaluation
import ClassForge.Proofs.Java

/-! Values on the machine: how they are held, and what conversions, operators and comparisons make of them. -/

namespace ClassForge

open Kind

namespace Java

open Assembler Assembler.Expr Machine Insn

variable {n : Int32}

theorem toInt_toByte (n : Int32) : (toByte n).toInt = n.toInt.bmod 256 := by
  rw [toByte, Int8.toInt_toInt32, Int32.toInt_toInt8]

theorem toInt_toShort (n : Int32) : (toShort n).toInt = n.toInt.bmod 65536 := by
  rw [toShort, Int16.toInt_toInt32, Int32.toInt_toInt16]

theorem toInt_toChar (n : Int32) : (toChar n).toInt = n.toInt % 65536 := by
  have low : (n.toUInt32 &&& 65535).toNat = n.toUInt32.toNat % 65536 := by
    exact Nat.and_two_pow_sub_one_eq_mod _ 16
  have whole : n.toInt = (n.toUInt32.toNat : Int).bmod 4294967296 := by
    rw [Int32.toInt, BitVec.toInt_eq_toNat_bmod]
    rfl
  rw [toChar, Int32.toInt, UInt32.toBitVec_toInt32, BitVec.toInt_eq_toNat_bmod, UInt32.toNat_toBitVec, low, whole]
  simp only [Int.bmod]
  omega

theorem toByte_eq (low : -128 ≤ n.toInt) (high : n.toInt ≤ 127) : toByte n = n := by
  apply Int32.toInt_inj.mp
  rw [toInt_toByte, Int.bmod]
  omega

theorem toShort_eq (low : -32768 ≤ n.toInt) (high : n.toInt ≤ 32767) : toShort n = n := by
  apply Int32.toInt_inj.mp
  rw [toInt_toShort, Int.bmod]
  omega

theorem toChar_eq (low : 0 ≤ n.toInt) (high : n.toInt ≤ 65535) : toChar n = n := by
  apply Int32.toInt_inj.mp
  rw [toInt_toChar]
  omega

theorem decides_compare32 (cmp : Cmp) (x y : Int32) : decides cmp (compare32 x y) = cmp.condition.holds x y := by
  have equals : (x == y) = decide (x.toInt = y.toInt) := by
    exact decide_eq_decide.mpr Int32.toInt_inj.symm
  unfold compare32
  rcases Int.lt_trichotomy x.toInt y.toInt with less | equal | more
  · rw [Int.compare_eq_lt.mpr less]
    cases cmp <;> simp [decides, Cmp.condition, Condition.holds, Int32.lt_iff_toInt_lt, Int32.le_iff_toInt_le, bne,
      equals] <;> omega
  · rw [Int.compare_eq_eq.mpr equal]
    cases cmp <;> simp [decides, Cmp.condition, Condition.holds, Int32.lt_iff_toInt_lt, Int32.le_iff_toInt_le, bne,
      equals, equal]
  · rw [Int.compare_eq_gt.mpr more]
    cases cmp <;> simp [decides, Cmp.condition, Condition.holds, Int32.lt_iff_toInt_lt, Int32.le_iff_toInt_le, bne,
      equals] <;> omega

theorem decides_compare64 (cmp : Cmp) (x y : Int64) :
    decides cmp (compare64 x y) = cmp.condition.holds (order x y) 0 := by
  unfold compare64
  rcases Int.lt_trichotomy x.toInt y.toInt with less | equal | more
  · have sign : order x y = -1 := if_pos (Int64.lt_iff_toInt_lt.mpr less)
    rw [Int.compare_eq_lt.mpr less, sign]
    cases cmp <;> decide
  · have sign : order x y = 0 := by
      rw [order, if_neg (by rw [Int64.lt_iff_toInt_lt]; omega), if_pos (Int64.toInt_inj.mp equal)]
    rw [Int.compare_eq_eq.mpr equal, sign]
    cases cmp <;> decide
  · have sign : order x y = 1 := by
      rw [order, if_neg (by rw [Int64.lt_iff_toInt_lt]; omega), if_neg (by rw [← Int64.toInt_inj]; omega)]
    rw [Int.compare_eq_gt.mpr more, sign]
    cases cmp <;> decide

namespace Value

def datum : Value → Datum
  | .bool b => .ofBool b
  | .int n => .int n
  | .long n => .long n
  | .ref a => .ref a

variable {v : Value} {p r : Prim}

theorem words_of_has (h : v.Has k) : k.words = [v.datum.word] := by
  unfold Has at h
  split at h <;> first | rfl | exact h.elim

theorem of_has_boolean (h : v.Has (.prim .boolean)) : ∃ b, v = .bool b := by
  cases v with
  | bool b => exact ⟨b, rfl⟩
  | int | long | ref => exact h.elim

theorem of_has_long (h : v.Has (.prim .long)) : ∃ n, v = .long n := by
  cases v with
  | long n => exact ⟨n, rfl⟩
  | int | bool | ref => exact h.elim

theorem of_has_reference (h : v.Has .reference) : ∃ a, v = .ref a := by
  cases v with
  | ref a => exact ⟨a, rfl⟩
  | int | bool | long => exact h.elim

theorem of_has_small (small : p ∈ [Prim.byte, .short, .char, .int]) (h : v.Has (.prim p)) : ∃ n, v = .int n := by
  cases v with
  | int n => exact ⟨n, rfl⟩
  | bool b =>
    cases p with
    | boolean => exact absurd small (by decide)
    | _ => exact h.elim
  | long n =>
    cases p with
    | long => exact absurd small (by decide)
    | _ => exact h.elim
  | ref a => cases p <;> exact h.elim

theorem castTo_self (h : v.Has (.prim p)) : v.castTo p = v := by
  cases p with
  | byte =>
    obtain ⟨n, rfl⟩ := of_has_small (by decide) h
    exact congrArg Value.int (toByte_eq h.1 h.2)
  | short =>
    obtain ⟨n, rfl⟩ := of_has_small (by decide) h
    exact congrArg Value.int (toShort_eq h.1 h.2)
  | char =>
    obtain ⟨n, rfl⟩ := of_has_small (by decide) h
    exact congrArg Value.int (toChar_eq h.1 h.2)
  | int =>
    obtain ⟨n, rfl⟩ := of_has_small (by decide) h
    rfl
  | long =>
    obtain ⟨n, rfl⟩ := of_has_long h
    rfl
  | boolean | float | double => rfl

theorem has_castTo (v : Value) (integral : (prim r).isIntegral = true) : (v.castTo r).Has (.prim r) := by
  cases r with
  | byte =>
    simp only [castTo, Has, toInt_toByte, Int.bmod]
    omega
  | short =>
    simp only [castTo, Has, toInt_toShort, Int.bmod]
    omega
  | char =>
    simp only [castTo, Has, toInt_toChar]
    omega
  | int | long => trivial
  | boolean | float | double => cases integral

theorem operates_one (form : inRuns plain op.byte = some (.operate o))
    (applies : o.apply s = some s') : OperatesAll [op] s s' :=
  ⟨s', ⟨o, form, applies⟩, rfl⟩

theorem narrow_forms : inRuns plain Opcode.i2b.byte = some (.operate .i2b) ∧
    inRuns plain Opcode.i2c.byte = some (.operate .i2c) ∧ inRuns plain Opcode.i2s.byte = some (.operate .i2s) ∧
    inRuns plain (convertOp (.prim .long) (.prim .int)).byte = some (.operate .l2i) ∧
    inRuns plain (convertOp (.prim .int) (.prim .long)).byte = some (.operate .i2l) := by
  decide

theorem convertOps_small (small : (prim p).isIntLike = true) (integral : (prim r).isIntegral = true)
    (other : p ≠ r) : convertOps (.prim p) (.prim r) = match r with
      | .byte => [.i2b]
      | .char => [.i2c]
      | .short => if p = .byte then [] else [.i2s]
      | .long => [convertOp (.prim .int) (.prim .long)]
      | _ => [] := by
  revert small integral other
  cases p <;> cases r <;> decide

theorem datum_small (small : (prim p).isIntLike = true) (h : v.Has (.prim p)) : v.datum = .int v.toInt := by
  cases v with
  | bool | int => rfl
  | long =>
    cases p with
    | long => cases small
    | _ => exact h.elim
  | ref => cases p <;> exact h.elim

theorem operates_convertOps (h : v.Has (.prim p)) (integral : (prim r).isIntegral = true) (s : List Datum) :
    OperatesAll (convertOps (.prim p) (.prim r)) (v.datum :: s) ((v.castTo r).datum :: s) := by
  obtain ⟨i2b, i2c, i2s, l2i, i2l⟩ := narrow_forms
  by_cases same : p = r
  · subst same
    have none : convertOps (.prim p) (.prim p) = [] := by simp [convertOps]
    rw [castTo_self h, none]
    rfl
  by_cases small : (prim p).isIntLike = true
  · rw [convertOps_small small integral same, datum_small small h]
    cases r with
    | boolean | float | double => cases integral
    | byte => exact operates_one i2b rfl
    | char => exact operates_one i2c rfl
    | int => rfl
    | short =>
      split_ifs with byte
      · -- a byte is a short already
        subst byte
        obtain ⟨n, rfl⟩ := of_has_small (by decide) h
        have range : -128 ≤ n.toInt ∧ n.toInt ≤ 127 := h
        have kept : toShort n = n := toShort_eq (by omega) (by omega)
        exact congrArg (fun n => Datum.int n :: s) kept.symm
      · exact operates_one i2s rfl
    | long =>
      refine operates_one i2l ?_
      cases v with
      | long =>
        cases p with
        | long => cases small
        | _ => exact h.elim
      | bool | int | ref => rfl
  · cases p with
    | float | double => cases v <;> exact h.elim
    | boolean | byte | short | char | int => exact absurd rfl small
    | long =>
      obtain ⟨n, rfl⟩ := of_has_long h
      cases r with
      | boolean | float | double => cases integral
      | byte => exact ⟨_, ⟨_, l2i, rfl⟩, operates_one i2b rfl⟩
      | short => exact ⟨_, ⟨_, l2i, rfl⟩, operates_one i2s rfl⟩
      | char => exact ⟨_, ⟨_, l2i, rfl⟩, operates_one i2c rfl⟩
      | int => exact operates_one l2i rfl
      | long => exact absurd rfl same

end Value

def arith? : BinaryOp → Option Arith
  | .add => some .add
  | .sub => some .sub
  | .mul => some .mul
  | .and => some .and
  | .or => some .or
  | .xor => some .xor
  | _ => none

def shift? : BinaryOp → Option Shift
  | .shl => some .left
  | .shr => some .right
  | .ushr => some .unsigned
  | _ => none

theorem operator_forms (op : BinaryOp) :
    (∀ a, arith? op = some a → inRuns plain (op.opcode .int).byte = some (.operate (.int a)) ∧
      inRuns plain (op.opcode .boolean).byte = some (.operate (.int a)) ∧
      inRuns plain (op.opcode .long).byte = some (.operate (.long a))) ∧
    ∀ a, shift? op = some a → inRuns plain (op.opcode .int).byte = some (.operate (.intShift a)) ∧
      inRuns plain (op.opcode .long).byte = some (.operate (.longShift a)) := by
  cases op <;> refine ⟨?_, ?_⟩ <;> rintro _ ⟨⟩ <;> decide

theorem arith_on (op : BinaryOp) (h : arith? op = some a) :
    isShift op = false ∧ a.on32 = arith32 op ∧ a.on64 = arith64 op := by
  cases op <;> cases h <;> exact ⟨rfl, rfl, rfl⟩

theorem shift_on (op : BinaryOp) (h : shift? op = some a) :
    isShift op = true ∧ a.on32 = arith32 op ∧ a.on64 = shift64 op := by
  cases op <;> cases h <;> exact ⟨rfl, rfl, rfl⟩

end Java

variable {p r : Prim}

/-- The kinds whose values are numbers without fractions, truth values or references. -/
def Kind.isDiscrete : Kind → Bool
  | .void | .prim .float | .prim .double => false
  | _ => true

/-! Promotion, of types and of values. -/

theorem Kind.isIntegral_of_isDiscrete (discrete : (prim p).isDiscrete = true) (number : p ≠ .boolean) :
    (prim p).isIntegral = true := by
  revert discrete number
  cases p <;> decide

def Prim.meet (p r : Prim) : Prim := if p = .long ∨ r = .long then .long else .int

theorem Prim.meet_forms (p r : Prim) : p.meet r = .int ∨ p.meet r = .long := by
  unfold meet
  split_ifs
  · exact .inr rfl
  · exact .inl rfl

theorem Prim.isIntegral_meet (p r : Prim) : (prim (p.meet r)).isIntegral = true := by
  rcases meet_forms p r with same | same <;> rw [same] <;> rfl

theorem JType.promote_ofPrim (left : (prim p).isDiscrete = true) (right : (prim r).isDiscrete = true) :
    (ofPrim p).promote (ofPrim r) = if p = .boolean ∧ r = .boolean then some .boolean else if p = .boolean ∨
    r = .boolean then none else some (ofPrim (p.meet r)) := by
  revert left right
  cases p <;> cases r <;> decide

theorem JType.promote_cases (h : (ofPrim p).promote (ofPrim r) = some t) (left : (prim p).isDiscrete = true)
    (right : (prim r).isDiscrete = true) : p = .boolean ∧ r = .boolean ∧ t = .boolean ∨
    (prim p).isIntegral = true ∧ (prim r).isIntegral = true ∧ t = ofPrim (p.meet r) := by
  rw [promote_ofPrim left right] at h
  split_ifs at h with both one
  · cases h
    exact .inl ⟨both.1, both.2, rfl⟩
  · rw [not_or] at one
    cases h
    exact .inr ⟨isIntegral_of_isDiscrete left one.1, isIntegral_of_isDiscrete right one.2, rfl⟩

theorem JType.promoteUnary_ofPrim (integral : (prim p).isIntegral = true) :
    (ofPrim p).promoteUnary = ofPrim (p.meet .int) := by
  revert integral
  cases p <;> decide

namespace Java.Value

open Assembler

variable {u v : Value} {p r : Prim}

theorem of_integral (h : v.Has (.prim p)) (integral : (prim p).isIntegral = true) :
    (p = .long ∧ ∃ n, v = .long n) ∨ p ≠ .long ∧ ∃ n, v = .int n := by
  by_cases long : p = .long
  · subst long
    exact .inl ⟨rfl, of_has_long h⟩
  · refine .inr ⟨long, of_has_small (p := p) ?_ h⟩
    revert integral long
    cases p <;> decide

section

variable (left : u.Has (.prim p)) (right : v.Has (.prim r)) (integralP : (prim p).isIntegral = true)
  (integralR : (prim r).isIntegral = true)

include left right integralP integralR

theorem binary_castTo (noShift : isShift op = false) :
    (u.castTo (p.meet r)).binary op (v.castTo (p.meet r)) = u.binary op v := by
  rcases of_integral left integralP with ⟨hp, m, rfl⟩ | ⟨hp, m, rfl⟩ <;>
    rcases of_integral right integralR with ⟨hr, n, rfl⟩ | ⟨hr, n, rfl⟩ <;>
    simp [hp, hr, Prim.meet, binary, noShift, castTo, isLong, toLong, toInt]

theorem compare_castTo {cmp : Cmp} :
    (u.castTo (p.meet r)).compare cmp (v.castTo (p.meet r)) = u.compare cmp v := by
  rcases of_integral left integralP with ⟨hp, m, rfl⟩ | ⟨hp, m, rfl⟩ <;>
    rcases of_integral right integralR with ⟨hr, n, rfl⟩ | ⟨hr, n, rfl⟩ <;>
    simp [hp, hr, Prim.meet, Value.compare, castTo, isLong, toLong, toInt]

end

theorem neg_castTo (h : v.Has (.prim p)) (integral : (prim p).isIntegral = true) :
    (v.castTo (p.meet .int)).neg = v.neg := by
  rcases of_integral h integral with ⟨hp, n, rfl⟩ | ⟨hp, n, rfl⟩ <;>
    simp [hp, Prim.meet, neg, castTo, toLong, toInt]

/-- Only the left operand decides about a shift, and a truth value there counts as a number. -/
theorem shift_castTo (h : u.Has (.prim p)) (discrete : (prim p).isDiscrete = true) (isShift : isShift op = true) :
    (u.castTo (p.meet .int)).binary op (v.castTo .int) = u.binary op v := by
  by_cases boolean : p = .boolean
  · subst boolean
    obtain ⟨b, rfl⟩ := of_has_boolean h
    simp [Prim.meet, binary, isShift, castTo, toInt]
  · rcases of_integral h (isIntegral_of_isDiscrete discrete boolean) with ⟨hp, n, rfl⟩ | ⟨hp, n, rfl⟩ <;>
      simp [hp, Prim.meet, binary, isShift, castTo, toLong, toInt]

end Java.Value

namespace Assembler.Expr

open Java Machine Insn

variable {ι : Type} {q : Pool} {view : ι → Nat → Datum} {e a b : Expr} {u v : ι → Java.Value} {p r : Prim} {cmp : Cmp}

theorem exists_has (discrete : k.isDiscrete = true) : ∃ v : Java.Value, v.Has k := by
  cases k with
  | void => cases discrete
  | reference => exact ⟨.ref none, trivial⟩
  | prim p =>
    cases p with
    | float | double => cases discrete
    | boolean => exact ⟨.bool false, trivial⟩
    | long => exact ⟨.long 0, trivial⟩
    | int => exact ⟨.int 0, trivial⟩
    | byte | short | char => exact ⟨_, Java.Value.has_castTo (.int 0) rfl⟩

/-- The code of the expression computes the value, which is of the type of the expression. -/
structure Means (q : Pool) (view : ι → Nat → Datum) (e : Expr) (v : ι → Java.Value) : Prop where
  computes : Computes q view e fun x => (v x).datum
  has : ∀ x, (v x).Has e.type.kind
  discrete : e.type.kind.isDiscrete = true
  null : e.isNull = true → ∀ x, v x = .ref none

theorem kind_of_isNull (h : e.isNull = true) : e.type.kind = .reference := by
  unfold isNull at h
  split at h
  · rename_i t _ _
    obtain ⟨base, dims⟩ := t
    simp only [JType.isNull, Bool.and_eq_true, beq_iff_eq] at h
    obtain ⟨rfl, rfl⟩ := h
    rfl
  · cases h

theorem Means.of_prim (kind : e.type.kind = .prim p) (discrete : (prim p).isDiscrete = true)
    (computes : Computes q view e fun x => (v x).datum) (has : ∀ x, (v x).Has (.prim p)) : Means q view e v where
  computes := computes
  has x := kind ▸ has x
  discrete := kind ▸ discrete
  null isNull := by
    have := kind_of_isNull isNull
    rw [kind] at this
    cases this

def widened (e : Expr) (t : JType) : Expr :=
  if e.type = t then e else .convert t (convertOps e.type.kind t.kind) true e

theorem forms_of_operatesAll (h : OperatesAll ops s s') : ∀ op ∈ ops, ∃ o, inRuns plain op.byte = some (.operate o) := by
  induction ops generalizing s with
  | nil => simp
  | cons op ops ih =>
    obtain ⟨t, ⟨o, form, -⟩, rest⟩ := h
    intro op' member
    rcases List.mem_cons.mp member with rfl | later
    · exact ⟨o, form⟩
    · exact ih rest op' later

theorem Means.convert (h : Means q view e v) (kind : e.type.kind = .prim p)
    (integral : (prim r).isIntegral = true) :
    Means q view (.convert (.ofPrim r) (convertOps (.prim p) (.prim r)) implicit e) fun x => (v x).castTo r := by
  obtain ⟨sample, has⟩ := exists_has (kind ▸ h.discrete)
  have discrete : (prim r).isDiscrete = true := by
    revert integral
    cases r <;> decide
  refine .of_prim rfl discrete (h.computes.convert ?_ fun x s => ?_) fun x => Java.Value.has_castTo _ integral
  · exact forms_of_operatesAll (Java.Value.operates_convertOps has integral [])
  · exact Java.Value.operates_convertOps (kind ▸ h.has x) integral s

theorem Means.widened (h : Means q view e v) (kind : e.type.kind = .prim p)
    (integral : (prim r).isIntegral = true) : Means q view (e.widened (.ofPrim r)) fun x => (v x).castTo r := by
  unfold Expr.widened
  split_ifs with same
  · have : p = r := by
      rw [same] at kind
      exact (prim.inj kind).symm
    subst this
    have kept : (fun x => (v x).castTo p) = v := funext fun x => Java.Value.castTo_self (kind ▸ h.has x)
    rw [kept]
    exact h
  · rw [kind]
    exact h.convert kind integral

theorem Means.int (h : Means q view a v) (kind : a.type.kind = .prim .int) (x : ι) : ∃ n, v x = .int n :=
  Java.Value.of_has_small (by decide) (kind ▸ h.has x)

theorem Means.long (h : Means q view a v) (kind : a.type.kind = .prim .long) (x : ι) : ∃ n, v x = .long n :=
  Java.Value.of_has_long (kind ▸ h.has x)

theorem Means.bool (h : Means q view a v) (kind : a.type.kind = .prim .boolean) (x : ι) : ∃ b, v x = .bool b :=
  Java.Value.of_has_boolean (kind ▸ h.has x)

theorem Means.neg (h : Means q view a v) (kind : a.type.kind = .prim r) (among : r = .int ∨ r = .long) :
    Means q view (.neg (.ofPrim r) a) fun x => (v x).neg := by
  rcases among with rfl | rfl
  · refine .of_prim rfl rfl (h.computes.neg (o := .ineg) (by decide) fun x s => ?_) fun x => ?_
    · obtain ⟨n, value⟩ := h.int kind x
      rw [value]
      rfl
    · obtain ⟨n, value⟩ := h.int kind x
      rw [value]
      trivial
  · refine .of_prim rfl rfl (h.computes.neg (o := .lneg) (by decide) fun x s => ?_) fun x => ?_
    · obtain ⟨n, value⟩ := h.long kind x
      rw [value]
      rfl
    · obtain ⟨n, value⟩ := h.long kind x
      rw [value]
      trivial

theorem Means.of_bool {holds holds' : ι → Bool} (type : e.type = .boolean)
    (computes : Computes q view e fun x => .ofBool (holds' x)) (same : ∀ x, holds x = holds' x) :
    Means q view e fun x => .bool (holds x) := by
  obtain rfl : holds = holds' := funext same
  exact .of_prim (congrArg JType.kind type) rfl computes fun _ => trivial

theorem Means.computes_of (h : Means q view a v) (same : ∀ x, (v x).datum = f x) : Computes q view a f := by
  obtain rfl : (fun x => (v x).datum) = f := funext same
  exact h.computes

theorem Means.truth (h : Means q view a v) (kind : a.type.kind = .prim .boolean) :
    Computes q view a fun x => .ofBool (v x).truth := by
  refine h.computes_of fun x => ?_
  obtain ⟨b, value⟩ := h.bool kind x
  rw [value]
  rfl

theorem Means.small (h : Means q view a v) (small : a.type.kind.isIntLike = true) :
    Computes q view a fun x => .int (v x).toInt := by
  obtain ⟨p, kind⟩ : ∃ p, a.type.kind = .prim p := by
    cases k : a.type.kind with
    | void | reference =>
      rw [k] at small
      cases small
    | prim p => exact ⟨p, rfl⟩
  exact h.computes_of fun x => Java.Value.datum_small (kind ▸ small) (kind ▸ h.has x)

theorem Means.wide (h : Means q view a v) (kind : a.type.kind = .prim .long) :
    Computes q view a fun x => .long (v x).toLong := by
  refine h.computes_of fun x => ?_
  obtain ⟨n, value⟩ := h.long kind x
  rw [value]
  rfl

def address : Java.Value → Option Nat
  | .ref a => a
  | _ => none

theorem Means.ref (h : Means q view a v) (kind : a.type.kind = .reference) :
    (∀ x, v x = .ref (address (v x))) ∧ Computes q view a fun x => .ref (address (v x)) := by
  have value : ∀ x, v x = .ref (address (v x)) := by
    intro x
    obtain ⟨r, same⟩ := Java.Value.of_has_reference (kind ▸ h.has x)
    rw [same]
    rfl
  exact ⟨value, h.computes_of fun x => congrArg Java.Value.datum (value x)⟩

theorem compare_refs (equality : cmp.isEquality = true) (m n : Option Nat) :
    (Java.Value.ref m).compare cmp (.ref n) = ((m == n) == (cmp == .eq)) := by
  have forms : cmp = .eq ∨ cmp = .ne := by simpa [Cmp.isEquality] using equality
  have equals : (m == n) = decide (m = n) := Bool.beq_eq_decide_eq m n
  rw [equals]
  rcases forms with rfl | rfl <;> by_cases same : m = n
  all_goals
    simp only [Java.Value.compare, same, if_true, if_false, decide_true, decide_false]
    rfl

theorem Means.nullTest {expected : Bool} (ha : Means q view a u) (kind : a.type.kind = .reference) :
    Means q view (.nullTest (if expected then .eq else .ne) a) fun x => .bool ((u x).isNull == expected) := by
  obtain ⟨value, computes⟩ := ha.ref kind
  have tested : Computes q view (.nullTest (if expected then .eq else .ne) a) _ := computes.nullTest
  refine .of_bool rfl tested fun x => ?_
  have same := value x
  generalize address (u x) = m at same ⊢
  rw [same]
  cases m <;> rfl

theorem Means.not (ha : Means q view a u) (kind : a.type.kind = .prim .boolean) :
    Means q view (.not a) fun x => .bool (!(u x).truth) :=
  .of_bool rfl (ha.truth kind).not fun _ => rfl

section

variable (ha : Means q view a u) (hb : Means q view b v)

include ha hb

theorem Means.binary (discrete : (prim r).isDiscrete = true)
    (form : inRuns plain (op.opcode (.ofPrim r)).byte = some (.operate o))
    (result : ∀ x, (∀ s, o.apply ((v x).datum :: (u x).datum :: s) = some ((f x).datum :: s)) ∧ (f x).Has (.prim r)) :
    Means q view (.binary (.ofPrim r) op a b) f :=
  .of_prim rfl discrete (ha.computes.binary hb.computes form fun x s => (result x).1 s) fun x => (result x).2

theorem Means.arith (kindA : a.type.kind = .prim r) (kindB : b.type.kind = .prim r) (among : r = .int ∨ r = .long)
    (known : arith? op = some o) : Means q view (.binary (.ofPrim r) op a b) fun x => (u x).binary op (v x) := by
  obtain ⟨onInt, -, onLong⟩ := (operator_forms op).1 o known
  obtain ⟨noShift, int, long⟩ := arith_on op known
  rcases among with rfl | rfl
  · refine ha.binary hb rfl onInt fun x => ?_
    obtain ⟨m, left⟩ := ha.int kindA x
    obtain ⟨n, right⟩ := hb.int kindB x
    have value : (u x).binary op (v x) = .int (o.on32 m n) := by
      simp [left, right, int, Java.Value.binary, noShift, Java.Value.isLong, Java.Value.toInt]
    rw [value, left, right]
    exact ⟨fun s => rfl, trivial⟩
  · refine ha.binary hb rfl onLong fun x => ?_
    obtain ⟨m, left⟩ := ha.long kindA x
    obtain ⟨n, right⟩ := hb.long kindB x
    have value : (u x).binary op (v x) = .long (o.on64 m n) := by
      simp [left, right, long, Java.Value.binary, noShift, Java.Value.isLong, Java.Value.toLong]
    rw [value, left, right]
    exact ⟨fun s => rfl, trivial⟩

theorem Means.bits (kindA : a.type.kind = .prim .boolean) (kindB : b.type.kind = .prim .boolean)
    (among : op ∈ [BinaryOp.and, .or, .xor]) :
    Means q view (.binary .boolean op a b) fun x => (u x).binary op (v x) := by
  obtain ⟨o, known, bits⟩ : ∃ o, arith? op = some o ∧
      ∀ m n : Bool, Datum.int (o.on32 (if m then 1 else 0) (if n then 1 else 0)) = .ofBool (arithBool op m n) := by
    simp only [List.mem_cons, List.not_mem_nil, or_false] at among
    rcases among with rfl | rfl | rfl
    · exact ⟨.and, rfl, by decide⟩
    · exact ⟨.or, rfl, by decide⟩
    · exact ⟨.xor, rfl, by decide⟩
  obtain ⟨-, onBool, -⟩ := (operator_forms op).1 o known
  obtain ⟨noShift, -⟩ := arith_on op known
  refine ha.binary hb rfl onBool fun x => ?_
  obtain ⟨m, left⟩ := ha.bool kindA x
  obtain ⟨n, right⟩ := hb.bool kindB x
  have value : (u x).binary op (v x) = .bool (arithBool op m n) := by
    simp [left, right, Java.Value.binary, noShift]
  rw [value, left, right]
  exact ⟨fun s => congrArg (fun d => some (d :: s)) (bits m n), trivial⟩

theorem Means.shift (kindA : a.type.kind = .prim r) (kindB : b.type.kind = .prim .int) (among : r = .int ∨ r = .long)
    (known : shift? op = some o) : Means q view (.binary (.ofPrim r) op a b) fun x => (u x).binary op (v x) := by
  obtain ⟨onInt, onLong⟩ := (operator_forms op).2 o known
  obtain ⟨isShift, int, long⟩ := shift_on op known
  rcases among with rfl | rfl
  · refine ha.binary hb rfl onInt fun x => ?_
    obtain ⟨m, left⟩ := ha.int kindA x
    obtain ⟨n, right⟩ := hb.int kindB x
    have value : (u x).binary op (v x) = .int (o.on32 m n) := by
      simp [left, right, int, Java.Value.binary, isShift, Java.Value.toInt]
    rw [value, left, right]
    exact ⟨fun s => rfl, trivial⟩
  · refine ha.binary hb rfl onLong fun x => ?_
    obtain ⟨m, left⟩ := ha.long kindA x
    obtain ⟨n, right⟩ := hb.int kindB x
    have value : (u x).binary op (v x) = .long (o.on64 m n) := by
      simp [left, right, long, Java.Value.binary, isShift, Java.Value.toInt]
    rw [value, left, right]
    exact ⟨fun s => rfl, trivial⟩

theorem Means.compareInts (kindA : a.type.kind = .prim r) (kindB : b.type.kind = .prim r) (small : (prim r).isIntLike = true) :
    Means q view (.compare cmp a b) fun x => .bool ((u x).compare cmp (v x)) := by
  refine .of_bool rfl ((ha.small (kindA ▸ small)).compareInts (hb.small (kindB ▸ small)) (kindA ▸ small)) fun x => ?_
  have hasA : (u x).Has (.prim r) := kindA ▸ ha.has x
  have hasB : (v x).Has (.prim r) := kindB ▸ hb.has x
  rw [← decides_compare32]
  revert hasA hasB small
  cases u x <;> cases v x <;> cases r <;>
    simp [Java.Value.compare, Java.Value.isLong, Java.Value.Has, isIntLike]

theorem Means.compareLongs (kindA : a.type.kind = .prim .long)
    (kindB : b.type.kind = .prim .long) : Means q view (.compare cmp a b) fun x => .bool ((u x).compare cmp (v x)) := by
  refine .of_bool rfl ((ha.wide kindA).compareLongs (hb.wide kindB) kindA) fun x => ?_
  obtain ⟨m, first⟩ := ha.long kindA x
  obtain ⟨n, second⟩ := hb.long kindB x
  rw [first, second, ← decides_compare64]
  rfl

theorem Means.compareRefs (kindA : a.type.kind = .reference) (kindB : b.type.kind = .reference) (equality : cmp.isEquality = true) :
    Means q view (.compare cmp a b) fun x => .bool ((u x).compare cmp (v x)) := by
  obtain ⟨valueA, left⟩ := ha.ref kindA
  obtain ⟨valueB, right⟩ := hb.ref kindB
  have reference : a.type.isReference = true := by rw [JType.isReference, kindA]; rfl
  refine .of_bool rfl (left.compareRefs right reference equality (fun null x => ?_) fun null x => ?_) fun x => ?_
  · rw [ha.null null x]
    rfl
  · rw [hb.null null x]
    rfl
  · have first := valueA x
    have second := valueB x
    generalize address (u x) = m at first ⊢
    generalize address (v x) = n at second ⊢
    rw [first, second]
    exact compare_refs equality m n

theorem Means.conj (kindA : a.type.kind = .prim .boolean)
    (kindB : b.type.kind = .prim .boolean) :
    Means q view (.logic true a b) fun x => .bool ((u x).truth && (v x).truth) :=
  .of_bool rfl ((ha.truth kindA).conj (hb.truth kindB)) fun _ => rfl

theorem Means.disj (kindA : a.type.kind = .prim .boolean)
    (kindB : b.type.kind = .prim .boolean) :
    Means q view (.logic false a b) fun x => .bool ((u x).truth || (v x).truth) :=
  .of_bool rfl ((ha.truth kindA).disj (hb.truth kindB)) fun _ => rfl

end

theorem means_const {v : Java.Value} (has : v.Has t.kind)
    (discrete : t.kind.isDiscrete = true) (null : t.isNull = true → v = .ref none)
    (datum : constantDatum value = some v.datum) (entered : value.Entered q ref) :
    Means q view (.const t value ref) fun _ => v where
  computes := computes_const datum entered
  has _ := has
  discrete := discrete
  null isNull _ := null isNull

theorem means_local (discrete : l.type.kind.isDiscrete = true)
    (holds : ∀ x, (v x).Has l.type.kind ∧ view x l.slot = (v x).datum) : Means q view (.local l) v where
  computes := by
    obtain ⟨sample, has⟩ := exists_has discrete
    have same : (fun x => (v x).datum) = fun x => view x l.slot := funext fun x => (holds x).2.symm
    rw [same]
    refine computes_local (Java.Value.words_of_has has) ?_ fun x => ?_
    · cases sample <;> simp [Java.Value.datum, Datum.word, Datum.ofBool]
    · have one := Java.Value.words_of_has (holds x).1
      rw [Java.Value.words_of_has has] at one
      rw [(holds x).2]
      exact (List.cons.inj one).1.symm
  has x := (holds x).1
  discrete := discrete
  null isNull := by cases isNull

end Assembler.Expr

end ClassForge
