import ClassForge.Hierarchy.Snapshot
import ClassForge.Proofs.Cbor
import ClassForge.Proofs.Descriptors
import ClassForge.Proofs.Records
import Std.Data.TreeMap.Lemmas

/-! A registry is read back from its snapshot in either encoding, within what that can be read with. -/

namespace ClassForge

open Registry

namespace Cbor.Item

theorem toText_ofText (s : String) : toText (ofText s) = some s := by
  have utf8 : isUtf8 (Text.encodeUtf8 s) = true := by
    rw [isUtf8, Text.decodeUtf8_encodeUtf8]
    exact beq_self_eq_true _
  simp [toText, ofText, untag, utf8, Text.decodeUtf8_encodeUtf8]

theorem toWord_uint (n : UInt16) : toWord (.uint n.toNat) = some n := by
  have small := n.toNat_lt
  simp [toWord, untag, small]

theorem record_numbered (fields : List Nat) (kvs : List (Nat × Item)) :
    record fields (.map (kvs.map fun p => (.uint p.1, p.2))) = some (fields.map fun f => (kvs.lookup f).getD null) := by
  simp [record, untag, List.filterMap_map, Function.comp_def]

theorem toText_optional (s : String) : (if s = "" then null else ofText s).toText = some s := by
  split
  next none =>
    rw [none]
    rfl
  next => exact toText_ofText s

theorem toList_optional (f : α → Item) (xs : List α) :
    (if xs.isEmpty then null else array (xs.map f)).toList = some (xs.map f) := by
  cases xs <;> rfl

end Cbor.Item

namespace Hierarchy

namespace SnapshotMember

open MessagePack.Item in
theorem ofPack_toPack (m : SnapshotMember) : ofPack m.toPack = some m := by
  have values : (toPack m).record ["name", "desc", "flags"] = some [text m.name, text m.descriptor, .uint16 m.access] :=
    record_named _ [("name", text m.name), ("desc", text m.descriptor), ("flags", .uint16 m.access)]
  simp [ofPack, values, toText_text, toWord]

open Cbor.Item in
theorem ofCbor_toCbor (m : SnapshotMember) : ofCbor m.toCbor = some m := by
  have values : (toCbor m).record [1, 2, 3] = some [ofText m.name, ofText m.descriptor, .uint m.access.toNat] :=
    record_numbered _ [(1, ofText m.name), (2, ofText m.descriptor), (3, .uint m.access.toNat)]
  simp [ofCbor, values, toText_ofText, toWord_uint]

end SnapshotMember

namespace SnapshotClass

def named (c : SnapshotClass) : List (String × MessagePack.Item) :=
  [("name", .text c.name)] ++ (if c.super = "" then [] else [("super", .text c.super)]) ++
    (if c.interfaces.isEmpty then [] else [("interfaces", .array (c.interfaces.map .text))]) ++
    [("flags", .uint16 c.access)] ++
    (if c.fields.isEmpty then [] else [("fields", .array (c.fields.map (·.toPack)))]) ++
    (if c.methods.isEmpty then [] else [("methods", .array (c.methods.map (·.toPack)))])

theorem toPack_eq (c : SnapshotClass) : c.toPack = .map (c.named.map fun p => (.text p.1, p.2)) := by
  simp only [named, List.map_append, List.map_cons, List.map_nil, apply_ite (List.map _)]
  rfl

open MessagePack.Item in
theorem record_toPack (c : SnapshotClass) :
    c.toPack.record ["name", "super", "interfaces", "flags", "fields", "methods"] =
      some [text c.name, if c.super = "" then nil else text c.super,
        if c.interfaces.isEmpty then nil else array (c.interfaces.map text), uint16 c.access,
        if c.fields.isEmpty then nil else array (c.fields.map (·.toPack)),
        if c.methods.isEmpty then nil else array (c.methods.map (·.toPack))] := by
  rw [toPack_eq, record_named]
  simp [named, List.reverse_append, reverse_optional, lookup_optional, lookup_present, getD_optional]

open MessagePack.Item in
theorem ofPack_toPack (c : SnapshotClass) : ofPack c.toPack = some c := by
  have interfaces : (c.interfaces.map text).mapM (·.toText) = some c.interfaces :=
    mapM_eq_pure fun s _ => toText_text s
  have fields : (c.fields.map SnapshotMember.toPack).mapM SnapshotMember.ofPack = some c.fields :=
    mapM_eq_pure fun m _ => m.ofPack_toPack
  have methods : (c.methods.map SnapshotMember.toPack).mapM SnapshotMember.ofPack = some c.methods :=
    mapM_eq_pure fun m _ => m.ofPack_toPack
  rw [ofPack, record_toPack]
  simp [toText_text, toText_optional, toList_optional, toWord, interfaces, fields, methods, -List.isEmpty_iff,
    -List.mapM_map]

def numbered (c : SnapshotClass) : List (Nat × Cbor.Item) :=
  [(1, .ofText c.name)] ++ (if c.super = "" then [] else [(2, .ofText c.super)]) ++
    (if c.interfaces.isEmpty then [] else [(3, .array (c.interfaces.map .ofText))]) ++
    [(4, .uint c.access.toNat)] ++
    (if c.fields.isEmpty then [] else [(5, .array (c.fields.map (·.toCbor)))]) ++
    (if c.methods.isEmpty then [] else [(6, .array (c.methods.map (·.toCbor)))])

theorem toCbor_eq (c : SnapshotClass) : c.toCbor = .map (c.numbered.map fun p => (.uint p.1, p.2)) := by
  simp only [numbered, List.map_append, List.map_cons, List.map_nil, apply_ite (List.map _)]
  rfl

open Cbor.Item in
theorem record_toCbor (c : SnapshotClass) :
    c.toCbor.record [1, 2, 3, 4, 5, 6] =
      some [ofText c.name, if c.super = "" then null else ofText c.super,
        if c.interfaces.isEmpty then null else array (c.interfaces.map ofText), uint c.access.toNat,
        if c.fields.isEmpty then null else array (c.fields.map (·.toCbor)),
        if c.methods.isEmpty then null else array (c.methods.map (·.toCbor))] := by
  rw [toCbor_eq, record_numbered]
  simp [numbered, lookup_optional, lookup_last, lookup_present, getD_optional]

open Cbor.Item in
theorem ofCbor_toCbor (c : SnapshotClass) : ofCbor c.toCbor = some c := by
  have interfaces : (c.interfaces.map ofText).mapM (·.toText) = some c.interfaces :=
    mapM_eq_pure fun s _ => toText_ofText s
  have fields : (c.fields.map SnapshotMember.toCbor).mapM SnapshotMember.ofCbor = some c.fields :=
    mapM_eq_pure fun m _ => m.ofCbor_toCbor
  have methods : (c.methods.map SnapshotMember.toCbor).mapM SnapshotMember.ofCbor = some c.methods :=
    mapM_eq_pure fun m _ => m.ofCbor_toCbor
  rw [ofCbor, record_toCbor]
  simp [toText_ofText, toText_optional, toList_optional, toWord_uint, interfaces, fields, methods, -List.isEmpty_iff,
    -List.mapM_map]

end SnapshotClass

namespace Snapshot

open MessagePack.Item in
theorem ofPack_toPack (s : Snapshot) : ofPack s.toPack = some s := by
  have classes : (s.classes.map SnapshotClass.toPack).mapM SnapshotClass.ofPack = some s.classes :=
    mapM_eq_pure fun c _ => c.ofPack_toPack
  have values : s.toPack.record ["schema", "classes"] =
      some [uint16 s.schema, if s.classes.isEmpty then nil else array (s.classes.map (·.toPack))] :=
    record_named _ [("schema", uint16 s.schema), ("classes", _)]
  rw [ofPack, values]
  simp [toList_optional, toWord, classes, -List.isEmpty_iff, -List.mapM_map]

open Cbor.Item in
theorem ofCbor_toCbor (s : Snapshot) : ofCbor s.toCbor = some s := by
  have classes : (s.classes.map SnapshotClass.toCbor).mapM SnapshotClass.ofCbor = some s.classes :=
    mapM_eq_pure fun c _ => c.ofCbor_toCbor
  have values : s.toCbor.record [1, 2] =
      some [uint s.schema.toNat, if s.classes.isEmpty then null else array (s.classes.map (·.toCbor))] :=
    record_numbered _ [(1, uint s.schema.toNat), (2, _)]
  rw [ofCbor, values]
  simp [toList_optional, toWord_uint, classes, -List.isEmpty_iff, -List.mapM_map]

end Snapshot

def SnapshotFormat.textLimit : SnapshotFormat → Nat
  | .messagePack => 4294967296
  | .cbor => 18446744073709551616

def SnapshotFormat.listLimit : SnapshotFormat → Nat
  | .messagePack => 4294967296
  | .cbor => Cbor.Item.maxElements + 1

def SnapshotMember.Within (format : SnapshotFormat) (m : SnapshotMember) : Prop :=
  (Text.encodeUtf8 m.name).length < format.textLimit ∧ (Text.encodeUtf8 m.descriptor).length < format.textLimit

instance (format : SnapshotFormat) (m : SnapshotMember) : Decidable (m.Within format) :=
  inferInstanceAs (Decidable (_ ∧ _))

structure SnapshotClass.Within (format : SnapshotFormat) (c : SnapshotClass) : Prop where
  name : (Text.encodeUtf8 c.name).length < format.textLimit
  super : (Text.encodeUtf8 c.super).length < format.textLimit
  interfaces : c.interfaces.length < format.listLimit ∧ ∀ s ∈ c.interfaces, (Text.encodeUtf8 s).length < format.textLimit
  fields : c.fields.length < format.listLimit ∧ ∀ m ∈ c.fields, m.Within format
  methods : c.methods.length < format.listLimit ∧ ∀ m ∈ c.methods, m.Within format

def Snapshot.Within (format : SnapshotFormat) (s : Snapshot) : Prop :=
  s.classes.length < format.listLimit ∧ ∀ c ∈ s.classes, c.Within format

end Hierarchy

theorem Cbor.Item.fits_numbered {kvs : List (Nat × Item)} (few : kvs.length ≤ maxElements)
    (h : ∀ p ∈ kvs, p.1 < 18446744073709551616 ∧ p.2.Fits depth) :
    (map (kvs.map fun p => (uint p.1, p.2))).Fits (depth + 1) := by
  refine ⟨Nat.succ_pos _, by rwa [List.length_map], pairsFit_iff.mpr ?_⟩
  intro q member
  obtain ⟨p, inside, rfl⟩ := List.mem_map.mp member
  exact h p inside

theorem Cbor.Item.fits_array {f : α → Item} {xs : List α} (few : xs.length < maxElements + 1)
    (h : ∀ x ∈ xs, (f x).Fits depth) : (array (xs.map f)).Fits (depth + 1) := by
  refine ⟨Nat.succ_pos _, by rw [List.length_map]; exact Nat.le_of_lt_succ few, allFit_iff.mpr ?_⟩
  intro y member
  obtain ⟨x, inside, rfl⟩ := List.mem_map.mp member
  exact h x inside

namespace Hierarchy

section MessagePack

open MessagePack.Item

theorem short_key : ∀ key ∈ ["schema", "classes", "name", "super", "interfaces", "flags", "fields", "methods", "desc"],
    (Text.encodeUtf8 key).length < 4294967296 := by
  decide

theorem SnapshotMember.fits_toPack {m : SnapshotMember} (h : m.Within .messagePack) : m.toPack.Fits := by
  refine @fits_named [("name", text m.name), ("desc", text m.descriptor), ("flags", .uint16 m.access)] ?_ ?_
  · exact Nat.lt_of_lt_of_le (show 3 < 4 by decide) (by decide)
  · intro p member
    simp only [List.mem_cons, List.not_mem_nil, or_false] at member
    obtain rfl | rfl | rfl := member
    · exact ⟨short_key "name" (by simp), h.1⟩
    · exact ⟨short_key "desc" (by simp), h.2⟩
    · exact ⟨short_key "flags" (by simp), trivial⟩

theorem SnapshotClass.length_named (c : SnapshotClass) : c.named.length ≤ 6 := by
  simp only [named, List.length_append]
  split_ifs <;> simp

theorem SnapshotClass.fits_toPack {c : SnapshotClass} (h : c.Within .messagePack) : c.toPack.Fits := by
  rw [toPack_eq]
  refine fits_named (Nat.lt_of_le_of_lt c.length_named (by decide)) ?_
  intro p member
  simp only [named, List.mem_append, List.mem_singleton] at member
  obtain ((((rfl | inside) | inside) | rfl) | inside) | inside := member
  · exact ⟨short_key "name" (by simp), h.name⟩
  · rw [mem_optional inside]
    exact ⟨short_key "super" (by simp), h.super⟩
  · rw [mem_optional inside]
    exact ⟨short_key "interfaces" (by simp), fits_array h.interfaces.1 h.interfaces.2⟩
  · exact ⟨short_key "flags" (by simp), trivial⟩
  · rw [mem_optional inside]
    exact ⟨short_key "fields" (by simp), fits_array h.fields.1 fun m member => SnapshotMember.fits_toPack (h.fields.2 m member)⟩
  · rw [mem_optional inside]
    exact ⟨short_key "methods" (by simp), fits_array h.methods.1 fun m member => SnapshotMember.fits_toPack (h.methods.2 m member)⟩

theorem Snapshot.fits_toPack {s : Snapshot} (h : s.Within .messagePack) : s.toPack.Fits := by
  refine @fits_named [("schema", uint16 s.schema),
    ("classes", if s.classes.isEmpty then nil else array (s.classes.map (·.toPack)))] ?_ ?_
  · exact Nat.lt_of_lt_of_le (show 2 < 3 by decide) (by decide)
  · intro p member
    simp only [List.mem_cons, List.not_mem_nil, or_false] at member
    obtain rfl | rfl := member
    · exact ⟨short_key "schema" (by simp), trivial⟩
    · refine ⟨short_key "classes" (by simp), ?_⟩
      split
      · trivial
      · exact fits_array h.1 fun c member => SnapshotClass.fits_toPack (h.2 c member)

end MessagePack

section Cbor

open Cbor.Item

theorem SnapshotMember.fits_toCbor {m : SnapshotMember} (h : m.Within .cbor) (depth : Nat) :
    m.toCbor.Fits (depth + 1) := by
  refine @fits_numbered depth [(1, ofText m.name), (2, ofText m.descriptor), (3, .uint m.access.toNat)] ?_ ?_
  · exact Nat.le_of_lt (Nat.lt_of_lt_of_le (show 3 < 4 by decide) (by decide))
  · intro p member
    simp only [List.mem_cons, List.not_mem_nil, or_false] at member
    obtain rfl | rfl | rfl := member
    · exact ⟨by simp, h.1⟩
    · exact ⟨by simp, h.2⟩
    · exact ⟨by simp, Nat.lt_trans m.access.toNat_lt (by decide)⟩

theorem SnapshotClass.length_numbered (c : SnapshotClass) : c.numbered.length ≤ 6 := by
  simp only [numbered, List.length_append]
  split_ifs <;> simp

theorem SnapshotClass.fits_toCbor {c : SnapshotClass} (h : c.Within .cbor) (depth : Nat) :
    c.toCbor.Fits (depth + 3) := by
  rw [toCbor_eq]
  refine fits_numbered (Nat.le_trans c.length_numbered (by decide)) ?_
  intro p member
  simp only [numbered, List.mem_append, List.mem_singleton] at member
  obtain ((((rfl | inside) | inside) | rfl) | inside) | inside := member
  · exact ⟨by simp, h.name⟩
  · rw [mem_optional inside]
    exact ⟨by simp, h.super⟩
  · rw [mem_optional inside]
    exact ⟨by simp, fits_array h.interfaces.1 h.interfaces.2⟩
  · exact ⟨by simp, Nat.lt_trans c.access.toNat_lt (by decide)⟩
  · rw [mem_optional inside]
    exact ⟨by simp, fits_array h.fields.1 fun m member => SnapshotMember.fits_toCbor (h.fields.2 m member) _⟩
  · rw [mem_optional inside]
    exact ⟨by simp, fits_array h.methods.1 fun m member => SnapshotMember.fits_toCbor (h.methods.2 m member) _⟩

theorem Snapshot.fits_toCbor {s : Snapshot} (h : s.Within .cbor) : s.toCbor.Fits maxDepth := by
  refine @fits_numbered 31 [(1, uint s.schema.toNat),
    (2, if s.classes.isEmpty then null else array (s.classes.map (·.toCbor)))] ?_ ?_
  · exact Nat.le_of_lt (Nat.lt_of_lt_of_le (show 2 < 3 by decide) (by decide))
  · intro p member
    simp only [List.mem_cons, List.not_mem_nil, or_false] at member
    obtain rfl | rfl := member
    · exact ⟨by simp, Nat.lt_trans s.schema.toNat_lt (by decide)⟩
    · refine ⟨by simp, ?_⟩
      split
      · exact (by decide : 22 < 24)
      · exact fits_array h.1 fun c member => SnapshotClass.fits_toCbor (h.2 c member) 27

end Cbor

theorem Snapshot.decode_encode {s : Snapshot} (h : s.Within format) : decode format (s.encode format) = .ok s := by
  cases format with
  | messagePack => simp [decode, encode, MessagePack.Item.parse_encode (fits_toPack h), ofPack_toPack]
  | cbor => simp [decode, encode, Cbor.Item.parse_encode (fits_toCbor h), ofCbor_toCbor]

end Hierarchy

/-- A class whose types can be spelled, and which owns its members. -/
structure ClassInfo.Portable (c : ClassInfo) : Prop where
  fields : ∀ f ∈ c.fields.toList, f.owner = c.name ∧ f.type.Spelled
  methods : ∀ m ∈ c.methods.toList,
    m.owner = c.name ∧ m.ret.Spelled ∧ ∀ t ∈ m.params, t.Spelled ∧ t.isVoid = false

structure Registry.Portable (r : Registry) : Prop where
  keyed : ∀ (name : String) (c : ClassInfo), r[name]? = some c → c.name = name
  classes : ∀ (name : String) (c : ClassInfo), r[name]? = some c → c.Portable

namespace Hierarchy

variable {owner : String}

theorem SnapshotMember.toField_ofField (owned : f.owner = owner) (spelled : f.type.Spelled) :
    toField owner (ofField f) = .ok f := by
  subst owned
  simp [toField, ofField, FieldInfo.descriptor, spelled.parseDescriptor_eq]

theorem SnapshotMember.toMethod_ofMethod (owned : m.owner = owner) (spelled : m.ret.Spelled)
    (params : ∀ t ∈ m.params, t.Spelled ∧ t.isVoid = false) : toMethod owner (ofMethod m) = .ok m := by
  subst owned
  simp [toMethod, ofMethod, MethodInfo.descriptor, spelled.parseMethodDescriptor_eq params]

theorem SnapshotClass.toInfo_ofInfo (h : c.Portable) : toInfo (ofInfo c) = .ok c := by
  have fields : (c.fields.toList.map SnapshotMember.ofField).mapM (SnapshotMember.toField c.name) = .ok c.fields.toList :=
    mapM_eq_pure fun f member => SnapshotMember.toField_ofField (h.fields f member).1 (h.fields f member).2
  have methods : (c.methods.toList.map SnapshotMember.ofMethod).mapM (SnapshotMember.toMethod c.name) =
      .ok c.methods.toList :=
    mapM_eq_pure fun m member => SnapshotMember.toMethod_ofMethod (h.methods m member).1 (h.methods m member).2.1
      (h.methods m member).2.2
  simp only [toInfo, ofInfo, fields, methods, bind, Except.bind, pure, Except.pure]

end Hierarchy

namespace Registry

variable {c : ClassInfo} {r : Registry}

theorem mem_classes (member : c ∈ r.classes) : ∃ name : String, r[name]? = some c := by
  obtain ⟨⟨name, d⟩, stored, rfl⟩ := List.mem_map.mp member
  exact ⟨name, Std.TreeMap.mem_toList_iff_getElem?_eq_some.mp stored⟩

theorem equiv_foldl_add (keyed : ∀ (name : String) (c : ClassInfo), r[name]? = some c → c.name = name) :
    (r.classes.foldl add empty).Equiv r := by
  have named : ∀ p ∈ r.toList, p.2.name = p.1 :=
    fun p member => keyed p.1 p.2 (Std.TreeMap.mem_toList_iff_getElem?_eq_some.mp member)
  have inserts : ∀ (ps : List (String × ClassInfo)) (s : Registry), (∀ p ∈ ps, p.2.name = p.1) →
      (ps.map (·.2)).foldl add s = ps.foldl (fun acc p => acc.insert p.1 p.2) s := by
    intro ps s names
    rw [List.foldl_map]
    refine List.foldl_ext _ _ _ fun s p member => ?_
    rw [add, names p member]
  have whole : (Std.TreeMap.ofList r.toList compare).Equiv r := by
    refine Std.TreeMap.Equiv.of_forall_constGet?_eq fun name => ?_
    cases stored : r[name]? with
    | some c =>
      refine Std.TreeMap.getElem?_ofList_of_mem (Std.ReflCmp.compare_self) Std.TreeMap.distinct_keys_toList ?_
      exact Std.TreeMap.mem_toList_iff_getElem?_eq_some.mpr stored
    | none =>
      refine Std.TreeMap.getElem?_ofList_of_contains_eq_false ?_
      rw [Std.TreeMap.map_fst_toList_eq_keys, Std.TreeMap.contains_keys, Std.TreeMap.contains_eq_isSome_getElem?, stored]
      rfl
  rw [classes, inserts _ _ named]
  exact Std.TreeMap.ofList_equiv_foldl.symm.trans whole

theorem portable_empty : empty.Portable := by
  have nothing : ∀ name : String, empty[name]? = none := fun _ => Std.TreeMap.getElem?_emptyc
  exact ⟨fun name c stored => by simp [nothing] at stored, fun name c stored => by simp [nothing] at stored⟩

theorem Portable.add (h : r.Portable) (portable : c.Portable) : (r.add c).Portable := by
  have either : ∀ (name : String) (d : ClassInfo), (r.add c)[name]? = some d → d = c ∧ c.name = name ∨ r[name]? = some d := by
    intro name d stored
    rw [Registry.add, Std.TreeMap.getElem?_insert] at stored
    split at stored
    next same => exact .inl ⟨(Option.some.inj stored).symm, Std.LawfulEqCmp.eq_of_compare same⟩
    next => exact .inr stored
  constructor
  · intro name d stored
    obtain ⟨rfl, same⟩ | old := either name d stored
    · exact same
    · exact h.keyed name d old
  · intro name d stored
    obtain ⟨rfl, -⟩ | old := either name d stored
    · exact portable
    · exact h.classes name d old

end Registry

namespace Hierarchy

theorem Snapshot.toRegistry_ofRegistry (h : r.Portable) :
    toRegistry (ofRegistry r) = .ok (r.classes.foldl add .empty) := by
  have adds : ∀ (cs : List ClassInfo) (s : Registry), (∀ c ∈ cs, c.Portable) →
      (cs.map SnapshotClass.ofInfo).foldlM (fun r c => do return r.add (← c.toInfo)) s =
        (.ok (cs.foldl add s) : Except Fault Registry) := by
    intro cs
    induction cs with
    | nil => intro s _; rfl
    | cons c cs ih =>
      intro s portable
      rw [List.map_cons, List.foldlM_cons, SnapshotClass.toInfo_ofInfo (portable c List.mem_cons_self)]
      exact ih _ fun d member => portable d (List.mem_cons_of_mem _ member)
  have portable : ∀ c ∈ r.classes, c.Portable := by
    intro c member
    obtain ⟨name, stored⟩ := mem_classes member
    exact h.classes name c stored
  exact adds r.classes .empty portable

/-- A registry is read back from its snapshot, in either encoding and within its limits: with the
same names and classes, and so that the same bytes are written again. -/
theorem load_save (format : SnapshotFormat) (r : Registry) (portable : r.Portable)
    (within : (Snapshot.ofRegistry r).Within format) :
    ∃ r', load format (save format r) = .ok r' ∧ r'.names = r.names ∧ (∀ name : String, r'[name]? = r[name]?) ∧
      ∀ format', save format' r' = save format' r := by
  have same := equiv_foldl_add portable.keyed
  refine ⟨r.classes.foldl add .empty, ?_, same.keys_eq, fun name => same.getElem?_eq, fun format' => ?_⟩
  · rw [load, save, Snapshot.decode_encode within]
    exact Snapshot.toRegistry_ofRegistry portable
  · have classes : (r.classes.foldl add .empty).classes = r.classes := by
      rw [classes, same.toList_eq, classes]
    rw [save, save, Snapshot.ofRegistry, Snapshot.ofRegistry, classes]

/-- A class with a field of as many dimensions as there can be, an abstract method and an interface. -/
def grid : ClassInfo :=
  { name := "demo/Grid", super := "java/lang/Object", interfaces := ["java/lang/Runnable"], access := ⟨1057⟩,
    fields := #[⟨"demo/Grid", "cells", ⟨.named "demo/Cell", 255⟩, ⟨2⟩⟩],
    methods := #[⟨"demo/Grid", "at", [.int, .long, .string], ⟨.named "demo/Cell", 0⟩, ⟨1025⟩⟩] }

theorem grid_portable : (empty.add grid).Portable := by
  have cell : ∀ dims, (JType.mk (.named "demo/Cell") dims).Spelled := by
    intro dims
    refine ⟨⟨by rintro ⟨⟩, ?_⟩, ?_⟩
    · rintro _ ⟨⟩
      decide
    · rintro _ ⟨⟩
      decide
  have string : JType.string.Spelled := by
    refine ⟨⟨by rintro ⟨⟩, ?_⟩, ?_⟩
    · rintro _ ⟨⟩
      decide
    · rintro _ ⟨⟩
      decide
  have prim : ∀ p, (JType.ofPrim p).Spelled := fun p => ⟨JType.wellFormed_ofPrim p, by rintro _ ⟨⟩⟩
  refine portable_empty.add ⟨?_, ?_⟩
  · intro f member
    obtain rfl : f = _ := List.mem_singleton.mp member
    exact ⟨rfl, cell 255⟩
  · intro m member
    obtain rfl : m = _ := List.mem_singleton.mp member
    refine ⟨rfl, cell 0, fun t param => ?_⟩
    simp only [List.mem_cons, List.not_mem_nil, or_false] at param
    obtain rfl | rfl | rfl := param
    · exact ⟨prim .int, rfl⟩
    · exact ⟨prim .long, rfl⟩
    · exact ⟨string, rfl⟩

theorem grid_within : (Snapshot.ofRegistry (empty.add grid)).Within .cbor := by
  refine ⟨by decide, fun c member => ?_⟩
  obtain rfl : c = _ := List.mem_singleton.mp member
  exact ⟨by decide, by decide, by decide +kernel, by decide +kernel, by decide +kernel⟩

theorem load_save_grid : (empty.add grid).Portable ∧ (Snapshot.ofRegistry (empty.add grid)).Within .cbor ∧
    ∃ r', load .cbor (save .cbor (empty.add grid)) = .ok r' ∧ r'["demo/Grid"]? = some grid := by
  obtain ⟨r', read, -, same, -⟩ := load_save .cbor _ grid_portable grid_within
  exact ⟨grid_portable, grid_within, r', read, (same "demo/Grid").trans rfl⟩

def wide (n : Nat) : ClassInfo :=
  { name := "demo/Wide", super := "java/lang/Object", interfaces := List.replicate n "I", access := ⟨1⟩ }

theorem wide_portable (n : Nat) : (empty.add (wide n)).Portable :=
  portable_empty.add
    ⟨fun _ member => absurd member List.not_mem_nil, fun _ member => absurd member List.not_mem_nil⟩

theorem toCbor_ofInfo_wide (some : 0 < n) : (SnapshotClass.ofInfo (wide n)).toCbor =
    .map ([(.uint 1, .ofText "demo/Wide"), (.uint 2, .ofText "java/lang/Object")] ++
      (.uint 3, .array ((List.replicate n "I").map .ofText)) :: [(.uint 4, .uint 1)]) := by
  have empty : (List.replicate n "I").isEmpty = false := by simpa using some.ne'
  simp [SnapshotClass.toCbor, SnapshotClass.ofInfo, wide, empty]

open Cbor.Item in
theorem load_save_wide (many : maxElements < n) (fits : n < 18446744073709551616) :
    load .cbor (save .cbor (empty.add (wide n))) = .error (.unreadable .cbor) := by
  have small : ∀ depth k, k < 6 → Fits depth (.uint k) := fun _ k h => show k < 18446744073709551616 by omega
  have interfaces : Unreadable 29 (.array ((List.replicate n "I").map ofText)) :=
    unreadable_crowded (by simpa using many) (by simpa using fits) _
  have whole : Unreadable 30 (SnapshotClass.ofInfo (wide n)).toCbor := by
    rw [toCbor_ofInfo_wide (Nat.lt_of_le_of_lt (Nat.zero_le _) many)]
    refine unreadable_map _ _ (show 4 ≤ maxElements by decide) ?_ (small _ 3 (by decide)) interfaces
    exact ⟨small _ 1 (by decide), show _ < _ by decide, small _ 2 (by decide), show _ < _ by decide, trivial⟩
  have unread : parse (Snapshot.ofRegistry (empty.add (wide n))).toCbor.encode = none := by
    refine parse_unreadable (unreadable_map [(.uint 1, .uint 1)] [] (show 2 ≤ maxElements by decide)
      ⟨small _ 1 (by decide), small _ 1 (by decide), trivial⟩ (small _ 2 (by decide)) ?_)
    exact @unreadable_array _ _ [] (show 1 < 18446744073709551616 by decide) whole
  rw [load, save, Snapshot.encode, Snapshot.decode]
  simp only [unread]
  rfl

/-- One interface more than a list is read with. -/
theorem load_save_crowded : (empty.add (wide 131073)).Portable ∧
    load .cbor (save .cbor (empty.add (wide 131073))) = .error (.unreadable .cbor) :=
  ⟨wide_portable _, load_save_wide (by decide) (by decide)⟩

end Hierarchy

end ClassForge
