import OpTree.Proofs.Legible
import OpTree.Proofs.Locations
import OpTree.Proofs.Parts

/-!
The fingerprint separates programs: its bytes tell a program, whatever stands behind them, but for
its locations. A text ends with a byte that no text contains, a number has a fixed number of bytes,
a list begins with its length, and a form with its position among the forms. So programs that
differ in more than locations share cached results only if the hash itself takes different bytes to
the same word.
-/

namespace OpTree

open OpTree.IR OpTree.Analysis

namespace Text

lemma ne_of_mem_bytesOf {s : String} : ∀ b ∈ bytesOf s, b ≠ 0xff := by
  have hsmall {n : ℕ} (hn : n < 255) : UInt8.ofNat n ≠ 0xff := by
    intro h
    have hnat := congrArg UInt8.toNat h
    rw [UInt8.toNat_ofNat_of_lt' (hn.trans (by decide))] at hnat
    exact absurd hnat (by simp; omega)
  intro b hb
  obtain ⟨c, -, hc⟩ := List.mem_flatMap.mp hb
  unfold String.utf8EncodeChar at hc
  dsimp only at hc
  split_ifs at hc <;> simp only [List.mem_cons, List.not_mem_nil, or_false] at hc
  · subst hc
    exact hsmall (by omega)
  · rcases hc with rfl | rfl <;> exact hsmall (by omega)
  · rcases hc with rfl | rfl | rfl <;> exact hsmall (by omega)
  · rcases hc with rfl | rfl | rfl | rfl <;> exact hsmall (by omega)

lemma bytesOf_inj {s t : String} (h : bytesOf s = bytesOf t) : s = t := by
  have hencode (u : String) : (bytesOf u).toByteArray = u.toByteArray := u.utf8Encode_toList
  rw [← String.toByteArray_inj, ← hencode, h, hencode]

end Text

namespace Analysis.Fingerprint

/-- The bytes `s` and `t` can agree, up to what stands behind them, only if `p` holds. -/
def Separates (p : Prop) (s t : List UInt8) : Prop := ∀ x y, s ++ x = t ++ y → p ∧ x = y

variable {p q : Prop} {s t s' t' : List UInt8}

namespace Separates

lemma imp (h : Separates p s t) (hpq : p → q) : Separates q s t := fun x y heq =>
  (h x y heq).imp_left hpq

lemma append (h : Separates p s t) (h' : p → Separates q s' t') :
    Separates (p ∧ q) (s ++ s') (t ++ t') := by
  intro x y heq
  rw [List.append_assoc, List.append_assoc] at heq
  obtain ⟨hp, hrest⟩ := h _ _ heq
  obtain ⟨hq, hxy⟩ := h' hp x y hrest
  exact ⟨⟨hp, hq⟩, hxy⟩

lemma of_length (hlength : s.length = t.length) (h : s = t → p) : Separates p s t := by
  intro x y heq
  obtain ⟨hst, hxy⟩ := List.append_inj heq hlength
  exact ⟨h hst, hxy⟩

lemma flatMap {α : Type} {R : α → α → Prop} {f : α → List UInt8} {as bs : List α}
    (hlength : as.length = bs.length) (h : ∀ a ∈ as, ∀ b ∈ bs, Separates (R a b) (f a) (f b)) :
    Separates (List.Forall₂ R as bs) (as.flatMap f) (bs.flatMap f) := by
  induction as generalizing bs with
  | nil =>
    obtain rfl : bs = [] := List.eq_nil_of_length_eq_zero hlength.symm
    exact of_length rfl fun _ => .nil
  | cons a as ih =>
    cases bs with
    | nil => cases hlength
    | cons b bs =>
      have hrest := ih (Nat.succ.inj hlength) fun c hc d hd => h c (.tail _ hc) d (.tail _ hd)
      rw [List.flatMap_cons, List.flatMap_cons]
      exact ((h a (.head _) b (.head _)).append fun _ => hrest).imp fun ⟨hab, htail⟩ =>
        .cons hab htail

end Separates

/-! ### Words, texts and lists -/

lemma mod_eq_of_bytes {m n : ℕ} (h0 : m % 256 = n % 256) (h1 : m / 256 % 256 = n / 256 % 256)
    (h2 : m / 65536 % 256 = n / 65536 % 256) (h3 : m / 16777216 % 256 = n / 16777216 % 256) :
    m % 4294967296 = n % 4294967296 := by
  omega

lemma halfWordBytes_inj {v w : UInt32} (h : halfWordBytes v = halfWordBytes w) : v = w := by
  simp only [halfWordBytes, List.cons.injEq, and_true, ← UInt8.toNat_inj, UInt32.toNat_toUInt8,
    UInt32.toNat_shiftRight, Nat.shiftRight_eq_div_pow, UInt32.reduceToNat, Nat.reduceMod,
    Nat.reducePow] at h
  obtain ⟨h0, h1, h2, h3⟩ := h
  have hmod := mod_eq_of_bytes h0 h1 h2 h3
  have hv := v.toNat_lt
  have hw := w.toNat_lt
  apply UInt32.toNat_inj.mp
  omega

lemma wordBytes_inj {v w : UInt64} (h : wordBytes v = wordBytes w) : v = w := by
  simp only [wordBytes, List.cons.injEq, and_true, ← UInt8.toNat_inj, UInt64.toNat_toUInt8,
    UInt64.toNat_shiftRight, Nat.shiftRight_eq_div_pow, UInt64.reduceToNat, Nat.reduceMod,
    Nat.reducePow] at h
  obtain ⟨h0, h1, h2, h3, h4, h5, h6, h7⟩ := h
  have hlow := mod_eq_of_bytes h0 h1 h2 h3
  have hhigh : v.toNat / 4294967296 % 4294967296 = w.toNat / 4294967296 % 4294967296 := by
    refine mod_eq_of_bytes h4 ?_ ?_ ?_ <;> simpa only [Nat.div_div_eq_div_mul]
  clear h0 h1 h2 h3 h4 h5 h6 h7
  have hv := v.toNat_lt
  have hw := w.toNat_lt
  apply UInt64.toNat_inj.mp
  omega

lemma separates_word (v w : UInt64) : Separates (v = w) (wordBytes v) (wordBytes w) :=
  .of_length rfl wordBytes_inj

lemma separates_halfWord (v w : UInt32) : Separates (v = w) (halfWordBytes v) (halfWordBytes w) :=
  .of_length rfl halfWordBytes_inj

lemma separates_integer (v w : Int64) : Separates (v = w) (integerBytes v) (integerBytes w) :=
  (separates_word _ _).imp fun h => congrArg Int64.ofUInt64 h

lemma separates_number {m n : ℕ} (hm : m < Text.sizeLimit) (hn : n < Text.sizeLimit) :
    Separates (m = n) (numberBytes m) (numberBytes n) := by
  refine (separates_word _ _).imp fun h => ?_
  have hnat := congrArg UInt64.toNat h
  rwa [UInt64.toNat_ofNat_of_lt' hm, UInt64.toNat_ofNat_of_lt' hn] at hnat

lemma separates_string (s t : String) : Separates (s = t) (stringBytes s) (stringBytes t) := by
  have hinner (u : String) : ∀ b ∈ Text.bytesOf u, decide (b ≠ 0xff) = true := fun b hb =>
    decide_eq_true (Text.ne_of_mem_bytesOf b hb)
  intro x y heq
  -- On each side the first byte `0xff` is the one that ends the text.
  rw [stringBytes, stringBytes, List.append_assoc, List.append_assoc] at heq
  obtain ⟨hst, hxy⟩ := Text.span_inj (hinner s) (hinner t) (by simp) (by simp) heq
  exact ⟨Text.bytesOf_inj hst, List.append_cancel_left hxy⟩

/-- The bytes of a list: its length and then its items. -/
def listBytes {α : Type} (f : α → List UInt8) (l : List α) : List UInt8 :=
  numberBytes l.length ++ l.flatMap f

lemma separates_list {α : Type} {R : α → α → Prop} {f : α → List UInt8} {as bs : List α}
    (has : as.length < Text.sizeLimit) (hbs : bs.length < Text.sizeLimit)
    (h : ∀ a ∈ as, ∀ b ∈ bs, Separates (R a b) (f a) (f b)) :
    Separates (List.Forall₂ R as bs) (listBytes f as) (listBytes f bs) :=
  ((separates_number has hbs).append fun hlength => .flatMap hlength h).imp And.right

end Analysis.Fingerprint

/-! ### Programs whose lists fit into memory -/

namespace IR

/-- The lists in a type have lengths that fit into a word. -/
def Ty.Addressable : Ty → Prop
  | .tensor shape element => shape.length < Text.sizeLimit ∧ element.Addressable
  | .function inputs results =>
    (inputs.length < Text.sizeLimit ∧ ∀ t ∈ inputs, t.Addressable) ∧
      results.length < Text.sizeLimit ∧ ∀ t ∈ results, t.Addressable
  | _ => True

/-- The lists in an attribute have lengths that fit into a word. -/
def Attribute.Addressable : Attribute → Prop
  | .integer _ t | .float _ t | .type t => t.Addressable
  | .array items => items.length < Text.sizeLimit ∧ ∀ a ∈ items, a.Addressable
  | .dense t vs => t.Addressable ∧ vs.length < Text.sizeLimit
  | _ => True

/-- The list of values and those in the types of the values have lengths that fit into a word. -/
def Value.Addressable (l : List Value) : Prop :=
  l.length < Text.sizeLimit ∧ ∀ v ∈ l, v.ty.Addressable

namespace Operation

/-- The lists that the operation itself consists of have lengths that fit into a word. -/
structure Sized (op : Operation) : Prop where
  operands : Value.Addressable op.operands
  results : Value.Addressable op.results
  attributes : op.attributes.size < Text.sizeLimit
  constants : ∀ e ∈ op.attributes.entries, e.2.Addressable
  regions : op.regions.length < Text.sizeLimit
  blocks : ∀ r ∈ op.regions, r.blocks.length < Text.sizeLimit
  arguments : ∀ r ∈ op.regions, ∀ b ∈ r.blocks, Value.Addressable b.arguments
  operations : ∀ r ∈ op.regions, ∀ b ∈ r.blocks, b.operations.length < Text.sizeLimit

/-- No list in a program is longer than words can tell. Every list that lies in memory is so. -/
def Addressable (root : Operation) : Prop := ∀ op ∈ root.walk, op.Sized

lemma Addressable.nested {op c : Operation} {r : Region} {b : Block} (h : op.Addressable)
    (hr : r ∈ op.regions) (hb : b ∈ r.blocks) (hc : c ∈ b.operations) : c.Addressable :=
  fun o ho => h o (walk_subset hr hb hc ho)

end Operation

end IR

namespace Analysis.Fingerprint

/-! ### Types, values and attributes -/

/-- The position of a type's form among the forms of types. -/
def tyForm : Ty → ℕ
  | .integer _ => 0
  | .index => 1
  | .f32 => 2
  | .f64 => 3
  | .none => 4
  | .tensor .. => 5
  | .function .. => 6

/-- The bytes of a type behind its form. -/
def tyParts : Ty → List UInt8
  | .integer w => halfWordBytes w
  | .tensor shape element => listBytes integerBytes shape ++ tyBytes element
  | .function inputs results => listBytes tyBytes inputs ++ listBytes tyBytes results
  | _ => []

lemma tyBytes_eq (t : Ty) : tyBytes t = numberBytes (tyForm t) ++ tyParts t := by
  cases t <;> simp [tyBytes, tyForm, tyParts, listBytes, integersBytes]

/-- The position of an attribute's form among the forms of attributes. -/
def attributeForm : Attribute → ℕ
  | .unit => 0
  | .bool _ => 1
  | .integer .. => 2
  | .float .. => 3
  | .string _ => 4
  | .type _ => 5
  | .array _ => 6
  | .dense .. => 7
  | .symbol _ => 8

/-- The bytes of an attribute behind its form. -/
def attributeParts : Attribute → List UInt8
  | .unit => []
  | .bool b => [if b then 1 else 0]
  | .integer v t => integerBytes v ++ tyBytes t
  | .float v t => wordBytes v.bits ++ tyBytes t
  | .string s | .symbol s => stringBytes s
  | .type t => tyBytes t
  | .array items => listBytes attributeBytes items
  | .dense t vs => tyBytes t ++ listBytes integerBytes vs

lemma attributeBytes_eq (a : Attribute) :
    attributeBytes a = numberBytes (attributeForm a) ++ attributeParts a := by
  cases a <;> simp [attributeBytes, attributeForm, attributeParts, listBytes, integersBytes]

lemma separates_form {m n : ℕ} (hm : m < 9) (hn : n < 9) (h : m = n → Separates p s t) :
    Separates p (numberBytes m ++ s) (numberBytes n ++ t) := by
  have hlimit : 9 < Text.sizeLimit := by decide
  have hform := separates_number (hm.trans hlimit) (hn.trans hlimit)
  exact (hform.append h).imp And.right

lemma separates_ty_of_form {t u : Ty}
    (h : tyForm t = tyForm u → Separates (t = u) (tyParts t) (tyParts u)) :
    Separates (t = u) (tyBytes t) (tyBytes u) := by
  have hform (v : Ty) : tyForm v < 9 := by cases v <;> simp [tyForm]
  rw [tyBytes_eq, tyBytes_eq]
  exact separates_form (hform t) (hform u) h

lemma separates_attribute_of_form {a b : Attribute}
    (h : attributeForm a = attributeForm b →
      Separates (a = b) (attributeParts a) (attributeParts b)) :
    Separates (a = b) (attributeBytes a) (attributeBytes b) := by
  have hform (c : Attribute) : attributeForm c < 9 := by cases c <;> simp [attributeForm]
  rw [attributeBytes_eq, attributeBytes_eq]
  exact separates_form (hform a) (hform b) h

lemma separates_list_eq {α : Type} {f : α → List UInt8} {as bs : List α}
    (has : as.length < Text.sizeLimit) (hbs : bs.length < Text.sizeLimit)
    (h : ∀ a ∈ as, ∀ b ∈ bs, Separates (a = b) (f a) (f b)) :
    Separates (as = bs) (listBytes f as) (listBytes f bs) :=
  (separates_list has hbs h).imp fun hall => by rwa [List.forall₂_eq_eq_eq] at hall

/-- **A type can be told from its bytes.** -/
theorem separates_ty {t u : Ty} (ht : t.Addressable) (hu : u.Addressable) :
    Separates (t = u) (tyBytes t) (tyBytes u) := by
  -- Types of different forms are told apart by the forms, so one case is left for each form.
  induction t using Ty.nested_induction generalizing u <;>
    refine separates_ty_of_form fun hform => ?_ <;>
    cases u <;> cases hform
  case integer.integer => exact (separates_halfWord _ _).imp (congrArg Ty.integer)
  case tensor.tensor ih _ _ =>
    rw [Ty.Addressable] at ht hu
    have hshape := separates_list_eq ht.1 hu.1 fun d _ e _ => separates_integer d e
    exact (hshape.append fun _ => ih ht.2 hu.2).imp fun ⟨hs, he⟩ => congrArg₂ Ty.tensor hs he
  case function.function ihInputs ihResults _ _ =>
    rw [Ty.Addressable] at ht hu
    obtain ⟨⟨hin, hinputs⟩, hout, hresults⟩ := ht
    obtain ⟨⟨hin', hinputs'⟩, hout', hresults'⟩ := hu
    have hfront := separates_list_eq hin hin' fun v hv w hw =>
      ihInputs v hv (hinputs v hv) (hinputs' w hw)
    have hback := separates_list_eq hout hout' fun v hv w hw =>
      ihResults v hv (hresults v hv) (hresults' w hw)
    exact (hfront.append fun _ => hback).imp fun ⟨hi, ho⟩ => congrArg₂ Ty.function hi ho
  all_goals exact .of_length rfl fun _ => rfl

lemma separates_values {l k : List Value} (hl : Value.Addressable l) (hk : Value.Addressable k) :
    Separates (l = k) (valuesBytes l) (valuesBytes k) := by
  refine separates_list_eq hl.1 hk.1 fun v hv w hw => ?_
  have hid : Separates (v.id = w.id) (halfWordBytes v.id.index) (halfWordBytes w.id.index) :=
    (separates_halfWord _ _).imp (congrArg ValueId.mk)
  exact (hid.append fun _ => separates_ty (hl.2 v hv) (hk.2 w hw)).imp fun ⟨hi, ht⟩ => by
    cases v
    cases w
    exact congrArg₂ Value.mk hi ht

/-- **An attribute can be told from its bytes**, a floating point number bit by bit. -/
theorem separates_attribute {a b : Attribute} (ha : a.Addressable) (hb : b.Addressable) :
    Separates (a = b) (attributeBytes a) (attributeBytes b) := by
  induction a using Attribute.nested_induction generalizing b <;>
    refine separates_attribute_of_form fun hform => ?_ <;>
    cases b <;> cases hform <;>
    simp only [Attribute.Addressable] at ha hb
  case unit.unit => exact .of_length rfl fun _ => rfl
  case bool.bool v w => exact .of_length rfl (by cases v <;> cases w <;> simp [attributeParts])
  case integer.integer =>
    exact ((separates_integer _ _).append fun _ => separates_ty ha hb).imp fun ⟨hv, ht⟩ =>
      congrArg₂ Attribute.integer hv ht
  case float.float =>
    exact ((separates_word _ _).append fun _ => separates_ty ha hb).imp fun ⟨hv, ht⟩ =>
      congrArg₂ Attribute.float (congrArg Number.Binary64.mk hv) ht
  case string.string => exact (separates_string _ _).imp (congrArg Attribute.string)
  case type.type => exact (separates_ty ha hb).imp (congrArg Attribute.type)
  case array.array ih _ =>
    have hitems := separates_list_eq ha.1 hb.1 fun x hx y hy => ih x hx (ha.2 x hx) (hb.2 y hy)
    exact hitems.imp (congrArg Attribute.array)
  case dense.dense =>
    have hvalues := separates_list_eq ha.2 hb.2 fun d _ e _ => separates_integer d e
    exact ((separates_ty ha.1 hb.1).append fun _ => hvalues).imp fun ⟨ht, hvs⟩ =>
      congrArg₂ Attribute.dense ht hvs
  case symbol.symbol => exact (separates_string _ _).imp (congrArg Attribute.symbol)

/-! ### Operations -/

def entryBytes (e : String × Attribute) : List UInt8 := stringBytes e.1 ++ attributeBytes e.2

def blockBytes (b : Block) : List UInt8 :=
  valuesBytes b.arguments ++ listBytes operationBytes b.operations

def regionBytes (r : Region) : List UInt8 := listBytes blockBytes r.blocks

lemma operationBytes_eq (op : Operation) :
    operationBytes op = stringBytes op.name ++ (valuesBytes op.operands ++
      (valuesBytes op.results ++ (listBytes entryBytes op.attributes.entries ++
        listBytes regionBytes op.regions))) := by
  rw [operationBytes]
  simp only [listBytes, Data.OrderedMap.size, List.append_assoc]
  rfl

lemma separates_attributes {m n : Data.OrderedMap Attribute} (hm : m.size < Text.sizeLimit)
    (hn : n.size < Text.sizeLimit) (hms : ∀ e ∈ m.entries, e.2.Addressable)
    (hns : ∀ e ∈ n.entries, e.2.Addressable) :
    Separates (m = n) (listBytes entryBytes m.entries) (listBytes entryBytes n.entries) := by
  have hentries := separates_list_eq hm hn fun e he d hd =>
    ((separates_string e.1 d.1).append fun _ => separates_attribute (hms e he) (hns d hd)).imp
      Prod.ext_iff.mpr
  refine hentries.imp fun h => ?_
  cases m
  cases n
  cases h
  rfl

/-- **A program can be told from its bytes**, whatever stands behind them, but for its locations. -/
theorem separates_operation {a b : Operation} (ha : a.Addressable) (hb : b.Addressable) :
    Separates (a.Alike b) (operationBytes a) (operationBytes b) := by
  induction a using Operation.nested_induction generalizing b with
  | nest a ih =>
    have hsa : a.Sized := ha a a.self_mem_walk
    have hsb : b.Sized := hb b b.self_mem_walk
    -- Regions and blocks are told apart before it is known which of them stand at the same place.
    have hblocks : ∀ r ∈ a.regions, ∀ s ∈ b.regions, ∀ x ∈ r.blocks, ∀ y ∈ s.blocks,
        Separates (x.Alike y) (blockBytes x) (blockBytes y) := by
      intro r hr s hs x hx y hy
      have harguments := separates_values (hsa.arguments r hr x hx) (hsb.arguments s hs y hy)
      have hoperations := separates_list (hsa.operations r hr x hx) (hsb.operations s hs y hy)
        fun o ho p hp => ih r hr x hx o ho (ha.nested hr hx ho) (hb.nested hs hy hp)
      exact (harguments.append fun _ => hoperations).imp fun ⟨h, h'⟩ => .intro h h'
    have hregions : ∀ r ∈ a.regions, ∀ s ∈ b.regions,
        Separates (r.Alike s) (regionBytes r) (regionBytes s) := fun r hr s hs =>
      (separates_list (hsa.blocks r hr) (hsb.blocks s hs) (hblocks r hr s hs)).imp .intro
    have hname := separates_string a.name b.name
    have hoperands := separates_values hsa.operands hsb.operands
    have hresults := separates_values hsa.results hsb.results
    have hattributes :=
      separates_attributes hsa.attributes hsb.attributes hsa.constants hsb.constants
    have hrest := separates_list hsa.regions hsb.regions hregions
    rw [operationBytes_eq, operationBytes_eq]
    exact (hname.append fun _ => hoperands.append fun _ => hresults.append fun _ =>
      hattributes.append fun _ => hrest).imp fun ⟨hn, ho, hr, hm, hrs⟩ => .intro hn ho hr hm hrs

end Analysis.Fingerprint

namespace Analysis

open Fingerprint

/-- Different bytes with the same hash. -/
def SipHash.Collision (s t : List UInt8) : Prop := s ≠ t ∧ SipHash.hash s = SipHash.hash t

lemma operationBytes_eq_of_alike {a b : Operation} (h : a.Alike b) :
    operationBytes a = operationBytes b := by
  have hsame : a.stripped = b.stripped := Operation.alike_iff.mp h
  rw [← operationBytes_stripped a, hsame, operationBytes_stripped]

end Analysis

/-- **The fingerprint separates programs.** What is hashed of a program is not the front of what is
hashed of another, and is the same only for programs that differ at most in locations. So programs
that differ in more share cached results only through a collision of the hash. -/
theorem fingerprint_separates {ε : Type} {a b : Operation} (ha : a.Addressable)
    (hb : b.Addressable) :
    let s := Fingerprint.operationBytes a
    let t := Fingerprint.operationBytes b
    (∀ x y, s ++ x = t ++ y ↔ x = y ∧ a.Alike b) ∧
      (∀ i j, CacheKey.of i a = CacheKey.of j b ↔
        i = j ∧ (a.Alike b ∨ SipHash.Collision s t)) ∧
      ∀ (c : Cache ε) (i j : Id) (v : Stored ε),
        (c.insert (.of i a) v).get? (.of j b) ≠ c.get? (.of j b) →
          i = j ∧ (a.Alike b ∨ SipHash.Collision s t) := by
  intro s t
  have hbytes : s = t → a.Alike b := fun h =>
    (Fingerprint.separates_operation ha hb [] [] (congrArg (· ++ []) h)).1
  have hkey (i j : Id) : CacheKey.of i a = CacheKey.of j b ↔
      i = j ∧ (a.Alike b ∨ SipHash.Collision s t) := by
    rw [CacheKey.of, CacheKey.of, CacheKey.mk.injEq]
    refine and_congr_right fun _ => ⟨fun hhash => ?_, ?_⟩
    · by_cases hst : s = t
      · exact .inl (hbytes hst)
      · exact .inr ⟨hst, hhash⟩
    · rintro (halike | ⟨-, hhash⟩)
      · exact congrArg SipHash.hash (operationBytes_eq_of_alike halike)
      · exact hhash
  refine ⟨fun x y => ⟨fun h => ?_, ?_⟩, hkey, fun c i j v hchanged => (hkey i j).mp ?_⟩
  · exact (Fingerprint.separates_operation ha hb x y h).symm
  · rintro ⟨rfl, halike⟩
    exact congrArg (· ++ x) (operationBytes_eq_of_alike halike)
  · by_contra hne
    rw [Cache.get?_insert, if_neg hne] at hchanged
    exact hchanged rfl

/-- The same operations in one block and in two. -/
theorem fingerprint_separates_blocks :
    let leaf : Operation := { name := "exit", attributes := ⟨[("code", .bool true)], by simp⟩ }
    let a : Operation := {
      name := "main", regions := [{ blocks := [{ operations := [leaf, leaf] }] }] }
    let b : Operation := {
      name := "main"
      regions := [{ blocks := [{ operations := [leaf] }, { operations := [leaf] }] }] }
    (∀ x y, Fingerprint.operationBytes a ++ x ≠ Fingerprint.operationBytes b ++ y) ∧
      ∀ i j, CacheKey.of i a = CacheKey.of j b →
        SipHash.Collision (Fingerprint.operationBytes a) (Fingerprint.operationBytes b) := by
  intro leaf a b
  have hdiffer : ¬ a.Alike b := by
    rintro ⟨-, -, -, -, hregions⟩
    cases hregions with
    | cons hregion _ =>
      obtain ⟨hblocks⟩ := hregion
      cases hblocks with
      | cons _ hrest => cases hrest
  have hleaf : leaf.Sized := by
    constructor <;> simp [leaf, Value.Addressable, Attribute.Addressable, Data.OrderedMap.size,
      Text.sizeLimit]
  have hsizes : a.Sized ∧ b.Sized := by
    constructor <;> constructor <;> simp [a, b, Value.Addressable, Data.OrderedMap.empty,
      Data.OrderedMap.size, Text.sizeLimit]
  have ha : a.Addressable := by
    simpa [Operation.Addressable, Operation.walk, a, leaf] using ⟨hsizes.1, hleaf⟩
  have hb : b.Addressable := by
    simpa [Operation.Addressable, Operation.walk, b, leaf] using ⟨hsizes.2, hleaf⟩
  obtain ⟨hfront, hkeys, -⟩ := fingerprint_separates (ε := Unit) ha hb
  refine ⟨fun x y h => hdiffer ((hfront x y).mp h).2, fun i j h => ?_⟩
  exact ((hkeys i j).mp h).2.resolve_left hdiffer

end OpTree
