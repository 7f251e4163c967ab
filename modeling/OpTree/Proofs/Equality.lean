import OpTree.Proofs.AttributeText
import OpTree.Proofs.Fingerprints
import OpTree.Proofs.Layout
import OpTree.Proofs.OrderedMaps

/-!
What equality of programs leaves open. Equal programs may list their attributes in other orders and
write their zeros with other signs, and in nothing else can they differ. Both are hashed and
printed; so it is just the programs that agree in them, too, for which cached results are shared.
-/

namespace OpTree

open OpTree.Number OpTree.IR OpTree.Analysis

/-! ### Lists -/

section

variable {α β : Type}

lemma forall₂_of_map_eq {γ : Type} {R : α → β → Prop} {f : α → γ} {g : β → γ} {as : List α}
    {bs : List β} (heq : as.map f = bs.map g) (h : ∀ a ∈ as, ∀ b ∈ bs, f a = g b → R a b) :
    List.Forall₂ R as bs := by
  have hlength : as.length = bs.length := by simpa using congrArg List.length heq
  refine List.forall₂_iff_get.mpr ⟨hlength, fun i ha hb => ?_⟩
  refine h _ (List.get_mem ..) _ (List.get_mem ..) ?_
  have hi : (as.map f)[i]? = (bs.map g)[i]? := by rw [heq]
  simpa [ha, hb] using hi

lemma forall₂_imp_of_mem {R S : α → β → Prop} {as : List α} {bs : List β}
    (h : List.Forall₂ R as bs) (hRS : ∀ a ∈ as, ∀ b, R a b → S a b) : List.Forall₂ S as bs := by
  have hmem := (List.forall₂_and_left (p := (· ∈ as)) as bs).mpr ⟨fun _ ha => ha, h⟩
  exact hmem.imp fun a b ⟨ha, hab⟩ => hRS a ha b hab

lemma map_eq_of_forall₂ {γ : Type} {R : α → β → Prop} {f : α → γ} {g : β → γ} {as : List α}
    {bs : List β} (h : List.Forall₂ R as bs) (hR : ∀ a ∈ as, ∀ b, R a b → f a = g b) :
    as.map f = bs.map g := by
  have hall := forall₂_imp_of_mem h hR
  rwa [← List.forall₂_map_right_iff (f := g), ← List.forall₂_map_left_iff (f := f),
    List.forall₂_eq_eq_eq] at hall

lemma eq_of_forall₂ {R : α → α → Prop} {as bs : List α} (h : List.Forall₂ R as bs)
    (hR : ∀ (i : ℕ) (a b : α), as[i]? = some a → bs[i]? = some b → R a b → a = b) : as = bs :=
  List.ext_getElem h.length_eq fun i ha hb =>
    hR i _ _ (List.getElem?_eq_getElem ha) (List.getElem?_eq_getElem hb)
      ((List.forall₂_iff_get.mp h).2 i ha hb)

/-- The item can be told from `f b`, if that is what `f a` is, in front of anything. -/
def ToldBy (f : α → List β) (a b : α) : Prop := ∀ x y, f a ++ x = f b ++ y → a = b ∧ x = y

lemma toldBy_self (f : α → List β) (a : α) : ToldBy f a a := fun _ _ heq =>
  ⟨rfl, List.append_cancel_left heq⟩

lemma toldBy_flatMap {f : α → List β} {as bs : List α} (h : List.Forall₂ (ToldBy f) as bs) :
    ∀ x y, as.flatMap f ++ x = bs.flatMap f ++ y → as = bs ∧ x = y := by
  induction h with
  | nil => exact fun x y heq => ⟨rfl, heq⟩
  | cons hab _ ih =>
    intro x y heq
    rw [List.flatMap_cons, List.flatMap_cons, List.append_assoc, List.append_assoc] at heq
    obtain ⟨rfl, hrest⟩ := hab _ _ heq
    obtain ⟨rfl, hxy⟩ := ih x y hrest
    exact ⟨rfl, hxy⟩

end

/-! ### Numbers and locations -/

lemma Number.Binary64.eq_of_sameValue {v w : Binary64} (h : v.sameValue w = true)
    (hsign : v.isNegative = w.isNegative) : v = w := by
  simp only [sameValue, Bool.and_eq_true, Bool.or_eq_true, beq_iff_eq] at h
  obtain ⟨-, hsame | ⟨hv, hw⟩⟩ := h
  · exact hsame
  · have hv : v.magnitude = 0 := of_decide_eq_true hv
    have hw : w.magnitude = 0 := of_decide_eq_true hw
    rw [← v.ofMagnitude_magnitude, ← w.ofMagnitude_magnitude, hsign, hv, hw]

namespace IR

namespace Location

lemma beqList_eq_true_iff {as bs : List Location} :
    beqList as bs = true ↔ List.Forall₂ (fun a b => beq a b = true) as bs := by
  induction as generalizing bs with
  | nil => cases bs <;> simp [beqList]
  | cons a as ih => cases bs <;> simp [beqList, ih]

lemma eq_of_beq {a b : Location} (h : beq a b = true) : a = b := by
  induction a using nested_induction generalizing b with
  | fused parts ih =>
    cases b <;> simp only [beq, Bool.false_eq_true] at h
    exact congrArg fused (eq_of_forall₂ (beqList_eq_true_iff.mp h) fun i l _ hl _ hsame =>
      ih l (List.mem_of_getElem? hl) hsame)
  | _ => cases b <;> simp_all [beq]

end Location

/-! ### Attributes -/

namespace Attribute

/-- Whether the floating point numbers in an attribute are negative, in order. -/
def signs (a : Attribute) : List Bool :=
  a.leaves.filterMap fun
    | float v _ => some v.isNegative
    | _ => none

lemma signs_float (v : Binary64) (t : Ty) : (float v t).signs = [v.isNegative] := by
  unfold signs
  rw [leaves]
  · rfl
  · simp

lemma signs_array (items : List Attribute) : (array items).signs = items.flatMap signs := by
  unfold signs
  rw [leaves, List.filterMap_flatMap]

lemma sameItems_eq_true_iff {as bs : List Attribute} :
    sameItems as bs = true ↔ List.Forall₂ (fun a b => same a b = true) as bs := by
  induction as generalizing bs with
  | nil => cases bs <;> simp [sameItems]
  | cons a as ih => cases bs <;> simp [sameItems, ih]

lemma toldBy_signs {a b : Attribute} (h : a.same b = true) : ToldBy signs a b := by
  induction a using nested_induction generalizing b with
  | float v t =>
    cases b <;> simp only [same, Bool.false_eq_true, Bool.and_eq_true, beq_iff_eq] at h
    intro x y heq
    rw [signs_float, signs_float] at heq
    obtain ⟨hsign, hxy⟩ := List.cons.inj heq
    exact ⟨congrArg₂ float (Binary64.eq_of_sameValue h.1 hsign) h.2, hxy⟩
  | array items ih =>
    cases b <;> simp only [same, Bool.false_eq_true] at h
    have hitems := forall₂_imp_of_mem (sameItems_eq_true_iff.mp h) fun c hc _ hsame =>
      ih c hc hsame
    intro x y heq
    rw [signs_array, signs_array] at heq
    exact (toldBy_flatMap hitems x y heq).imp_left (congrArg array)
  | unit =>
    cases b <;> simp only [same, Bool.false_eq_true] at h
    exact toldBy_self signs unit
  | _ =>
    cases b <;> simp only [same, Bool.false_eq_true, Bool.and_eq_true, beq_iff_eq] at h
    -- What is left are attributes that are equal only to themselves.
    all_goals
      simp only [h]
      exact toldBy_self signs _

lemma forall₂_of_sameMap {m n : Data.OrderedMap Attribute} (h : sameMap m n = true)
    (hkeys : m.keys = n.keys) :
    List.Forall₂ (fun e d => e.1 = d.1 ∧ e.2.same d.2 = true) m.entries n.entries := by
  rw [sameMap, Bool.and_eq_true, List.all_eq_true] at h
  refine forall₂_of_map_eq hkeys fun e he d hd hkey => ⟨hkey, ?_⟩
  have hget : n.get? e.1 = some d.2 := Data.OrderedMap.get?_eq_some_iff.mpr (by rwa [hkey])
  have hvalue := h.2 e he
  rwa [hget, Option.any_some] at hvalue

/-- **Among equal maps one is told by the order of its names and the signs in it.** -/
lemma eq_of_sameMap {m n : Data.OrderedMap Attribute} (h : sameMap m n = true)
    (hkeys : m.keys = n.keys) (hsigns : m.values.flatMap signs = n.values.flatMap signs) :
    m = n := by
  have htold : List.Forall₂ (ToldBy fun e : String × Attribute => e.2.signs) m.entries n.entries :=
    (forall₂_of_sameMap h hkeys).imp fun e d ⟨hkey, hsame⟩ x y heq =>
      (toldBy_signs hsame x y heq).imp_left (Prod.ext hkey)
  rw [Data.OrderedMap.values, Data.OrderedMap.values, List.flatMap_map, List.flatMap_map] at hsigns
  exact Data.OrderedMap.eq_of_entries
    (toldBy_flatMap htold [] [] (congrArg (· ++ []) hsigns)).1

end Attribute

/-! ### Operations -/

/-- The blocks have the same arguments and equal operations. -/
structure Block.Same (b c : Block) : Prop where
  arguments : b.arguments = c.arguments
  operations : List.Forall₂ (fun a b => a.same b = true) b.operations c.operations

def Region.Same (r s : Region) : Prop := List.Forall₂ Block.Same r.blocks s.blocks

namespace Operation

structure Same (a b : Operation) : Prop where
  name : a.name = b.name
  operands : a.operands = b.operands
  results : a.results = b.results
  attributes : Attribute.sameMap a.attributes b.attributes = true
  regions : List.Forall₂ Region.Same a.regions b.regions
  location : a.location = b.location

lemma sameOperations_eq_true_iff {as bs : List Operation} :
    sameOperations as bs = true ↔ List.Forall₂ (fun a b => a.same b = true) as bs := by
  induction as generalizing bs with
  | nil => cases bs <;> simp [sameOperations]
  | cons a as ih => cases bs <;> simp [sameOperations, ih]

lemma sameBlocks_eq_true_iff {bs cs : List Block} :
    sameBlocks bs cs = true ↔ List.Forall₂ Block.Same bs cs := by
  have hblock (b c : Block) : b.Same c ↔ b.arguments = c.arguments ∧
      List.Forall₂ (fun a b => a.same b = true) b.operations c.operations :=
    ⟨fun ⟨ha, ho⟩ => ⟨ha, ho⟩, fun ⟨ha, ho⟩ => ⟨ha, ho⟩⟩
  induction bs generalizing cs with
  | nil => cases cs <;> simp [sameBlocks]
  | cons b bs ih => cases cs <;> simp [sameBlocks, sameOperations_eq_true_iff, hblock, ih]

lemma sameRegions_eq_true_iff {rs ss : List Region} :
    sameRegions rs ss = true ↔ List.Forall₂ Region.Same rs ss := by
  induction rs generalizing ss with
  | nil => cases ss <;> simp [sameRegions]
  | cons r rs ih => cases ss <;> simp [sameRegions, sameBlocks_eq_true_iff, Region.Same, ih]

lemma Same.of_same {a b : Operation} (h : a.same b = true) : a.Same b := by
  rw [same] at h
  simp only [Bool.and_eq_true, beq_iff_eq] at h
  obtain ⟨⟨⟨⟨⟨hname, hoperands⟩, hresults⟩, hattributes⟩, hregions⟩, hlocation⟩ := h
  exact ⟨hname, hoperands, hresults, hattributes, sameRegions_eq_true_iff.mp hregions,
    Location.eq_of_beq hlocation⟩

/-- What equality does not see of an operation: its attributes' names in their order, and the signs
of the floating point numbers in the attributes. -/
def arrangement (op : Operation) : List String × List Bool :=
  (op.attributes.keys, op.attributes.values.flatMap Attribute.signs)

lemma Same.attributes_eq {a b : Operation} (h : a.Same b)
    (harranged : a.arrangement = b.arrangement) : a.attributes = b.attributes := by
  obtain ⟨hkeys, hsigns⟩ := Prod.ext_iff.mp harranged
  exact Attribute.eq_of_sameMap h.attributes hkeys hsigns

/-- Operations at the same place in both programs have the same arrangement. -/
def ArrangedAlike (a b : Operation) : Prop :=
  ∀ path x y, a.at? path = some x → b.at? path = some y → x.arrangement = y.arrangement

lemma ArrangedAlike.child {a b c d : Operation} {hop : Hop} (h : a.ArrangedAlike b)
    (hc : a.child? hop = some c) (hd : b.child? hop = some d) : c.ArrangedAlike d := by
  intro path x y hx hy
  refine h (hop :: path) x y ?_ ?_
  · rw [at?, hc]
    exact hx
  · rw [at?, hd]
    exact hy

/-- **Equal programs that are arranged alike are the same**: in the order of attributes and in the
signs of numbers lies all that equality leaves open. -/
theorem eq_of_same {a b : Operation} (h : a.same b = true) (harranged : a.ArrangedAlike b) :
    a = b := by
  induction a using nested_induction generalizing b with
  | nest a ih =>
    have hsame : a.Same b := .of_same h
    have hattributes : a.attributes = b.attributes :=
      hsame.attributes_eq (harranged [] a b rfl rfl)
    have hregions : a.regions = b.regions := by
      -- Positions are kept on the way down: they are the hop to the operations of the induction.
      refine eq_of_forall₂ hsame.regions fun i r s hr hs hrs => ?_
      have hblocks : r.blocks = s.blocks := by
        refine eq_of_forall₂ hrs fun j x y hx hy hxy => ?_
        have hoperations : x.operations = y.operations := by
          refine eq_of_forall₂ hxy.operations fun k c d hc hd hcd => ?_
          have hleft : a.child? ⟨i, j, k⟩ = some c := child?_eq_some.mpr ⟨r, x, hr, hx, hc⟩
          have hright : b.child? ⟨i, j, k⟩ = some d := child?_eq_some.mpr ⟨s, y, hs, hy, hd⟩
          exact ih r (List.mem_of_getElem? hr) x (List.mem_of_getElem? hx) c
            (List.mem_of_getElem? hc) hcd (harranged.child hleft hright)
        cases x
        cases y
        exact congrArg₂ Block.mk hxy.arguments hoperations
      cases r
      cases s
      exact congrArg Region.mk hblocks
    cases a
    cases b
    exact (Operation.mk.injEq ..).mpr ⟨hsame.name, hsame.operands, hsame.results, hattributes,
      hregions, hsame.location⟩

def bare (op : Operation) : Operation := op.mapWalk fun o => { o with attributes := .empty }

lemma bare_eq_of_same {a b : Operation} (h : a.same b = true) : a.bare = b.bare := by
  induction a using nested_induction generalizing b with
  | nest a ih =>
    have hsame : a.Same b := .of_same h
    let g : Operation → Operation := fun o => { o with attributes := .empty }
    have hblock : ∀ r ∈ a.regions, ∀ x ∈ r.blocks, ∀ y, x.Same y → x.mapWalk g = y.mapWalk g := by
      intro r hr x hx y hxy
      have hoperations := map_eq_of_forall₂ hxy.operations fun c hc _ hcd => ih r hr x hx c hc hcd
      exact congrArg₂ Block.mk hxy.arguments hoperations
    have hregions : a.regions.map (Region.mapWalk g) = b.regions.map (Region.mapWalk g) :=
      map_eq_of_forall₂ hsame.regions fun r hr _ hrs =>
        congrArg Region.mk (map_eq_of_forall₂ hrs fun x hx y hxy => hblock r hr x hx y hxy)
    rw [bare, bare, mapWalk_eq, mapWalk_eq, hregions, hsame.name, hsame.operands, hsame.results,
      hsame.location]

end Operation

end IR

namespace Print

open Operation

lemma keepsValues_bare : KeepsValues fun o => { o with attributes := .empty } :=
  ⟨fun _ => rfl, fun _ => rfl, fun _ => rfl⟩

lemma Session.ofOperation_eq_of_same {a b : Operation} (h : a.same b = true) (ansi : Bool)
    (f : Flags) : ofOperation ansi f a = ofOperation ansi f b := by
  rw [← ofOperation_mapWalk keepsValues_bare ansi f a,
    ← ofOperation_mapWalk keepsValues_bare ansi f b]
  exact congrArg _ (bare_eq_of_same h)

section

variable {a b : Operation} (h : a.Same b) (s : Session)

include h

lemma front_whole_eq_of_same : (Slot.whole a).front s = (Slot.whole b).front s := by
  have hhead : s.head a = s.head b := by
    rw [Session.head, Session.head, h.name, h.operands, h.results]
  have hlength := h.regions.length_eq
  have hempty : a.regions.isEmpty = b.regions.isEmpty := by
    rw [Bool.eq_iff_iff, List.isEmpty_iff_length_eq_zero, List.isEmpty_iff_length_eq_zero, hlength]
  rw [Slot.front, Slot.front, hhead, hempty, List.map_const', List.map_const', hlength]

lemma tail_eq_of_same (hattributes : a.attributes = b.attributes) : s.tail a = s.tail b := by
  have htext : attributesText s.flags a = attributesText s.flags b := by
    rw [attributesText, attributesText, hattributes]
  have hsignature : signature a = signature b := by
    rw [signature, signature, h.operands, h.results]
  have husers (u : Uses) : u.users a = u.users b := by rw [Uses.users, Uses.users, h.results]
  have hcomment : s.usersComment a = s.usersComment b := by
    simp only [Session.usersComment, husers]
  rw [tail_eq_description, tail_eq_description, description, description, htext, hsignature,
    hcomment, Session.locationText, Session.locationText, h.location]

end

lemma Session.lines_of_hidden (s : Session) {op : Operation}
    (h : (op.regions.isEmpty || s.flags.skipRegions) = true) (level : ℕ) :
    s.lines level op = [⟨level, .whole, (Slot.whole op).front s ++ s.tail op⟩] := by
  rw [lines_eq_slots, slots_of_hidden h, List.map_singleton, s.line_of_ended?_eq_some rfl]
  rfl

/-- Where regions are left out, equal programs are printed alike as soon as they have the same
attributes themselves. -/
lemma lines_eq_of_same {a b : Operation} (h : a.same b = true)
    (hattributes : a.attributes = b.attributes) {f : Flags} (hf : f.skipRegions = true)
    (ansi : Bool) : lines ansi f a = lines ansi f b := by
  let s := Session.ofOperation ansi f a
  have hskip (op : Operation) : (op.regions.isEmpty || s.flags.skipRegions) = true := by
    have hflags : s.flags.skipRegions = true := hf
    rw [hflags, Bool.or_true]
  calc lines ansi f a
      = [⟨0, .whole, (Slot.whole a).front s ++ s.tail a⟩] := s.lines_of_hidden (hskip a) 0
    _ = [⟨0, .whole, (Slot.whole b).front s ++ s.tail b⟩] := by
        rw [front_whole_eq_of_same (.of_same h) s, tail_eq_of_same (.of_same h) s hattributes]
    _ = s.lines 0 b := (s.lines_of_hidden (hskip b) 0).symm
    _ = lines ansi f b := by rw [lines, ← Session.ofOperation_eq_of_same h]

end Print

open Analysis.Fingerprint

/-- What arrangement decides of equal programs is hashed: with the same bytes they are arranged
alike, if their lists fit into memory. -/
lemma Analysis.arrangedAlike_of_operationBytes_eq {a b : Operation} (ha : a.Addressable)
    (hb : b.Addressable) (h : operationBytes a = operationBytes b) : a.ArrangedAlike b := by
  have halike : a.Alike b := (separates_operation ha hb [] [] (congrArg (· ++ []) h)).1
  have hstripped : a.stripped = b.stripped := Operation.alike_iff.mp halike
  intro path x y hx hy
  have hplace : x.stripped = y.stripped := by
    have hat := congrArg (·.at? path) hstripped
    simpa only [Operation.at?_stripped, hx, hy, Option.map_some, Option.some.injEq] using hat
  have hattributes : x.attributes = y.attributes := by
    rw [← x.stripped_attributes, hplace, y.stripped_attributes]
  rw [Operation.arrangement, Operation.arrangement, hattributes]

/-- **Equal programs are treated alike as far as they are arranged alike.** If they list their
attributes in the same order and their zeros have the same signs, what is cached for one is found
for the other, and both are printed to the same text; where regions are left out, it is enough that
this holds of the programs themselves. For the bytes that are hashed to agree, it has to hold
everywhere. -/
theorem equal_programs_alike {a b : Operation} (h : a.same b = true) :
    (a.ArrangedAlike b →
      (∀ i, CacheKey.of i a = .of i b) ∧
      (∀ (ε ρ : Type) (m : Manager ε) (i : Id) (v : Stored ε) (x : Analysis ε ρ),
        (m.cacheAnalysis i a v).isAnalysisValid b i = true ∧
        m.getAnalysis x a = m.getAnalysis x b) ∧
      ∀ (ansi : Bool) (f : Print.Flags),
        Print.Printer.textForm.render ansi f a = Print.Printer.textForm.render ansi f b) ∧
    (a.arrangement = b.arrangement → ∀ (ansi : Bool) (f : Print.Flags), f.skipRegions = true →
      Print.Printer.textForm.render ansi f a = Print.Printer.textForm.render ansi f b) ∧
    (a.Addressable → b.Addressable → operationBytes a = operationBytes b → a.ArrangedAlike b) := by
  refine ⟨fun harranged => ?_, fun harranged ansi f hf => ?_, arrangedAlike_of_operationBytes_eq⟩
  · obtain rfl : a = b := Operation.eq_of_same h harranged
    refine ⟨fun i => rfl, fun ε ρ m i v x => ⟨?_, rfl⟩, fun ansi f => rfl⟩
    have hget : (m.cacheAnalysis i a v).cache.get? (.of i a) = some v := by
      rw [Manager.cacheAnalysis, Cache.get?_insert, if_pos rfl]
    exact Manager.isAnalysisValid_iff.mpr ⟨v, hget⟩
  · have hlines : Print.lines ansi f a = Print.lines ansi f b :=
      Print.lines_eq_of_same h ((Operation.Same.of_same h).attributes_eq harranged) hf ansi
    simp only [Print.Printer.textForm, hlines]

/-- Programs that are equal, with the attributes of a nested operation in other orders: they are
hashed as different programs, and printed alike where nested operations are left out. -/
theorem equal_programs_alike_nested :
    let leaf (m : Data.OrderedMap Attribute) : Operation := { name := "f", attributes := m }
    let around (o : Operation) : Operation := {
      name := "m"
      attributes := ⟨[("x", .float ⟨0⟩ .f64)], by simp⟩
      regions := [{ blocks := [{ operations := [o] }] }] }
    let a := around (leaf ⟨[("p", .unit), ("q", .bool true)], by simp⟩)
    let b := around (leaf ⟨[("q", .bool true), ("p", .unit)], by simp⟩)
    a.same b = true ∧ operationBytes a ≠ operationBytes b ∧
      Print.Printer.textForm.render true { skipRegions := true } a =
        Print.Printer.textForm.render true { skipRegions := true } b := by
  intro leaf around a b
  have hsame : a.same b = true := by decide +kernel
  obtain ⟨-, htext, hbytes⟩ := equal_programs_alike hsame
  have hdiffer : ¬ a.ArrangedAlike b := fun harranged => by
    have hleaf := harranged [⟨0, 0, 0⟩] _ _ rfl rfl
    simp [Operation.arrangement, Data.OrderedMap.keys, leaf] at hleaf
  have hsized (m : Data.OrderedMap Attribute) (hm : m.size < Text.sizeLimit)
      (hms : ∀ e ∈ m.entries, e.2.Addressable) : (around (leaf m)).Addressable := by
    have hleaf : (leaf m).Sized := by
      refine ⟨?_, ?_, hm, hms, ?_, ?_, ?_, ?_⟩ <;> simp [leaf, Value.Addressable, Text.sizeLimit]
    have haround : (around (leaf m)).Sized := by
      constructor <;> simp [around, Value.Addressable, Attribute.Addressable, Ty.Addressable,
        Data.OrderedMap.size, Text.sizeLimit]
    simpa [Operation.Addressable, Operation.walk, around, leaf] using ⟨haround, hleaf⟩
  have ha : a.Addressable := hsized _ (by decide) (by simp [Attribute.Addressable])
  have hb : b.Addressable := hsized _ (by decide) (by simp [Attribute.Addressable])
  exact ⟨hsame, fun heq => hdiffer (hbytes ha hb heq), htext rfl true _ rfl⟩

/-- Without further agreement, equal programs can be told apart by their keys and their texts: by
the order of two attributes, or by the sign of a zero. -/
theorem equal_programs_told_apart :
    let a : Operation :=
      { name := "f", attributes := { entries := [("p", .bool true), ("q", .bool false)] } }
    let b : Operation :=
      { name := "f", attributes := { entries := [("q", .bool false), ("p", .bool true)] } }
    let c : Operation := { name := "f", attributes := { entries := [("x", .float ⟨0⟩ .f64)] } }
    let d : Operation := {
      name := "f"
      attributes := { entries := [("x", .float ⟨0x8000000000000000⟩ .f64)] } }
    let text (o : Operation) := (Print.Printer.textForm.render false {} o).text
    let m (o : Operation) := ({} : Manager Unit).cacheAnalysis .symbolTable o (.other ())
    (a.same b = true ∧ fingerprint a ≠ fingerprint b ∧
      (m a).isAnalysisValid b .symbolTable = false ∧ text a ≠ text b) ∧
    c.same d = true ∧ fingerprint c ≠ fingerprint d ∧
      (m c).isAnalysisValid d .symbolTable = false ∧ text c ≠ text d := by
  intro a b c d text m
  have hmissed {o o' : Operation} (h : fingerprint o ≠ fingerprint o') :
      (m o).isAnalysisValid o' .symbolTable = false := by
    have hkey : CacheKey.of .symbolTable o ≠ .of .symbolTable o' := fun heq =>
      h (congrArg CacheKey.fingerprint heq)
    have hget : (m o).cache.get? (.of .symbolTable o') = none := by
      simp only [m, Manager.cacheAnalysis, Cache.get?_insert, if_neg hkey]
      rfl
    rw [Manager.isAnalysisValid, Cache.contains, hget]
    rfl
  have hab : fingerprint a ≠ fingerprint b := by
    simp only [a, b, fingerprint, operationBytes, List.flatMap_cons, attributeBytes]
    decide +kernel
  have hcd : fingerprint c ≠ fingerprint d := by
    simp only [c, d, fingerprint, operationBytes, List.flatMap_cons, attributeBytes, tyBytes]
    decide +kernel
  have htext {o : Operation} (ho : o.regions = []) : text o =
      (Print.Session.ofOperation false {} o).head o ++
        (Print.Session.ofOperation false {} o).tail o ++ "\n" := by
    have hhidden : (o.regions.isEmpty || ({} : Print.Flags).skipRegions) = true := by rw [ho]; rfl
    have hfront (s : Print.Session) : (Print.Slot.whole o).front s = s.head o := by
      rw [Print.Slot.front, ho]
      rfl
    have hlines : Print.lines false {} o = _ :=
      (Print.Session.ofOperation false {} o).lines_of_hidden hhidden 0
    simp [text, Print.Rendering.text, Print.Printer.textForm, hlines, hfront, Print.Line.render]
  refine ⟨⟨by decide +kernel, hab, hmissed hab, ?_⟩, by decide +kernel, hcd, hmissed hcd, ?_⟩
  · rw [htext rfl, htext rfl]
    simp only [a, b, Print.Session.tail, Print.attributesText, List.map_cons, Print.entryText,
      Print.attributeText]
    decide +kernel
  · rw [htext rfl, htext rfl]
    simp only [c, d, Print.Session.tail, Print.attributesText, List.map_cons, Print.entryText,
      Print.attributeText]
    decide +kernel

end OpTree
