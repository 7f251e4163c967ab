import OpTree.Pipeline.Registry
import OpTree.Proofs.Numerals
import OpTree.Proofs.OptionRequests

/-!
What the options of a dump mean. Of each key only the last value counts, the values that have to be
readable are looked at in a fixed order, and what nobody asks for is reported after them.
-/

namespace OpTree

/-! ### Sizes and truth values as texts -/

namespace Text

/-- The texts of a size: its digits, perhaps behind zeros, and those behind a plus sign. -/
def SizeText (v : String) (n : ℕ) : Prop :=
  n < sizeLimit ∧ ∃ zeros, v.toList = List.replicate zeros '0' ++ Nat.toDigits 10 n ∨
    v.toList = '+' :: (List.replicate zeros '0' ++ Nat.toDigits 10 n)

lemma digitChar_of_isDigit {d : Char} (hd : d.isDigit = true) :
    d.toNat - '0'.toNat < 10 ∧ d = Nat.digitChar (d.toNat - '0'.toNat) := by
  have hall : ∀ j < 10, Char.ofNat ('0'.toNat + j) = Nat.digitChar j := by decide
  obtain ⟨hlow, hhigh⟩ := Char.isDigit_iff_toNat.mp hd
  have hnine : '9'.toNat = '0'.toNat + 9 := rfl
  have hlt : d.toNat - '0'.toNat < 10 := by omega
  refine ⟨hlt, ?_⟩
  rw [← hall _ hlt, Nat.add_sub_cancel' hlow, Char.ofNat_toNat]

lemma digitsValue_concat (ds : List Char) (d : Char) :
    digitsValue (ds ++ [d]) = 10 * digitsValue ds + (d.toNat - '0'.toNat) := by
  rw [digitsValue, List.foldl_append]
  rfl

lemma exists_zeros_append_toDigits {ds : List Char} (hne : ds ≠ [])
    (hds : ∀ d ∈ ds, d.isDigit = true) :
    ∃ zeros, ds = List.replicate zeros '0' ++ Nat.toDigits 10 (digitsValue ds) := by
  induction ds using List.reverseRecOn with
  | nil => exact absurd rfl hne
  | append_singleton ds d ih =>
    obtain ⟨hlt, hd⟩ := digitChar_of_isDigit (hds d (by simp))
    have hsingle := Nat.toDigits_of_lt_base hlt
    rw [digitsValue_concat]
    by_cases hnil : ds = []
    · subst hnil
      refine ⟨0, ?_⟩
      rw [digitsValue, List.foldl_nil, Nat.mul_zero, Nat.zero_add, hsingle, ← hd]
      rfl
    · obtain ⟨zeros, hzeros⟩ := ih hnil fun c hc => hds c (by simp [hc])
      rcases Nat.eq_zero_or_pos (digitsValue ds) with hvalue | hvalue
      · -- all digits in front are zeros
        refine ⟨zeros + 1, ?_⟩
        have hzero : Nat.toDigits 10 0 = ['0'] := rfl
        rw [hvalue, hzero, ← List.replicate_succ'] at hzeros
        rw [hvalue, Nat.mul_zero, Nat.zero_add, hsingle, ← hd, ← hzeros]
      · refine ⟨zeros, ?_⟩
        have hdigits := Nat.toDigits_append_toDigits (b := 10) (by decide) hvalue hlt
        rw [← hdigits, hsingle, ← hd, ← List.append_assoc, ← hzeros]

lemma isDigit_of_mem_zeros_append {zeros n : ℕ} :
    ∀ d ∈ List.replicate zeros '0' ++ Nat.toDigits 10 n, d.isDigit = true := by
  intro d hd
  rcases List.mem_append.mp hd with h | h
  · rw [List.eq_of_mem_replicate h]
    rfl
  · exact isDigit_of_mem_toDigits d h

lemma zeros_append_ne_plus {zeros n : ℕ} {r : List Char} :
    List.replicate zeros '0' ++ Nat.toDigits 10 n ≠ '+' :: r := by
  intro h
  have hplus : '+' ∈ List.replicate zeros '0' ++ Nat.toDigits 10 n := by
    rw [h]
    exact .head _
  exact absurd (isDigit_of_mem_zeros_append '+' hplus) (by decide)

lemma digits_eq_some_iff {ds : List Char} {n : ℕ} :
    (if ds ≠ [] ∧ ds.all Char.isDigit ∧ digitsValue ds < sizeLimit then some (digitsValue ds)
      else none) = some n ↔
      n < sizeLimit ∧ ∃ zeros, ds = List.replicate zeros '0' ++ Nat.toDigits 10 n := by
  constructor
  · intro h
    split at h
    · rename_i hds
      cases h
      exact ⟨hds.2.2, exists_zeros_append_toDigits hds.1 (List.all_eq_true.mp hds.2.1)⟩
    · cases h
  · rintro ⟨hn, zeros, rfl⟩
    have hvalue : digitsValue (List.replicate zeros '0' ++ Nat.toDigits 10 n) = n := by
      rw [digitsValue_zeros_append, digitsValue_toDigits]
    rw [hvalue, if_pos]
    refine ⟨?_, List.all_eq_true.mpr isDigit_of_mem_zeros_append, hn⟩
    simp [Nat.toDigits_ne_nil]

lemma parseSize?_eq_some_iff {v : String} {n : ℕ} : parseSize? v = some n ↔ SizeText v n := by
  unfold parseSize? SizeText
  dsimp only
  rw [digits_eq_some_iff]
  refine and_congr_right fun _ => exists_congr fun zeros => ?_
  split
  · rename_i r hr
    rw [hr, List.cons.injEq, eq_self, true_and]
    exact ⟨.inr, fun h => h.resolve_left fun h => zeros_append_ne_plus h.symm⟩
  · rename_i hplus
    exact ⟨.inl, fun h => h.resolve_right (hplus _)⟩

end Text

namespace Pipeline

open OpTree.Text

inductive BoolText : String → Bool → Prop
  | true : BoolText "true" true
  | one : BoolText "1" true
  | false : BoolText "false" false
  | zero : BoolText "0" false

lemma parseBool?_eq_some_iff {v : String} {b : Bool} : parseBool? v = some b ↔ BoolText v b := by
  constructor
  · intro h
    unfold parseBool? at h
    split at h <;> cases h <;> constructor
  · rintro (_ | _ | _ | _) <;> rfl

/-! ### What the options come to -/

/-- The keys whose values have to be readable, in the order in which they are looked at. -/
def checkedKeys : List String :=
  ["elide-elementsattrs-if-larger", "print-debuginfo", "print-value-users", "skip-regions"]

def dumpKeys : List String := "label" :: "file-name" :: checkedKeys

/-- The value is one that the key can have. -/
inductive Fits : String → String → Prop
  | size {v : String} {n : ℕ} (h : SizeText v n) : Fits "elide-elementsattrs-if-larger" v
  | flag {key v : String} {b : Bool}
    (hkey : key ∈ ["print-debuginfo", "print-value-users", "skip-regions"]) (h : BoolText v b) :
    Fits key v

/-- The first option with a key that is none of a dump. -/
def firstOther (es : List (String × String)) : Option (String × String) :=
  es.find? fun e => e.1 ∉ dumpKeys

/-- What building a dump comes to, where the keys have these last values and this is the first
option with another key. -/
inductive Built (last : String → Option String) (other : Option (String × String)) :
    Except Error Pass → Prop
  | invalid {before after : List String} {key v : String}
    (order : checkedKeys = before ++ key :: after)
    (earlier : ∀ k ∈ before, ∀ u ∈ last k, Fits k u) (given : last key = some v)
    (unfit : ¬ Fits key v) : Built last other (.error (.invalidOptionValue "print-ir" key v))
  | unknown {e : String × String} (fit : ∀ k ∈ checkedKeys, ∀ u ∈ last k, Fits k u)
    (given : other = some e) : Built last other (.error (.unknownOption "print-ir" e.1))
  | built {elideAbove : Option ℕ} {debugInfo valueUsers skipRegions : Option Bool}
    (elide : Option.Rel SizeText (last "elide-elementsattrs-if-larger") elideAbove)
    (debug : Option.Rel BoolText (last "print-debuginfo") debugInfo)
    (users : Option.Rel BoolText (last "print-value-users") valueUsers)
    (skip : Option.Rel BoolText (last "skip-regions") skipRegions) (known : other = none) :
    Built last other (.ok (.printIr
      { options := { fileName := last "file-name", label := (last "label").getD "" },
        flags :=
          { elideAbove,
            debugInfo := debugInfo.getD false,
            valueUsers := valueUsers.getD false,
            skipRegions := skipRegions.getD false } }))

/-- The dump for these last values and this first option with another key. -/
def dumpOf (last : String → Option String) (other : Option (String × String)) :
    Except Error Pass := do
  let elideAbove ← reading "print-ir" parseSize? "elide-elementsattrs-if-larger"
    (last "elide-elementsattrs-if-larger")
  let debugInfo ← reading "print-ir" parseBool? "print-debuginfo" (last "print-debuginfo")
  let valueUsers ← reading "print-ir" parseBool? "print-value-users" (last "print-value-users")
  let skipRegions ← reading "print-ir" parseBool? "skip-regions" (last "skip-regions")
  refuse "print-ir" other
  return .printIr
    { options := { fileName := last "file-name", label := (last "label").getD "" },
      flags :=
        { elideAbove,
          debugInfo := debugInfo.getD false,
          valueUsers := valueUsers.getD false,
          skipRegions := skipRegions.getD false } }

lemma buildPrintIr_eq (es : List (String × String)) :
    buildPrintIr ⟨"print-ir", es⟩ = dumpOf (lastValue es) (firstOther es) := by
  have hstart : (⟨"print-ir", es⟩ : PassOptions) = ⟨"print-ir", unasked [] es⟩ := by
    rw [unasked_nil]
  rw [hstart]
  unfold buildPrintIr dumpOf
  simp (disch := decide) only [PassOptions.take_unasked, PassOptions.takeSize,
    PassOptions.takeBool, PassOptions.takeAs_unasked, PassOptions.finish_unasked]
  rfl

lemma fits_size_iff {v : String} : Fits "elide-elementsattrs-if-larger" v ↔ ∃ n, SizeText v n := by
  constructor
  · rintro (h | ⟨hkey, -⟩)
    · exact ⟨_, h⟩
    · exact absurd hkey (by decide)
  · rintro ⟨n, h⟩
    exact .size h

lemma fits_flag_iff {key v : String}
    (hkey : key ∈ ["print-debuginfo", "print-value-users", "skip-regions"]) :
    Fits key v ↔ ∃ b, BoolText v b := by
  constructor
  · rintro (h | ⟨-, h⟩)
    · exact absurd hkey (by decide)
    · exact ⟨_, h⟩
  · rintro ⟨b, h⟩
    exact .flag hkey h

section Reading

variable {last : String → Option String} {other : Option (String × String)}

/-- The value of a key is the first that cannot be read, or building goes on with what is read. -/
lemma built_reading {α : Type} {parse? : String → Option α} {R : String → α → Prop}
    {before after : List String} {key : String} {next : Option α → Except Error Pass}
    (hR : ∀ {v a}, parse? v = some a ↔ R v a) (hfits : ∀ {v}, Fits key v ↔ ∃ a, R v a)
    (order : checkedKeys = before ++ key :: after)
    (earlier : ∀ k ∈ before, ∀ u ∈ last k, Fits k u)
    (hnext : ∀ a, Option.Rel R (last key) a →
      (∀ k ∈ before ++ [key], ∀ u ∈ last k, Fits k u) → Built last other (next a)) :
    Built last other (reading "print-ir" parse? key (last key) >>= next) := by
  cases hlast : last key with
  | none =>
    refine hnext none (hlast ▸ .none) fun k hk u hu => ?_
    rcases List.mem_append.mp hk with hk | hk
    · exact earlier k hk u hu
    · rw [List.mem_singleton.mp hk, hlast] at hu
      cases hu
  | some v =>
    cases hread : parse? v with
    | none =>
      have hunfit : ¬ Fits key v := by
        rw [hfits]
        rintro ⟨a, ha⟩
        rw [hR.mpr ha] at hread
        cases hread
      rw [reading, hread]
      exact .invalid order earlier hlast hunfit
    | some a =>
      have hv := hR.mp hread
      rw [reading, hread]
      refine hnext (some a) (hlast ▸ .some hv) fun k hk u hu => ?_
      rcases List.mem_append.mp hk with hk | hk
      · exact earlier k hk u hu
      · rw [List.mem_singleton.mp hk, hlast] at hu
        obtain rfl : v = u := Option.some.inj hu
        exact List.mem_singleton.mp hk ▸ hfits.mpr ⟨a, hv⟩

lemma built_dumpOf : Built last other (dumpOf last other) := by
  have hstart : ∀ k ∈ ([] : List String), ∀ u ∈ last k, Fits k u := nofun
  refine built_reading parseSize?_eq_some_iff fits_size_iff rfl hstart
    fun elideAbove helide hfit => ?_
  refine built_reading parseBool?_eq_some_iff (fits_flag_iff (by decide)) rfl hfit
    fun debugInfo hdebug hfit => ?_
  refine built_reading parseBool?_eq_some_iff (fits_flag_iff (by decide)) rfl hfit
    fun valueUsers husers hfit => ?_
  refine built_reading parseBool?_eq_some_iff (fits_flag_iff (by decide)) rfl hfit
    fun skipRegions hskip hfit => ?_
  cases other with
  | none => exact .built helide hdebug husers hskip rfl
  | some e => exact .unknown hfit rfl

end Reading

lemma create_printIr (es : List (String × String)) :
    Registry.builtin.create ⟨"print-ir", es⟩ = dumpOf (lastValue es) (firstOther es) := by
  rw [← buildPrintIr_eq]
  rfl

/-! ### Options that come to the same -/

lemma dumpOf_congr {last last' : String → Option String} (other : Option (String × String))
    (h : ∀ key ∈ dumpKeys, last key = last' key) : dumpOf last other = dumpOf last' other := by
  simp only [dumpKeys, checkedKeys, List.forall_mem_cons] at h
  obtain ⟨hlabel, hfile, helide, hdebug, husers, hskip, -⟩ := h
  unfold dumpOf
  rw [hlabel, hfile, helide, hdebug, husers, hskip]

lemma firstOther_eq_none_iff {es : List (String × String)} :
    firstOther es = none ↔ ∀ e ∈ es, e.1 ∈ dumpKeys := by
  simp [firstOther, List.find?_eq_none]

lemma firstOther_of_create {es : List (String × String)} {p : Pass}
    (h : Registry.builtin.create ⟨"print-ir", es⟩ = .ok p) : firstOther es = none := by
  have hbuilt : Built (lastValue es) (firstOther es) (dumpOf (lastValue es) (firstOther es)) :=
    built_dumpOf
  rw [← create_printIr, h] at hbuilt
  cases hbuilt with
  | built _ _ _ _ known => exact known

section Same

variable {es os : List (String × String)}
  (h : ∀ key, os.filter (·.1 == key) = es.filter (·.1 == key))

include h

lemma lastValue_of_filter (key : String) : lastValue os key = lastValue es key := by
  rw [lastValue_eq_getLast?, lastValue_eq_getLast?, h]

lemma firstOther_of_filter (hes : firstOther es = none) : firstOther os = none := by
  rw [firstOther_eq_none_iff] at hes ⊢
  intro e he
  have hmem : e ∈ os.filter (·.1 == e.1) := List.mem_filter.mpr ⟨he, by simp⟩
  rw [h] at hmem
  exact hes e (List.mem_filter.mp hmem).1

end Same

lemma lastValue_repeated {front rest : List (String × String)} {k v : String}
    (hk : k ∈ rest.map Prod.fst) (key : String) :
    lastValue (front ++ rest) key = lastValue (front ++ (k, v) :: rest) key := by
  have hcons : (k, v) :: rest = [(k, v)] ++ rest := rfl
  rw [hcons, lastValue_append, lastValue_append, lastValue_append]
  by_cases h : k = key
  · subst h
    obtain ⟨e, he, hek⟩ := List.mem_map.mp hk
    have hsome : (lastValue rest k).isSome = true := by
      rw [lastValue, Option.isSome_map, List.find?_isSome]
      exact ⟨e, List.mem_reverse.mpr he, by simpa using hek⟩
    obtain ⟨u, hu⟩ := Option.isSome_iff_exists.mp hsome
    rw [hu]
    rfl
  · have hnone : lastValue [(k, v)] key = none := by
      simp [lastValue, h]
    rw [hnone, Option.or_none]

lemma firstOther_repeated {front rest : List (String × String)} {k v : String}
    (hk : k ∈ dumpKeys) : firstOther (front ++ rest) = firstOther (front ++ (k, v) :: rest) := by
  rw [firstOther, firstOther, List.find?_append, List.find?_append, List.find?_cons_of_neg]
  simpa using hk

/-- **What the options of a dump mean.** The last values of the keys and the first option with
another key decide: the first of the checked keys whose last value cannot be read is reported, then
the option that is unknown, and otherwise there is a pass with the settings that were given last and
defaults for the others. So an option that is given again behind it does not count, and the pass
stays the same when the options are put in another order that keeps those of each key in theirs. -/
theorem create_dump (es : List (String × String)) :
    let create := fun os => Registry.builtin.create ⟨"print-ir", os⟩
    Built (lastValue es) (firstOther es) (create es) ∧
      (∀ os, (∀ key ∈ dumpKeys, lastValue os key = lastValue es key) →
        firstOther os = firstOther es → create os = create es) ∧
      (∀ front key v rest, es = front ++ (key, v) :: rest → key ∈ dumpKeys →
        key ∈ rest.map Prod.fst → create (front ++ rest) = create es) ∧
      ∀ os p, (∀ key, os.filter (·.1 == key) = es.filter (·.1 == key)) →
        create es = .ok p → create os = .ok p := by
  intro create
  have hcongr : ∀ os, (∀ key ∈ dumpKeys, lastValue os key = lastValue es key) →
      firstOther os = firstOther es → create os = create es := by
    intro os hlast hother
    simp only [create, create_printIr]
    rw [hother, dumpOf_congr _ hlast]
  refine ⟨?_, hcongr, ?_, ?_⟩
  · simp only [create, create_printIr]
    exact built_dumpOf
  · rintro front key v rest rfl hkey hrest
    exact hcongr _ (fun k _ => lastValue_repeated hrest k) (firstOther_repeated hkey)
  · intro os p hfilter hcreate
    have hother := firstOther_of_create hcreate
    rw [← hcreate]
    exact hcongr os (fun key _ => lastValue_of_filter hfilter key)
      ((firstOther_of_filter hfilter hother).trans hother.symm)

/-- A value that cannot be read, given again, and the same options in another order. -/
theorem create_dump_repeated :
    let create := fun os => Registry.builtin.create ⟨"print-ir", os⟩
    let p := Pass.printIr { options := { label := "a" }, flags := { debugInfo := true } }
    create [("label", "a"), ("print-debuginfo", "1")] = .ok p ∧
      create [("print-debuginfo", "maybe"), ("label", "a"), ("print-debuginfo", "1")] = .ok p ∧
      create [("label", "a"), ("print-debuginfo", "maybe"), ("print-debuginfo", "1")] = .ok p := by
  intro create p
  obtain ⟨-, -, hrepeated, hordered⟩ :=
    create_dump [("print-debuginfo", "maybe"), ("label", "a"), ("print-debuginfo", "1")]
  have hplain : create [("label", "a"), ("print-debuginfo", "1")] = .ok p := rfl
  have hgiven : create [("print-debuginfo", "maybe"), ("label", "a"), ("print-debuginfo", "1")] =
      .ok p := by
    rw [← hplain]
    exact (hrepeated [] _ _ _ rfl (by decide) (by decide)).symm
  refine ⟨hplain, hgiven, hordered _ p (fun key => ?_) hgiven⟩
  by_cases hlabel : "label" = key
  · subst hlabel
    rfl
  · rw [List.filter_cons_of_neg (by simpa using hlabel)]
    simp [List.filter_cons, hlabel]

end Pipeline

end OpTree
