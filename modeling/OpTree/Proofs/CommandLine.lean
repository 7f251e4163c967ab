import OpTree.Command.Grammar
import Mathlib.Data.List.TakeWhile

/-!
What a scan of arguments finds: each switch that is written by its name adds one entry, and an
argument behind two dashes is positional, whatever it looks like.
-/

namespace OpTree

namespace Command

/-! ### What a scan finds -/

namespace Found

/-- What was found, with a switch more if it is given. -/
def add (f : Found) (name : String) (v : Option String) : Found :=
  { f with given := v.toList.map (Prod.mk name) ++ f.given }

lemma has_empty (key : String) : ({} : Found).has key = false := rfl

lemma value?_empty (key : String) : ({} : Found).value? key = none := rfl

variable (f : Found) (name key : String) (v : Option String)

@[simp] lemma has_add : (f.add name v).has key = ((name == key && v.isSome) || f.has key) := by
  unfold has add
  cases v <;> simp

@[simp] lemma value?_add :
    (f.add name v).value? key = if name = key then v.or (f.value? key) else f.value? key := by
  unfold value? add
  cases v with
  | none => simp
  | some a =>
    by_cases h : name = key <;> simp [h]

end Found

def valueArguments (name : String) (v : Option String) : List String :=
  v.toList.map fun a => "--" ++ name ++ "=" ++ a

/-- What is found for a switch without a value if it is set. -/
def toggled (b : Bool) : Option String := if b then some "" else none

@[simp] lemma isSome_toggled (b : Bool) : (toggled b).isSome = b := by
  cases b <;> rfl

def toggleArguments (name : String) (b : Bool) : List String := if b then ["--" ++ name] else []

namespace Grammar

/-- A switch can be written by its name, behind which an equals sign ends the name. -/
structure Offers (g : Grammar) (s : Switch) : Prop where
  find : g.switches.find? (·.name == s.name) = some s
  name_ne : s.name.toList ≠ []
  name_free : '=' ∉ s.name.toList

variable {g : Grammar}

lemma Offers.ne_equals {s : Switch} (hs : g.Offers s) :
    ∀ c ∈ s.name.toList, decide (c ≠ '=') = true := fun _ hc =>
  decide_eq_true fun h => hs.name_free (h ▸ hc)

lemma takeOpen_eq_takeLong (g : Grammar) (f : Found) {a : String} {r : List Char} (hr : r ≠ [])
    (ha : a.toList = '-' :: '-' :: r) : g.takeOpen f a = g.takeLong f r := by
  unfold takeOpen
  rw [ha]
  cases r with
  | nil => exact absurd rfl hr
  | cons c r => rfl

lemma scan_open_cons (hsub : g.subcommands = []) {f f' : Found} {a : String} {m : Mode}
    (h : g.takeOpen f a = .ok (f', m)) (rest : List String) :
    g.scan f .open (a :: rest) = g.scan f' m rest := by
  rw [scan, hsub, h]
  rfl

section

variable {s : Switch} (hs : g.Offers s) {f : Found} (hf : f.has s.name = false)

include hs hf

lemma takeLong_value {accepts : String → Bool} (heffect : s.effect = .value accepts) {v : String}
    (hv : accepts v = true) :
    g.takeLong f (s.name.toList ++ '=' :: v.toList) = .ok (f.add s.name (some v), .open) := by
  have htake : (s.name.toList ++ '=' :: v.toList).takeWhile (· ≠ '=') = s.name.toList := by
    rw [List.takeWhile_append_of_pos hs.ne_equals, List.takeWhile_cons_of_neg (by simp),
      List.append_nil]
  have hdrop : (s.name.toList ++ '=' :: v.toList).dropWhile (· ≠ '=') = '=' :: v.toList := by
    rw [List.dropWhile_append_of_pos hs.ne_equals, List.dropWhile_cons_of_neg (by simp)]
  unfold takeLong
  rw [htake, hdrop, String.ofList_toList]
  dsimp only
  rw [hs.find]
  simp [heffect, takeSwitch, hf, hv, Found.add]

lemma takeLong_toggle (heffect : s.effect = .toggle) :
    g.takeLong f s.name.toList = .ok (f.add s.name (some ""), .open) := by
  have htake : s.name.toList.takeWhile (· ≠ '=') = s.name.toList :=
    List.takeWhile_eq_self_iff.mpr hs.ne_equals
  have hdrop : s.name.toList.dropWhile (· ≠ '=') = [] := List.dropWhile_eq_nil_iff.mpr hs.ne_equals
  unfold takeLong
  rw [htake, hdrop, String.ofList_toList]
  dsimp only
  rw [hs.find]
  simp [heffect, takeSwitch, hf, Found.add]

lemma scan_valueArguments (hsub : g.subcommands = []) {accepts : String → Bool}
    (heffect : s.effect = .value accepts) {v : Option String} (hv : ∀ a ∈ v, accepts a = true)
    (rest : List String) :
    g.scan f .open (valueArguments s.name v ++ rest) = g.scan (f.add s.name v) .open rest := by
  cases v with
  | none => rfl
  | some a =>
    have ha : ("--" ++ s.name ++ "=" ++ a).toList =
        '-' :: '-' :: (s.name.toList ++ '=' :: a.toList) := by
      simp [String.toList_append]
    have htake := takeOpen_eq_takeLong g f (by simp) ha
    rw [takeLong_value hs hf heffect (hv a rfl)] at htake
    exact scan_open_cons hsub htake rest

lemma scan_toggleArguments (hsub : g.subcommands = []) (heffect : s.effect = .toggle) (b : Bool)
    (rest : List String) :
    g.scan f .open (toggleArguments s.name b ++ rest) =
      g.scan (f.add s.name (toggled b)) .open rest := by
  cases b with
  | false => rfl
  | true =>
    have ha : ("--" ++ s.name).toList = '-' :: '-' :: s.name.toList := by
      simp [String.toList_append]
    have htake := takeOpen_eq_takeLong g f hs.name_ne ha
    rw [takeLong_toggle hs hf heffect] at htake
    exact scan_open_cons hsub htake rest

end

lemma scan_positional (hsub : g.subcommands = []) (hone : g.positionals = 1) {f : Found}
    (hf : f.positionals = []) (a : String) :
    g.scan f .open ["--", a] =
      if a = "" then .error .usage else .ok { f with positionals := [a] } := by
  have htake : g.takeOpen f "--" = .ok (f, .literal) := rfl
  rw [scan_open_cons hsub htake, scan, takePositional, hf, hone]
  by_cases h : a = ""
  · rw [if_pos h, if_neg (by simp [h])]
    rfl
  · rw [if_neg h, if_pos (by simp [h])]
    rfl

end Grammar

end Command

end OpTree
