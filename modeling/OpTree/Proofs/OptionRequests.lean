import OpTree.Pipeline.Options
import Mathlib.Data.List.Basic

/-!
Taking options out one by one. Whatever is asked for, and in whatever order, what is left are the
options whose key nobody asked for, as they stood; each key is answered once, with its last value;
and nothing is left over exactly when every key was asked for.
-/

namespace OpTree.Pipeline

/-- What may be asked for: the text of an option, a truth value, or a size. -/
inductive Request
  | text (key : String)
  | bool (key : String)
  | size (key : String)

/-- What is given for a request. -/
inductive Answer
  | text (value : Option String)
  | bool (value : Except Error (Option Bool))
  | size (value : Except Error (Option Nat))

def Request.key : Request → String
  | text key | bool key | size key => key

namespace PassOptions

def serve (o : PassOptions) : Request → Answer × PassOptions
  | .text key => let (value, o) := o.take key; (.text value, o)
  | .bool key => let (value, o) := o.takeBool key; (.bool value, o)
  | .size key => let (value, o) := o.takeSize key; (.size value, o)

/-- Answers requests one after the other. -/
def serveAll (o : PassOptions) : List Request → List Answer × PassOptions
  | [] => ([], o)
  | r :: rs =>
    let (a, o) := o.serve r
    let (as, o) := o.serveAll rs
    (a :: as, o)

end PassOptions

/-! ### What is seen -/

def lastValue (es : List (String × String)) (key : String) : Option String :=
  (es.reverse.find? (·.1 == key)).map Prod.snd

lemma lastValue_eq_getLast? (es : List (String × String)) (key : String) :
    lastValue es key = (es.filter (·.1 == key)).getLast?.map Prod.snd := by
  rw [lastValue, List.getLast?_filter]

lemma lastValue_append (es es' : List (String × String)) (key : String) :
    lastValue (es ++ es') key = (lastValue es' key).or (lastValue es key) := by
  rw [lastValue, List.reverse_append, List.find?_append, Option.map_or]
  rfl

/-- A value that has to be readable, if there is one. -/
def reading {α : Type} (pass : String) (parse? : String → Option α) (key : String) :
    Option String → Except Error (Option α)
  | none => .ok none
  | some v =>
    match parse? v with
    | some a => .ok (some a)
    | none => .error (.invalidOptionValue pass key v)

def refuse (pass : String) : Option (String × String) → Except Error Unit
  | none => .ok ()
  | some e => .error (.unknownOption pass e.1)

def Request.answer (pass : String) (value : Option String) : Request → Answer
  | text _ => .text value
  | bool key => .bool (reading pass parseBool? key value)
  | size key => .size (reading pass Text.parseSize? key value)

/-- The options whose keys are none of these. -/
def unasked (keys : List String) (es : List (String × String)) : List (String × String) :=
  es.filter fun e => e.1 ∉ keys

lemma unasked_nil (es : List (String × String)) : unasked [] es = es := by
  simp [unasked]

lemma unasked_concat (keys : List String) (key : String) (es : List (String × String)) :
    (unasked keys es).filter (·.1 != key) = unasked (keys ++ [key]) es := by
  rw [unasked, unasked, List.filter_filter]
  refine List.filter_congr fun e _ => ?_
  by_cases h : e.1 = key <;> simp [h]

lemma lastValue_unasked (keys : List String) (key : String) (es : List (String × String)) :
    lastValue (unasked keys es) key = if key ∈ keys then none else lastValue es key := by
  rw [lastValue, unasked, ← List.filter_reverse, List.find?_filter]
  split
  · rename_i hkey
    rw [Option.map_eq_none_iff, List.find?_eq_none]
    intro e _ he
    simp only [decide_eq_true_eq, beq_iff_eq] at he
    exact he.1 (he.2 ▸ hkey)
  · rename_i hkey
    rw [lastValue]
    refine congrArg (Option.map _) (congrArg (List.find? · es.reverse) (funext fun e => ?_))
    by_cases h : e.1 = key <;> simp [h, hkey]

namespace PassOptions

variable {pass : String} {es : List (String × String)}

lemma take_eq (es : List (String × String)) (key : String) :
    (⟨pass, es⟩ : PassOptions).take key = (lastValue es key, ⟨pass, es.filter (·.1 != key)⟩) := by
  rw [take, lastValue_eq_getLast?, List.getLast?_map]

lemma takeAs_eq {α : Type} (parse? : String → Option α) (es : List (String × String))
    (key : String) : (⟨pass, es⟩ : PassOptions).takeAs parse? key =
      (reading pass parse? key (lastValue es key), ⟨pass, es.filter (·.1 != key)⟩) := by
  rw [takeAs, take_eq]
  cases lastValue es key <;> rfl

lemma serve_eq (es : List (String × String)) (r : Request) :
    (⟨pass, es⟩ : PassOptions).serve r =
      (r.answer pass (lastValue es r.key), ⟨pass, es.filter (·.1 != r.key)⟩) := by
  cases r with
  | text key => rw [serve, take_eq]; rfl
  | bool key => rw [serve, takeBool, takeAs_eq]; rfl
  | size key => rw [serve, takeSize, takeAs_eq]; rfl

/-- A key that was not asked for before is answered with the last of its values. -/
lemma take_unasked {keys : List String} {key : String} (h : key ∉ keys) :
    (⟨pass, unasked keys es⟩ : PassOptions).take key =
      (lastValue es key, ⟨pass, unasked (keys ++ [key]) es⟩) := by
  rw [take_eq, lastValue_unasked, if_neg h, unasked_concat]

lemma takeAs_unasked {α : Type} (parse? : String → Option α) {keys : List String} {key : String}
    (h : key ∉ keys) : (⟨pass, unasked keys es⟩ : PassOptions).takeAs parse? key =
      (reading pass parse? key (lastValue es key), ⟨pass, unasked (keys ++ [key]) es⟩) := by
  rw [takeAs_eq, lastValue_unasked, if_neg h, unasked_concat]

lemma serveAll_unasked (keys : List String) (rs : List Request) :
    (⟨pass, unasked keys es⟩ : PassOptions).serveAll rs =
      (rs.mapIdx fun i r => r.answer pass
          (if r.key ∈ keys ++ (rs.take i).map Request.key then none else lastValue es r.key),
        ⟨pass, unasked (keys ++ rs.map Request.key) es⟩) := by
  induction rs generalizing keys with
  | nil => simp [serveAll]
  | cons r rs ih =>
    rw [serveAll, serve_eq, lastValue_unasked, unasked_concat]
    simp [ih, List.mapIdx_cons]

lemma finish_unasked (keys : List String) :
    (⟨pass, unasked keys es⟩ : PassOptions).finish =
      refuse pass (es.find? fun e => e.1 ∉ keys) := by
  rw [← List.head?_filter, ← unasked, finish]
  cases unasked keys es <;> rfl

lemma finish_unasked_eq_ok_iff {keys : List String} :
    (⟨pass, unasked keys es⟩ : PassOptions).finish = .ok () ↔ ∀ e ∈ es, e.1 ∈ keys := by
  have hnone : es.find? (fun e => e.1 ∉ keys) = none ↔ ∀ e ∈ es, e.1 ∈ keys := by
    simp [List.find?_eq_none]
  rw [finish_unasked, ← hnone]
  cases es.find? fun e => e.1 ∉ keys <;> simp [refuse]

lemma finish_unasked_eq_error_iff {keys : List String} {cause : Error} :
    (⟨pass, unasked keys es⟩ : PassOptions).finish = .error cause ↔
      ∃ before e after, es = before ++ e :: after ∧ (∀ d ∈ before, d.1 ∈ keys) ∧ e.1 ∉ keys ∧
        cause = .unknownOption pass e.1 := by
  have hsome (e : String × String) : es.find? (fun e => e.1 ∉ keys) = some e ↔
      e.1 ∉ keys ∧ ∃ before after, es = before ++ e :: after ∧ ∀ d ∈ before, d.1 ∈ keys := by
    simp [List.find?_eq_some_iff_append]
  rw [finish_unasked]
  constructor
  · intro h
    cases hfind : es.find? fun e => e.1 ∉ keys with
    | none =>
      rw [hfind] at h
      cases h
    | some e =>
      rw [hfind] at h
      obtain ⟨he, before, after, hes, hbefore⟩ := (hsome e).mp hfind
      exact ⟨before, e, after, hes, hbefore, he, (Except.error.inj h).symm⟩
  · rintro ⟨before, e, after, hes, hbefore, he, rfl⟩
    rw [(hsome e).mpr ⟨he, before, after, hes, hbefore⟩, refuse]

end PassOptions

/-- **No option is lost and none is hidden.** After any requests the options that are left are those
whose key was not asked for, in their order. The first request for a key was answered with its last
value and every later one as if the key had none. Nothing is missed exactly if each key was asked
for, and otherwise the first option whose key was not is reported. -/
theorem requests_exhaust (pass : String) (es : List (String × String)) (rs : List Request) :
    let asked := rs.map Request.key
    let served := (⟨pass, es⟩ : PassOptions).serveAll rs
    served.2 = ⟨pass, unasked asked es⟩ ∧
      (served.1 = rs.mapIdx fun i r => r.answer pass
        (if r.key ∈ (rs.take i).map Request.key then none else lastValue es r.key)) ∧
      (served.2.finish = .ok () ↔ ∀ e ∈ es, e.1 ∈ asked) ∧
      ∀ cause, served.2.finish = .error cause ↔ ∃ before e after, es = before ++ e :: after ∧
        (∀ d ∈ before, d.1 ∈ asked) ∧ e.1 ∉ asked ∧ cause = .unknownOption pass e.1 := by
  intro asked served
  have hserved := @PassOptions.serveAll_unasked pass es [] rs
  rw [unasked_nil] at hserved
  have hrest : served.2 = ⟨pass, unasked asked es⟩ := congrArg Prod.snd hserved
  rw [hrest]
  exact ⟨rfl, congrArg Prod.fst hserved, PassOptions.finish_unasked_eq_ok_iff,
    fun _ => PassOptions.finish_unasked_eq_error_iff⟩

end OpTree.Pipeline
