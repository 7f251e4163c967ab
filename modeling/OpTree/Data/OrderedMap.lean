/-!
Maps from names to values that keep the order in which the names were first entered. Writing to
a name that is present replaces its value and leaves it where it is.
-/

namespace OpTree.Data

/-- The pairs with the value of `key` replaced, or with a new pair at the end. -/
def upsert {α : Type} (key : String) (value : α) : List (String × α) → List (String × α)
  | [] => [(key, value)]
  | (k, v) :: r => if k = key then (k, value) :: r else (k, v) :: upsert key value r

theorem map_fst_upsert {α : Type} (key : String) (value : α) (l : List (String × α)) :
    (upsert key value l).map Prod.fst =
      if key ∈ l.map Prod.fst then l.map Prod.fst else l.map Prod.fst ++ [key] := by
  induction l with
  | nil => simp [upsert]
  | cons p r ih =>
    obtain ⟨k, v⟩ := p
    by_cases h : k = key
    · simp [upsert, h]
    · have h' : ¬ key = k := fun e => h e.symm
      simp only [upsert, h, if_false, List.map_cons, ih, List.mem_cons, h', false_or]
      split <;> simp

/-- A map whose entries stand in order of first entry, each name once. -/
structure OrderedMap (α : Type) where
  entries : List (String × α) := []
  nodup : (entries.map Prod.fst).Nodup := by simp

namespace OrderedMap

variable {α β : Type}

def empty : OrderedMap α := {}

instance : Inhabited (OrderedMap α) := ⟨.empty⟩

def keys (m : OrderedMap α) : List String := m.entries.map Prod.fst

def values (m : OrderedMap α) : List α := m.entries.map Prod.snd

def size (m : OrderedMap α) : Nat := m.entries.length

def isEmpty (m : OrderedMap α) : Bool := m.entries.isEmpty

def get? (m : OrderedMap α) (key : String) : Option α :=
  (m.entries.find? (·.1 == key)).map Prod.snd

/-- Enters a value, at the end if the name is new. -/
def insert (m : OrderedMap α) (key : String) (value : α) : OrderedMap α where
  entries := upsert key value m.entries
  nodup := by
    have := m.nodup
    rw [map_fst_upsert]
    split
    · exact this
    · rw [List.nodup_append]
      refine ⟨this, by simp, ?_⟩
      intro a ha b hb
      simp only [List.mem_singleton] at hb
      subst hb
      intro e
      exact absurd (e ▸ ha) ‹_›

/-- Takes a name out and closes the gap. -/
def erase (m : OrderedMap α) (key : String) : OrderedMap α where
  entries := m.entries.filter (·.1 != key)
  nodup := m.nodup.sublist (List.filter_sublist.map _)

/-- The values changed, the names kept. -/
def map (f : α → β) (m : OrderedMap α) : OrderedMap β where
  entries := m.entries.map fun e => (e.1, f e.2)
  nodup := by simpa [List.map_map, Function.comp_def] using m.nodup

/-- The pairs entered one after the other. -/
def ofList (l : List (String × α)) : OrderedMap α :=
  l.foldl (fun m e => m.insert e.1 e.2) .empty

end OrderedMap

end OpTree.Data
