import OpTree.Analysis.Basic

/-!
The cache of analysis results. A result is found by the name of its analysis and the fingerprint
of the program, so it is found again for every program with the same content.
-/

namespace OpTree.Analysis

open OpTree.IR

/-- Under what a result is stored. -/
structure CacheKey where
  id : Id
  fingerprint : UInt64
  deriving DecidableEq

/-- The key for an analysis of a program. -/
def CacheKey.of (i : Id) (op : Operation) : CacheKey := ⟨i, Analysis.fingerprint op⟩

structure Cache (ε : Type) where
  entries : List (CacheKey × Stored ε) := []

namespace Cache

variable {ε ρ : Type}

def get? (c : Cache ε) (k : CacheKey) : Option (Stored ε) :=
  (c.entries.find? (·.1 = k)).map Prod.snd

def contains (c : Cache ε) (k : CacheKey) : Bool := (c.get? k).isSome

/-- Stores a result in the place of an earlier one. -/
def insert (c : Cache ε) (k : CacheKey) (v : Stored ε) : Cache ε :=
  ⟨(k, v) :: c.entries.filter (·.1 ≠ k)⟩

def retain (c : Cache ε) (p : Preserved) : Cache ε :=
  ⟨c.entries.filter fun e => p.keeps e.1.id⟩

/-- Runs an analysis, or takes its result from the cache. A new result is stored. -/
def analyze (c : Cache ε) (a : Analysis ε ρ) (op : Operation) : Cache ε × Except Error ρ :=
  let k := CacheKey.of a.id op
  match c.get? k with
  | some v => (c, (a.retrieve? v).elim (.error (.unusable a.id)) .ok)
  | none =>
    match a.analyze op with
    | .ok r => (c.insert k (a.store r), .ok r)
    | .error e => (c, .error e)

end Cache

end OpTree.Analysis
