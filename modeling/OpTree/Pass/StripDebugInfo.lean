import OpTree.Pass.Basic

/-!
The pass that forgets where operations come from.
-/

namespace OpTree

open OpTree.IR

/-- The program with all locations unknown. -/
def IR.Operation.stripped (op : Operation) : Operation :=
  op.mapWalk fun o => { o with location := .unknown }

def IR.Operation.located (op : Operation) : Nat :=
  op.walk.countP fun o => !o.location.isUnknown

/-- The pass that makes all locations unknown. Counts and symbols do not depend on locations. -/
def Pass.stripDebugInfo : Pass where
  name := "strip-debuginfo"
  description := "Strip debug info from all operations"
  kind := .stripDebugInfo
  run op s :=
    let s := s.note .debug "stripped debug locations" [("stripped", .count op.located)]
    { unit := op.stripped, state := (s.preserve .operationCount).preserve .symbolTable }

end OpTree
