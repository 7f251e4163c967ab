import OpTree.Proofs.Controls

/-!
Literals. The quoted name of an operation, and a string among its attributes, can be read back at
the front of any text: whatever the name holds, the quote that closes it is found, and no line is
broken.
-/

namespace OpTree.Print

open OpTree.IR OpTree.Text

/-- The texts that stand for strings are literals: each is told from what stands behind it, and
stays on one line. -/
structure IsLiteral (literal : String → String) : Prop where
  /-- At the front of a text the string is read back, with the rest. -/
  reads (s x : String) : readQuoted (literal s ++ x).toList = some (s.toList, x.toList)
  /-- Texts that agree up to what stands behind them stand for the same string. -/
  delimits {s t x y : String} : literal s ++ x = literal t ++ y → s = t ∧ x = y
  controlFree (s : String) : ControlFree (literal s)

lemma IsLiteral.of_reads {literal : String → String}
    (hread : ∀ s x : String, readQuoted (literal s ++ x).toList = some (s.toList, x.toList))
    (hcontrol : ∀ s, ControlFree (literal s)) : IsLiteral literal where
  reads := hread
  delimits {s t x y} h := by
    have hsame := (hread s x).symm.trans (h ▸ hread t y)
    rw [Option.some.injEq, Prod.mk.injEq, String.toList_inj, String.toList_inj] at hsame
    exact hsame
  controlFree := hcontrol

lemma isLiteral_quote : IsLiteral quote := by
  refine .of_reads (fun s x => ?_) controlFree_quote
  rw [String.toList_append, quote, String.toList_ofList]
  exact readQuoted_quoteChars s.toList x.toList

/-- **Quoted names are literals**, and so are the texts of string attributes: whatever a string
holds, its literal ends at the quote that closes it and has no control character. -/
theorem quoted_literals :
    IsLiteral quote ∧ ∀ f : Flags, IsLiteral (attributeText f <| .string ·) := by
  refine ⟨isLiteral_quote, fun f => ?_⟩
  have hstring : (attributeText f <| .string ·) = quote := funext fun s => by rw [attributeText]
  rw [hstring]
  exact isLiteral_quote

/-- A name with quotes, with what looks like an escape, and with a line end and an escape
character. -/
example : quote "\"\\n\"\n\x1b" = "\"\\\"\\\\n\\\"\\n\\u\x7b1b\x7d\"" := by
  decide +kernel

end OpTree.Print
