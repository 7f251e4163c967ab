import OpTree.Proofs.Stages

/-!
Dumps on a stream with room for so many bytes. What the stream holds in the end is the beginning
of what it was offered, wherever it ran full: within a header, within a line, or between two
passes.
-/

namespace OpTree

open OpTree.IR OpTree.World OpTree.Text

namespace World.Sink

/-- A stream of a capacity to which these bytes were offered, one after the other. -/
def offered (capacity : Option ℕ) (bs : List UInt8) : Sink where
  written := match capacity with
    | none => bs
    | some n => bs.take n
  capacity

/-- A stream of this capacity has room for these bytes. -/
def fits : Option ℕ → List UInt8 → Bool
  | none, _ => true
  | some n, bs => bs.length ≤ n

lemma offered_append_of_not_fits {capacity : Option ℕ} {bs : List UInt8}
    (h : fits capacity bs = false) (r : List UInt8) :
    offered capacity (bs ++ r) = offered capacity bs := by
  cases capacity with
  | none => cases h
  | some n =>
    have hn : n ≤ bs.length := by
      simp only [fits, decide_eq_false_iff_not] at h
      omega
    unfold offered
    dsimp only
    rw [List.take_append_of_le_length hn]

lemma accepted_offered (capacity : Option ℕ) (bs r : List UInt8) :
    (offered capacity bs).written ++ (offered capacity bs).accepted r =
      (offered capacity (bs ++ r)).written := by
  cases capacity with
  | none => rfl
  | some n =>
    have hroom : n - (bs.take n).length = n - bs.length := by
      rw [List.length_take]
      omega
    change bs.take n ++ r.take (n - (bs.take n).length) = (bs ++ r).take n
    rw [hroom, List.take_append]

lemma length_accepted_offered (capacity : Option ℕ) (bs : List UInt8) {r : List UInt8}
    (hr : r ≠ []) :
    ((offered capacity bs).accepted r).length = r.length ↔ fits capacity (bs ++ r) := by
  cases capacity with
  | none => simp [accepted, offered, fits]
  | some n =>
    have hpos := List.length_pos_iff.mpr hr
    have hroom : (offered (some n) bs).accepted r = r.take (n - (bs.take n).length) := rfl
    rw [hroom, List.length_take, List.length_take, fits, List.length_append, decide_eq_true_iff]
    omega

lemma write_offered (capacity : Option ℕ) (bs : List UInt8) {r : List UInt8} (hr : r ≠ []) :
    (offered capacity bs).write r =
      (offered capacity (bs ++ r),
        if fits capacity (bs ++ r) then .ok () else .error .full) := by
  unfold write
  rw [accepted_offered]
  simp only [length_accepted_offered capacity bs hr]
  rfl

lemma length_accepted_le (s : Sink) (bs : List UInt8) : (s.accepted bs).length ≤ bs.length := by
  unfold accepted
  split
  · exact Nat.le_refl _
  · exact List.length_take_le' _ _

lemma accepted_eq_self {s : Sink} {bs : List UInt8} (h : (s.accepted bs).length = bs.length) :
    s.accepted bs = bs := by
  unfold accepted at h ⊢
  split at h
  · rfl
  · rw [List.length_take] at h
    exact List.take_of_length_le (by omega)

/-- Of bytes that follow others something is taken only if all the others are. -/
lemma accepted_append (s : Sink) (bs r : List UInt8) : s.accepted (bs ++ r) =
    if (s.accepted bs).length = bs.length
      then bs ++ { s with written := s.written ++ bs }.accepted r
      else s.accepted bs := by
  obtain ⟨written, capacity, flushFails⟩ := s
  cases capacity with
  | none => simp [accepted]
  | some n =>
    simp only [accepted, List.length_take, List.length_append]
    split
    · have hrest : n - written.length - bs.length = n - (written.length + bs.length) := by omega
      rw [List.take_append, List.take_of_length_le (by omega), hrest]
    · rw [List.take_append_of_le_length (by omega)]

/-- Pieces are written as if they were one. -/
theorem writeAll_eq_write (s : Sink) (l : List (List UInt8)) :
    s.writeAll l = s.write l.flatten := by
  induction l generalizing s with
  | nil =>
    have hnone : s.accepted [] = [] :=
      List.length_eq_zero_iff.mp (Nat.le_zero.mp (s.length_accepted_le []))
    simp [writeAll, write, hnone]
  | cons bs l ih =>
    rw [List.flatten_cons, write, accepted_append]
    unfold writeAll
    by_cases h : (s.accepted bs).length = bs.length
    · have hfirst : s.write bs = ({ s with written := s.written ++ bs }, .ok ()) := by
        rw [write, if_pos h, accepted_eq_self h]
      rw [hfirst, if_pos h]
      dsimp only
      rw [ih, write]
      simp
    · have hlt : (s.accepted bs).length < bs.length :=
        Nat.lt_of_le_of_ne (s.length_accepted_le bs) h
      have hfirst :
          s.write bs = ({ s with written := s.written ++ s.accepted bs }, .error .full) := by
        rw [write, if_neg h]
      rw [hfirst, if_neg h, List.length_append, if_neg (by omega)]

lemma receive_offered (capacity : Option ℕ) (bs : List UInt8) {r : Print.Rendering}
    (hflush : r.ending = .flush) (hr : bytesOf r.text ≠ []) :
    (offered capacity bs).receive r =
      (offered capacity (bs ++ bytesOf r.text),
        if fits capacity (bs ++ bytesOf r.text) then none else some (.stream .full)) := by
  have hpieces : (r.pieces.map bytesOf).flatten = bytesOf r.text := by
    rw [Print.Rendering.text, bytesOf_join]
  have hok : (offered capacity (bs ++ bytesOf r.text)).flush = .ok () := rfl
  unfold receive
  rw [writeAll_eq_write, hpieces, write_offered capacity bs hr, hflush]
  cases fits capacity (bs ++ bytesOf r.text) with
  | false => rfl
  | true =>
    simp only [if_true]
    rw [hok]

end World.Sink

namespace Stage

open World.Sink

/-! ### A stage on a stream -/

lemma rendering_text (options : Print.DumpOptions) (f : Print.Flags) (ansi : Bool)
    (op : Operation) :
    (DumpSettings.rendering { options, flags := f } ansi op).text =
      dumpText ansi options.label f op := by
  rw [← String.toList_inj, dumpText, Print.text, DumpSettings.rendering, Print.Printer.dump,
    Print.Rendering.text]
  simp only [String.toList_append, String.toList_join, List.flatMap_cons]
  rfl

lemma bytesOf_dumpText_ne_nil (ansi : Bool) (label : String) (f : Print.Flags) (op : Operation) :
    bytesOf (dumpText ansi label f op) ≠ [] := by
  have hend : bytesOf "\n" = [0x0a] := by decide
  rw [dumpText, bytesOf_append, bytesOf_append, hend]
  simp

lemma told_dump {options : Print.DumpOptions} (hd : options.destination? = none)
    (f : Print.Flags) (ansi : Bool) (op : Operation) :
    Dump.told ((dump options f).dump? ansi op).toList =
      bytesOf (dumpText ansi options.label f op) := by
  simp [dump?, Dump.told, Dump.bytes, hd]

/-- A dump is offered to the diagnostics, and fails exactly if they have no room for it. -/
lemma dump_stream_turn {options : Print.DumpOptions} {f : Print.Flags}
    (hd : options.destination? = none) (op : Operation) {w : World}
    {capacity : Option ℕ} {bs : List UInt8} (hw : w.diagnostics = offered capacity bs) :
    let bs' := bs ++ bytesOf (dumpText w.ansi options.label f op)
    (∃ log, ((dump options f).pass.turn op w).world =
        { w with diagnostics := offered capacity bs', log }) ∧
      ((dump options f).pass.turn op w).outcome.cause? =
        if fits capacity bs' then none else some (.stream .full) := by
  intro bs'
  let d : DumpSettings := { options, flags := f }
  have hreceive : w.diagnostics.receive (d.rendering w.ansi op) =
      (offered capacity bs', if fits capacity bs' then none else some (.stream .full)) := by
    have htext := rendering_text options f w.ansi op
    have htext_ne : bytesOf (d.rendering w.ansi op).text ≠ [] := by
      rw [htext]
      exact bytesOf_dumpText_ne_nil w.ansi options.label f op
    rw [hw, receive_offered capacity bs rfl htext_ne, htext]
  obtain ⟨log, hworld⟩ := ((dump options f).pass.turn op w).world_eq
  rw [hworld, dump_outcome, hd]
  dsimp only [dumpToDiagnostics, dumpState, PassState.preserveAll, PassState.note, World.note]
  rw [hreceive]
  refine ⟨⟨log, rfl⟩, ?_⟩
  unfold PassOutcome.cause?
  cases fits capacity bs' <;> rfl

lemma stream_turn {s : Stage} (hs : s.destination? = none) (op : Operation) {w : World}
    {capacity : Option ℕ} {bs : List UInt8} (hw : w.diagnostics = offered capacity bs) :
    let bs' := bs ++ Dump.told (s.dump? w.ansi op).toList
    (∃ log, (s.pass.turn op w).world = { w with diagnostics := offered capacity bs', log }) ∧
      ((s.pass.turn op w).failed = true → fits capacity bs' = false) := by
  intro bs'
  cases s with
  | strip =>
    have hbs : bs' = bs := List.append_nil bs
    obtain ⟨⟨log, hworld⟩, hcause⟩ := strip_turn op w
    rw [hbs, ← hw, Turn.failed, hcause]
    exact ⟨⟨log, hworld⟩, nofun⟩
  | dump options f =>
    have hbs : bs' = bs ++ bytesOf (dumpText w.ansi options.label f op) := by
      rw [← told_dump hs]
    obtain ⟨hworld, hcause⟩ := dump_stream_turn hs op hw
    rw [hbs, Turn.failed, hcause]
    refine ⟨hworld, fun h => ?_⟩
    by_contra hfits
    rw [Bool.not_eq_false] at hfits
    rw [if_pos hfits] at h
    cases h

/-- **What a pipeline offers to a stream** is all its dumps, whether or not it is halted: if it is,
the stream is full. -/
theorem stream_taken (policy : FailurePolicy) {ss : List Stage}
    (hss : ∀ s ∈ ss, s.destination? = none) (op : Operation) {w : World}
    {capacity : Option ℕ} {bs : List UInt8} (hw : w.diagnostics = offered capacity bs) :
    (((policy.taken (turns (ss.map pass) op w)).getLast?.map Turn.world).getD w).diagnostics =
      offered capacity (bs ++ Dump.told (dumps w.ansi op ss)) := by
  induction ss generalizing op w bs with
  | nil => simpa [turns] using hw
  | cons s ss ih =>
    obtain ⟨⟨log, hworld⟩, hfailed⟩ := stream_turn (hss s (.head _)) op hw
    have hansi : (s.pass.turn op w).world.ansi = w.ansi := by rw [hworld]
    rw [List.map_cons, turns, FailurePolicy.taken_cons, getLast?_turn_cons, dumps_cons,
      Dump.told_append, ← List.append_assoc]
    by_cases hhalt : policy = .halt ∧ (s.pass.turn op w).failed = true
    -- a stage that failed has filled the stream, so the dumps left out would not have changed it
    · rw [if_pos hhalt, offered_append_of_not_fits (hfailed hhalt.2)]
      exact congrArg World.diagnostics hworld
    · rw [if_neg hhalt, unit_turn, ← hansi]
      refine ih (fun s hs => hss s (.tail _ hs)) _ ?_
      rw [hansi, hworld]

/-- A dump fails exactly if there is no room for all that was offered when it ends. -/
theorem failed_turn {ss : List Stage} (hss : ∀ s ∈ ss, s.destination? = none) (op : Operation)
    {w : World} {capacity : Option ℕ} {bs : List UInt8}
    (hw : w.diagnostics = offered capacity bs) {i : ℕ} {t : Turn}
    (ht : (turns (ss.map pass) op w)[i]? = some t) {options : Print.DumpOptions}
    {f : Print.Flags} (hi : ss[i]? = some (dump options f)) :
    t.failed = true ↔
      fits capacity (bs ++ Dump.told (dumps w.ansi op (ss.take (i + 1)))) = false := by
  induction ss generalizing i op w bs with
  | nil => cases hi
  | cons s ss ih =>
    rw [List.map_cons, turns] at ht
    rw [List.take_succ_cons, dumps_cons, Dump.told_append, ← List.append_assoc]
    cases i with
    | zero =>
      obtain rfl : s = dump options f := by simpa using hi
      obtain rfl : (dump options f).pass.turn op w = t := by simpa using ht
      have hs : (dump options f).destination? = none := hss _ (.head _)
      rw [List.take_zero, dumps_nil, Dump.told_nil, List.append_nil, told_dump hs, Turn.failed,
        (dump_stream_turn hs op hw).2]
      cases fits capacity (bs ++ bytesOf (dumpText w.ansi options.label f op)) <;> simp
    | succ i =>
      obtain ⟨⟨log, hworld⟩, -⟩ := stream_turn (hss s (.head _)) op hw
      have hansi : (s.pass.turn op w).world.ansi = w.ansi := by rw [hworld]
      rw [List.getElem?_cons_succ] at ht hi
      rw [unit_turn] at ht
      have hstream : (s.pass.turn op w).world.diagnostics =
          offered capacity (bs ++ Dump.told (s.dump? w.ansi op).toList) := by rw [hworld]
      have hrest := ih (fun s hs => hss s (.tail _ hs)) (unitAfter [s] op) hstream ht hi
      rwa [hansi] at hrest

end Stage

/-- **A stream that runs full holds the beginning of what it was offered.** A pipeline whose dumps
go to the diagnostics leaves on a stream with room for `n` bytes the first `n` bytes of its dumps,
an executed dump fails exactly if it ends behind them, and a run that goes on ends with the same
program as one with room for everything. -/
theorem run_on_full_stream {ε : Type} (m : Manager ε) {ss : List Stage}
    (hss : ∀ s ∈ ss, s.destination? = none) (op : Operation) (w : World) (n : ℕ) :
    let on (capacity : Option ℕ) : World := { w with diagnostics := { capacity } }
    let passes := ss.map Stage.pass
    let limited := { m with passes }.run op (on (some n))
    let unlimited := { m with passes }.run op (on none)
    unlimited.world.diagnostics.written = Dump.told (Stage.dumps w.ansi op ss) ∧
      limited.world.diagnostics.written = unlimited.world.diagnostics.written.take n ∧
      (∀ (i : ℕ) (t : Turn) (options : Print.DumpOptions) (f : Print.Flags),
        (m.policy.taken (turns passes op (on (some n))))[i]? = some t →
        ss[i]? = some (.dump options f) →
        (t.failed = true ↔
          n < (Dump.told (Stage.dumps w.ansi op (ss.take (i + 1)))).length)) ∧
      (m.policy = .proceed → limited.unit = unlimited.unit) := by
  intro on passes limited unlimited
  have hstream (capacity : Option ℕ) :
      ({ m with passes }.run op (on capacity)).world.diagnostics =
        Sink.offered capacity (Dump.told (Stage.dumps w.ansi op ss)) := by
    have hempty : (on capacity).diagnostics = Sink.offered capacity [] := by
      cases capacity <;> simp [on, Sink.offered]
    rw [Manager.run_eq]
    exact Stage.stream_taken m.policy hss op hempty
  refine ⟨?_, ?_, ?_, ?_⟩
  · rw [hstream]
    rfl
  · rw [hstream, hstream]
    rfl
  · intro i t options f ht hi
    have hturn := ((FailurePolicy.getElem?_taken ..).mp ht).1
    have hempty : (on (some n)).diagnostics = Sink.offered (some n) [] := by
      simp [on, Sink.offered]
    rw [Stage.failed_turn hss op hempty hturn hi, List.nil_append, Sink.fits,
      decide_eq_false_iff_not, Nat.not_le]
  · intro hpolicy
    have hunit (capacity : Option ℕ) :
        ({ m with passes }.run op (on capacity)).unit = Stage.unitAfter ss op := by
      rw [Manager.run_eq]
      dsimp only
      rw [hpolicy]
      exact Stage.unit_turns ss op (on capacity)
    exact (hunit (some n)).trans (hunit none).symm

/-- A stream that runs full within the first header, and a pipeline that does not halt. -/
theorem run_on_full_stream_header :
    let ss : List Stage := [.dump {} {}, .strip, .dump { label := "again" } { debugInfo := true }]
    let m : Manager Empty := { passes := ss.map Stage.pass, policy := .proceed }
    (∀ s ∈ ss, s.destination? = none) ∧
      (m.run { name := "f" } { diagnostics := { capacity := some 5 } }).world.diagnostics.written =
        bytesOf "// --" := by
  intro ss m
  have hss : ∀ s ∈ ss, s.destination? = none := by
    simp [ss, Stage.destination?, Print.DumpOptions.destination?]
  obtain ⟨hall, hfirst, -, -⟩ := run_on_full_stream m hss { name := "f" } {} 5
  refine ⟨hss, ?_⟩
  rw [hfirst, hall, Stage.dumps_cons, Dump.told_append, Stage.told_dump rfl, Stage.dumpText,
    bytesOf_append, bytesOf_append, List.append_assoc, List.append_assoc,
    List.take_append_of_le_length (by decide)]
  decide

end OpTree
