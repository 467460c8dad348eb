import Records.Proofs.Filter.Unordered

/-!
Entries of a filter that may stand for each other: they ask the same of every row, and they are
refused, or fail to be bound, alike.
-/
namespace Records.Filter

/-- Two parts of a filter want the same rows, are refused alike, and can be used alike. -/
structure AskAlike (s : Schema) (m : Model) (es fs : List (String × Value)) : Prop where
  wanted : ∀ st, isWanted s st m es = isWanted s st m fs
  refused : (∀ l ∈ leaves s m es, l.refusal? = none) ↔ ∀ l ∈ leaves s m fs, l.refusal? = none
  usable : (∀ l ∈ leaves s m es, l.Usable) ↔ ∀ l ∈ leaves s m fs, l.Usable

/-- In every filter one part may stand for the other: the filter compiles as before, and it selects
the same rows or fails alike. -/
def Interchangeable (s : Schema) (q : Query) (st : Store) (es fs : List (String × Value)) : Prop :=
  ∀ before after : List (String × Value),
    ((∃ ps, (compileAll s q.model (before ++ es ++ after)).outcome = .ok ps) ↔
      ∃ ps, (compileAll s q.model (before ++ fs ++ after)).outcome = .ok ps) ∧
    selected s q (before ++ es ++ after) st = selected s q (before ++ fs ++ after) st

variable {s : Schema} {m : Model} {q : Query} {st : Store} {es fs : List (String × Value)}

/-- Filters that compile alike, can be used alike and want the same rows select alike. -/
theorem selected_congr
    (hcompiles : (∃ ps, (compileAll s q.model es).outcome = .ok ps) ↔
      ∃ ps, (compileAll s q.model fs).outcome = .ok ps)
    (husable : (∀ l ∈ leaves s q.model es, l.Usable) ↔ ∀ l ∈ leaves s q.model fs, l.Usable)
    (hwanted : isWanted s st q.model es = isWanted s st q.model fs) :
    selected s q es st = selected s q fs st := by
  classical
  unfold selected
  cases hps : (compileAll s q.model es).outcome with
  | error e =>
    cases hps' : (compileAll s q.model fs).outcome with
    | error e' => rfl
    | ok ps' =>
      obtain ⟨ps, hok⟩ := hcompiles.2 ⟨ps', hps'⟩
      cases hps.symm.trans hok
  | ok ps =>
    obtain ⟨ps', hps'⟩ := hcompiles.1 ⟨ps, hps⟩
    have hrows : (q.when ps).rows st = (q.when ps').rows st := rows_when_congr hps hps' hwanted
    have hruns : (q.when ps).run st = .ok ((q.when ps).rows st) ↔
        (q.when ps').run st = .ok ((q.when ps').rows st) := by
      rw [run_when_iff hps, husable, ← run_when_iff hps']
    rw [hps']
    dsimp only
    rw [toOption_run, toOption_run]
    exact if_congr hruns (congrArg some hrows) rfl

theorem isWanted_append (st : Store) (m : Model) (es fs : List (String × Value)) (r : Row) :
    isWanted s st m (es ++ fs) r = (isWanted s st m es r && isWanted s st m fs r) :=
  List.all_append

theorem leaves_append (s : Schema) (m : Model) (es fs : List (String × Value)) :
    leaves s m (es ++ fs) = leaves s m es ++ leaves s m fs :=
  List.flatMap_append

theorem AskAlike.interchangeable (h : AskAlike s q.model es fs) : Interchangeable s q st es fs := by
  intro before after
  have hcompiles : (∃ ps, (compileAll s q.model (before ++ es ++ after)).outcome = .ok ps) ↔
      ∃ ps, (compileAll s q.model (before ++ fs ++ after)).outcome = .ok ps := by
    simp only [compileAll_ok_iff, leaves_append, List.forall_mem_append, h.refused]
  refine ⟨hcompiles, selected_congr hcompiles ?_ (funext fun r => ?_)⟩
  · simp only [leaves_append, List.forall_mem_append, h.usable]
  · simp only [isWanted_append, h.wanted]

/-- Two entries that ask the same, with leaves that are refused and can be used alike. -/
theorem askAlike_entry {e f : String × Value}
    (hdemand : ∀ st, entryDemand s st m e.1 e.2 = entryDemand s st m f.1 f.2)
    (hrefused : (∀ l ∈ entryLeaves s m e.1 e.2, l.refusal? = none) ↔
      ∀ l ∈ entryLeaves s m f.1 f.2, l.refusal? = none)
    (husable : (∀ l ∈ entryLeaves s m e.1 e.2, l.Usable) ↔
      ∀ l ∈ entryLeaves s m f.1 f.2, l.Usable) : AskAlike s m [e] [f] := by
  refine ⟨fun st => funext fun r => ?_, ?_, ?_⟩
  · simp only [isWanted, List.all_cons, hdemand, List.all_nil]
  · simpa only [leaves, List.flatMap_singleton] using hrefused
  · simpa only [leaves, List.flatMap_singleton] using husable

/-- Two entries that ask the same, with the same leaves. -/
theorem askAlike_of_leaves {e f : String × Value}
    (hdemand : ∀ st, entryDemand s st m e.1 e.2 = entryDemand s st m f.1 f.2)
    (hleaves : ∀ P : Leaf → Prop, (∀ l ∈ entryLeaves s m e.1 e.2, P l) ↔
      ∀ l ∈ entryLeaves s m f.1 f.2, P l) : AskAlike s m [e] [f] :=
  askAlike_entry hdemand (hleaves _) (hleaves _)

end Records.Filter
