import Records.Proofs.Filter.Reordering

/-!
What a query selects under a filter does not depend on the order of the keys, wherever the order is
free.
-/
namespace Records.Filter

open Predicate (allHold allParameters)

/-- The rows that a query yields under a filter, none if the filter cannot be compiled or the
conditions cannot be bound. -/
def selected (s : Schema) (q : Query) (es : List (String × Value)) (st : Store) :
    Option (List Row) :=
  match (compileAll s q.model es).outcome with
  | .ok ps => ((q.when ps).run st).toOption
  | .error _ => none

theorem Place.Free.symm {p : Place} {es fs : List (String × Value)} (h : es.Perm fs)
    (hfree : p.Free es fs) : p.Free fs es := by
  unfold Place.Free at hfree ⊢
  split
  · exact fun hk c hc =>
      (hfree hk c hc).imp (fun hnull => ((h.map _).mem_iff).1 hnull) Eq.symm
  · exact hfree
  · exact hfree
  · trivial

theorem Reorders.symm {s : Schema} {p : Place} {v w : Value} (h : Reorders s p v w) :
    Reorders s p w v := by
  induction h with
  | here h hfree => exact .here h.symm (hfree.symm h)
  | under _ ih => exact .under ih
  | among _ ih => exact .among ih

/-- A filter reordered in any number of steps. -/
def Reordered (s : Schema) (m : Model) : Value → Value → Prop :=
  Relation.ReflTransGen (Reorders s (.filter m))

section Reordered
variable {s : Schema} {m : Model} {v w : Value}

theorem Reordered.demand_eq (h : Reordered s m v w) (st : Store) :
    (Place.filter m).demand s st v = (Place.filter m).demand s st w := by
  induction h with
  | refl => rfl
  | tail _ h ih => exact ih.trans h.demand_eq

/-- A property of leaves that those share which fail alike holds of all leaves before and after. -/
theorem Reordered.forall_leaves (h : Reordered s m v w) {P : Leaf → Prop}
    (hP : ∀ l l' : Leaf, l.FailsAs l' → P l' → P l) :
    (∀ l ∈ (Place.filter m).leaves s v, P l) ↔ ∀ l ∈ (Place.filter m).leaves s w, P l := by
  have hstep {v w : Value} (h : Reorders s (.filter m) v w)
      (hw : ∀ l ∈ (Place.filter m).leaves s w, P l) : ∀ l ∈ (Place.filter m).leaves s v, P l := by
    intro l hl
    obtain ⟨l', hl', halike⟩ := h.failAlike l hl
    exact hP l l' halike (hw l' hl')
  induction h with
  | refl => rfl
  | tail _ h ih => exact ih.trans ⟨hstep h.symm, hstep h⟩

end Reordered

theorem compileAll_ok_iff {s : Schema} {m : Model} {es : List (String × Value)} :
    (∃ ps, (compileAll s m es).outcome = .ok ps) ↔ ∀ l ∈ leaves s m es, l.refusal? = none := by
  rw [← List.findSome?_eq_none_iff, ← failure?_compileAll]
  cases (compileAll s m es).outcome <;> simp [failure?]

theorem isWanted_eq_demand (s : Schema) (st : Store) (m : Model) (es : List (String × Value))
    (r : Row) : isWanted s st m es r = ((Place.filter m).demand s st (.object es)).isMet r := by
  simp only [isWanted, Place.demand, Demand.isMet_all, List.all_map]
  rfl

/-- A query runs under a compiled filter if it runs without one and the filter can be used. -/
theorem run_when_iff {s : Schema} {q : Query} {es : List (String × Value)} {ps : List Predicate}
    (hps : (compileAll s q.model es).outcome = .ok ps) {st : Store} :
    (q.when ps).run st = .ok ((q.when ps).rows st) ↔
      (∀ p ∈ q.parameters ++ Query.windowParameters q.window, p.Bindable) ∧
        ∀ l ∈ leaves s q.model es, l.Usable := by
  rw [Query.run_runs, ← runs_compileAll, hps, runs_ok]
  simp only [Query.parameters, Query.when, Predicate.allParameters_eq_flatMap,
    List.flatMap_append, List.forall_mem_append]
  tauto

/-- The rows of a query under two filters that want the same rows. -/
theorem rows_when_congr {s : Schema} {q : Query} {es fs : List (String × Value)}
    {ps ps' : List Predicate} (hps : (compileAll s q.model es).outcome = .ok ps)
    (hps' : (compileAll s q.model fs).outcome = .ok ps') {st : Store}
    (hwanted : isWanted s st q.model es = isWanted s st q.model fs) :
    (q.when ps).rows st = (q.when ps').rows st := by
  have hmatching : (q.when ps).matching st = (q.when ps').matching st := by
    refine List.filter_congr fun r _ => ?_
    simp only [Query.when, Predicate.allHold_append, allHold_compileAll hps,
      allHold_compileAll hps', hwanted]
  simp only [Query.rows, Query.when] at hmatching ⊢
  rw [hmatching]

theorem toOption_run {q : Query} {st : Store} [Decidable (q.run st = .ok (q.rows st))] :
    (q.run st).toOption = if q.run st = .ok (q.rows st) then some (q.rows st) else none := by
  split
  · rename_i h
    rw [h]
    rfl
  · rename_i h
    cases hrun : q.run st with
    | ok rows => exact (h (by rw [hrun, ← Query.run_ok hrun])).elim
    | error e => rfl

/-- Books by title and genre, of authors whose names hold a letter. -/
def wroteAndLike (wrote : List (String × Value)) : List (String × Value) :=
  [("relation", .object [("books", .object [("equal", .object wrote)])]),
    ("like", .object [("name", .text "n")])]

/-- An author with the name that an object is written as. -/
def namedAsObject : Store :=
  ⟨[("author", Library.tableOf Library.author [(1, [.text "\x7b'a': 1, 'b': 2\x7d"])])]⟩

end Records.Filter
