import Records.Proofs.Resource.Committed
import Records.Proofs.Session.Mirrored

/-!
Looking a record up by values of its columns. The first row that is not trashed and answers the
values is found, whatever the rows behind it are.
-/
namespace Records

open Records.Calendar (Moment)
open Records.Filter (Predicate Field)

namespace Model
variable {m : Model} {A : List (String × Value)} {st : Store} {row : Row}

/-- A lookup by a value finds a cell of a column. -/
def Finds (m : Model) (c : Column) (v : Value) (cell : Cell) : Prop :=
  if v = .null then cell = .null
  else Cell.equals cell (Filter.comparedCell ⟨m.table, c⟩
    (Filter.comparisonParameter ⟨m.table, c⟩ v)) = true

/-- A value is equal to one id at most. -/
theorem Finds.unique {id : Value} {n n' : Int} (h : m.Finds idColumn id (.integer n))
    (h' : m.Finds idColumn id (.integer n')) : n' = n := by
  unfold Finds at h h'
  split at h
  · cases h
  · rename_i hid
    rw [if_neg hid] at h'
    exact Cell.equals_unique h' h

/-- A row that is not trashed and has the values. -/
structure Answers (m : Model) (A : List (String × Value)) (row : Row) : Prop where
  live : m.isLive row = true
  finds : ∀ a ∈ A, ∀ c, m.column? a.1 = some c → m.Finds c a.2 (row.cell c.name)

theorem holds_exactly_iff {c : Column} {v : Value} :
    Predicate.holds st row (exactly m c v) = true ↔ m.Finds c v (row.cell c.name) := by
  unfold exactly Finds
  split
  · simp [Predicate.holds]
  · rw [Predicate.holds]
    unfold Predicate.compareHolds Cell.equals
    cases Cell.compare? (row.cell c.name) _ with
    | none => simp
    | some o => cases o <;> decide

/-- The conditions that columns have the values. -/
def lookupConditions (m : Model) (A : List (String × Value)) : List Predicate :=
  A.filterMap fun (key, v) => (m.column? key).map fun c => exactly m c v

/-- The query for the rows that answer the values. -/
def lookup (m : Model) (A : List (String × Value)) : Query :=
  (Query.base m false).when (m.lookupConditions A)

theorem mem_matching_lookup : row ∈ (m.lookup A).matching st ↔ row ∈ st.rows m ∧ m.Answers A row := by
  change row ∈ (st.rows m).filter _ ↔ _
  rw [List.mem_filter]
  refine and_congr_right fun _ => ?_
  change Predicate.allHold st row (notTrashed m ++ m.lookupConditions A) = true ↔ _
  rw [Predicate.allHold_append, allHold_notTrashed, Bool.and_eq_true, Predicate.allHold_eq_all,
    List.all_eq_true]
  constructor
  · rintro ⟨hlive, hall⟩
    refine ⟨hlive, fun a ha c hc => holds_exactly_iff.1 (hall _ ?_)⟩
    exact List.mem_filterMap.2 ⟨a, ha, Option.map_eq_some_iff.2 ⟨c, hc, rfl⟩⟩
  · rintro ⟨hlive, hfinds⟩
    refine ⟨hlive, fun p hp => ?_⟩
    obtain ⟨a, ha, hp⟩ := List.mem_filterMap.1 hp
    obtain ⟨c, hc, rfl⟩ := Option.map_eq_some_iff.1 hp
    exact holds_exactly_iff.2 (hfinds a ha c hc)

/-- The row of the smallest id that answers the values. -/
structure Chooses (m : Model) (A : List (String × Value)) (st : Store) (row : Row) : Prop where
  stored : row ∈ st.rows m
  answers : m.Answers A row
  first : ∀ x ∈ st.rows m, m.Answers A x → row.id ≤ x.id

theorem head?_matching_lookup :
    ((m.lookup A).matching st).head? = some row ↔ m.Chooses A st row := by
  have hascending : ((m.lookup A).matching st).Pairwise fun a b => a.id < b.id :=
    (st.table m.table).ascending.filter _
  cases hrows : (m.lookup A).matching st with
  | nil =>
    refine iff_of_false nofun fun h => ?_
    exact List.not_mem_nil (hrows ▸ mem_matching_lookup.2 ⟨h.stored, h.answers⟩)
  | cons first rest =>
    rw [hrows] at hascending
    have hleast := (List.pairwise_cons.1 hascending).1
    have hfirst := mem_matching_lookup.1 (hrows ▸ List.mem_cons_self .. : first ∈ (m.lookup A).matching st)
    have hmem (x : Row) (hx : x ∈ st.rows m) (ha : m.Answers A x) : x = first ∨ x ∈ rest :=
      List.mem_cons.1 (hrows ▸ mem_matching_lookup.2 ⟨hx, ha⟩)
    constructor
    · intro h
      obtain rfl : first = row := Option.some.inj h
      refine ⟨hfirst.1, hfirst.2, fun x hx ha => ?_⟩
      rcases hmem x hx ha with rfl | hrest
      · exact le_rfl
      · exact (hleast x hrest).le
    · intro h
      rcases hmem row h.stored h.answers with rfl | hrest
      · rfl
      · have := h.first first hfirst.1 hfirst.2
        have := hleast row hrest
        omega

end Model

namespace Resource
variable {r : Resource} {st st' : Store} {now now' : Moment} {se se' : Session}
  {A : List (String × Value)}

theorem criteriaKeys_object (A : List (String × Value)) :
    criteriaKeys (.object A) = .ok (A.map (·.1)) := by
  change Except.ok ((A.map fun e => Value.text e.1).filterMap Value.text?) = _
  rw [List.filterMap_map]
  exact congrArg Except.ok (congrFun (List.filterMap_eq_map (f := Prod.fst)) A)

/-- The keys of criteria that are no columns. -/
theorem unknown_eq_nil : sortedNames ((A.map (·.1)).filter fun k => !r.model.hasColumn k).eraseDups =
    [] ↔ ∀ a ∈ A, r.model.hasColumn a.1 = true := by
  have hsorted (names : List String) : sortedNames names = [] ↔ names = [] := by
    have hperm : (sortedNames names).Perm names := List.mergeSort_perm ..
    exact ⟨fun h => (h ▸ hperm).nil_eq.symm, fun h => (hperm.trans (.of_eq h)).eq_nil⟩
  have hdups (names : List String) : names.eraseDups = [] ↔ names = [] := by
    simp only [List.eq_nil_iff_forall_not_mem, List.mem_eraseDups]
  rw [hsorted, hdups, List.filter_eq_nil_iff, List.forall_mem_map]
  simp

theorem conditions_of_known (h : ∀ a ∈ A, r.model.hasColumn a.1 = true) (se : Session) :
    r.conditions (.object A) se = ⟨[], .ok (r.model.lookupConditions A), se⟩ := by
  have hkeys : (Action.ofExcept (criteriaKeys (.object A)) se).result = .ok (A.map (·.1)) :=
    criteriaKeys_object A
  unfold conditions
  rw [Action.bind_apply_of_ok hkeys]
  dsimp only
  rw [unknown_eq_nil.2 h]
  rfl

theorem known_of_conditions {ps : List Predicate}
    (h : (r.conditions (.object A) se).result = .ok ps) :
    ∀ a ∈ A, r.model.hasColumn a.1 = true := by
  unfold conditions at h
  obtain ⟨keys, hkeys, h⟩ := Action.result_bind_ok.1 h
  obtain rfl : A.map (·.1) = keys := Except.ok.inj ((criteriaKeys_object A).symm.trans hkeys)
  rw [← unknown_eq_nil (r := r)]
  by_contra hunknown
  dsimp only at h
  rw [if_pos (by simpa using hunknown)] at h
  cases h

theorem result_findOneBy_ok {found : Option Ref} :
    (r.findOneBy (.object A) [] false se).result = .ok found ↔ se.inactive = false ∧
      (∀ a ∈ A, r.model.hasColumn a.1 = true) ∧
      (∀ p ∈ (r.model.lookup A).parameters ++ Query.windowParameters (some (1, 0)), p.Bindable) ∧
      found = ((r.model.lookup A).matching se.store).head?.map r.refOf := by
  have hfetch : ((r.fetch { r.model.lookup A with window := some (1, 0) } [] [] >>=
      fun refs => pure refs.head?) se).result = .ok found ↔ se.inactive = false ∧
      (∀ p ∈ (r.model.lookup A).parameters ++ Query.windowParameters (some (1, 0)), p.Bindable) ∧
      found = ((r.model.lookup A).matching se.store).head?.map r.refOf := by
    have hhead : ((Query.rows { r.model.lookup A with window := some (1, 0) } se.store).map
        r.refOf).head? = ((r.model.lookup A).matching se.store).head?.map r.refOf := by
      rw [List.head?_map]
      refine congrArg _ ?_
      change (((r.model.lookup A).matching se.store).take 1).head? = _
      rw [List.head?_take]
      rfl
    simp only [Action.result_bind_ok, result_fetch_ok, Query.run_runs]
    constructor
    · rintro ⟨refs, ⟨hactive, hbindable, rfl⟩, hfound⟩
      exact ⟨hactive, hbindable, (Except.ok.inj hfound).symm.trans hhead⟩
    · rintro ⟨hactive, hbindable, rfl⟩
      exact ⟨_, ⟨hactive, hbindable, rfl⟩, congrArg Except.ok hhead⟩
  unfold findOneBy
  constructor
  · intro h
    obtain ⟨ps, hps, hrest⟩ := Action.result_bind_ok.1 h
    have hknown := known_of_conditions hps
    rw [conditions_of_known hknown] at hps hrest
    cases hps
    obtain ⟨hactive, hbindable, hfound⟩ := hfetch.1 hrest
    exact ⟨hactive, hknown, hbindable, hfound⟩
  · rintro ⟨hactive, hknown, hbindable, hfound⟩
    have hconditions := conditions_of_known (r := r) hknown se
    refine Action.result_bind_ok.2 ⟨_, congrArg Outcome.result hconditions, ?_⟩
    rw [hconditions]
    exact hfetch.2 ⟨hactive, hbindable, hfound⟩

/-- A lookup that succeeds finds the row that is chosen, or there is none. -/
theorem findOneBy_ok (hse : se.Ready st now) {found : Option Ref}
    (h : (r.findOneBy (.object A) [] false se).result = .ok found) :
    (found = none ∧ ∀ row ∈ st.rows r.model, ¬r.model.Answers A row) ∨
      ∃ row, found = some (r.refOf row) ∧ r.model.Chooses A st row := by
  obtain ⟨-, -, -, rfl⟩ := result_findOneBy_ok.1 h
  rw [hse.store_eq]
  cases hhead : ((r.model.lookup A).matching st).head? with
  | none =>
    refine .inl ⟨rfl, fun row hrow hanswers => ?_⟩
    have hmem := Model.mem_matching_lookup.2 ⟨hrow, hanswers⟩
    rw [List.head?_eq_none_iff.1 hhead] at hmem
    cases hmem
  | some row => exact .inr ⟨row, rfl, Model.head?_matching_lookup.1 hhead⟩

/-- What can be looked up in one store can be looked up in any. -/
theorem findOneBy_again (hse' : se'.Ready st' now') {found : Option Ref}
    (h : (r.findOneBy (.object A) [] false se).result = .ok found) {row : Row}
    (hrow : r.model.Chooses A st' row) :
    (r.findOneBy (.object A) [] false se').result = .ok (some (r.refOf row)) := by
  obtain ⟨-, hknown, hbindable, -⟩ := result_findOneBy_ok.1 h
  refine result_findOneBy_ok.2 ⟨hse'.active, hknown, hbindable, ?_⟩
  rw [hse'.store_eq, Model.head?_matching_lookup.2 hrow]
  rfl

end Resource

end Records
