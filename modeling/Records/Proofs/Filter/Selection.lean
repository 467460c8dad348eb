import Records.Library.Catalogue
import Records.Proofs.Filter.Conditions
import Records.Proofs.Filter.Meaning
import Records.Query

/-!
The rows that a compiled filter selects are those that the filter itself asks for. The conditions of
an entry and what the entry asks are compared as a conjunction inside an entry, and as a disjunction
inside a group; nothing compiled stands for nothing asked in either.
-/
namespace Records.Filter

open Predicate (holds allHold anyHolds)

namespace Demand

theorem and_assoc (a b c : Demand) : (a.and b).and c = a.and (b.and c) := by
  cases a <;> cases b <;> cases c <;> simp [Demand.and, Option.merge, Bool.and_assoc]

theorem or_assoc (a b c : Demand) : (a.or b).or c = a.or (b.or c) := by
  cases a <;> cases b <;> cases c <;> simp [Demand.or, Option.merge, Bool.or_assoc]

theorem none_and (d : Demand) : Demand.and none d = d := by cases d <;> rfl

theorem none_or (d : Demand) : Demand.or none d = d := by cases d <;> rfl

theorem or_none (d : Demand) : Demand.or d none = d := by cases d <;> rfl

theorem all_append (ds es : List Demand) : all (ds ++ es) = (all ds).and (all es) := by
  induction ds with
  | nil => exact (none_and _).symm
  | cons d ds ih =>
    change d.and (all (ds ++ es)) = (d.and (all ds)).and (all es)
    rw [ih, and_assoc]

theorem any_append (ds es : List Demand) : any (ds ++ es) = (any ds).or (any es) := by
  induction ds with
  | nil => exact (none_or _).symm
  | cons d ds ih =>
    change d.or (any (ds ++ es)) = (d.or (any ds)).or (any es)
    rw [ih, or_assoc]

theorem isMet_and (a b : Demand) (r : Row) : (a.and b).isMet r = (a.isMet r && b.isMet r) := by
  cases a <;> cases b <;> simp [Demand.and, isMet]

end Demand

/-- What some conditions ask together. -/
def asks (st : Store) (ps : List Predicate) : Demand :=
  .all (ps.map fun p => some fun r => holds st r p)

/-- What one of some conditions asks. -/
def offers (st : Store) (ps : List Predicate) : Demand :=
  .any (ps.map fun p => some fun r => holds st r p)

section
variable (st : Store)

theorem asks_nil : asks st [] = none := rfl

theorem offers_nil : offers st [] = none := rfl

theorem asks_append (ps qs : List Predicate) :
    asks st (ps ++ qs) = (asks st ps).and (asks st qs) := by
  rw [asks, List.map_append, Demand.all_append]
  rfl

theorem offers_append (ps qs : List Predicate) :
    offers st (ps ++ qs) = (offers st ps).or (offers st qs) := by
  rw [offers, List.map_append, Demand.any_append]
  rfl

theorem asks_singleton (p : Predicate) : asks st [p] = some fun r => holds st r p := rfl

theorem asks_cons (p : Predicate) (ps : List Predicate) :
    asks st (p :: ps) = some fun r => allHold st r (p :: ps) := by
  induction ps generalizing p with
  | nil => simp [asks_singleton, allHold]
  | cons q qs ih =>
    rw [← List.singleton_append, asks_append, ih, asks_singleton]
    rfl

theorem offers_cons (p : Predicate) (ps : List Predicate) :
    offers st (p :: ps) = some fun r => anyHolds st r (p :: ps) := by
  induction ps generalizing p with
  | nil => simp [offers, anyHolds, Demand.any, Demand.or]
  | cons q qs ih =>
    rw [← List.singleton_append, offers_append, ih]
    rfl

theorem isMet_asks (ps : List Predicate) (r : Row) : (asks st ps).isMet r = allHold st r ps := by
  cases ps with
  | nil => rfl
  | cons p ps => rw [asks_cons]; rfl

/-- A group asks for one of its alternatives. -/
theorem asks_alternatives (ps : List Predicate) : asks st (alternatives ps) = offers st ps := by
  match ps with
  | [] => rfl
  | [p] => rfl
  | p :: q :: ps => rw [offers_cons]; rfl

/-- As an alternative, conditions ask for all of themselves. -/
theorem offers_conjunction (ps : List Predicate) :
    offers st (Predicate.conjunction? ps).toList = asks st ps := by
  match ps with
  | [] => rfl
  | [p] => rfl
  | p :: q :: ps => rw [asks_cons]; rfl

theorem holds_group_all (ps : List Predicate) (r : Row) :
    holds st r (Predicate.group .all ps) = allHold st r ps := by
  match ps with
  | [] => rfl
  | [p] => simp [Predicate.group, allHold]
  | _ :: _ :: _ => rfl

theorem asks_related (h : Handle) (ps : List Predicate) :
    asks st (relatedPredicate h ps) = (asks st ps).map (someRelated st h) := by
  cases ps with
  | nil => rfl
  | cons p ps =>
    rw [relatedPredicate, if_neg (by simp), asks_singleton, asks_cons]
    simp only [holds, holds_group_all, Predicate.allHold_eq_all, List.all_append, Option.map_some]
    -- That the record is not trashed comes last in the condition, and first in the demand.
    congr 1
    funext r
    unfold someRelated
    congr 1
    funext t
    cases h.target.softDeletes <;> simp [holds, Bool.and_comm, deletedAt]

/-- What is collected item by item, in any reading under which lists of conditions that are put
together combine. -/
theorem reading_collect {α ε : Type} {reading : List Predicate → Demand}
    {combine : Demand → Demand → Demand} (hnil : reading [] = none)
    (happend : ∀ ps qs, reading (ps ++ qs) = combine (reading ps) (reading qs))
    {f : α → Except ε (List Predicate)} {g : α → Demand} {xs : List α}
    (h : ∀ x ∈ xs, ∀ ps, f x = .ok ps → reading ps = g x) {ps : List Predicate}
    (hps : collect f xs = .ok ps) : reading ps = (xs.map g).foldr combine none := by
  induction xs generalizing ps with
  | nil =>
    cases hps
    exact hnil
  | cons x xs ih =>
    obtain ⟨here, later, hx, hxs, rfl⟩ := collect_cons_ok.1 hps
    rw [happend, h x (List.mem_cons_self ..) here hx,
      ih (fun y hy => h y (List.mem_cons_of_mem _ hy)) hxs]
    rfl

theorem asks_collect {α ε : Type} {f : α → Except ε (List Predicate)} {g : α → Demand}
    {xs : List α} (h : ∀ x ∈ xs, ∀ ps, f x = .ok ps → asks st ps = g x) {ps : List Predicate}
    (hps : collect f xs = .ok ps) : asks st ps = .all (xs.map g) :=
  reading_collect (asks_nil st) (asks_append st) h hps

theorem offers_collect {α ε : Type} {f : α → Except ε (List Predicate)} {g : α → Demand}
    {xs : List α} (h : ∀ x ∈ xs, ∀ ps, f x = .ok ps → offers st ps = g x) {ps : List Predicate}
    (hps : collect f xs = .ok ps) : offers st ps = .any (xs.map g) :=
  reading_collect (offers_nil st) (offers_append st) h hps

theorem outcome_fieldColumn {ε : Type} (m : Model) (field : String) :
    (fieldColumn m (.text field) : Reported ε _).outcome = .ok (m.column? field) := by
  unfold fieldColumn
  dsimp only
  cases m.column? field <;> rfl

theorem asks_membership {m : Model} {field : String} {vs : List Value} {ps : List Predicate}
    (h : (membership m (.text field) vs).outcome = .ok ps) : asks st ps = listed m field vs := by
  rw [membership, Reported.outcome_bind, outcome_fieldColumn] at h
  rw [listed]
  cases hc : m.column? field with
  | none =>
    rw [hc] at h
    cases h
    rfl
  | some c =>
    rw [hc] at h
    change (membershipPredicate ⟨m.table, c⟩ vs).outcome = .ok ps at h
    unfold membershipPredicate at h
    split at h
    · cases h
    · cases h
      rw [asks_singleton]
      simp only [holds]
      rfl

theorem asks_anyOf {m : Model} {field : String} {vs : List Value} {ps : List Predicate}
    (h : (anyOf m (.text field) vs).outcome = .ok ps) :
    asks st ps = if vs.isEmpty then none else listed m field vs := by
  unfold anyOf at h
  split at h
  · cases h
    rw [if_pos ‹_›, asks_nil]
  · rw [if_neg ‹_›, asks_membership st h]

theorem asks_comparison {m : Model} {op : Comparison} {field : String} {v : Value}
    {ps : List Predicate} (h : (comparison op m (.text field) v).outcome = .ok ps) :
    asks st ps = if v.isPresent then compared m op field v else none := by
  unfold comparison at h
  by_cases hv : v.isPresent
  · simp only [hv, Bool.not_true, Bool.false_eq_true, if_false, Reported.outcome_bind,
      outcome_fieldColumn, Except.bind] at h
    rw [if_pos hv, compared]
    cases hc : m.column? field with
    | none =>
      rw [hc] at h
      cases h
      rfl
    | some c =>
      simp only [hc, Reported.outcome_bind, outcome_coerce, Except.bind] at h
      cases hw : coerceValue? c.kind v with
      | none =>
        rw [hw] at h
        cases h
        simp [hw, asks_nil]
      | some w =>
        simp only [hw] at h
        split at h
        · cases h
        · cases h
          simp [hw, asks_singleton, holds]
  · simp only [hv, Bool.not_false, if_true] at h
    cases h
    rw [if_neg hv, asks_nil]

theorem asks_containing {m : Model} {field : String} {v : Value} {ps : List Predicate}
    (h : (containing m (.text field) v).outcome = .ok ps) :
    asks st ps = if v.isPresent then contains m field v else none := by
  unfold containing at h
  by_cases hv : v.isPresent
  · simp only [hv, Bool.not_true, Bool.false_eq_true, if_false, Reported.outcome_bind,
      outcome_fieldColumn, Except.bind] at h
    rw [if_pos hv, contains]
    cases hc : m.column? field with
    | none =>
      rw [hc] at h
      cases h
      rfl
    | some c =>
      simp only [hc] at h
      cases h
      simp [asks_singleton, holds]
  · simp only [hv, Bool.not_false, if_true] at h
    cases h
    rw [if_neg hv, asks_nil]

theorem asks_between {m : Model} {field : String} {low high : Value} {ps : List Predicate}
    (h : (do
      match ← (fieldColumn m (.text field) : Reported CompileError _) with
      | none => return []
      | some c =>
        let low ← coerce c low
        let high ← coerce c high
        match low, high with
        | some low, some high => return [Predicate.between ⟨m.table, c⟩ low high]
        | _, _ => return [] : Compiled).outcome = .ok ps) :
    asks st ps = lies m field low high := by
  simp only [Reported.outcome_bind, outcome_fieldColumn, Except.bind] at h
  rw [lies]
  cases hc : m.column? field with
  | none =>
    rw [hc] at h
    cases h
    rfl
  | some c =>
    simp only [hc, Reported.outcome_bind, outcome_coerce, Except.bind] at h
    cases hl : coerceValue? c.kind low with
    | none =>
      simp only [hl] at h
      cases h
      simp [hl, asks_nil]
    | some low' =>
      cases hh : coerceValue? c.kind high with
      | none =>
        simp only [hl, hh] at h
        cases h
        simp [hl, hh, asks_nil]
      | some high' =>
        simp only [hl, hh] at h
        cases h
        simp [hl, hh, asks_singleton, holds]

theorem plainDemand_range {m : Model} {field : String} {v : Value} :
    plainDemand m .range field v = match bounds? (.text field) v with
      | some (low, high) =>
        if low.isPresent && high.isPresent then lies m field low high else none
      | none => none := by
  rw [plainDemand, bounds?, isTimestampField]
  by_cases hf : field ∈ timestampFields
  · simp only [hf, List.contains_eq_mem, decide_true, true_and, Bool.and_eq_true]
    split <;> simp_all
  · simp only [hf, List.contains_eq_mem, decide_false, false_and, if_false]
    split <;> rfl

theorem asks_range {m : Model} {field : String} {v : Value} {ps : List Predicate}
    (h : (range m (.text field) v).outcome = .ok ps) :
    asks st ps = plainDemand m .range field v := by
  unfold range at h
  split at h
  · cases h
    rw [asks_nil, plainDemand]
    cases v <;> simp_all [Value.isPresent, Value.items?]
  · rw [plainDemand_range]
    split at h
    · rename_i hb
      cases h
      rw [hb, asks_nil]
    · rename_i low high hb
      rw [hb]
      dsimp only
      by_cases hp : low.isPresent && high.isPresent
      · rw [if_pos hp]
        simp only [hp, Bool.not_true, Bool.false_eq_true, if_false] at h
        exact asks_between st h
      · rw [if_neg hp]
        simp only [hp, Bool.not_false, if_true] at h
        cases h
        exact asks_nil st

theorem asks_listed {m : Model} {key : String} {vs : List Value} {ps : List Predicate}
    (h : (if Operator.ofKey? key = none then (anyOf m (.text key) vs).outcome else .ok []) =
      .ok ps) :
    asks st ps = if Operator.ofKey? key = none ∧ vs ≠ [] then listed m key vs else none := by
  by_cases hk : Operator.ofKey? key = none
  · rw [if_pos hk] at h
    rw [asks_anyOf st h]
    cases vs <;> simp [hk]
  · rw [if_neg hk] at h
    cases h
    rw [if_neg fun hc => hk hc.1, asks_nil]

theorem asks_leaf {m : Model} {op : Operator} {field : String} {v : Value} {ps : List Predicate}
    (h : (leaf m op (.text field) v).outcome = .ok ps) :
    asks st ps = plainDemand m op field v := by
  cases op with
  | equal => exact asks_comparison st h
  | notEqual => exact asks_comparison st h
  | less => exact asks_comparison st h
  | greater => exact asks_comparison st h
  | like => exact asks_containing st h
  | range => exact asks_range st h
  | within =>
    change (within m (.text field) v).outcome = .ok ps at h
    unfold within at h
    rw [plainDemand]
    cases hv : v.items? with
    | none =>
      rw [hv] at h
      cases h
      rfl
    | some vs =>
      rw [hv] at h
      exact asks_membership st h
  | or =>
    cases h
    rfl
  | relation =>
    cases h
    rfl

end

theorem map_ok {ε α β : Type} {f : α → β} {x : Except ε α} {b : β} :
    x.map f = .ok b ↔ ∃ a, x = .ok a ∧ f a = b := by
  cases x <;> simp [Except.map]

-- Conditions and demands recurse alike. Whatever compiles to no condition asks nothing, and that is
-- neutral where it stands: in the conjunction, the disjunction or the search for a related record.
mutual

/-- What the conditions of an entry ask is what the entry asks. -/
theorem asks_entry (s : Schema) (st : Store) (m : Model) (key : String) (v : Value)
    {ps : List Predicate} (h : entryConditions s m key v = .ok ps) :
    asks st ps = entryDemand s st m key v := by
  match v with
  | .object es =>
    cases hk : Operator.ofKey? key with
    | none =>
      rw [entryConditions_none_object s m hk] at h
      rw [entryDemand_none_object s st m hk, asks_anyOf st h, List.isEmpty_map]
    | some op =>
      by_cases ho : op = .or
      · subst ho
        rw [entryConditions_or s m hk] at h
        obtain ⟨qs, hqs, rfl⟩ := map_ok.1 h
        rw [entryDemand_or s st m hk, asks_alternatives]
        exact offers_collect st (fun a ha ps => offers_alternative s st m a) hqs
      · rw [entryConditions_object s m hk ho] at h
        rw [entryDemand_object s st m hk ho]
        exact asks_collect st (fun e he ps => asks_applied s st m op e.1 e.2) h
  | .list vs =>
    rw [entryConditions_list s m rfl] at h
    rw [entryDemand_list s st m rfl]
    exact asks_listed st h
  | .tuple vs =>
    rw [entryConditions_list s m rfl] at h
    rw [entryDemand_list s st m rfl]
    exact asks_listed st h
  | .null | .bool _ | .int _ | .float _ | .text _ | .bytes _ | .date _ | .moment _ =>
    rw [entryConditions_plain s m key rfl rfl] at h
    rw [entryDemand_plain s st m key rfl rfl]
    exact asks_containing st h
termination_by (sizeOf v, 0)
decreasing_by
  · have := sizeOf_value_lt_of_mem_groupAlternatives ha
    exact .left _ _ (by simp only [Value.object.sizeOf_spec]; omega)
  · have := sizeOf_snd_lt_of_mem he
    exact .left _ _ (by simp only [Value.object.sizeOf_spec]; omega)

theorem asks_applied (s : Schema) (st : Store) (m : Model) (op : Operator) (field : String)
    (v : Value) {ps : List Predicate} (h : appliedConditions s m op field v = .ok ps) :
    asks st ps = appliedDemand s st m op field v := by
  by_cases ho : op = .or
  · subst ho
    rw [appliedConditions_or] at h
    obtain ⟨qs, hqs, rfl⟩ := map_ok.1 h
    rw [appliedDemand_or, asks_alternatives]
    exact offers_collect st (fun a ha ps => offers_alternative s st m a) hqs
  by_cases hr : op = .relation
  · subst hr
    match hv : v with
    | .object es =>
      rw [appliedConditions_relation] at h
      rw [appliedDemand_relation]
      cases hm : s.resolve? m field with
      | none =>
        rw [hm] at h
        cases h
        rfl
      | some r =>
        rw [hm] at h
        refine asks_collect st (fun e he ps hps => ?_) h
        split at hps
        · obtain ⟨qs, hqs, rfl⟩ := map_ok.1 hps
          rw [if_pos ‹_›, asks_related, asks_entry s st r.target e.1 e.2 hqs]
        · cases hps
          rw [if_neg ‹_›, asks_nil]
    | .list _ | .tuple _ | .null | .bool _ | .int _ | .float _ | .text _ | .bytes _ | .date _
    | .moment _ =>
      rw [appliedConditions_relation_nil s m field rfl] at h
      cases h
      rw [appliedDemand_relation_nil s st m field rfl, asks_nil]
  · rw [appliedConditions_plain s m field v ho hr] at h
    rw [appliedDemand_plain s st m field v ho hr]
    exact asks_leaf st h
termination_by (sizeOf v, 0)
decreasing_by
  · exact .left _ _ (sizeOf_value_lt_of_mem_alternativesUnder ha)
  · have := sizeOf_snd_lt_of_mem he
    exact .left _ _ (by simp only [hv, Value.object.sizeOf_spec]; omega)

theorem offers_alternative (s : Schema) (st : Store) (m : Model) (a : Alternative)
    {ps : List Predicate} (h : alternativeConditions s m a = .ok ps) :
    offers st ps = alternativeDemand s st m a := by
  match a with
  | .applied op field v =>
    rw [alternativeConditions_applied] at h
    obtain ⟨qs, hqs, rfl⟩ := map_ok.1 h
    rw [alternativeDemand, offers_conjunction, asks_applied s st m op field v hqs]
  | .listed field v =>
    rw [alternativeConditions_listed] at h
    obtain ⟨qs, hqs, rfl⟩ := map_ok.1 h
    rw [alternativeDemand, offers_conjunction, asks_anyOf st hqs]
    rfl
termination_by (sizeOf a.value, 1)

end

/-- The conditions of a filter hold for the rows that the filter asks for. -/
theorem allHold_compileAll {s : Schema} {m : Model} {es : List (String × Value)}
    {ps : List Predicate} (h : (compileAll s m es).outcome = .ok ps) (st : Store) (r : Row) :
    allHold st r ps = isWanted s st m es r := by
  rw [outcome_compileAll] at h
  have hps := asks_collect st (fun e _ ps => asks_entry s st m e.1 e.2) h
  rw [← isMet_asks, hps, isWanted]
  clear h hps
  induction es with
  | nil => rfl
  | cons e es ih =>
    rw [List.all_cons, ← ih]
    exact Demand.isMet_and ..

/-- The rows of a query that run under a compiled filter are those the filter asks for. -/
theorem rows_eq_wanted {s : Schema} {m : Model} {es : List (String × Value)}
    {ps : List Predicate} {st : Store} {rows : List Row}
    (hps : (compileAll s m es).outcome = .ok ps)
    (hrows : ((Query.base m true).when ps).run st = .ok rows) :
    rows = (st.rows m).filter (isWanted s st m es) := by
  rw [Query.run_ok hrows]
  exact List.filter_congr fun r _ => allHold_compileAll hps st r

/-- Authors rated three, or of a book by a title. -/
def ratedThreeOrWrote (title : String) : List (String × Value) :=
  [("or", .object [("equal", .object [("rating", .int 3)]),
    ("relation", .object [("books", .object [("equal", .object [("title", .text title)])])])])]

/-- The one book that has the title in the catalogue is trashed, so its author is not wanted. -/
theorem rows_eq_wanted_ubik : ∃ (ps : List Predicate) (rows : List Row),
    (compileAll Library.schema Library.author (ratedThreeOrWrote "Ubik")).outcome = .ok ps ∧
    ((Query.base Library.author true).when ps).run Library.catalogue = .ok rows ∧
    rows.map (·.id) = [3] ∧
    rows = (Library.catalogue.rows Library.author).filter
      (isWanted Library.schema Library.catalogue Library.author (ratedThreeOrWrote "Ubik")) :=
  ⟨_, _, rfl, rfl, rfl, rows_eq_wanted rfl rfl⟩

end Records.Filter
