import Records.Proofs.Filter.Selection
import Records.Proofs.Store.Binding

/-!
Which filters can be used: those all of whose leaves can, however they nest. A leaf is a column with
the values it is compared with; every other entry is dropped or holds leaves of its own.
-/
namespace Records.Filter

open Predicate (allParameters)

/-- A column and what it is compared with. -/
inductive Leaf
  | applied (m : Model) (op : Operator) (field : String) (v : Value)
  | listed (m : Model) (field : String) (vs : List Value)

mutual

def entryLeaves (s : Schema) (m : Model) (key : String) (v : Value) : List Leaf :=
  match v with
  | .object es =>
    match Operator.ofKey? key with
    | none => [.listed m key (es.map (·.2))]
    | some .or => (groupAlternatives es).attach.flatMap fun a => alternativeLeaves s m a.1
    | some op => es.attach.flatMap fun e => appliedLeaves s m op e.1.1 e.1.2
  | .list vs => if Operator.ofKey? key = none then [.listed m key vs] else []
  | .tuple vs => if Operator.ofKey? key = none then [.listed m key vs] else []
  | _ => []
termination_by (sizeOf v, 0)
decreasing_by
  · have := sizeOf_value_lt_of_mem_groupAlternatives a.2
    exact .left _ _ (by simp only [Value.object.sizeOf_spec]; omega)
  · have := sizeOf_snd_lt_of_mem e.2
    exact .left _ _ (by simp only [Value.object.sizeOf_spec]; omega)

def appliedLeaves (s : Schema) (m : Model) (op : Operator) (field : String) (v : Value) :
    List Leaf :=
  match op, v with
  | .or, v => (alternativesUnder field v).attach.flatMap fun a => alternativeLeaves s m a.1
  | .relation, .object es =>
    match s.resolve? m field with
    | some h => es.attach.flatMap fun e =>
      if e.1.2.isPresent && e.1.2.hasLeaf then entryLeaves s h.target e.1.1 e.1.2 else []
    | none => []
  | op, v => [.applied m op field v]
termination_by (sizeOf v, 0)
decreasing_by
  · exact .left _ _ (sizeOf_value_lt_of_mem_alternativesUnder a.2)
  · have := sizeOf_snd_lt_of_mem e.2
    exact .left _ _ (by simp only [Value.object.sizeOf_spec]; omega)

def alternativeLeaves (s : Schema) (m : Model) (a : Alternative) : List Leaf :=
  match a with
  | .applied op field v => appliedLeaves s m op field v
  | .listed field v => [.listed m field [v]]
termination_by (sizeOf a.value, 1)

end

/-- The leaves of a whole filter. -/
def leaves (s : Schema) (m : Model) (es : List (String × Value)) : List Leaf :=
  es.flatMap fun e => entryLeaves s m e.1 e.2

theorem flatMap_attach_val {α β : Type} (f : α → List β) (xs : List α) :
    (xs.attach.flatMap fun x => f x.1) = xs.flatMap f := by
  rw [← List.flatMap_map, List.attach_map_subtype_val]

section Equations
variable (s : Schema) (m : Model)

theorem entryLeaves_none_object {key : String} (hk : Operator.ofKey? key = none)
    (es : List (String × Value)) :
    entryLeaves s m key (.object es) = [.listed m key (es.map (·.2))] := by
  rw [entryLeaves.eq_def, hk]

theorem entryLeaves_list (key : String) {v : Value} {vs : List Value} (hi : v.items? = some vs) :
    entryLeaves s m key v = if Operator.ofKey? key = none then [.listed m key vs] else [] := by
  rw [entryLeaves.eq_def]
  cases v <;> first | cases hi; rfl | cases hi

theorem entryLeaves_or {key : String} (hk : Operator.ofKey? key = some .or)
    (es : List (String × Value)) : entryLeaves s m key (.object es) =
      (groupAlternatives es).flatMap (alternativeLeaves s m) := by
  rw [entryLeaves.eq_def, hk]
  exact flatMap_attach_val (alternativeLeaves s m) _

theorem entryLeaves_object {key : String} {op : Operator} (hk : Operator.ofKey? key = some op)
    (ho : op ≠ .or) (es : List (String × Value)) : entryLeaves s m key (.object es) =
      es.flatMap fun e => appliedLeaves s m op e.1 e.2 := by
  rw [entryLeaves.eq_def, hk]
  cases op with
  | or => exact absurd rfl ho
  | _ => exact flatMap_attach_val (fun e : String × Value => appliedLeaves s m _ e.1 e.2) es

theorem entryLeaves_plain (key : String) {v : Value} (hi : v.items? = none)
    (he : v.entries? = none) : entryLeaves s m key v = [] := by
  rw [entryLeaves.eq_def]
  cases v <;> first | rfl | simp [Value.items?, Value.entries?] at hi he

theorem appliedLeaves_or (field : String) (v : Value) : appliedLeaves s m .or field v =
    (alternativesUnder field v).flatMap (alternativeLeaves s m) := by
  rw [appliedLeaves.eq_def]
  exact flatMap_attach_val (alternativeLeaves s m) _

theorem appliedLeaves_relation (field : String) (es : List (String × Value)) :
    appliedLeaves s m .relation field (.object es) = match s.resolve? m field with
      | some h => es.flatMap fun e =>
          if e.2.isPresent && e.2.hasLeaf then entryLeaves s h.target e.1 e.2 else []
      | none => [] := by
  rw [appliedLeaves.eq_def]
  dsimp only
  cases s.resolve? m field with
  | none => rfl
  | some h =>
    exact flatMap_attach_val (fun e : String × Value =>
      if e.2.isPresent && e.2.hasLeaf then entryLeaves s h.target e.1 e.2 else []) es

theorem appliedLeaves_relation_flat (field : String) {v : Value} (he : v.entries? = none) :
    appliedLeaves s m .relation field v = [.applied m .relation field v] := by
  rw [appliedLeaves.eq_def]
  cases v <;> first | rfl | simp [Value.entries?] at he

theorem appliedLeaves_plain {op : Operator} (ho : op ≠ .or) (hr : op ≠ .relation) (field : String)
    (v : Value) : appliedLeaves s m op field v = [.applied m op field v] := by
  rw [appliedLeaves.eq_def]
  cases op <;> first | exact absurd rfl ho | exact absurd rfl hr | rfl

end Equations

/-- An operator over one field is one leaf, unless others nest below it. -/
theorem leaves_applied (s : Schema) (m : Model) {op : Operator} (hor : op ≠ .or)
    (hrelation : op ≠ .relation) (field : String) (v : Value) :
    leaves s m [(op.key, .object [(field, v)])] = [.applied m op field v] := by
  rw [leaves, List.flatMap_singleton, entryLeaves_object s m (Operator.ofKey?_key op) hor,
    List.flatMap_singleton, appliedLeaves_plain s m hor hrelation]

/-- A column can be compared with a value: the value is dropped, or it is bound. Booleans have no
order. -/
def CanCompare (m : Model) (op : Comparison) (field : String) (v : Value) : Prop :=
  v.isPresent → ∀ c, m.column? field = some c → ∀ w, coerceValue? c.kind v = some w →
    ¬ (op.isOrdered ∧ isBoolean w) ∧ (comparisonParameter ⟨m.table, c⟩ w).Bindable

/-- A column can be one of some values. Beside a null the others have to be keys. -/
def CanList (m : Model) (field : String) (vs : List Value) : Prop :=
  ∀ c, m.column? field = some c → (.null ∈ vs → firstUnhashable? vs = none) ∧
    ∀ p ∈ membershipParameters ⟨m.table, c⟩ vs, p.Bindable

/-- A timestamp can lie between two bounds. -/
def CanLie (m : Model) (field : String) (low high : Value) : Prop :=
  low.isPresent → high.isPresent → ∀ c, m.column? field = some c →
    ∀ low', coerceValue? c.kind low = some low' → ∀ high', coerceValue? c.kind high = some high' →
      Parameter.Bindable ⟨Codec.ofValue c.kind low', low'⟩ ∧
        Parameter.Bindable ⟨Codec.ofValue c.kind high', high'⟩

def Leaf.Usable : Leaf → Prop
  | .applied m .equal field v => CanCompare m .eq field v
  | .applied m .notEqual field v => CanCompare m .ne field v
  | .applied m .less field v => CanCompare m .le field v
  | .applied m .greater field v => CanCompare m .ge field v
  | .applied m .range field v => ∀ b, bounds? (.text field) v = some b → CanLie m field b.1 b.2
  | .applied m .within field v => ∀ vs, v.items? = some vs → CanList m field vs
  | .applied _ _ _ _ => True
  | .listed m field vs => CanList m field vs

/-- No codec makes a cell of a collection. -/
theorem not_bindable_collection {c : Codec} {v : Value} (h : v.items? ≠ none ∨ v.entries? ≠ none) :
    ¬ Parameter.Bindable ⟨c, v⟩ := by
  rintro ⟨cell, hcell⟩
  obtain ⟨form, hform, hcell⟩ := Parameter.cell_ok.1 hcell
  cases v with
  | list xs =>
    cases c <;> cases hform
    cases hcell
  | tuple xs =>
    cases c <;> cases hform
    cases hcell
  | object es =>
    cases c <;> cases hform
    cases hcell
  | _ => simp [Value.items?, Value.entries?] at h

/-- A value beside a comparison is bound unless it is a collection or an integer past 64 bits. -/
theorem bindable_comparisonParameter {f : Field} {v : Value} (hv : v.isPresent) :
    (comparisonParameter f v).Bindable ↔
      v.items? = none ∧ v.entries? = none ∧ ∀ n, v = .int n → fitsInteger n := by
  cases v with
  | null => cases hv
  | bool b => exact iff_of_true ⟨_, rfl⟩ ⟨rfl, rfl, nofun⟩
  | int n =>
    have hcodec : comparisonParameter f (.int n) = ⟨.raw, .int n⟩ := by
      simp [comparisonParameter, Codec.ofValue]
    rw [hcodec, Parameter.bindable_int]
    exact ⟨fun h => ⟨rfl, rfl, fun m hm => by cases hm; exact h⟩, fun h => h.2.2 n rfl⟩
  | list xs => exact iff_of_false (not_bindable_collection (.inl nofun)) fun h => nomatch h.1
  | tuple xs => exact iff_of_false (not_bindable_collection (.inl nofun)) fun h => nomatch h.1
  | object es => exact iff_of_false (not_bindable_collection (.inr nofun)) fun h => nomatch h.2.1
  | float x =>
    refine iff_of_true ?_ ⟨rfl, rfl, nofun⟩
    unfold comparisonParameter Codec.ofValue
    cases f.column.kind <;> cases x <;> exact ⟨_, rfl⟩
  | _ =>
    refine iff_of_true ?_ ⟨rfl, rfl, nofun⟩
    unfold comparisonParameter Codec.ofValue
    cases f.column.kind <;> exact ⟨_, rfl⟩

/-- Conditions are there, and all their parameters are bound. -/
def Runs (x : Except CompileError (List Predicate)) : Prop :=
  ∃ ps, x = .ok ps ∧ ∀ p ∈ allParameters ps, p.Bindable

theorem runs_ok {ps : List Predicate} :
    Runs (.ok ps) ↔ ∀ p ∈ allParameters ps, p.Bindable := by
  simp [Runs]

theorem not_runs_error {e : CompileError} : ¬Runs (.error e) := by
  rintro ⟨ps, h, -⟩
  cases h

theorem runs_nil : Runs (.ok []) := runs_ok.2 fun _ hp => (List.not_mem_nil hp).elim

theorem runs_map {f : List Predicate → List Predicate}
    (hf : ∀ ps, allParameters (f ps) = allParameters ps)
    {x : Except CompileError (List Predicate)} : Runs (x.map f) ↔ Runs x := by
  cases x with
  | error e => simp [Runs, Except.map]
  | ok ps =>
    change Runs (.ok (f ps)) ↔ _
    rw [runs_ok, runs_ok, hf]

theorem runs_collect {α : Type} {f : α → Except CompileError (List Predicate)} {xs : List α} :
    Runs (collect f xs) ↔ ∀ x ∈ xs, Runs (f x) := by
  induction xs with
  | nil => exact ⟨fun _ x hx => (List.not_mem_nil hx).elim, fun _ => runs_nil⟩
  | cons x xs ih =>
    rw [List.forall_mem_cons, ← ih]
    constructor
    · rintro ⟨ps, hps, hbind⟩
      obtain ⟨here, later, hhere, hlater, rfl⟩ := collect_cons_ok.1 hps
      simp only [Predicate.allParameters_eq_flatMap, List.flatMap_append, List.forall_mem_append]
        at hbind
      simp only [Runs, Predicate.allParameters_eq_flatMap]
      exact ⟨⟨here, hhere, hbind.1⟩, ⟨later, hlater, hbind.2⟩⟩
    · rintro ⟨⟨here, hhere, hbind⟩, ⟨later, hlater, hbind'⟩⟩
      refine ⟨here ++ later, collect_cons_ok.2 ⟨here, later, hhere, hlater, rfl⟩, ?_⟩
      simp only [Predicate.allParameters_eq_flatMap, List.flatMap_append, List.forall_mem_append]
        at hbind hbind' ⊢
      exact ⟨hbind, hbind'⟩

theorem allParameters_group (make : List Predicate → Predicate)
    (hmake : ∀ ps, (make ps).parameters = allParameters ps) (ps : List Predicate) :
    allParameters [Predicate.group make ps] = allParameters ps := by
  simp only [allParameters, List.append_nil]
  unfold Predicate.group
  split
  · simp [allParameters]
  · exact hmake ps

theorem allParameters_alternatives (ps : List Predicate) :
    allParameters (alternatives ps) = allParameters ps := by
  unfold alternatives
  cases ps with
  | nil => rfl
  | cons p ps => exact allParameters_group _ (fun _ => by rw [Predicate.parameters]) (p :: ps)

theorem allParameters_conjunction (ps : List Predicate) :
    allParameters (Predicate.conjunction? ps).toList = allParameters ps := by
  cases ps with
  | nil => rfl
  | cons p ps => exact allParameters_group _ (fun _ => by rw [Predicate.parameters]) (p :: ps)

theorem allParameters_related (h : Handle) (ps : List Predicate) :
    allParameters (relatedPredicate h ps) = allParameters ps := by
  have hgroup (qs : List Predicate) :
      allParameters [.related h (Predicate.group .all qs)] = allParameters qs := by
    rw [← allParameters_group .all (fun _ => by rw [Predicate.parameters]) qs]
    simp only [allParameters, Predicate.parameters]
  unfold relatedPredicate
  cases ps with
  | nil => rfl
  | cons p ps =>
    change allParameters [.related h (Predicate.group .all _)] = _
    rw [hgroup]
    -- That a related record is live takes no parameter.
    split <;> simp [Predicate.allParameters_eq_flatMap, Predicate.parameters]

theorem runs_membershipPredicate {f : Field} {vs : List Value} :
    Runs (membershipPredicate f vs).outcome ↔
      (.null ∈ vs → firstUnhashable? vs = none) ∧ ∀ p ∈ membershipParameters f vs, p.Bindable := by
  have hamong : allParameters [.among f vs] = membershipParameters f vs := by
    simp only [allParameters, Predicate.parameters, List.append_nil]
  unfold membershipPredicate
  by_cases hnull : .null ∈ vs
  · rw [if_pos (List.contains_iff_mem.2 hnull)]
    cases firstUnhashable? vs with
    | none =>
      change Runs (.ok [.among f vs]) ↔ _
      rw [runs_ok, hamong]
      exact ⟨fun h => ⟨fun _ => rfl, h⟩, And.right⟩
    | some typeName =>
      refine iff_of_false not_runs_error fun h => ?_
      cases h.1 hnull
  · rw [if_neg fun h => hnull (List.contains_iff_mem.1 h)]
    change Runs (.ok [.among f vs]) ↔ _
    rw [runs_ok, hamong]
    exact ⟨fun h => ⟨fun hmem => (hnull hmem).elim, h⟩, And.right⟩

theorem runs_membership {m : Model} {field : String} {vs : List Value} :
    Runs (membership m (.text field) vs).outcome ↔ CanList m field vs := by
  rw [membership, Reported.outcome_bind, outcome_fieldColumn]
  unfold CanList
  cases m.column? field with
  | none => exact iff_of_true runs_nil fun c hc => by cases hc
  | some c =>
    simp only [Option.some.injEq, forall_eq']
    exact runs_membershipPredicate

theorem runs_anyOf {m : Model} {field : String} {vs : List Value} :
    Runs (anyOf m (.text field) vs).outcome ↔ CanList m field vs := by
  unfold anyOf
  cases vs with
  | nil =>
    refine iff_of_true runs_nil fun c _ => ⟨fun _ => rfl, fun p hp => ?_⟩
    exact (List.not_mem_nil hp).elim
  | cons v vs => exact runs_membership

theorem runs_comparison {m : Model} {op : Comparison} {field : String} {v : Value} :
    Runs (comparison op m (.text field) v).outcome ↔ CanCompare m op field v := by
  unfold comparison CanCompare
  by_cases hv : v.isPresent = true
  · simp only [hv, Bool.not_true, Bool.false_eq_true, if_false, forall_const,
      Reported.outcome_bind, outcome_fieldColumn, Except.bind]
    cases m.column? field with
    | none => exact iff_of_true runs_nil fun c hc => by cases hc
    | some c =>
      simp only [Option.some.injEq, forall_eq', Reported.outcome_bind, outcome_coerce, Except.bind]
      cases coerceValue? c.kind v with
      | none => exact iff_of_true runs_nil fun w hw => by cases hw
      | some w =>
        simp only [Option.some.injEq, forall_eq', Bool.and_eq_true]
        split
        · rename_i hordered
          exact iff_of_false not_runs_error fun h => h.1 hordered
        · rename_i hunordered
          change Runs (.ok [.compare ⟨m.table, c⟩ op w]) ↔ _
          rw [runs_ok]
          simp [allParameters, Predicate.parameters, hunordered]
  · simp only [hv, Bool.not_false, if_true]
    exact iff_of_true runs_nil fun h => by cases h

theorem runs_containing {m : Model} {field : String} {v : Value} :
    Runs (containing m (.text field) v).outcome := by
  unfold containing
  split
  · exact runs_nil
  · rw [Reported.outcome_bind, outcome_fieldColumn]
    cases m.column? field with
    | none => exact runs_nil
    | some c =>
      refine runs_ok.2 fun p hp => ?_
      obtain rfl : p = ⟨.raw, .text ("%" ++ v.display ++ "%")⟩ := by
        simpa [allParameters, Predicate.parameters] using hp
      exact ⟨_, rfl⟩

theorem runs_range {m : Model} {field : String} {v : Value} :
    Runs (range m (.text field) v).outcome ↔
      ∀ b, bounds? (.text field) v = some b → CanLie m field b.1 b.2 := by
  unfold range
  by_cases hv : v.isPresent = true
  · simp only [hv, Bool.not_true, Bool.false_eq_true, if_false]
    cases bounds? (.text field) v with
    | none => exact iff_of_true runs_nil nofun
    | some b =>
      obtain ⟨low, high⟩ := b
      simp only [Option.some.injEq, forall_eq']
      unfold CanLie
      by_cases hpresent : (low.isPresent && high.isPresent) = true
      · obtain ⟨hlow, hhigh⟩ := Bool.and_eq_true_iff.1 hpresent
        simp only [hlow, hhigh, Bool.and_self, Bool.not_true, Bool.false_eq_true, if_false,
          forall_const, Reported.outcome_bind, outcome_fieldColumn, Except.bind]
        cases m.column? field with
        | none => exact iff_of_true runs_nil nofun
        | some c =>
          simp only [Option.some.injEq, forall_eq', Reported.outcome_bind, outcome_coerce,
            Except.bind]
          cases coerceValue? c.kind low with
          | none => exact iff_of_true runs_nil nofun
          | some low =>
            cases coerceValue? c.kind high with
            | none => exact iff_of_true runs_nil fun _ _ _ => nofun
            | some high =>
              simp only [Option.some.injEq, forall_eq']
              change Runs (.ok [.between ⟨m.table, c⟩ low high]) ↔ _
              rw [runs_ok]
              simp [allParameters, Predicate.parameters]
      · simp only [hpresent, Bool.not_false, if_true]
        refine iff_of_true runs_nil fun hlow hhigh => ?_
        exact (hpresent (Bool.and_eq_true_iff.2 ⟨hlow, hhigh⟩)).elim
  · have hnone : bounds? (.text field) v = none := by
      have hitems : v.items? = none ∨ v.items? = some [] := by
        cases v <;> simp_all [Value.isPresent, Value.items?]
      unfold bounds?
      rcases hitems with h | h <;> rw [h] <;> split <;> simp_all
    simp only [hv, Bool.not_false, if_true, hnone]
    exact iff_of_true runs_nil nofun

theorem runs_leaf {m : Model} {op : Operator} {field : String} {v : Value} :
    Runs (leaf m op (.text field) v).outcome ↔ (Leaf.applied m op field v).Usable := by
  cases op with
  | equal => exact runs_comparison
  | notEqual => exact runs_comparison
  | less => exact runs_comparison
  | greater => exact runs_comparison
  | like => exact iff_of_true runs_containing trivial
  | range => exact runs_range
  | within =>
    change Runs (within m (.text field) v).outcome ↔ ∀ vs, v.items? = some vs → CanList m field vs
    unfold within
    cases v.items? with
    | none => exact iff_of_true runs_nil nofun
    | some vs => simpa only [Option.some.injEq, forall_eq'] using runs_membership
  | or => exact iff_of_true runs_nil trivial
  | relation => exact iff_of_true runs_nil trivial

theorem usable_listed {m : Model} {field : String} {vs : List Value} :
    (∀ l ∈ [Leaf.listed m field vs], l.Usable) ↔ CanList m field vs :=
  List.forall_mem_singleton

theorem usable_applied {m : Model} {op : Operator} {field : String} {v : Value} :
    (∀ l ∈ [Leaf.applied m op field v], l.Usable) ↔ (Leaf.applied m op field v).Usable :=
  List.forall_mem_singleton

theorem usable_nil : ∀ l ∈ ([] : List Leaf), l.Usable := fun _ hl => (List.not_mem_nil hl).elim

theorem runs_listed {m : Model} {key : String} {vs : List Value} :
    Runs (if Operator.ofKey? key = none then (anyOf m (.text key) vs).outcome else .ok []) ↔
      ∀ l ∈ if Operator.ofKey? key = none then [Leaf.listed m key vs] else [], l.Usable := by
  split
  · rw [runs_anyOf, usable_listed]
  · exact iff_of_true runs_nil usable_nil

-- Conditions and leaves recurse on the same payloads; what is wrapped around the conditions of a
-- payload takes no parameter of its own.
mutual

theorem runs_entry (s : Schema) (m : Model) (key : String) (v : Value) :
    Runs (entryConditions s m key v) ↔ ∀ l ∈ entryLeaves s m key v, l.Usable := by
  match v with
  | .object es =>
    cases hk : Operator.ofKey? key with
    | none => rw [entryConditions_none_object s m hk, entryLeaves_none_object s m hk, runs_anyOf,
        usable_listed]
    | some op =>
      by_cases ho : op = .or
      · subst ho
        rw [entryConditions_or s m hk, entryLeaves_or s m hk, runs_map allParameters_alternatives,
          runs_collect, List.forall_mem_flatMap]
        exact forall₂_congr fun a ha => runs_alternative s m a
      · rw [entryConditions_object s m hk ho, entryLeaves_object s m hk ho, runs_collect,
          List.forall_mem_flatMap]
        exact forall₂_congr fun e he => runs_applied s m op e.1 e.2
  | .list vs =>
    rw [entryConditions_list s m rfl, entryLeaves_list s m key rfl]
    exact runs_listed
  | .tuple vs =>
    rw [entryConditions_list s m rfl, entryLeaves_list s m key rfl]
    exact runs_listed
  | .null | .bool _ | .int _ | .float _ | .text _ | .bytes _ | .date _ | .moment _ =>
    rw [entryConditions_plain s m key rfl rfl, entryLeaves_plain s m key rfl rfl]
    exact iff_of_true runs_containing usable_nil
termination_by (sizeOf v, 0)
decreasing_by
  · have := sizeOf_value_lt_of_mem_groupAlternatives ha
    exact .left _ _ (by simp only [Value.object.sizeOf_spec]; omega)
  · have := sizeOf_snd_lt_of_mem he
    exact .left _ _ (by simp only [Value.object.sizeOf_spec]; omega)

theorem runs_applied (s : Schema) (m : Model) (op : Operator) (field : String) (v : Value) :
    Runs (appliedConditions s m op field v) ↔ ∀ l ∈ appliedLeaves s m op field v, l.Usable := by
  by_cases ho : op = .or
  · subst ho
    rw [appliedConditions_or, appliedLeaves_or, runs_map allParameters_alternatives, runs_collect,
      List.forall_mem_flatMap]
    exact forall₂_congr fun a ha => runs_alternative s m a
  by_cases hr : op = .relation
  · subst hr
    match v with
    | .object es =>
      rw [appliedConditions_relation, appliedLeaves_relation]
      cases s.resolve? m field with
      | none => exact iff_of_true runs_nil usable_nil
      | some h =>
        dsimp only
        rw [runs_collect, List.forall_mem_flatMap]
        refine forall₂_congr fun e he => ?_
        split
        · rw [runs_map (allParameters_related h), runs_entry s h.target e.1 e.2]
        · exact iff_of_true runs_nil usable_nil
    | .list _ | .tuple _ | .null | .bool _ | .int _ | .float _ | .text _ | .bytes _ | .date _
    | .moment _ =>
      rw [appliedConditions_relation_nil s m field rfl, appliedLeaves_relation_flat s m field rfl]
      exact iff_of_true runs_nil (usable_applied.2 trivial)
  · rw [appliedConditions_plain s m field v ho hr, appliedLeaves_plain s m ho hr, runs_leaf,
      usable_applied]
termination_by (sizeOf v, 0)
decreasing_by
  · exact .left _ _ (sizeOf_value_lt_of_mem_alternativesUnder ha)
  · have := sizeOf_snd_lt_of_mem he
    exact .left _ _ (by simp only [Value.object.sizeOf_spec]; omega)

theorem runs_alternative (s : Schema) (m : Model) (a : Alternative) :
    Runs (alternativeConditions s m a) ↔ ∀ l ∈ alternativeLeaves s m a, l.Usable := by
  match a with
  | .applied op field v =>
    rw [alternativeConditions_applied, alternativeLeaves, runs_map allParameters_conjunction,
      runs_applied s m op field v]
  | .listed field v =>
    rw [alternativeConditions_listed, alternativeLeaves, runs_map allParameters_conjunction,
      runs_anyOf, usable_listed]
termination_by (sizeOf a.value, 1)

end

/-- A filter compiles to conditions that can be bound exactly if all its leaves can be used. -/
theorem runs_compileAll (s : Schema) (m : Model) (es : List (String × Value)) :
    Runs (compileAll s m es).outcome ↔ ∀ l ∈ leaves s m es, l.Usable := by
  rw [outcome_compileAll, runs_collect]
  unfold leaves
  rw [List.forall_mem_flatMap]
  exact forall₂_congr fun e _ => runs_entry s m e.1 e.2

end Records.Filter
