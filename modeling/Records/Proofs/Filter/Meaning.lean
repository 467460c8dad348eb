import Records.Proofs.Filter.Alternative

/-!
What a filter asks of a row, read off the filter itself. Whatever asks nothing is left out of the
conjunction, the disjunction or the search for a related record that it stands in.
-/
namespace Records.Filter

open Predicate (compareHolds)

/-- What is asked of a row, if anything is. -/
abbrev Demand := Option (Row → Bool)

namespace Demand

def isMet (d : Demand) (r : Row) : Bool := d.elim true fun f => f r

def and : Demand → Demand → Demand := Option.merge fun f g r => f r && g r

def or : Demand → Demand → Demand := Option.merge fun f g r => f r || g r

def all (ds : List Demand) : Demand := ds.foldr and none

def any (ds : List Demand) : Demand := ds.foldr or none

end Demand

/-- A column holds what compares with a value in this way. -/
def compared (m : Model) (op : Comparison) (field : String) (v : Value) : Demand := do
  let c ← m.column? field
  let w ← coerceValue? c.kind v
  return compareHolds ⟨m.table, c⟩ op (comparisonParameter ⟨m.table, c⟩ w)

/-- The text of a column holds a value somewhere. -/
def contains (m : Model) (field : String) (v : Value) : Demand := do
  let c ← m.column? field
  return fun r => ((r.cell c.name).asText?.map (Match.likes ("%" ++ v.display ++ "%"))).getD false

/-- A timestamp lies between two bounds, which may be hit. -/
def lies (m : Model) (field : String) (low high : Value) : Demand := do
  let c ← m.column? field
  let low ← coerceValue? c.kind low
  let high ← coerceValue? c.kind high
  return fun r => compareHolds ⟨m.table, c⟩ .ge ⟨Codec.ofValue c.kind low, low⟩ r &&
    compareHolds ⟨m.table, c⟩ .le ⟨Codec.ofValue c.kind high, high⟩ r

/-- A column holds one of some values. -/
def listed (m : Model) (field : String) (vs : List Value) : Demand := do
  let c ← m.column? field
  return fun r => (membershipParameters ⟨m.table, c⟩ vs).any fun p =>
    compareHolds ⟨m.table, c⟩ .eq p r

/-- An operator that does not nest, applied to a field. -/
def plainDemand (m : Model) (op : Operator) (field : String) (v : Value) : Demand :=
  match op with
  | .equal => if v.isPresent then compared m .eq field v else none
  | .notEqual => if v.isPresent then compared m .ne field v else none
  | .less => if v.isPresent then compared m .le field v else none
  | .greater => if v.isPresent then compared m .ge field v else none
  | .like => if v.isPresent then contains m field v else none
  | .range =>
    match v.items? with
    | some [low, high] =>
      if field ∈ timestampFields ∧ low.isPresent ∧ high.isPresent then lies m field low high
      else none
    | _ => none
  | .within =>
    match v.items? with
    | some vs => listed m field vs
    | none => none
  | .or => none
  | .relation => none

/-- Some record that the relation leads to and that is not trashed is as asked. -/
def someRelated (st : Store) (h : Handle) (f : Row → Bool) (r : Row) : Bool :=
  (relatedRows st h r).any fun t =>
    (!h.target.softDeletes || t.cell deletedAt.name == .null) && f t

mutual

/-- What an entry of a filter asks. -/
def entryDemand (s : Schema) (st : Store) (m : Model) (key : String) (v : Value) : Demand :=
  match Operator.ofKey? key, v with
  | none, .object es => if es.isEmpty then none else listed m key (es.map (·.2))
  | none, .list vs => if vs.isEmpty then none else listed m key vs
  | none, .tuple vs => if vs.isEmpty then none else listed m key vs
  | some .or, .object es =>
    .any ((groupAlternatives es).attach.map fun a => alternativeDemand s st m a.1)
  | some op, .object es => .all (es.attach.map fun e => appliedDemand s st m op e.1.1 e.1.2)
  | some _, .list _ => none
  | some _, .tuple _ => none
  | _, v => if v.isPresent then contains m key v else none
termination_by (sizeOf v, 0)
decreasing_by
  · have := sizeOf_value_lt_of_mem_groupAlternatives a.2
    exact .left _ _ (by simp only [Value.object.sizeOf_spec]; omega)
  · have := sizeOf_snd_lt_of_mem e.2
    exact .left _ _ (by simp only [Value.object.sizeOf_spec]; omega)

/-- What an operator asks of a field, with a value beside it. -/
def appliedDemand (s : Schema) (st : Store) (m : Model) (op : Operator) (field : String)
    (v : Value) : Demand :=
  match op, v with
  | .or, v => .any ((alternativesUnder field v).attach.map fun a => alternativeDemand s st m a.1)
  | .relation, .object es =>
    match s.resolve? m field with
    | some h => .all (es.attach.map fun e =>
      if e.1.2.isPresent && e.1.2.hasLeaf then
        (entryDemand s st h.target e.1.1 e.1.2).map (someRelated st h)
      else none)
    | none => none
  | op, v => plainDemand m op field v
termination_by (sizeOf v, 0)
decreasing_by
  · exact .left _ _ (sizeOf_value_lt_of_mem_alternativesUnder a.2)
  · have := sizeOf_snd_lt_of_mem e.2
    exact .left _ _ (by simp only [Value.object.sizeOf_spec]; omega)

def alternativeDemand (s : Schema) (st : Store) (m : Model) (a : Alternative) : Demand :=
  match a with
  | .applied op field v => appliedDemand s st m op field v
  | .listed field v => listed m field [v]
termination_by (sizeOf a.value, 1)

end

theorem entryDemand_none_object (s : Schema) (st : Store) (m : Model) {key : String}
    (hk : Operator.ofKey? key = none) (es : List (String × Value)) :
    entryDemand s st m key (.object es) =
      if es.isEmpty then none else listed m key (es.map (·.2)) := by
  rw [entryDemand.eq_def, hk]

theorem entryDemand_list (s : Schema) (st : Store) (m : Model) {key : String} {v : Value}
    {vs : List Value} (hi : v.items? = some vs) : entryDemand s st m key v =
      if Operator.ofKey? key = none ∧ vs ≠ [] then listed m key vs else none := by
  rw [entryDemand.eq_def]
  cases v <;> simp_all [Value.items?]
  all_goals
    cases Operator.ofKey? key with
    | none => cases vs <;> rfl
    | some op => cases op <;> rfl

theorem entryDemand_or (s : Schema) (st : Store) (m : Model) {key : String}
    (hk : Operator.ofKey? key = some .or) (es : List (String × Value)) :
    entryDemand s st m key (.object es) =
      .any ((groupAlternatives es).map (alternativeDemand s st m)) := by
  rw [entryDemand.eq_def, hk, ← List.attach_map_subtype_val (groupAlternatives es), List.map_map]
  rfl

theorem entryDemand_object (s : Schema) (st : Store) (m : Model) {key : String} {op : Operator}
    (hk : Operator.ofKey? key = some op) (ho : op ≠ .or) (es : List (String × Value)) :
    entryDemand s st m key (.object es) =
      .all (es.map fun e => appliedDemand s st m op e.1 e.2) := by
  rw [entryDemand.eq_def, hk]
  cases op with
  | or => exact absurd rfl ho
  | _ =>
    exact congrArg Demand.all
      (List.attach_map_val (f := fun e : String × Value => appliedDemand s st m _ e.1 e.2))

theorem entryDemand_plain (s : Schema) (st : Store) (m : Model) (key : String) {v : Value}
    (hi : v.items? = none) (he : v.entries? = none) :
    entryDemand s st m key v = if v.isPresent then contains m key v else none := by
  rw [entryDemand.eq_def]
  cases v <;> simp_all [Value.items?, Value.entries?]

theorem appliedDemand_or (s : Schema) (st : Store) (m : Model) (field : String) (v : Value) :
    appliedDemand s st m .or field v =
      .any ((alternativesUnder field v).map (alternativeDemand s st m)) := by
  rw [appliedDemand]
  exact congrArg Demand.any List.attach_map_val

theorem appliedDemand_relation (s : Schema) (st : Store) (m : Model) (field : String)
    (es : List (String × Value)) : appliedDemand s st m .relation field (.object es) =
      match s.resolve? m field with
      | some h => .all (es.map fun e => if e.2.isPresent && e.2.hasLeaf then
          (entryDemand s st h.target e.1 e.2).map (someRelated st h) else none)
      | none => none := by
  rw [appliedDemand]
  split
  · rw [← List.attach_map_subtype_val es, List.map_map, List.attach_map_subtype_val]
    rfl
  · rfl

theorem appliedDemand_plain (s : Schema) (st : Store) (m : Model) {op : Operator} (field : String)
    (v : Value) (ho : op ≠ .or) (hr : op ≠ .relation) :
    appliedDemand s st m op field v = plainDemand m op field v := by
  rw [appliedDemand.eq_def]
  cases op <;> first | exact absurd rfl ho | exact absurd rfl hr | rfl

theorem appliedDemand_relation_nil (s : Schema) (st : Store) (m : Model) (field : String)
    {v : Value} (he : v.entries? = none) : appliedDemand s st m .relation field v = none := by
  rw [appliedDemand.eq_def]
  cases v <;> first | rfl | simp [Value.entries?] at he

/-- Whether a row is what a filter asks for. -/
def isWanted (s : Schema) (st : Store) (m : Model) (es : List (String × Value)) (r : Row) : Bool :=
  es.all fun e => (entryDemand s st m e.1 e.2).isMet r

end Records.Filter
