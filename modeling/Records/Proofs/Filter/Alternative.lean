import Records.Filter.Compile

/-!
The alternatives of a group, whichever way round they are written. An item of a list stands under no
field, so it is an alternative only where the key of the list names no operator.
-/
namespace Records.Filter

/-- One way to satisfy a group. -/
inductive Alternative
  | applied (op : Operator) (field : String) (v : Value)
  | listed (field : String) (v : Value)

def Alternative.value : Alternative → Value
  | applied _ _ v => v
  | listed _ v => v

/-- A pair inside a group: the operator stands first or second, or there is none. -/
def pairAlternative (outer key : String) (v : Value) : Alternative :=
  match Operator.ofKey? outer, Operator.ofKey? key with
  | some op, _ => .applied op key v
  | none, some op => .applied op outer v
  | none, none => .listed outer v

/-- The alternatives under one key of a group, from the values that are present. -/
def alternativesUnder (outer : String) : Value → List Alternative
  | .object es => (es.filter (·.2.isPresent)).map fun e => pairAlternative outer e.1 e.2
  | .list vs =>
    if Operator.ofKey? outer = none then (vs.filter Value.isPresent).map (.listed outer) else []
  | .tuple vs =>
    if Operator.ofKey? outer = none then (vs.filter Value.isPresent).map (.listed outer) else []
  | _ => []

def groupAlternatives (es : List (String × Value)) : List Alternative :=
  es.flatMap fun e => alternativesUnder e.1 e.2

theorem value_pairAlternative (outer key : String) (v : Value) :
    (pairAlternative outer key v).value = v := by
  unfold pairAlternative
  split <;> rfl

theorem sizeOf_value_lt_of_mem_alternativesUnder {outer : String} {v : Value} {a : Alternative}
    (h : a ∈ alternativesUnder outer v) : sizeOf a.value < sizeOf v := by
  unfold alternativesUnder at h
  split at h
  · obtain ⟨⟨key, w⟩, he, rfl⟩ := List.mem_map.1 h
    have := List.sizeOf_lt_of_mem (List.mem_filter.1 he).1
    simp only [value_pairAlternative, Value.object.sizeOf_spec, Prod.mk.sizeOf_spec] at this ⊢
    omega
  · split at h
    · obtain ⟨w, hw, rfl⟩ := List.mem_map.1 h
      have := List.sizeOf_lt_of_mem (List.mem_filter.1 hw).1
      simp only [Alternative.value, Value.list.sizeOf_spec]
      omega
    · simp at h
  · split at h
    · obtain ⟨w, hw, rfl⟩ := List.mem_map.1 h
      have := List.sizeOf_lt_of_mem (List.mem_filter.1 hw).1
      simp only [Alternative.value, Value.tuple.sizeOf_spec]
      omega
    · simp at h
  · simp at h

theorem sizeOf_value_lt_of_mem_groupAlternatives {es : List (String × Value)} {a : Alternative}
    (h : a ∈ groupAlternatives es) : sizeOf a.value < sizeOf es := by
  obtain ⟨e, he, ha⟩ := List.mem_flatMap.1 h
  have h1 := sizeOf_value_lt_of_mem_alternativesUnder ha
  have h2 := List.sizeOf_lt_of_mem he
  obtain ⟨key, v⟩ := e
  simp only [Prod.mk.sizeOf_spec] at h1 h2
  omega

theorem alternativesUnder_object_cons (outer key : String) (v : Value)
    (es : List (String × Value)) : alternativesUnder outer (.object ((key, v) :: es)) =
      (if v.isPresent then [pairAlternative outer key v] else []) ++
        alternativesUnder outer (.object es) := by
  simp only [alternativesUnder, List.filter_cons]
  split <;> rfl

theorem alternativesUnder_list_cons (outer : String) (v : Value) (vs : List Value) :
    alternativesUnder outer (.list (v :: vs)) =
      (if Operator.ofKey? outer = none ∧ v.isPresent then [.listed outer v] else []) ++
        alternativesUnder outer (.list vs) := by
  simp only [alternativesUnder, List.filter_cons]
  split <;> split <;> simp_all

theorem sizeOf_snd_lt_of_mem {es : List (String × Value)} {e : String × Value} (h : e ∈ es) :
    sizeOf e.2 < sizeOf es := by
  have h1 := List.sizeOf_lt_of_mem h
  obtain ⟨key, v⟩ := e
  simp only [Prod.mk.sizeOf_spec] at h1 ⊢
  omega

end Records.Filter
