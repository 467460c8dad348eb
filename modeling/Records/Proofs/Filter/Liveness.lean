import Records.Proofs.Filter.Selection
import Records.Proofs.Store.Live

/-!
A filter never looks at trashed rows through a relation: it wants the same rows of a store and of
the store without its trashed rows.
-/
namespace Records.Filter

theorem someRelated_live {s : Schema} {st : Store} {h : Handle} (hh : h.target ∈ s.models)
    (f : Row → Bool) (r : Row) : someRelated (st.live s) h f r = someRelated st h f r := by
  unfold someRelated
  rw [Store.relatedRows_live hh, List.any_filter]
  refine congrArg (List.any _) ?_
  funext t
  rw [← Bool.and_assoc]
  exact congrArg (· && f t) (Bool.and_self _)

-- Only the search for a related record looks at other rows, and it skips the trashed ones.
mutual

theorem entryDemand_live (s : Schema) (st : Store) (m : Model) (key : String) (v : Value) :
    entryDemand s (st.live s) m key v = entryDemand s st m key v := by
  match v with
  | .object es =>
    cases hk : Operator.ofKey? key with
    | none => rw [entryDemand_none_object s _ m hk, entryDemand_none_object s st m hk]
    | some op =>
      by_cases ho : op = .or
      · subst ho
        rw [entryDemand_or s _ m hk, entryDemand_or s st m hk]
        refine congrArg Demand.any (List.map_congr_left fun a ha => ?_)
        exact alternativeDemand_live s st m a
      · rw [entryDemand_object s _ m hk ho, entryDemand_object s st m hk ho]
        refine congrArg Demand.all (List.map_congr_left fun e he => ?_)
        exact appliedDemand_live s st m op e.1 e.2
  | .list vs => rw [entryDemand_list s _ m rfl, entryDemand_list s st m rfl]
  | .tuple vs => rw [entryDemand_list s _ m rfl, entryDemand_list s st m rfl]
  | .null | .bool _ | .int _ | .float _ | .text _ | .bytes _ | .date _ | .moment _ =>
    rw [entryDemand_plain s _ m key rfl rfl, entryDemand_plain s st m key rfl rfl]
termination_by (sizeOf v, 0)
decreasing_by
  · have := sizeOf_value_lt_of_mem_groupAlternatives ha
    exact .left _ _ (by simp only [Value.object.sizeOf_spec]; omega)
  · have := sizeOf_snd_lt_of_mem he
    exact .left _ _ (by simp only [Value.object.sizeOf_spec]; omega)

theorem appliedDemand_live (s : Schema) (st : Store) (m : Model) (op : Operator) (field : String)
    (v : Value) : appliedDemand s (st.live s) m op field v = appliedDemand s st m op field v := by
  by_cases ho : op = .or
  · subst ho
    rw [appliedDemand_or, appliedDemand_or]
    refine congrArg Demand.any (List.map_congr_left fun a ha => ?_)
    exact alternativeDemand_live s st m a
  by_cases hr : op = .relation
  · subst hr
    match hv : v with
    | .object es =>
      rw [appliedDemand_relation, appliedDemand_relation]
      cases hm : s.resolve? m field with
      | none => rfl
      | some r =>
        refine congrArg Demand.all (List.map_congr_left fun e he => ?_)
        rw [entryDemand_live s st r.target e.1 e.2]
        split
        · refine congrArg (Option.map · _) ?_
          funext f row
          exact someRelated_live (Schema.target_mem_of_resolve? hm) f row
        · rfl
    | .list _ | .tuple _ | .null | .bool _ | .int _ | .float _ | .text _ | .bytes _ | .date _
    | .moment _ =>
      rw [appliedDemand_relation_nil s _ m field rfl, appliedDemand_relation_nil s st m field rfl]
  · rw [appliedDemand_plain s _ m field v ho hr, appliedDemand_plain s st m field v ho hr]
termination_by (sizeOf v, 0)
decreasing_by
  · exact .left _ _ (sizeOf_value_lt_of_mem_alternativesUnder ha)
  · have := sizeOf_snd_lt_of_mem he
    exact .left _ _ (by simp only [Value.object.sizeOf_spec]; omega)

theorem alternativeDemand_live (s : Schema) (st : Store) (m : Model) (a : Alternative) :
    alternativeDemand s (st.live s) m a = alternativeDemand s st m a := by
  match a with
  | .applied op field v =>
    rw [alternativeDemand, alternativeDemand, appliedDemand_live s st m op field v]
  | .listed field v => rw [alternativeDemand, alternativeDemand]
termination_by (sizeOf a.value, 1)

end

theorem isWanted_live (s : Schema) (st : Store) (m : Model) (es : List (String × Value)) (r : Row) :
    isWanted s (st.live s) m es r = isWanted s st m es r := by
  unfold isWanted
  simp only [entryDemand_live]

theorem allHold_live {s : Schema} {m : Model} {es : List (String × Value)} {ps : List Predicate}
    (h : (compileAll s m es).outcome = .ok ps) (st : Store) (r : Row) :
    Predicate.allHold (st.live s) r ps = Predicate.allHold st r ps := by
  rw [allHold_compileAll h, allHold_compileAll h, isWanted_live]

end Records.Filter
