import Mathlib
import Records.Proofs.Filter.Usable

/-!
Entries whose values are absent ask for nothing: a filter compiles to the same conditions once they
are taken out, at any depth. The one exception is a membership in an empty list, which is kept and
which no row has.
-/
namespace Records

theorem Value.isPresent_of_hasLeaf {v : Value} (h : v.hasLeaf) : v.isPresent := by
  cases v with
  | list xs => cases xs <;> first | cases h | rfl
  | tuple xs => cases xs <;> first | cases h | rfl
  | object es => cases es <;> first | cases h | rfl
  | _ => exact h

/-- An absent list has no items. -/
theorem Value.items_of_absent {v : Value} {vs : List Value} (hi : v.items? = some vs)
    (hv : v.isPresent = false) : vs = [] := by
  cases v <;> simp_all [Value.items?, Value.isPresent]

theorem Value.eq_empty_of_absent {v : Value} {es : List (String × Value)}
    (he : v.entries? = some es) (hv : v.isPresent = false) : v = .object [] := by
  cases v <;> simp_all [Value.entries?, Value.isPresent]

section Collect
variable {ε β : Type}

theorem collect_flatMap {α γ : Type} (f : γ → Except ε (List β)) (g : α → List γ) (xs : List α) :
    collect f (xs.flatMap g) = collect (fun x => collect f (g x)) xs := by
  induction xs with
  | nil => rfl
  | cons x xs ih => rw [List.flatMap_cons, collect_append, collect, ih]

theorem collect_filter {α : Type} {f : α → Except ε (List β)} {p : α → Bool} {xs : List α}
    (h : ∀ x ∈ xs, p x = false → f x = .ok []) : collect f (xs.filter p) = collect f xs := by
  induction xs with
  | nil => rfl
  | cons x xs ih =>
    have hxs := ih fun y hy => h y (List.mem_cons_of_mem x hy)
    cases hp : p x with
    | true => rw [List.filter_cons_of_pos hp, collect, collect, hxs]
    | false =>
      rw [List.filter_cons_of_neg (by simp [hp]), collect, hxs, h x (List.mem_cons_self ..) hp]
      cases collect f xs <;> rfl

end Collect

namespace Filter

/-- Entries under new values, those whose values are absent left out. -/
def trimmed (f : String → Value → Value) (es : List (String × Value)) : List (String × Value) :=
  (es.map fun e => (e.1, f e.1 e.2)).filter (·.2.isPresent)

mutual

/-- The payload of an entry without the entries in it whose values are absent. What stands beside
a column, and the items of a membership, are no entries of the filter. -/
def trimEntry (key : String) (v : Value) : Value :=
  match Operator.ofKey? key, v with
  | some op, .object es =>
    .object ((es.attach.map fun e => (e.1.1, trimApplied op e.1.1 e.1.2)).filter (·.2.isPresent))
  | _, v => v
termination_by (sizeOf v, 0)
decreasing_by
  have := sizeOf_snd_lt_of_mem e.2
  exact .left _ _ (by simp only [Value.object.sizeOf_spec]; omega)

def trimApplied (op : Operator) (field : String) (v : Value) : Value :=
  match op, v with
  | .or, .object es =>
    .object ((es.attach.map fun e =>
      (e.1.1, trimAlternative (pairAlternative field e.1.1 e.1.2))).filter (·.2.isPresent))
  | .relation, .object es =>
    .object ((es.attach.map fun e => (e.1.1, trimEntry e.1.1 e.1.2)).filter (·.2.isPresent))
  | _, v => v
termination_by (sizeOf v, 0)
decreasing_by
  · have := sizeOf_snd_lt_of_mem e.2
    exact .left _ _ (by rw [value_pairAlternative, Value.object.sizeOf_spec]; omega)
  · have := sizeOf_snd_lt_of_mem e.2
    exact .left _ _ (by rw [Value.object.sizeOf_spec]; omega)

def trimAlternative (a : Alternative) : Value :=
  match a with
  | .applied op field v => trimApplied op field v
  | .listed _ v => v
termination_by (sizeOf a.value, 1)

end

/-- A filter without its entries whose values are absent. -/
def trim (es : List (String × Value)) : List (String × Value) := trimmed trimEntry es

theorem trimmed_attach (f : String → Value → Value) (es : List (String × Value)) :
    (es.attach.map fun e => (e.1.1, f e.1.1 e.1.2)).filter (·.2.isPresent) = trimmed f es :=
  congrArg (List.filter _)
    (List.attach_map_val (f := fun e : String × Value => (e.1, f e.1 e.2)))

theorem trimEntry_object {key : String} {op : Operator} (hk : Operator.ofKey? key = some op)
    (es : List (String × Value)) :
    trimEntry key (.object es) = .object (trimmed (trimApplied op) es) := by
  rw [trimEntry.eq_def, hk]
  exact congrArg Value.object (trimmed_attach (trimApplied op) es)

theorem trimEntry_none {key : String} (hk : Operator.ofKey? key = none) (v : Value) :
    trimEntry key v = v := by
  rw [trimEntry.eq_def, hk]

theorem trimEntry_plain (key : String) {v : Value} (he : v.entries? = none) :
    trimEntry key v = v := by
  rw [trimEntry.eq_def]
  cases v <;> first | cases Operator.ofKey? key <;> rfl | simp [Value.entries?] at he

theorem trimApplied_or (field : String) (es : List (String × Value)) :
    trimApplied .or field (.object es) =
      .object (trimmed (fun key v => trimAlternative (pairAlternative field key v)) es) := by
  rw [trimApplied]
  exact congrArg Value.object
    (trimmed_attach (fun key v => trimAlternative (pairAlternative field key v)) es)

theorem trimApplied_relation (field : String) (es : List (String × Value)) :
    trimApplied .relation field (.object es) = .object (trim es) := by
  rw [trimApplied]
  exact congrArg Value.object (trimmed_attach trimEntry es)

theorem trimApplied_flat (op : Operator) (field : String) {v : Value} (he : v.entries? = none) :
    trimApplied op field v = v := by
  rw [trimApplied.eq_def]
  cases v <;> first | cases op <;> rfl | simp [Value.entries?] at he

theorem trimApplied_plain {op : Operator} (ho : op ≠ .or) (hr : op ≠ .relation) (field : String)
    (v : Value) : trimApplied op field v = v := by
  rw [trimApplied.eq_def]
  cases op <;> first | exact absurd rfl ho | exact absurd rfl hr | rfl

theorem trimmed_cons (f : String → Value → Value) (key : String) (v : Value)
    (es : List (String × Value)) : trimmed f ((key, v) :: es) =
      (if (f key v).isPresent then [(key, f key v)] else []) ++ trimmed f es := by
  simp only [trimmed, List.map_cons, List.filter_cons]
  split <;> rfl

/-- Leaving entries out changes nothing if those left in say the same and the others nothing. -/
theorem collect_trimmed {ε β : Type} {g : String × Value → Except ε (List β)}
    {f : String → Value → Value} {es : List (String × Value)}
    (h : ∀ e ∈ es, g (e.1, f e.1 e.2) = g e)
    (habsent : ∀ e ∈ es, (f e.1 e.2).isPresent = false → g e = .ok []) :
    collect g (trimmed f es) = collect g es := by
  unfold trimmed
  rw [collect_filter, collect_map]
  · exact collect_congr h
  · intro e' he' hp
    obtain ⟨e, he, rfl⟩ := List.mem_map.1 he'
    exact (h e he).trans (habsent e he hp)

section Leaves

-- No leaf is below what is left out, so that a payload has one after it exactly if it had one.
theorem anyLeafEntry_trimmed {f : String → Value → Value} {es : List (String × Value)}
    (h : ∀ e ∈ es, (f e.1 e.2).hasLeaf = e.2.hasLeaf) :
    Value.anyLeafEntry (trimmed f es) = Value.anyLeafEntry es := by
  induction es with
  | nil => rfl
  | cons e es ih =>
    obtain ⟨key, v⟩ := e
    have hes := ih fun e he => h e (List.mem_cons_of_mem _ he)
    have hv : (f key v).hasLeaf = v.hasLeaf := h (key, v) (List.mem_cons_self ..)
    rw [trimmed_cons, Value.anyLeafEntry, ← hv, ← hes]
    split
    · rfl
    · rename_i hp
      have hleaf : (f key v).hasLeaf = false :=
        Bool.eq_false_iff.2 fun h => hp (Value.isPresent_of_hasLeaf h)
      rw [hleaf, Bool.false_or, List.nil_append]

mutual

theorem hasLeaf_trimEntry (key : String) (v : Value) :
    (trimEntry key v).hasLeaf = v.hasLeaf := by
  match v with
  | .object es =>
    cases hk : Operator.ofKey? key with
    | none => rw [trimEntry_none hk]
    | some op =>
      rw [trimEntry_object hk]
      exact anyLeafEntry_trimmed fun e he => hasLeaf_trimApplied op e.1 e.2
  | .list _ | .tuple _ | .null | .bool _ | .int _ | .float _ | .text _ | .bytes _ | .date _
  | .moment _ => rw [trimEntry_plain key rfl]
termination_by (sizeOf v, 0)
decreasing_by
  have := sizeOf_snd_lt_of_mem he
  exact .left _ _ (by simp only [Value.object.sizeOf_spec]; omega)

theorem hasLeaf_trimApplied (op : Operator) (field : String) (v : Value) :
    (trimApplied op field v).hasLeaf = v.hasLeaf := by
  match v with
  | .object es =>
    by_cases ho : op = .or
    · subst ho
      rw [trimApplied_or]
      refine anyLeafEntry_trimmed fun e he => ?_
      rw [hasLeaf_trimAlternative, value_pairAlternative]
    by_cases hr : op = .relation
    · subst hr
      rw [trimApplied_relation]
      exact anyLeafEntry_trimmed fun e he => hasLeaf_trimEntry e.1 e.2
    · rw [trimApplied_plain ho hr]
  | .list _ | .tuple _ | .null | .bool _ | .int _ | .float _ | .text _ | .bytes _ | .date _
  | .moment _ => rw [trimApplied_flat op field rfl]
termination_by (sizeOf v, 0)
decreasing_by
  · have := sizeOf_snd_lt_of_mem he
    exact .left _ _ (by rw [value_pairAlternative, Value.object.sizeOf_spec]; omega)
  · have := sizeOf_snd_lt_of_mem he
    exact .left _ _ (by simp only [Value.object.sizeOf_spec]; omega)

theorem hasLeaf_trimAlternative (a : Alternative) :
    (trimAlternative a).hasLeaf = a.value.hasLeaf := by
  match a with
  | .applied op field v =>
    rw [trimAlternative]
    exact hasLeaf_trimApplied op field v
  | .listed field v => rw [trimAlternative, Alternative.value]
termination_by (sizeOf a.value, 1)

end

end Leaves

/-- A membership in an empty list, asked for by name: it is kept. -/
def Leaf.isEmptyList : Leaf → Bool
  | .applied m .within field v => v.items? == some [] && m.hasColumn field
  | _ => false

section Absent
variable (s : Schema) (m : Model) {v : Value}

theorem entryConditions_absent (key : String) (hv : v.isPresent = false) :
    entryConditions s m key v = .ok [] := by
  have hlisted : (anyOf m (.text key) []).outcome = .ok [] := rfl
  cases hi : v.items? with
  | some vs =>
    obtain rfl := Value.items_of_absent hi hv
    rw [entryConditions_list s m hi, hlisted, ite_self]
  | none =>
    cases he : v.entries? with
    | some es =>
      obtain rfl := Value.eq_empty_of_absent he hv
      cases hk : Operator.ofKey? key with
      | none => exact entryConditions_none_object s m hk []
      | some op =>
        by_cases ho : op = .or
        · subst ho
          exact entryConditions_or s m hk []
        · exact entryConditions_object s m hk ho []
    | none =>
      rw [entryConditions_plain s m key hi he, containing, hv]
      rfl

theorem alternativesUnder_absent (field : String) (hv : v.isPresent = false) :
    alternativesUnder field v = [] := by
  cases v <;> simp_all [alternativesUnder, Value.isPresent]

theorem outcome_leaf_absent {op : Operator} {field : String} (hv : v.isPresent = false)
    (h : ¬(Leaf.applied m op field v).isEmptyList) :
    (leaf m op (.text field) v).outcome = .ok [] := by
  have hcomparison (c : Comparison) : (comparison c m (.text field) v).outcome = .ok [] := by
    rw [comparison, hv]
    rfl
  cases op with
  | equal => exact hcomparison .eq
  | notEqual => exact hcomparison .ne
  | less => exact hcomparison .le
  | greater => exact hcomparison .ge
  | like =>
    change (containing m (.text field) v).outcome = _
    rw [containing, hv]
    rfl
  | range =>
    change (range m (.text field) v).outcome = _
    rw [range, hv]
    rfl
  | within =>
    change (within m (.text field) v).outcome = _
    unfold within
    cases hi : v.items? with
    | none => rfl
    | some vs =>
      obtain rfl := Value.items_of_absent hi hv
      dsimp only
      rw [membership, Reported.outcome_bind, outcome_fieldColumn]
      cases hc : m.column? field with
      | none => rfl
      | some c => exact (h (by simp [Leaf.isEmptyList, hi, Model.hasColumn, hc])).elim
  | or => rfl
  | relation => rfl

end Absent

section Below
variable {s : Schema} {m : Model} {l : Leaf}

theorem mem_entryLeaves_or {key : String} (hk : Operator.ofKey? key = some .or)
    {es : List (String × Value)} : l ∈ entryLeaves s m key (.object es) ↔
      ∃ a ∈ groupAlternatives es, l ∈ alternativeLeaves s m a := by
  rw [entryLeaves_or s m hk, List.mem_flatMap]

theorem mem_entryLeaves_object {key : String} {op : Operator} (hk : Operator.ofKey? key = some op)
    (ho : op ≠ .or) {es : List (String × Value)} : l ∈ entryLeaves s m key (.object es) ↔
      ∃ e ∈ es, l ∈ appliedLeaves s m op e.1 e.2 := by
  rw [entryLeaves_object s m hk ho, List.mem_flatMap]

theorem mem_appliedLeaves_or {field : String} {v : Value} : l ∈ appliedLeaves s m .or field v ↔
    ∃ a ∈ alternativesUnder field v, l ∈ alternativeLeaves s m a := by
  rw [appliedLeaves_or, List.mem_flatMap]

theorem mem_appliedLeaves_relation {field : String} {h : Handle}
    (hh : s.resolve? m field = some h) {es : List (String × Value)} {e : String × Value}
    (he : e ∈ es) (hleaf : (e.2.isPresent && e.2.hasLeaf) = true)
    (hl : l ∈ entryLeaves s h.target e.1 e.2) :
    l ∈ appliedLeaves s m .relation field (.object es) := by
  rw [appliedLeaves_relation, hh, List.mem_flatMap]
  exact ⟨e, he, by rwa [if_pos hleaf]⟩

end Below

section Trim
variable {s : Schema} {m : Model}

def Alternative.withValue (a : Alternative) (v : Value) : Alternative :=
  match a with
  | .applied op field _ => .applied op field v
  | .listed field _ => .listed field v

theorem withValue_pairAlternative (outer key : String) (v w : Value) :
    (pairAlternative outer key v).withValue w = pairAlternative outer key w := by
  unfold pairAlternative
  split <;> rfl

theorem trimApplied_absent (op : Operator) (field : String) {v : Value}
    (hv : v.isPresent = false) : trimApplied op field v = v := by
  cases he : v.entries? with
  | none => exact trimApplied_flat op field he
  | some es =>
    obtain rfl := Value.eq_empty_of_absent he hv
    cases op with
    | or => exact trimApplied_or field []
    | relation => exact trimApplied_relation field []
    | _ => exact trimApplied_plain (by decide) (by decide) field _

theorem trimAlternative_absent {a : Alternative} (ha : a.value.isPresent = false) :
    trimAlternative a = a.value := by
  cases a with
  | applied op field v =>
    rw [trimAlternative]
    exact trimApplied_absent op field ha
  | listed field v => rw [trimAlternative, Alternative.value]

/-- Conditions that trimming keeps are none where it leaves nothing. -/
theorem appliedConditions_absent {op : Operator} {field : String} {v : Value}
    (h : ∀ l ∈ appliedLeaves s m op field v, ¬l.isEmptyList)
    (htrim : appliedConditions s m op field (trimApplied op field v) =
      appliedConditions s m op field v)
    (hv : (trimApplied op field v).isPresent = false) :
    appliedConditions s m op field v = .ok [] := by
  by_cases ho : op = .or
  · subst ho
    rw [← htrim, appliedConditions_or, alternativesUnder_absent field hv]
    rfl
  by_cases hr : op = .relation
  · subst hr
    rw [← htrim]
    cases he : (trimApplied .relation field v).entries? with
    | none => exact appliedConditions_relation_nil s m field he
    | some es =>
      rw [Value.eq_empty_of_absent he hv, appliedConditions_relation]
      cases s.resolve? m field <;> rfl
  · rw [trimApplied_plain ho hr] at hv
    rw [appliedConditions_plain s m field v ho hr]
    refine outcome_leaf_absent m hv (h _ ?_)
    rw [appliedLeaves_plain s m ho hr]
    exact List.mem_singleton_self _

/-- Under a key the alternatives are the entries with values, each on its own. -/
theorem collect_alternativesUnder (field : String) (es : List (String × Value)) :
    collect (alternativeConditions s m) (alternativesUnder field (.object es)) =
      collect (fun e => if e.2.isPresent then
        alternativeConditions s m (pairAlternative field e.1 e.2) else .ok []) es := by
  rw [alternativesUnder, collect_map]
  refine (collect_congr fun e he => ?_).trans (collect_filter fun e _ hp => ?_)
  · exact (if_pos (List.mem_filter.1 he).2).symm
  · exact if_neg (by simp [hp])

theorem present_and_hasLeaf (v : Value) : (v.isPresent && v.hasLeaf) = v.hasLeaf := by
  cases hl : v.hasLeaf with
  | false => exact Bool.and_false _
  | true => rw [Value.isPresent_of_hasLeaf hl, Bool.and_true]

-- Trimming keeps the conditions of a payload wherever it stands; what it takes out had none.
mutual

theorem trim_entry (s : Schema) (m : Model) (key : String) (v : Value)
    (h : ∀ l ∈ entryLeaves s m key v, ¬l.isEmptyList) :
    entryConditions s m key (trimEntry key v) = entryConditions s m key v := by
  match v with
  | .object es =>
    cases hk : Operator.ofKey? key with
    | none => rw [trimEntry_none hk]
    | some op =>
      rw [trimEntry_object hk]
      by_cases ho : op = .or
      · subst ho
        have hunder (e : String × Value) (he : e ∈ es) :=
          trim_under s m e.1 e.2 fun a ha l hl =>
            h l ((mem_entryLeaves_or hk).2 ⟨a, List.mem_flatMap.2 ⟨e, he, ha⟩, hl⟩)
        rw [entryConditions_or s m hk, entryConditions_or s m hk, groupAlternatives,
          groupAlternatives, collect_flatMap, collect_flatMap]
        refine congrArg _ (collect_trimmed hunder fun e he hv => ?_)
        rw [← hunder e he, alternativesUnder_absent e.1 hv]
        rfl
      · have hleaves (e : String × Value) (he : e ∈ es) :
            ∀ l ∈ appliedLeaves s m op e.1 e.2, ¬l.isEmptyList := fun l hl =>
          h l ((mem_entryLeaves_object hk ho).2 ⟨e, he, hl⟩)
        have happlied (e : String × Value) (he : e ∈ es) :=
          trim_applied s m op e.1 e.2 (hleaves e he)
        rw [entryConditions_object s m hk ho, entryConditions_object s m hk ho]
        exact collect_trimmed happlied fun e he =>
          appliedConditions_absent (hleaves e he) (happlied e he)
  | .list _ | .tuple _ | .null | .bool _ | .int _ | .float _ | .text _ | .bytes _ | .date _
  | .moment _ => rw [trimEntry_plain key rfl]
termination_by (sizeOf v, 0)
decreasing_by
  all_goals
    have := sizeOf_snd_lt_of_mem he
    exact .left _ _ (by simp only [Value.object.sizeOf_spec]; omega)

theorem trim_applied (s : Schema) (m : Model) (op : Operator) (field : String) (v : Value)
    (h : ∀ l ∈ appliedLeaves s m op field v, ¬l.isEmptyList) :
    appliedConditions s m op field (trimApplied op field v) = appliedConditions s m op field v := by
  by_cases ho : op = .or
  · subst ho
    rw [appliedConditions_or, appliedConditions_or, trim_under s m field v fun a ha l hl =>
      h l (mem_appliedLeaves_or.2 ⟨a, ha, hl⟩)]
  by_cases hr : op = .relation
  · subst hr
    match hv : v with
    | .object es =>
      rw [trimApplied_relation, appliedConditions_relation, appliedConditions_relation]
      cases hh : s.resolve? m field with
      | none => rfl
      | some r =>
        simp only [present_and_hasLeaf]
        refine collect_trimmed (fun e he => ?_) fun e he hv => ?_
        · rw [hasLeaf_trimEntry]
          split
          · rename_i hleaf
            rw [trim_entry s r.target e.1 e.2 fun l hl =>
              h l (mem_appliedLeaves_relation hh he (by rw [present_and_hasLeaf, hleaf]) hl)]
          · rfl
        · have hleaf : e.2.hasLeaf = false := by
            rw [← hasLeaf_trimEntry e.1]
            exact Bool.eq_false_iff.2 fun hl => by simp [Value.isPresent_of_hasLeaf hl] at hv
          simp [hleaf]
    | .list _ | .tuple _ | .null | .bool _ | .int _ | .float _ | .text _ | .bytes _ | .date _
    | .moment _ => rw [trimApplied_flat .relation field rfl]
  · rw [trimApplied_plain ho hr]
termination_by (sizeOf v, 1)
decreasing_by
  · exact .right _ (by omega)
  · have := sizeOf_snd_lt_of_mem he
    exact .left _ _ (by rw [hv, Value.object.sizeOf_spec]; omega)

theorem trim_under (s : Schema) (m : Model) (field : String) (v : Value)
    (h : ∀ a ∈ alternativesUnder field v, ∀ l ∈ alternativeLeaves s m a, ¬l.isEmptyList) :
    collect (alternativeConditions s m) (alternativesUnder field (trimApplied .or field v)) =
      collect (alternativeConditions s m) (alternativesUnder field v) := by
  match v with
  | .object es =>
    rw [trimApplied_or, collect_alternativesUnder, collect_alternativesUnder]
    have halternative (e : String × Value) (he : e ∈ es) (hv : e.2.isPresent) :=
      trim_alternative s m (pairAlternative field e.1 e.2)
        (h _ (List.mem_map.2 ⟨e, List.mem_filter.2 ⟨he, hv⟩, rfl⟩))
    refine collect_trimmed (fun e he => ?_) fun e he hv => ?_
    · dsimp only
      cases hp : e.2.isPresent with
      | false =>
        rw [trimAlternative_absent (by rwa [value_pairAlternative]), value_pairAlternative, hp]
      | true =>
        obtain ⟨hkept, habsent⟩ := halternative e he hp
        rw [withValue_pairAlternative] at hkept
        cases hv : (trimAlternative (pairAlternative field e.1 e.2)).isPresent with
        | true => simpa using hkept
        | false => simpa using (habsent hv (by rwa [value_pairAlternative])).symm
    · cases hp : e.2.isPresent with
      | false => rfl
      | true => exact (halternative e he hp).2 hv (by rwa [value_pairAlternative])
  | .list _ | .tuple _ | .null | .bool _ | .int _ | .float _ | .text _ | .bytes _ | .date _
  | .moment _ => rw [trimApplied_flat .or field rfl]
termination_by (sizeOf v, 0)
decreasing_by
  have := sizeOf_snd_lt_of_mem he
  exact .left _ _ (by rw [value_pairAlternative, Value.object.sizeOf_spec]; omega)

theorem trim_alternative (s : Schema) (m : Model) (a : Alternative)
    (h : ∀ l ∈ alternativeLeaves s m a, ¬l.isEmptyList) :
    alternativeConditions s m (a.withValue (trimAlternative a)) = alternativeConditions s m a ∧
      ((trimAlternative a).isPresent = false → a.value.isPresent →
        alternativeConditions s m a = .ok []) := by
  match a with
  | .applied op field v =>
    rw [alternativeLeaves] at h
    have htrim := trim_applied s m op field v h
    rw [trimAlternative, Alternative.withValue, alternativeConditions_applied,
      alternativeConditions_applied, htrim]
    refine ⟨rfl, fun hv _ => ?_⟩
    rw [appliedConditions_absent h htrim hv]
    rfl
  | .listed field v =>
    rw [trimAlternative, Alternative.withValue]
    exact ⟨rfl, fun hv hp => by simp [Alternative.value, hv] at hp⟩
termination_by (sizeOf a.value, 2)

end

end Trim

/-- A filter compiles to the same conditions without its absent values, unless an empty list is
asked for by `within`; where nothing is left, there are none. -/
theorem outcome_trim {s : Schema} {m : Model} {es : List (String × Value)}
    (h : (leaves s m es).any Leaf.isEmptyList = false) :
    (compileAll s m (trim es)).outcome = (compileAll s m es).outcome ∧
      (trim es = [] → (compileAll s m es).outcome = .ok []) := by
  have htrim : (compileAll s m (trim es)).outcome = (compileAll s m es).outcome := by
    rw [outcome_compileAll, outcome_compileAll]
    have hentry (e : String × Value) (he : e ∈ es) :=
      trim_entry s m e.1 e.2 fun l hl =>
        List.any_eq_false.1 h l (List.mem_flatMap.2 ⟨e, he, hl⟩)
    refine collect_trimmed hentry fun e he hv => ?_
    rw [← hentry e he, entryConditions_absent s m e.1 hv]
  refine ⟨htrim, fun hempty => ?_⟩
  rw [← htrim, hempty]
  rfl

/-- Active authors rated nothing, as a form with most of its fields left empty sends it. -/
def mostlyEmpty : List (String × Value) :=
  [("equal", .object [("name", .text ""), ("rating", .int 0), ("active", .text "yes")]),
    ("or", .object [("like", .object [("country", .null)]),
      ("status", .object [("equal", .text "")])]),
    ("relation", .object [("books", .object [("equal", .object [("title", .text "")])])]),
    ("within", .object [("id", .list [.int 4, .null]), ("nope", .list [])]), ("name", .text "")]

theorem outcome_trim_mostlyEmpty :
    trim mostlyEmpty = [("equal", .object [("rating", .int 0), ("active", .text "yes")]),
      ("within", .object [("id", .list [.int 4, .null])])] ∧
    (compileAll Library.schema Library.author (trim mostlyEmpty)).outcome =
      (compileAll Library.schema Library.author mostlyEmpty).outcome ∧
    (compileAll Library.schema Library.author [("name", .text "")]).outcome = .ok [] :=
  ⟨by cbv, (outcome_trim (by cbv)).1,
    (@outcome_trim _ _ [("name", .text "")] (by cbv)).2 (by cbv)⟩

theorem Demand.isMet_all (ds : List Demand) (r : Row) :
    (Demand.all ds).isMet r = ds.all (·.isMet r) := by
  induction ds with
  | nil => rfl
  | cons d ds ih =>
    rw [List.all_cons, ← ih]
    exact Demand.isMet_and ..

/-- No row satisfies a filter that asks for an empty list by `within`. -/
theorem allHold_empty_list {s : Schema} {m : Model} {es fs : List (String × Value)}
    {field : String} {v : Value} (hes : ("within", .object fs) ∈ es) (hfs : (field, v) ∈ fs)
    (hv : (Leaf.applied m .within field v).isEmptyList = true) {ps : List Predicate}
    (hps : (compileAll s m es).outcome = .ok ps) (st : Store) (r : Row) :
    Predicate.allHold st r ps = false := by
  obtain ⟨hitems, hc⟩ : v.items? = some [] ∧ (m.column? field).isSome := by
    simpa [Leaf.isEmptyList, Model.hasColumn] using hv
  obtain ⟨c, hc⟩ := Option.isSome_iff_exists.1 hc
  have hkey : Operator.ofKey? "within" = some .within := by decide
  rw [allHold_compileAll hps, isWanted, List.all_eq_false]
  refine ⟨_, hes, ?_⟩
  rw [entryDemand_object s st m hkey (by decide), Demand.isMet_all, Bool.not_eq_true,
    List.all_eq_false]
  refine ⟨_, List.mem_map_of_mem hfs, ?_⟩
  dsimp only
  rw [appliedDemand_plain s st m field v (by decide) (by decide), plainDemand, hitems]
  simp [listed, hc, membershipParameters, Demand.isMet]

example : (compileAll Library.schema Library.author
    [("within", .object [("id", .list [])])]).outcome =
      .ok [.among ⟨"author", idColumn⟩ []] := rfl

end Filter

end Records
