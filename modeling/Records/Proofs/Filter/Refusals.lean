import Records.Proofs.Filter.Usable

/-!
Which filters cannot be compiled: those with a leaf that is refused, in the order of the walk. Two
kinds are: a boolean that is compared by order, and a collection beside a null in a membership.
-/
namespace Records

/-- The error of a computation, if it fails. -/
def failure? {ε α : Type} : Except ε α → Option ε
  | .error e => some e
  | .ok _ => none

section Failure
variable {ε α β : Type}

theorem failure?_eq_some {x : Except ε α} {e : ε} : failure? x = some e ↔ x = .error e := by
  cases x <;> simp [failure?]

theorem failure?_map (f : α → β) (x : Except ε α) : failure? (x.map f) = failure? x := by
  cases x <;> rfl

/-- A walk fails as the first of its steps that does. -/
theorem failure?_collect (f : α → Except ε (List β)) (xs : List α) :
    failure? (collect f xs) = xs.findSome? fun x => failure? (f x) := by
  induction xs with
  | nil => rfl
  | cons x xs ih =>
    rw [List.findSome?_cons, ← ih, collect]
    cases f x with
    | error e => rfl
    | ok ys => cases collect f xs <;> rfl

end Failure

theorem findSome?_flatMap {α β γ : Type} (f : β → Option γ) (g : α → List β) (xs : List α) :
    (xs.flatMap g).findSome? f = xs.findSome? fun x => (g x).findSome? f := by
  induction xs with
  | nil => rfl
  | cons x xs ih =>
    rw [List.flatMap_cons, List.findSome?_append, ih, List.findSome?_cons]
    cases (g x).findSome? f <;> rfl

theorem findSome?_congr {α β : Type} {f g : α → Option β} {xs : List α}
    (h : ∀ x ∈ xs, f x = g x) : xs.findSome? f = xs.findSome? g := by
  induction xs with
  | nil => rfl
  | cons x xs ih =>
    rw [List.findSome?_cons, List.findSome?_cons, h x (List.mem_cons_self ..),
      ih fun y hy => h y (List.mem_cons_of_mem x hy)]

namespace Filter

/-- The value that a comparison compares a column with, if it does. -/
def coerced? (m : Model) (field : String) (v : Value) : Option Value :=
  if v.isPresent then (m.column? field).bind fun c => coerceValue? c.kind v else none

/-- Why a value is refused by an ordered comparison. -/
def orderRefusal? (m : Model) (field : String) (v : Value) : Option CompileError :=
  match coerced? m field v with
  | some (.bool _) => some .orderedBoolean
  | _ => none

/-- Why a list of values is refused by a membership. -/
def listRefusal? (m : Model) (field : String) (vs : List Value) : Option CompileError :=
  if m.hasColumn field && vs.contains .null then (firstUnhashable? vs).map .unhashable else none

/-- Why a leaf is refused, if it is. -/
def Leaf.refusal? : Leaf → Option CompileError
  | .applied m .less field v => orderRefusal? m field v
  | .applied m .greater field v => orderRefusal? m field v
  | .applied m .within field v => v.items?.bind (listRefusal? m field)
  | .applied _ _ _ _ => none
  | .listed m field vs => listRefusal? m field vs

section Leaf
variable {m : Model} {field : String} {v : Value}

theorem failure?_membership (vs : List Value) :
    failure? (membership m (.text field) vs).outcome = listRefusal? m field vs := by
  rw [membership, Reported.outcome_bind, outcome_fieldColumn, listRefusal?, Model.hasColumn]
  cases m.column? field with
  | none => rfl
  | some c =>
    change failure? (membershipPredicate ⟨m.table, c⟩ vs).outcome = _
    unfold membershipPredicate
    cases vs.contains .null with
    | false => rfl
    | true => cases firstUnhashable? vs <;> rfl

theorem failure?_anyOf (vs : List Value) :
    failure? (anyOf m (.text field) vs).outcome = listRefusal? m field vs := by
  unfold anyOf
  cases vs with
  | nil => simp [listRefusal?, failure?]
  | cons v vs => exact failure?_membership (v :: vs)

theorem failure?_comparison (op : Comparison) :
    failure? (comparison op m (.text field) v).outcome =
      if op.isOrdered then orderRefusal? m field v else none := by
  unfold comparison orderRefusal? coerced?
  by_cases hv : v.isPresent = true
  · simp only [hv, Bool.not_true, Bool.false_eq_true, if_false, if_true, Reported.outcome_bind,
      outcome_fieldColumn, Except.bind]
    cases m.column? field with
    | none => simp [failure?]
    | some c =>
      simp only [Reported.outcome_bind, outcome_coerce, Except.bind, Option.bind_some]
      cases coerceValue? c.kind v with
      | none => cases op.isOrdered <;> rfl
      | some w => cases op.isOrdered <;> cases w <;> rfl
  · simp [hv, failure?]

theorem failure?_containing : failure? (containing m (.text field) v).outcome = none := by
  unfold containing
  split
  · rfl
  · rw [Reported.outcome_bind, outcome_fieldColumn]
    cases m.column? field <;> rfl

theorem failure?_range : failure? (range m (.text field) v).outcome = none := by
  unfold range
  split
  · rfl
  · split
    · rfl
    · split
      · rfl
      · simp only [Reported.outcome_bind, outcome_fieldColumn, Except.bind]
        cases m.column? field with
        | none => rfl
        | some c =>
          simp only [Reported.outcome_bind, outcome_coerce, Except.bind]
          split <;> rfl

theorem failure?_leaf (op : Operator) :
    failure? (leaf m op (.text field) v).outcome = (Leaf.applied m op field v).refusal? := by
  cases op with
  | equal => exact failure?_comparison .eq
  | notEqual => exact failure?_comparison .ne
  | less => exact failure?_comparison .le
  | greater => exact failure?_comparison .ge
  | like => exact failure?_containing
  | range => exact failure?_range
  | within =>
    change failure? (within m (.text field) v).outcome = v.items?.bind (listRefusal? m field)
    unfold within
    cases v.items? with
    | none => rfl
    | some vs => exact failure?_membership vs
  | or => rfl
  | relation => rfl

theorem findSome?_listed (m : Model) (field : String) (vs : List Value) :
    [Leaf.listed m field vs].findSome? Leaf.refusal? = listRefusal? m field vs := by
  rw [List.findSome?_singleton, Leaf.refusal?]

theorem failure?_listed {key : String} {vs : List Value} :
    failure? (if Operator.ofKey? key = none then (anyOf m (.text key) vs).outcome else .ok []) =
      (if Operator.ofKey? key = none then [Leaf.listed m key vs] else []).findSome?
        Leaf.refusal? := by
  split
  · rw [failure?_anyOf, findSome?_listed]
  · rfl

end Leaf

-- Conditions and leaves recurse on the same payloads, in the same order, so the first condition to
-- fail is that of the first leaf that is refused.
mutual

theorem failure?_entry (s : Schema) (m : Model) (key : String) (v : Value) :
    failure? (entryConditions s m key v) = (entryLeaves s m key v).findSome? Leaf.refusal? := by
  match v with
  | .object es =>
    cases hk : Operator.ofKey? key with
    | none =>
      rw [entryConditions_none_object s m hk, entryLeaves_none_object s m hk, failure?_anyOf,
        findSome?_listed]
    | some op =>
      by_cases ho : op = .or
      · subst ho
        rw [entryConditions_or s m hk, entryLeaves_or s m hk, failure?_map, failure?_collect,
          findSome?_flatMap]
        exact findSome?_congr fun a ha => failure?_alternative s m a
      · rw [entryConditions_object s m hk ho, entryLeaves_object s m hk ho, failure?_collect,
          findSome?_flatMap]
        exact findSome?_congr fun e he => failure?_applied s m op e.1 e.2
  | .list vs =>
    rw [entryConditions_list s m rfl, entryLeaves_list s m key rfl]
    exact failure?_listed
  | .tuple vs =>
    rw [entryConditions_list s m rfl, entryLeaves_list s m key rfl]
    exact failure?_listed
  | .null | .bool _ | .int _ | .float _ | .text _ | .bytes _ | .date _ | .moment _ =>
    rw [entryConditions_plain s m key rfl rfl, entryLeaves_plain s m key rfl rfl]
    exact failure?_containing
termination_by (sizeOf v, 0)
decreasing_by
  · have := sizeOf_value_lt_of_mem_groupAlternatives ha
    exact .left _ _ (by simp only [Value.object.sizeOf_spec]; omega)
  · have := sizeOf_snd_lt_of_mem he
    exact .left _ _ (by simp only [Value.object.sizeOf_spec]; omega)

theorem failure?_applied (s : Schema) (m : Model) (op : Operator) (field : String) (v : Value) :
    failure? (appliedConditions s m op field v) =
      (appliedLeaves s m op field v).findSome? Leaf.refusal? := by
  by_cases ho : op = .or
  · subst ho
    rw [appliedConditions_or, appliedLeaves_or, failure?_map, failure?_collect, findSome?_flatMap]
    exact findSome?_congr fun a ha => failure?_alternative s m a
  by_cases hr : op = .relation
  · subst hr
    match v with
    | .object es =>
      rw [appliedConditions_relation, appliedLeaves_relation]
      cases s.resolve? m field with
      | none => rfl
      | some h =>
        dsimp only
        rw [failure?_collect, findSome?_flatMap]
        refine findSome?_congr fun e he => ?_
        split
        · rw [failure?_map, failure?_entry s h.target e.1 e.2]
        · rfl
    | .list _ | .tuple _ | .null | .bool _ | .int _ | .float _ | .text _ | .bytes _ | .date _
    | .moment _ =>
      rw [appliedConditions_relation_nil s m field rfl, appliedLeaves_relation_flat s m field rfl]
      rfl
  · rw [appliedConditions_plain s m field v ho hr, appliedLeaves_plain s m ho hr, failure?_leaf,
      List.findSome?_singleton]
termination_by (sizeOf v, 0)
decreasing_by
  · exact .left _ _ (sizeOf_value_lt_of_mem_alternativesUnder ha)
  · have := sizeOf_snd_lt_of_mem he
    exact .left _ _ (by simp only [Value.object.sizeOf_spec]; omega)

theorem failure?_alternative (s : Schema) (m : Model) (a : Alternative) :
    failure? (alternativeConditions s m a) =
      (alternativeLeaves s m a).findSome? Leaf.refusal? := by
  match a with
  | .applied op field v =>
    rw [alternativeConditions_applied, alternativeLeaves, failure?_map,
      failure?_applied s m op field v]
  | .listed field v =>
    rw [alternativeConditions_listed, alternativeLeaves, failure?_map, failure?_anyOf,
      findSome?_listed]
termination_by (sizeOf a.value, 1)

end

/-- Compiling fails as the first leaf that is refused. -/
theorem failure?_compileAll (s : Schema) (m : Model) (es : List (String × Value)) :
    failure? (compileAll s m es).outcome = (leaves s m es).findSome? Leaf.refusal? := by
  rw [outcome_compileAll, failure?_collect, leaves, findSome?_flatMap]
  exact findSome?_congr fun e _ => failure?_entry s m e.1 e.2

/-- A boolean stands beside an ordered comparison with a column. -/
def Leaf.OrdersBoolean : Leaf → Prop
  | .applied m op field v => (op = .less ∨ op = .greater) ∧ ∃ b, coerced? m field v = some (.bool b)
  | .listed _ _ _ => False

/-- A null and a collection are listed for a column. -/
def MixesNull (m : Model) (field : String) (vs : List Value) : Prop :=
  m.hasColumn field ∧ .null ∈ vs ∧ firstUnhashable? vs ≠ none

/-- A membership lists a null and a collection. -/
def Leaf.MixesNull : Leaf → Prop
  | .applied m op field v =>
    op = .within ∧ ∃ vs, v.items? = some vs ∧ Filter.MixesNull m field vs
  | .listed m field vs => Filter.MixesNull m field vs

theorem orderRefusal?_eq_some {m : Model} {field : String} {v : Value} {e : CompileError} :
    orderRefusal? m field v = some e ↔
      e = .orderedBoolean ∧ ∃ b, coerced? m field v = some (.bool b) := by
  unfold orderRefusal?
  split
  · rename_i b h
    rw [h]
    exact ⟨fun he => ⟨(Option.some.inj he).symm, b, rfl⟩, fun he => by rw [he.1]⟩
  · rename_i h
    exact ⟨nofun, fun ⟨_, b, hb⟩ => absurd hb (h b)⟩

theorem listRefusal?_eq_some {m : Model} {field : String} {vs : List Value} {e : CompileError} :
    listRefusal? m field vs = some e ↔ MixesNull m field vs ∧
      ∃ typeName, firstUnhashable? vs = some typeName ∧ e = .unhashable typeName := by
  unfold listRefusal? MixesNull
  by_cases h : (m.hasColumn field && vs.contains .null) = true
  · obtain ⟨hc, hnull⟩ := Bool.and_eq_true_iff.1 h
    rw [if_pos h, Option.map_eq_some_iff]
    constructor
    · rintro ⟨typeName, ht, rfl⟩
      exact ⟨⟨hc, List.contains_iff_mem.1 hnull, by rw [ht]; nofun⟩, typeName, ht, rfl⟩
    · rintro ⟨-, typeName, ht, rfl⟩
      exact ⟨typeName, ht, rfl⟩
  · rw [if_neg h]
    refine ⟨nofun, fun hm => (h ?_).elim⟩
    exact Bool.and_eq_true_iff.2 ⟨hm.1.1, List.contains_iff_mem.2 hm.1.2.1⟩

theorem Leaf.refusal?_eq_some {l : Leaf} {e : CompileError} (h : l.refusal? = some e) :
    e = .orderedBoolean ∧ l.OrdersBoolean ∨ l.MixesNull := by
  unfold Leaf.refusal? at h
  split at h
  · obtain ⟨he, hb⟩ := orderRefusal?_eq_some.1 h
    exact .inl ⟨he, .inl rfl, hb⟩
  · obtain ⟨he, hb⟩ := orderRefusal?_eq_some.1 h
    exact .inl ⟨he, .inr rfl, hb⟩
  · obtain ⟨vs, hvs, hlist⟩ := Option.bind_eq_some_iff.1 h
    exact .inr ⟨rfl, vs, hvs, (listRefusal?_eq_some.1 hlist).1⟩
  · cases h
  · exact .inr (listRefusal?_eq_some.1 h).1

theorem Leaf.refusal?_of_ordersBoolean {l : Leaf} (h : l.OrdersBoolean) :
    l.refusal? = some .orderedBoolean := by
  cases l with
  | listed => cases h
  | applied m op field v =>
    obtain ⟨rfl | rfl, hb⟩ := h
    · exact orderRefusal?_eq_some.2 ⟨rfl, hb⟩
    · exact orderRefusal?_eq_some.2 ⟨rfl, hb⟩

theorem Leaf.refusal?_of_mixesNull {l : Leaf} (h : l.MixesNull) : ∃ e, l.refusal? = some e := by
  have hlist {m : Model} {field : String} {vs : List Value} (h : Filter.MixesNull m field vs) :
      ∃ e, listRefusal? m field vs = some e := by
    obtain ⟨typeName, ht⟩ := Option.ne_none_iff_exists'.1 h.2.2
    exact ⟨_, listRefusal?_eq_some.2 ⟨h, typeName, ht, rfl⟩⟩
  cases l with
  | listed m field vs => exact hlist h
  | applied m op field v =>
    obtain ⟨rfl, vs, hvs, h⟩ := h
    obtain ⟨e, he⟩ := hlist h
    exact ⟨e, by rw [Leaf.refusal?, hvs, Option.bind_some, he]⟩

example : (compileAll Library.schema Library.author
    [("less", .object [("active", .text "yes")])]).outcome = .error .orderedBoolean := rfl

end Filter

end Records
