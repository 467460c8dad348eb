import Records.Proofs.Filter.Absent
import Records.Proofs.Filter.Refusals

/-!
Collections among the values of a filter. No column holds one and no statement binds one, so that
one may stand for another: the same rows are wanted, and the same filters fail. A list of values may
be put in another order as long as they are written as before.
-/
namespace Records.Filter

/-- Whether a value is an object or a list. -/
def IsCollection (v : Value) : Prop := (∃ es, v = .object es) ∨ ∃ xs, v = .list xs

/-- What reordering leaves alone: which of the two a value is, and whether it counts. -/
structure Similar (v w : Value) : Prop where
  collections : (∃ es fs, v = .object es ∧ w = .object fs) ∨ ∃ xs ys, v = .list xs ∧ w = .list ys
  present : v.isPresent = w.isPresent
  leaf : v.hasLeaf = w.hasLeaf

section Collections
variable {m : Model} {field : String} {v w : Value}

theorem Similar.left (h : Similar v w) : IsCollection v := by
  rcases h.collections with ⟨es, _, rfl, -⟩ | ⟨xs, _, rfl, -⟩
  · exact .inl ⟨es, rfl⟩
  · exact .inr ⟨xs, rfl⟩

theorem Similar.right (h : Similar v w) : IsCollection w := by
  rcases h.collections with ⟨_, fs, -, rfl⟩ | ⟨_, ys, -, rfl⟩
  · exact .inl ⟨fs, rfl⟩
  · exact .inr ⟨ys, rfl⟩

theorem Similar.codec_eq (h : Similar v w) (k : Kind) : Codec.ofValue k v = Codec.ofValue k w := by
  rcases h.collections with ⟨_, _, rfl, rfl⟩ | ⟨_, _, rfl, rfl⟩ <;> rfl

namespace IsCollection

theorem ne_null (h : IsCollection v) : v ≠ .null := by
  rcases h with ⟨_, rfl⟩ | ⟨_, rfl⟩ <;> nofun

theorem coerceValue?_eq (h : IsCollection v) (k : Kind) : coerceValue? k v = some v := by
  rcases h with ⟨_, rfl⟩ | ⟨_, rfl⟩ <;> rfl

theorem comparisonParameter_eq (h : IsCollection v) (f : Field) :
    comparisonParameter f v = ⟨Codec.ofValue f.column.kind v, v⟩ := by
  rcases h with ⟨_, rfl⟩ | ⟨_, rfl⟩ <;> rfl

theorem unhashableType?_ne_none (h : IsCollection v) : unhashableType? v ≠ none := by
  rcases h with ⟨_, rfl⟩ | ⟨_, rfl⟩ <;> nofun

theorem not_bindable (h : IsCollection v) (c : Codec) : ¬ Parameter.Bindable ⟨c, v⟩ := by
  refine not_bindable_collection ?_
  rcases h with ⟨_, rfl⟩ | ⟨_, rfl⟩
  · exact .inr nofun
  · exact .inl nofun

/-- Nothing compares with a collection. -/
theorem compareHolds_eq (h : IsCollection v) (f : Field) (op : Comparison) (c : Codec) (r : Row) :
    Predicate.compareHolds f op ⟨c, v⟩ r = false := by
  have hcell : (Parameter.cell ⟨c, v⟩).toOption = none := by
    cases hcell : Parameter.cell ⟨c, v⟩ with
    | error e => rfl
    | ok cell => exact (h.not_bindable c ⟨cell, hcell⟩).elim
  have hcompared : comparedCell f ⟨c, v⟩ = .null := by
    rw [comparedCell, hcell]
    rfl
  have hnull : Cell.compare? (r.cell f.column.name) .null = none := by
    cases r.cell f.column.name <;> rfl
  rw [Predicate.compareHolds, hcompared, hnull]

theorem compared_eq (h : IsCollection v) (op : Comparison) :
    compared m op field v = (m.column? field).map fun _ _ => false := by
  unfold compared
  cases m.column? field with
  | none => rfl
  | some c =>
    simp only [Option.bind_eq_bind, Option.bind_some, h.coerceValue?_eq, h.comparisonParameter_eq]
    exact congrArg some (funext fun r => h.compareHolds_eq _ op _ r)

theorem canCompare_iff (h : IsCollection v) (op : Comparison) :
    CanCompare m op field v ↔ (v.isPresent → m.column? field = none) := by
  unfold CanCompare
  refine forall_congr' fun _ => ?_
  cases m.column? field with
  | none => exact iff_of_true nofun rfl
  | some c =>
    refine iff_of_false (fun hc => ?_) nofun
    have hbind := (hc c rfl v (h.coerceValue?_eq c.kind)).2
    rw [h.comparisonParameter_eq] at hbind
    exact h.not_bindable _ hbind

theorem orderRefusal?_eq (h : IsCollection v) : orderRefusal? m field v = none := by
  unfold orderRefusal? coerced?
  split
  · rename_i b hb
    split at hb
    · obtain ⟨c, -, hw⟩ := Option.bind_eq_some_iff.1 hb
      rw [h.coerceValue?_eq] at hw
      rcases h with ⟨_, rfl⟩ | ⟨_, rfl⟩ <;> cases hw
    · cases hb
  · rfl

end IsCollection

end Collections

section Lists
variable {m : Model} {field : String} {v w : Value} {xs ys : List Value}

/-- A collection in a list is bound by nothing, so that another may take its place. -/
theorem membershipParameters_item (h : Similar v w) (xs ys : List Value) (f : Field) :
    ∃ before codec after, membershipParameters f (xs ++ v :: ys) = before ++ ⟨codec, v⟩ :: after ∧
      membershipParameters f (xs ++ w :: ys) = before ++ ⟨codec, w⟩ :: after := by
  have hnull : (xs ++ v :: ys).contains .null = (xs ++ w :: ys).contains .null := by
    simp [List.contains_eq_mem, h.left.ne_null.symm, h.right.ne_null.symm]
  have hfirst : Codec.ofValue f.column.kind ((xs ++ v :: ys).headD .null) =
      Codec.ofValue f.column.kind ((xs ++ w :: ys).headD .null) := by
    cases xs with
    | nil => exact h.codec_eq _
    | cons x xs => rfl
  unfold membershipParameters
  rw [hnull, hfirst]
  simp only [List.map_append, List.map_cons, h.codec_eq]
  exact ⟨_, _, _, rfl, rfl⟩

theorem listed_item (h : Similar v w) (xs ys : List Value) :
    listed m field (xs ++ v :: ys) = listed m field (xs ++ w :: ys) := by
  unfold listed
  cases m.column? field with
  | none => rfl
  | some c =>
    obtain ⟨before, codec, after, hv, hw⟩ := membershipParameters_item h xs ys ⟨m.table, c⟩
    refine congrArg some (funext fun r => ?_)
    rw [hv, hw]
    simp only [List.any_append, List.any_cons, h.left.compareHolds_eq,
      h.right.compareHolds_eq]

theorem canList_item (h : Similar v w) :
    CanList m field (xs ++ v :: ys) ↔ CanList m field (xs ++ w :: ys) := by
  unfold CanList
  refine forall₂_congr fun c _ => ?_
  obtain ⟨before, codec, after, hv, hw⟩ := membershipParameters_item h xs ys ⟨m.table, c⟩
  rw [hv, hw]
  refine iff_of_false (fun hc => ?_) fun hc => ?_
  · exact h.left.not_bindable codec (hc.2 _ (List.mem_append_right _ (List.mem_cons_self ..)))
  · exact h.right.not_bindable codec (hc.2 _ (List.mem_append_right _ (List.mem_cons_self ..)))

theorem firstUnhashable?_eq_none {vs : List Value} :
    firstUnhashable? vs = none ↔ ∀ x ∈ vs, unhashableType? x = none := by
  induction vs with
  | nil => simp [firstUnhashable?]
  | cons x vs ih => rw [firstUnhashable?, Option.or_eq_none_iff, ih, List.forall_mem_cons]

theorem listRefusal?_eq_none {vs : List Value} : listRefusal? m field vs = none ↔
    (m.hasColumn field → .null ∈ vs → ∀ x ∈ vs, unhashableType? x = none) := by
  rw [← firstUnhashable?_eq_none, Option.eq_none_iff_forall_ne_some]
  constructor
  · intro h hc hnull
    by_contra hne
    obtain ⟨typeName, ht⟩ := Option.ne_none_iff_exists'.1 hne
    exact h _ (listRefusal?_eq_some.2 ⟨⟨hc, hnull, hne⟩, typeName, ht, rfl⟩)
  · intro h e he
    obtain ⟨hc, hnull, hne⟩ := (listRefusal?_eq_some.1 he).1
    exact hne (h hc hnull)

theorem listRefusal?_item (h : Similar v w) : listRefusal? m field (xs ++ v :: ys) = none ↔
    listRefusal? m field (xs ++ w :: ys) = none := by
  have hnull : .null ∈ xs ++ v :: ys ↔ .null ∈ xs ++ w :: ys := by
    simp [h.left.ne_null.symm, h.right.ne_null.symm]
  have hrefused {x : Value} (hx : IsCollection x) :
      ¬ ∀ y ∈ xs ++ x :: ys, unhashableType? y = none := fun hall =>
    hx.unhashableType?_ne_none (hall x (List.mem_append_right _ (List.mem_cons_self ..)))
  rw [listRefusal?_eq_none, listRefusal?_eq_none, hnull, iff_false_intro (hrefused h.left),
    iff_false_intro (hrefused h.right)]

section Perm
variable {vs ws : List Value}

/-- Reordering the values of a membership reorders its parameters, if all are written as before. -/
theorem membershipParameters_perm (h : vs.Perm ws) (f : Field)
    (hcodec : .null ∈ vs ∨ Codec.ofValue f.column.kind (vs.headD .null) =
      Codec.ofValue f.column.kind (ws.headD .null)) :
    (membershipParameters f vs).Perm (membershipParameters f ws) := by
  have hnull : vs.contains .null = ws.contains .null := h.contains_eq
  unfold membershipParameters
  rw [← hnull]
  refine (h.map _).trans (List.Perm.of_eq (List.map_congr_left fun v _ => ?_))
  rcases hcodec with hmem | hcodec
  · simp only [List.contains_iff_mem.2 hmem, if_true]
  · dsimp only
    rw [hcodec]

variable (h : vs.Perm ws)
  (hcodec : ∀ c, m.column? field = some c → .null ∈ vs ∨
    Codec.ofValue c.kind (vs.headD .null) = Codec.ofValue c.kind (ws.headD .null))
include h

include hcodec in
theorem listed_perm : listed m field vs = listed m field ws := by
  unfold listed
  cases hc : m.column? field with
  | none => rfl
  | some c =>
    refine congrArg some (funext fun r => ?_)
    exact (membershipParameters_perm h ⟨m.table, c⟩ (hcodec c hc)).any_eq

include hcodec in
theorem canList_perm : CanList m field vs ↔ CanList m field ws := by
  unfold CanList
  refine forall₂_congr fun c hc => and_congr ?_ ?_
  · rw [firstUnhashable?_eq_none, firstUnhashable?_eq_none, h.mem_iff]
    exact imp_congr_right fun _ => forall_congr' fun _ => by rw [h.mem_iff]
  · exact forall_congr' fun _ => by
      rw [(membershipParameters_perm h ⟨m.table, c⟩ (hcodec c hc)).mem_iff]

theorem listRefusal?_perm : listRefusal? m field vs = none ↔ listRefusal? m field ws = none := by
  rw [listRefusal?_eq_none, listRefusal?_eq_none, h.mem_iff]
  exact imp_congr_right fun _ => imp_congr_right fun _ => forall_congr' fun _ => by rw [h.mem_iff]

end Perm

end Lists

/-- Two leaves fail together, while the filter is compiled and when it is run. -/
def Leaf.FailsAs (l l' : Leaf) : Prop :=
  (l.Usable ↔ l'.Usable) ∧ (l.refusal? = none ↔ l'.refusal? = none)

theorem Leaf.failsAs_refl (l : Leaf) : l.FailsAs l := ⟨Iff.rfl, Iff.rfl⟩

section Plain
variable {m : Model} {op : Operator} {field : String}

/-- An operator asks the same of a column with a value reordered, and fails alike. -/
structure AppliedAlike (m : Model) (op : Operator) (field : String) (v w : Value) : Prop where
  demand : plainDemand m op field v = plainDemand m op field w
  fails : (Leaf.applied m op field v).FailsAs (.applied m op field w)

theorem appliedAlike_comparison {v w : Value} (h : Similar v w) {op : Operator}
    (hop : op = .equal ∨ op = .notEqual ∨ op = .less ∨ op = .greater) :
    AppliedAlike m op field v w := by
  have hcompare (cmp : Comparison) :
      CanCompare m cmp field v ↔ CanCompare m cmp field w := by
    rw [h.left.canCompare_iff, h.right.canCompare_iff, h.present]
  have horder : orderRefusal? m field v = none ↔ orderRefusal? m field w = none := by
    rw [h.left.orderRefusal?_eq, h.right.orderRefusal?_eq]
  rcases hop with rfl | rfl | rfl | rfl
  · refine ⟨?_, hcompare _, Iff.rfl⟩
    simp only [plainDemand, h.present, h.left.compared_eq, h.right.compared_eq]
  · refine ⟨?_, hcompare _, Iff.rfl⟩
    simp only [plainDemand, h.present, h.left.compared_eq, h.right.compared_eq]
  · refine ⟨?_, hcompare _, horder⟩
    simp only [plainDemand, h.present, h.left.compared_eq, h.right.compared_eq]
  · refine ⟨?_, hcompare _, horder⟩
    simp only [plainDemand, h.present, h.left.compared_eq, h.right.compared_eq]

theorem appliedAlike_like {v w : Value} (hc : m.column? field = none) :
    AppliedAlike m .like field v w := by
  refine ⟨?_, Iff.rfl, Iff.rfl⟩
  simp [plainDemand, contains, hc]

section Range
variable {v w : Value} (h : Similar v w) (x : Value)
include h

theorem lies_low : lies m field v x = lies m field w x := by
  unfold lies
  cases m.column? field with
  | none => rfl
  | some c =>
    simp only [Option.bind_eq_bind, Option.bind_some, h.left.coerceValue?_eq,
      h.right.coerceValue?_eq]
    cases coerceValue? c.kind x with
    | none => rfl
    | some x =>
      refine congrArg some (funext fun r => ?_)
      rw [h.left.compareHolds_eq, h.right.compareHolds_eq]

theorem lies_high : lies m field x v = lies m field x w := by
  unfold lies
  cases m.column? field with
  | none => rfl
  | some c =>
    simp only [Option.bind_eq_bind, Option.bind_some, h.left.coerceValue?_eq,
      h.right.coerceValue?_eq]
    cases coerceValue? c.kind x with
    | none => rfl
    | some x =>
      refine congrArg some (funext fun r => ?_)
      rw [h.left.compareHolds_eq, h.right.compareHolds_eq]

theorem canLie_low : CanLie m field v x ↔ CanLie m field w x := by
  unfold CanLie
  rw [h.present]
  simp only [h.left.coerceValue?_eq, h.right.coerceValue?_eq, Option.some.injEq, forall_eq',
    iff_false_intro (h.left.not_bindable _), iff_false_intro (h.right.not_bindable _)]

theorem canLie_high : CanLie m field x v ↔ CanLie m field x w := by
  unfold CanLie
  rw [h.present]
  simp only [h.left.coerceValue?_eq, h.right.coerceValue?_eq, Option.some.injEq, forall_eq',
    iff_false_intro (h.left.not_bindable _), iff_false_intro (h.right.not_bindable _)]

end Range

theorem bounds?_of_length {vs : List Value} (h : vs.length ≠ 2) (name : Value) :
    bounds? name (.list vs) = none := by
  unfold bounds?
  split
  · rename_i hitems
    cases hitems
    exact (h rfl).elim
  · rfl

theorem bounds?_pair (low high : Value) :
    bounds? (.text field) (.list [low, high]) =
      if isTimestampField (.text field) then some (low, high) else none := by
  unfold bounds?
  cases isTimestampField (.text field) <;> rfl

theorem appliedAlike_range {v w : Value}
    (h : bounds? (.text field) v = none ∧ bounds? (.text field) w = none ∨
      ∃ low high low' high', bounds? (.text field) v = some (low, high) ∧
        bounds? (.text field) w = some (low', high') ∧ low.isPresent = low'.isPresent ∧
        high.isPresent = high'.isPresent ∧ lies m field low high = lies m field low' high' ∧
        (CanLie m field low high ↔ CanLie m field low' high')) :
    AppliedAlike m .range field v w := by
  have husable {v : Value} : (Leaf.applied m .range field v).Usable ↔
      ∀ b, bounds? (.text field) v = some b → CanLie m field b.1 b.2 := Iff.rfl
  rcases h with ⟨hv, hw⟩ | ⟨low, high, low', high', hv, hw, hlow, hhigh, hlies, hcan⟩
  · refine ⟨by rw [plainDemand_range, plainDemand_range, hv, hw], ?_, Iff.rfl⟩
    rw [husable, husable, hv, hw]
  · refine ⟨?_, ?_, Iff.rfl⟩
    · rw [plainDemand_range, plainDemand_range, hv, hw]
      dsimp only
      rw [hlow, hhigh, hlies]
    · rw [husable, husable, hv, hw]
      simp only [Option.some.injEq, forall_eq', hcan]

theorem appliedAlike_range_item {v w : Value} (h : Similar v w) (xs ys : List Value) :
    AppliedAlike m .range field (.list (xs ++ v :: ys)) (.list (xs ++ w :: ys)) := by
  refine appliedAlike_range ?_
  by_cases hlength : xs.length + ys.length = 1
  · cases ht : isTimestampField (.text field) with
    | false =>
      refine .inl ⟨?_, ?_⟩ <;> unfold bounds? <;> rw [ht]
    | true =>
      right
      have hbounds (low high : Value) :
          bounds? (.text field) (.list [low, high]) = some (low, high) := by
        rw [bounds?_pair, ht, if_pos rfl]
      cases xs with
      | nil =>
        obtain ⟨x, rfl⟩ : ∃ x, ys = [x] := List.length_eq_one_iff.1 (by simpa using hlength)
        exact ⟨v, x, w, x, hbounds v x, hbounds w x, h.present, rfl, lies_low h x, canLie_low h x⟩
      | cons x xs =>
        rw [List.length_cons] at hlength
        obtain rfl : xs = [] := List.length_eq_zero_iff.1 (by omega)
        obtain rfl : ys = [] := List.length_eq_zero_iff.1 (by omega)
        exact ⟨x, v, x, w, hbounds x v, hbounds x w, rfl, h.present, lies_high h x,
          canLie_high h x⟩
  · have hne (u : Value) : (xs ++ u :: ys).length ≠ 2 := by
      rw [List.length_append, List.length_cons]
      omega
    exact .inl ⟨bounds?_of_length (hne v) _, bounds?_of_length (hne w) _⟩

theorem appliedAlike_within_item {v w : Value} (h : Similar v w) (xs ys : List Value) :
    AppliedAlike m .within field (.list (xs ++ v :: ys)) (.list (xs ++ w :: ys)) := by
  refine ⟨listed_item h xs ys, ?_, listRefusal?_item h⟩
  simp only [Leaf.Usable, Value.items?, Option.some.injEq, forall_eq', canList_item h]

/-- An operator that does not nest is applied alike to two objects, and to lists that differ in one
collection, unless it searches for their text. -/
theorem appliedAlike_plain {v w : Value} (h : Similar v w)
    (hlist : (∃ es fs, v = .object es ∧ w = .object fs) ∨ ∃ xs ys a b, Similar a b ∧
      v = .list (xs ++ a :: ys) ∧ w = .list (xs ++ b :: ys))
    (hlike : op = .like → m.column? field = none) (ho : op ≠ .or) (hr : op ≠ .relation) :
    AppliedAlike m op field v w := by
  cases op with
  | equal => exact appliedAlike_comparison h (.inl rfl)
  | notEqual => exact appliedAlike_comparison h (.inr (.inl rfl))
  | less => exact appliedAlike_comparison h (.inr (.inr (.inl rfl)))
  | greater => exact appliedAlike_comparison h (.inr (.inr (.inr rfl)))
  | like => exact appliedAlike_like (hlike rfl)
  | range =>
    rcases hlist with ⟨es, fs, rfl, rfl⟩ | ⟨xs, ys, a, b, hab, rfl, rfl⟩
    · have hnone (es : List (String × Value)) : bounds? (.text field) (.object es) = none := by
        unfold bounds?
        cases isTimestampField (.text field) <;> rfl
      exact appliedAlike_range (.inl ⟨hnone es, hnone fs⟩)
    · exact appliedAlike_range_item hab xs ys
  | within =>
    rcases hlist with ⟨es, fs, rfl, rfl⟩ | ⟨xs, ys, a, b, hab, rfl, rfl⟩
    · exact ⟨rfl, iff_of_true nofun nofun, Iff.rfl⟩
    · exact appliedAlike_within_item hab xs ys
  | or => exact absurd rfl ho
  | relation => exact absurd rfl hr

end Plain

end Records.Filter
