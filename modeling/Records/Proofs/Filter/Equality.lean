import Records.Proofs.Filter.Spellings

/-!
Equality with a value and membership in the list of that value alone. Equality reads a text as a
value of its column first, and asks nothing where it cannot; membership takes it as it is.
-/
namespace Records.Filter

open Predicate (compareHolds)

section
variable {s : Schema} {m : Model} {field : String} {c : Column} {v w : Value}

/-- An operator that does not nest, over one field. -/
theorem entryDemand_plain_singleton (st : Store) (op : Operator) (ho : op ≠ .or)
    (hr : op ≠ .relation) (field : String) (v : Value) :
    entryDemand s st m op.key (.object [(field, v)]) = plainDemand m op field v := by
  rw [entryDemand_object s st m (Operator.ofKey?_key op) ho, List.map_singleton,
    appliedDemand_plain s st m field v ho hr]
  cases plainDemand m op field v <;> rfl

theorem entryLeaves_plain_singleton (op : Operator) (ho : op ≠ .or) (hr : op ≠ .relation)
    (field : String) (v : Value) :
    entryLeaves s m op.key (.object [(field, v)]) = [.applied m op field v] := by
  rw [entryLeaves_object s m (Operator.ofKey?_key op) ho, List.flatMap_singleton,
    appliedLeaves_plain s m ho hr]

theorem entryDemand_equal (st : Store) (field : String) (v : Value) :
    entryDemand s st m "equal" (.object [(field, v)]) =
      if v.isPresent then compared m .eq field v else none :=
  entryDemand_plain_singleton st .equal nofun nofun field v

theorem entryLeaves_equal (field : String) (v : Value) :
    entryLeaves s m "equal" (.object [(field, v)]) = [.applied m .equal field v] :=
  entryLeaves_plain_singleton .equal nofun nofun field v

theorem entryDemand_within (st : Store) (field : String) (vs : List Value) :
    entryDemand s st m "within" (.object [(field, .list vs)]) = listed m field vs :=
  entryDemand_plain_singleton st .within nofun nofun field (.list vs)

theorem entryLeaves_within (field : String) (v : Value) :
    entryLeaves s m "within" (.object [(field, v)]) = [.applied m .within field v] :=
  entryLeaves_plain_singleton .within nofun nofun field v

/-- A list beside a column asks what it asks as a membership by name, unless it is empty. -/
theorem askAlike_within (hk : Operator.ofKey? field = none) {vs : List Value} (hvs : vs ≠ []) :
    AskAlike s m [("within", .object [(field, .list vs)])] [(field, .list vs)] := by
  have hlisted : entryLeaves s m field (.list vs) = [.listed m field vs] := by
    rw [entryLeaves_list s m field rfl, if_pos hk]
  refine askAlike_entry (fun st => ?_) ?_ ?_
  · dsimp only
    rw [entryDemand_within, entryDemand_list s st m rfl, if_pos ⟨hk, hvs⟩]
  · rw [entryLeaves_within, hlisted, List.forall_mem_singleton, List.forall_mem_singleton]
    rfl
  · rw [entryLeaves_within, hlisted, List.forall_mem_singleton, List.forall_mem_singleton]
    simp [Leaf.Usable, Value.items?]

/-- A value is bound beside an equality as it is in a list. -/
theorem cell_comparisonParameter (f : Field) (w : Value) :
    (comparisonParameter f w).cell = Parameter.cell ⟨Codec.ofValue f.column.kind w, w⟩ := by
  cases w with
  | bool b =>
    unfold comparisonParameter Codec.ofValue
    dsimp only
    split <;> rfl
  | _ => rfl

theorem compareHolds_congr {f : Field} {op : Comparison} {p p' : Parameter}
    (h : p.cell = p'.cell) : compareHolds f op p = compareHolds f op p' := by
  funext r
  unfold compareHolds comparedCell
  rw [h]

/-- What a scalar is read as is present. -/
theorem isPresent_of_coerced {k : Kind} (hv : v.isPresent) (hs : v.isScalar)
    (hw : coerceValue? k v = some w) : w.isPresent := by
  cases v with
  | text t =>
    cases k <;> simp only [coerceValue?, coerceText?, Option.map_eq_some_iff] at hw <;>
      first | (obtain ⟨_, _, rfl⟩ := hw; rfl) | (cases hw; exact hv)
  | bool | int | float => cases hw; rfl
  | null | bytes | date | moment | list | tuple | object => cases hs

/-- Equality with a scalar asks for the one value that the scalar is read as. -/
theorem askAlike_equal (hc : m.column? field = some c) (hv : v.isPresent) (hs : v.isScalar)
    (hw : coerceValue? c.kind v = some w) :
    AskAlike s m [("equal", .object [(field, v)])] [("within", .object [(field, .list [w])])] := by
  have hone : ∀ x ∈ [w], x.isPresent := by simpa using isPresent_of_coerced hv hs hw
  have hcell := cell_comparisonParameter ⟨m.table, c⟩ w
  refine askAlike_entry (fun st => ?_) ?_ ?_
  · calc entryDemand s st m "equal" (.object [(field, v)])
        = compared m .eq field v := by rw [entryDemand_equal, if_pos hv]
      _ = some (compareHolds ⟨m.table, c⟩ .eq (comparisonParameter ⟨m.table, c⟩ w)) := by
          simp [compared, hc, hw]
      _ = listed m field [w] := by rw [listed_singleton hc, compareHolds_congr hcell]
      _ = entryDemand s st m "within" (.object [(field, .list [w])]) :=
          (entryDemand_within st field [w]).symm
  · rw [entryLeaves_equal, entryLeaves_within, List.forall_mem_singleton, List.forall_mem_singleton]
    simp [Leaf.refusal?, Value.items?, listRefusal?_of_present hone]
  · rw [entryLeaves_equal, entryLeaves_within, List.forall_mem_singleton, List.forall_mem_singleton]
    have hlist : CanList m field [w] ↔ Parameter.Bindable ⟨Codec.ofValue c.kind w, w⟩ := by
      rw [canList_of_present hc hone, List.forall_mem_singleton]
      rfl
    have hbind : (comparisonParameter ⟨m.table, c⟩ w).Bindable ↔
        Parameter.Bindable ⟨Codec.ofValue c.kind w, w⟩ := by
      unfold Parameter.Bindable
      rw [hcell]
    simp [Leaf.Usable, CanCompare, Value.items?, hlist, hv, hc, hw, hbind, Comparison.isOrdered]

/-- Equality with a text that cannot be read asks nothing. -/
theorem askAlike_equal_unread (hc : m.column? field = some c) (hw : coerceValue? c.kind v = none) :
    AskAlike s m [("equal", .object [(field, v)])] [] := by
  have hequal : leaves s m [("equal", .object [(field, v)])] = [.applied m .equal field v] := by
    rw [leaves, List.flatMap_singleton]
    exact entryLeaves_equal field v
  refine ⟨fun st => funext fun r => ?_, ?_, ?_⟩
  · have hdemand : entryDemand s st m "equal" (.object [(field, v)]) = none := by
      rw [entryDemand_equal]
      simp [compared, hc, hw]
    simp only [isWanted, List.all_cons, List.all_nil, hdemand]
    rfl
  · rw [hequal, List.forall_mem_singleton]
    simp [Leaf.refusal?, leaves]
  · rw [hequal, List.forall_mem_singleton]
    simp [Leaf.Usable, CanCompare, hc, hw, leaves]

/-- Only texts are read, and only as dates, moments and booleans. -/
theorem coerceValue?_self {k : Kind}
    (h : ∀ t, v = .text t → k ≠ .date ∧ k ≠ .moment ∧ k ≠ .bool) : coerceValue? k v = some v := by
  cases v with
  | text t =>
    obtain ⟨hdate, hmoment, hbool⟩ := h t rfl
    cases k with
    | date => exact absurd rfl hdate
    | moment => exact absurd rfl hmoment
    | bool => exact absurd rfl hbool
    | text | int | float | untyped => rfl
  | _ => rfl

end

/-- A value alone in a list, by name of the operator or beside its column, is what equality compares
the column with, if it is not a text that equality reads as a date, a moment or a boolean. Such a
text equality reads first: it asks for the value read, and nothing where none can be. -/
theorem interchangeable_single_member (s : Schema) (q : Query) (st : Store) {field : String}
    {c : Column} {v : Value} (hc : q.model.column? field = some c) (hv : v.isPresent)
    (hs : v.isScalar) :
    (Operator.ofKey? field = none →
      Interchangeable s q st [("within", .object [(field, .list [v])])] [(field, .list [v])]) ∧
    ((∀ t, v = .text t → c.kind ≠ .date ∧ c.kind ≠ .moment ∧ c.kind ≠ .bool) →
      Interchangeable s q st [("equal", .object [(field, v)])]
        [("within", .object [(field, .list [v])])]) ∧
    (∀ w, coerceValue? c.kind v = some w →
      Interchangeable s q st [("equal", .object [(field, v)])]
        [("within", .object [(field, .list [w])])]) ∧
    (coerceValue? c.kind v = none →
      Interchangeable s q st [("equal", .object [(field, v)])] []) :=
  ⟨fun hk => (askAlike_within hk (List.cons_ne_nil v [])).interchangeable,
    fun h => (askAlike_equal hc hv hs (coerceValue?_self h)).interchangeable,
    fun _ hw => (askAlike_equal hc hv hs hw).interchangeable,
    fun hw => (askAlike_equal_unread hc hw).interchangeable⟩

/-- A text beside a boolean column: equality reads it and selects the active authors, membership
takes it as it is and selects none; and a text that is no boolean drops the equality only. -/
theorem interchangeable_single_member_active :
    (authorIds Library.catalogue [("within", .object [("active", .list [.text "true"])])] =
        authorIds Library.catalogue [("active", .list [.text "true"])] ∧
      authorIds Library.catalogue [("active", .list [.text "true"])] = some []) ∧
    (authorIds Library.catalogue [("equal", .object [("active", .text "true")])] =
        authorIds Library.catalogue [("within", .object [("active", .list [.bool true])])] ∧
      authorIds Library.catalogue [("within", .object [("active", .list [.bool true])])] =
        some [1, 2, 3, 6, 7]) ∧
    (authorIds Library.catalogue [("equal", .object [("active", .text "maybe")])] =
        authorIds Library.catalogue [] ∧
      authorIds Library.catalogue [("active", .list [.text "maybe"])] = some []) ∧
    authorIds Library.catalogue [("equal", .object [("rating", .int 5)])] =
      authorIds Library.catalogue [("within", .object [("rating", .list [.int 5])])] := by
  have hids {es fs : List (String × Value)} (h : Interchangeable Library.schema
      (Query.base Library.author true) Library.catalogue es fs) :
      authorIds Library.catalogue es = authorIds Library.catalogue fs := by
    unfold authorIds
    have hsame := (h [] []).2
    simp only [List.nil_append, List.append_nil] at hsame
    rw [hsame]
  have hactive : Library.author.column? "active" = some Library.activeColumn := by decide
  have hrating : Library.author.column? "rating" =
      some ⟨"rating", .int, true, false, some (.value (.int 0)), false, none⟩ := by decide
  obtain ⟨hlist, -, hread, -⟩ := interchangeable_single_member Library.schema
    (Query.base Library.author true) Library.catalogue (v := .text "true") hactive rfl rfl
  obtain ⟨-, -, -, hunread⟩ := interchangeable_single_member Library.schema
    (Query.base Library.author true) Library.catalogue (v := .text "maybe") hactive rfl rfl
  obtain ⟨-, hequal, -, -⟩ := interchangeable_single_member Library.schema
    (Query.base Library.author true) Library.catalogue (v := .int 5) hrating rfl rfl
  refine ⟨⟨hids (hlist (by decide)), by decide +kernel⟩,
    ⟨hids (hread (.bool true) (by decide +kernel)), by decide +kernel⟩,
    ⟨hids (hunread (by decide +kernel)), by decide +kernel⟩, hids (hequal nofun)⟩

end Records.Filter
