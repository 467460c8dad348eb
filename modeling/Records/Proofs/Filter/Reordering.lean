import Records.Proofs.Filter.Collections

/-!
The order of the keys of a filter. Its objects may be reordered at any depth, all but two kinds of
them: the text of an object that is searched for shows its order, and where an object lists the
values of a column, the first of them tells how all are written.
-/
namespace Records.Filter

/-- Where a value stands in a filter, which tells what it is read as. -/
inductive Place
  | filter (m : Model)
  | entry (m : Model) (key : String)
  | applied (m : Model) (op : Operator) (field : String)
  /-- Alone beside a field, as one of the alternatives of a group. -/
  | listed (m : Model) (field : String)
  /-- Inside a value whose text is searched for. -/
  | searched
  | value

/-- Where an alternative of a group has its value. -/
def Alternative.place (m : Model) : Alternative → Place
  | .applied op field _ => .applied m op field
  | .listed field _ => .listed m field

/-- Where the items of a list stand. -/
def Place.item : Place → Place
  | .applied m .like field => if m.hasColumn field then .searched else .value
  | .searched => .searched
  | _ => .value

/-- Where the value under a key of an object stands. -/
def Place.child (s : Schema) (p : Place) (key : String) : Place :=
  match p with
  | .filter m => .entry m key
  | .entry m outer =>
    match Operator.ofKey? outer with
    | some op => .applied m op key
    | none => .value
  | .applied m .or outer => (pairAlternative outer key .null).place m
  | .applied m .relation name =>
    match s.resolve? m name with
    | some h => .entry h.target key
    | none => .value
  | p => p.item

/-- The values of two objects are written alike as the values of a column: each by its own type
where a null is among them, and otherwise all by the type of the first. -/
def WrittenAlike (k : Kind) (es fs : List (String × Value)) : Prop :=
  .null ∈ es.map (·.2) ∨
    Codec.ofValue k ((es.map (·.2)).headD .null) = Codec.ofValue k ((fs.map (·.2)).headD .null)

/-- The order of an object does not count where it stands. -/
def Place.Free (p : Place) (es fs : List (String × Value)) : Prop :=
  match p with
  | .entry m key =>
    Operator.ofKey? key = none → ∀ c, m.column? key = some c → WrittenAlike c.kind es fs
  | .applied m .like field => m.column? field = none
  | .searched => False
  | _ => True

/-- One object somewhere in a value is reordered. -/
inductive Reorders (s : Schema) : Place → Value → Value → Prop
  | here {p : Place} {es fs : List (String × Value)} (h : es.Perm fs) (hfree : p.Free es fs) :
    Reorders s p (.object es) (.object fs)
  | under {p : Place} {xs ys : List (String × Value)} {key : String} {v w : Value}
    (h : Reorders s (p.child s key) v w) :
    Reorders s p (.object (xs ++ (key, v) :: ys)) (.object (xs ++ (key, w) :: ys))
  | among {p : Place} {xs ys : List Value} {v w : Value} (h : Reorders s p.item v w) :
    Reorders s p (.list (xs ++ v :: ys)) (.list (xs ++ w :: ys))

/-- No text that is searched for is reordered. -/
theorem not_reorders_searched {s : Schema} {p : Place} {v w : Value} (h : Reorders s p v w) :
    p ≠ .searched := by
  induction h with
  | here _ hfree =>
    rintro rfl
    exact hfree
  | under _ ih =>
    rintro rfl
    exact ih rfl
  | among _ ih =>
    rintro rfl
    exact ih rfl

theorem Reorders.similar {s : Schema} {p : Place} {v w : Value} (h : Reorders s p v w) :
    Similar v w := by
  induction h with
  | here h _ =>
    refine ⟨.inl ⟨_, _, rfl, rfl⟩, ?_, ?_⟩
    · simp only [Value.isPresent, h.isEmpty_eq]
    · simp only [Value.hasLeaf, Value.anyLeafEntry_eq_any, h.any_eq]
  | @under _ xs _ _ _ _ _ ih =>
    refine ⟨.inl ⟨_, _, rfl, rfl⟩, by cases xs <;> rfl, ?_⟩
    simp only [Value.hasLeaf, Value.anyLeafEntry_eq_any, List.any_append, List.any_cons, ih.leaf]
  | @among _ xs _ _ _ _ ih =>
    refine ⟨.inr ⟨_, _, rfl, rfl⟩, by cases xs <;> rfl, ?_⟩
    simp only [Value.hasLeaf, Value.anyLeaf_eq_any, List.any_append, List.any_cons, ih.leaf]

namespace Demand

theorem and_left_comm (a b c : Demand) : a.and (b.and c) = b.and (a.and c) := by
  cases a <;> cases b <;> cases c <;>
    simp [Demand.and, Option.merge, Bool.and_left_comm, Bool.and_comm]

theorem or_left_comm (a b c : Demand) : a.or (b.or c) = b.or (a.or c) := by
  cases a <;> cases b <;> cases c <;>
    simp [Demand.or, Option.merge, Bool.or_left_comm, Bool.or_comm]

theorem all_perm {ds es : List Demand} (h : ds.Perm es) : all ds = all es :=
  h.foldr_eq' (fun x _ y _ z => and_left_comm y x z) none

theorem any_perm {ds es : List Demand} (h : ds.Perm es) : any ds = any es :=
  h.foldr_eq' (fun x _ y _ z => or_left_comm y x z) none

theorem any_flatMap {α : Type} (f : α → List Demand) (xs : List α) :
    any (xs.flatMap f) = any (xs.map fun x => any (f x)) := by
  induction xs with
  | nil => rfl
  | cons x xs ih =>
    rw [List.flatMap_cons, any_append, ih]
    rfl

end Demand

/-- What the value at a place asks of a row. -/
def Place.demand (s : Schema) (st : Store) (p : Place) (v : Value) : Demand :=
  match p, v with
  | .filter m, .object es => .all (es.map fun e => entryDemand s st m e.1 e.2)
  | .entry m key, v => entryDemand s st m key v
  | .applied m op field, v => appliedDemand s st m op field v
  | .listed m field, v => Filter.listed m field [v]
  | _, _ => none

/-- The leaves of the value at a place. -/
def Place.leaves (s : Schema) (p : Place) (v : Value) : List Leaf :=
  match p, v with
  | .filter m, .object es => Filter.leaves s m es
  | .entry m key, v => entryLeaves s m key v
  | .applied m op field, v => appliedLeaves s m op field v
  | .listed m field, v => [.listed m field [v]]
  | _, _ => []

section Parts
variable (s : Schema) (st : Store) (m : Model)

theorem demand_place (outer key : String) (v : Value) :
    alternativeDemand s st m (pairAlternative outer key v) =
      ((pairAlternative outer key .null).place m).demand s st v := by
  unfold pairAlternative
  split <;> rw [alternativeDemand] <;> rfl

theorem leaves_place (outer key : String) (v : Value) :
    alternativeLeaves s m (pairAlternative outer key v) =
      ((pairAlternative outer key .null).place m).leaves s v := by
  unfold pairAlternative
  split <;> rw [alternativeLeaves] <;> rfl

theorem Demand.any_filter {α : Type} (p : α → Bool) (f : α → Demand) (xs : List α) :
    Demand.any ((xs.filter p).map f) = .any (xs.map fun x => if p x then f x else none) := by
  induction xs with
  | nil => rfl
  | cons x xs ih =>
    rw [List.map_cons, List.filter_cons]
    cases p x with
    | true => exact congrArg (Demand.or (f x)) ih
    | false => exact ih.trans (Demand.none_or _).symm

theorem flatMap_filter {α β : Type} (p : α → Bool) (f : α → List β) (xs : List α) :
    (xs.filter p).flatMap f = xs.flatMap fun x => if p x then f x else [] := by
  induction xs with
  | nil => rfl
  | cons x xs ih =>
    rw [List.filter_cons, List.flatMap_cons, ← ih]
    cases p x <;> rfl

/-- A group asks for one of the groups under its keys. -/
theorem entryDemand_or_entries {key : String} (hk : Operator.ofKey? key = some .or)
    (es : List (String × Value)) : entryDemand s st m key (.object es) =
      .any (es.map fun e => appliedDemand s st m .or e.1 e.2) := by
  rw [entryDemand_or s st m hk, groupAlternatives, List.map_flatMap, Demand.any_flatMap]
  simp only [appliedDemand_or]

theorem entryLeaves_or_entries {key : String} (hk : Operator.ofKey? key = some .or)
    (es : List (String × Value)) : entryLeaves s m key (.object es) =
      es.flatMap fun e => appliedLeaves s m .or e.1 e.2 := by
  rw [entryLeaves_or s m hk, groupAlternatives, List.flatMap_assoc]
  simp only [appliedLeaves_or]

theorem appliedDemand_or_entries (outer : String) (es : List (String × Value)) :
    appliedDemand s st m .or outer (.object es) = .any (es.map fun e =>
      if e.2.isPresent then ((pairAlternative outer e.1 .null).place m).demand s st e.2
      else none) := by
  rw [appliedDemand_or, alternativesUnder, List.map_map, Demand.any_filter]
  simp only [Function.comp_apply, demand_place]

theorem appliedLeaves_or_entries (outer : String) (es : List (String × Value)) :
    appliedLeaves s m .or outer (.object es) = es.flatMap fun e =>
      if e.2.isPresent then ((pairAlternative outer e.1 .null).place m).leaves s e.2 else [] := by
  rw [appliedLeaves_or, alternativesUnder, List.flatMap_map, flatMap_filter]
  simp only [leaves_place]

end Parts

section Steps
variable {s : Schema} {m : Model} {op : Operator} {field : String} {v w : Value}

/-- What is searched for is reordered only beside a name that no column has. -/
theorem column?_of_item (h : Reorders s (Place.item (.applied m .like field)) v w) :
    m.column? field = none := by
  cases hc : m.column? field with
  | none => rfl
  | some c =>
    refine (not_reorders_searched h ?_).elim
    simp [Place.item, Model.hasColumn, hc]

theorem child_plain (ho : op ≠ .or) (hr : op ≠ .relation) (key : String) :
    (Place.applied m op field).child s key = (Place.applied m op field).item := by
  cases op <;> first | exact absurd rfl ho | exact absurd rfl hr | rfl

/-- An operator that does not nest takes a reordered value for the same. -/
theorem Reorders.appliedAlike (h : Reorders s (.applied m op field) v w) (ho : op ≠ .or)
    (hr : op ≠ .relation) : AppliedAlike m op field v w := by
  have hsimilar := h.similar
  cases h with
  | here hperm hfree =>
    refine appliedAlike_plain hsimilar (.inl ⟨_, _, rfl, rfl⟩) (fun hlike => ?_) ho hr
    subst hlike
    exact hfree
  | under h =>
    refine appliedAlike_plain hsimilar (.inl ⟨_, _, rfl, rfl⟩) (fun hlike => ?_) ho hr
    rw [child_plain ho hr] at h
    subst hlike
    exact column?_of_item h
  | among h =>
    refine appliedAlike_plain hsimilar (.inr ⟨_, _, _, _, h.similar, rfl, rfl⟩) (fun hlike => ?_)
      ho hr
    subst hlike
    exact column?_of_item h

end Steps

-- What is asked is a conjunction or a disjunction over the entries of each object that the walk
-- opens, so the order of these does not count; below the walk only the memberships look at more
-- than one value.
section Demands
variable {s : Schema} {st : Store} {p : Place}

theorem demand_here {es fs : List (String × Value)} (h : es.Perm fs) (hfree : p.Free es fs) :
    p.demand s st (.object es) = p.demand s st (.object fs) := by
  cases p with
  | filter m => exact Demand.all_perm (h.map _)
  | entry m key =>
    simp only [Place.demand]
    cases hk : Operator.ofKey? key with
    | none =>
      rw [entryDemand_none_object s st m hk, entryDemand_none_object s st m hk, h.isEmpty_eq,
        listed_perm (h.map _) (hfree hk)]
    | some op =>
      by_cases ho : op = .or
      · subst ho
        rw [entryDemand_or_entries s st m hk, entryDemand_or_entries s st m hk]
        exact Demand.any_perm (h.map _)
      · rw [entryDemand_object s st m hk ho, entryDemand_object s st m hk ho]
        exact Demand.all_perm (h.map _)
  | applied m op field =>
    simp only [Place.demand]
    by_cases ho : op = .or
    · subst ho
      rw [appliedDemand_or_entries, appliedDemand_or_entries]
      exact Demand.any_perm (h.map _)
    by_cases hr : op = .relation
    · subst hr
      rw [appliedDemand_relation, appliedDemand_relation]
      cases s.resolve? m field with
      | none => rfl
      | some r => exact Demand.all_perm (h.map _)
    · have hstep : Reorders s (.applied m op field) (.object es) (.object fs) := .here h hfree
      rw [appliedDemand_plain s st m field _ ho hr, appliedDemand_plain s st m field _ ho hr]
      exact (hstep.appliedAlike ho hr).demand
  | listed m field =>
    have hstep : Reorders s (.listed m field) (.object es) (.object fs) := .here h hfree
    exact listed_item hstep.similar [] []
  | searched => rfl
  | value => rfl

theorem demand_under {xs ys : List (String × Value)} {key : String} {v w : Value}
    (h : Reorders s (p.child s key) v w)
    (ih : (p.child s key).demand s st v = (p.child s key).demand s st w) :
    p.demand s st (.object (xs ++ (key, v) :: ys)) =
      p.demand s st (.object (xs ++ (key, w) :: ys)) := by
  have hvw := h.similar
  cases p with
  | filter m =>
    change entryDemand s st m key v = entryDemand s st m key w at ih
    simp only [Place.demand, List.map_append, List.map_cons, ih]
  | entry m outer =>
    simp only [Place.demand]
    cases hk : Operator.ofKey? outer with
    | none =>
      simp only [entryDemand_none_object s st m hk, List.map_append, List.map_cons]
      rw [listed_item hvw]
      simp
    | some op =>
      rw [Place.child, hk] at ih
      change appliedDemand s st m op key v = appliedDemand s st m op key w at ih
      by_cases ho : op = .or
      · subst ho
        simp only [entryDemand_or_entries s st m hk, List.map_append, List.map_cons, ih]
      · simp only [entryDemand_object s st m hk ho, List.map_append, List.map_cons, ih]
  | applied m op field =>
    simp only [Place.demand]
    by_cases ho : op = .or
    · subst ho
      rw [Place.child] at ih
      simp only [appliedDemand_or_entries, List.map_append, List.map_cons, ih, hvw.present]
    by_cases hr : op = .relation
    · subst hr
      simp only [appliedDemand_relation]
      cases hm : s.resolve? m field with
      | none => rfl
      | some r =>
        rw [Place.child, hm] at ih
        change entryDemand s st r.target key v = entryDemand s st r.target key w at ih
        simp only [List.map_append, List.map_cons, ih, hvw.present, hvw.leaf]
    · rw [appliedDemand_plain s st m field _ ho hr, appliedDemand_plain s st m field _ ho hr]
      exact ((Reorders.under h).appliedAlike ho hr).demand
  | listed m field => exact listed_item (Reorders.under h).similar [] []
  | searched => rfl
  | value => rfl

theorem demand_among {xs ys : List Value} {v w : Value} (h : Reorders s p.item v w) :
    p.demand s st (.list (xs ++ v :: ys)) = p.demand s st (.list (xs ++ w :: ys)) := by
  have hvw := h.similar
  cases p with
  | filter m => rfl
  | entry m key =>
    simp only [Place.demand]
    rw [entryDemand_list s st m rfl, entryDemand_list s st m rfl, listed_item hvw]
    simp
  | applied m op field =>
    simp only [Place.demand]
    by_cases ho : op = .or
    · subst ho
      have hone : listed m field [v] = listed m field [w] := listed_item hvw [] []
      simp only [appliedDemand_or, alternativesUnder]
      split
      · simp only [List.filter_append, List.filter_cons, hvw.present, List.map_append]
        split
        · simp only [List.map_cons, alternativeDemand, hone]
        · rfl
      · rfl
    by_cases hr : op = .relation
    · subst hr
      rw [appliedDemand_relation_nil s st m field rfl, appliedDemand_relation_nil s st m field rfl]
    · rw [appliedDemand_plain s st m field _ ho hr, appliedDemand_plain s st m field _ ho hr]
      exact ((Reorders.among h).appliedAlike ho hr).demand
  | listed m field => exact listed_item (Reorders.among h).similar [] []
  | searched => rfl
  | value => rfl

/-- A reordered filter asks the same. -/
theorem Reorders.demand_eq {v w : Value} (h : Reorders s p v w) :
    p.demand s st v = p.demand s st w := by
  induction h with
  | here h hfree => exact demand_here h hfree
  | under h ih => exact demand_under h ih
  | among h _ => exact demand_among h

end Demands

/-- Each of some leaves fails as one of some others does. -/
def FailAlike (ls ls' : List Leaf) : Prop := ∀ l ∈ ls, ∃ l' ∈ ls', l.FailsAs l'

section Fails
variable {s : Schema} {p : Place}

theorem failAlike_refl (ls : List Leaf) : FailAlike ls ls := fun l hl => ⟨l, hl, l.failsAs_refl⟩

theorem failAlike_perm {ls ls' : List Leaf} (h : ls.Perm ls') : FailAlike ls ls' :=
  fun l hl => ⟨l, h.mem_iff.1 hl, l.failsAs_refl⟩

theorem failAlike_singleton {l l' : Leaf} (h : l.FailsAs l') : FailAlike [l] [l'] := by
  intro k hk
  rw [List.mem_singleton.1 hk]
  exact ⟨l', List.mem_singleton_self l', h⟩

theorem failAlike_append {ls ls' ks ks' : List Leaf} (hl : FailAlike ls ls')
    (hk : FailAlike ks ks') : FailAlike (ls ++ ks) (ls' ++ ks') := by
  intro l hmem
  rcases List.mem_append.1 hmem with hmem | hmem
  · obtain ⟨l', hl', h⟩ := hl l hmem
    exact ⟨l', List.mem_append_left _ hl', h⟩
  · obtain ⟨l', hl', h⟩ := hk l hmem
    exact ⟨l', List.mem_append_right _ hl', h⟩

theorem failAlike_flatMap {α : Type} {g : α → List Leaf} {a b : α} (h : FailAlike (g a) (g b))
    (xs ys : List α) : FailAlike ((xs ++ a :: ys).flatMap g) ((xs ++ b :: ys).flatMap g) := by
  simp only [List.flatMap_append, List.flatMap_cons]
  exact failAlike_append (failAlike_refl _) (failAlike_append h (failAlike_refl _))

theorem failsAs_item {m : Model} {field : String} {v w : Value} (h : Similar v w)
    (xs ys : List Value) :
    (Leaf.listed m field (xs ++ v :: ys)).FailsAs (.listed m field (xs ++ w :: ys)) :=
  ⟨canList_item h, listRefusal?_item h⟩

theorem fails_here {es fs : List (String × Value)} (h : es.Perm fs) (hfree : p.Free es fs) :
    FailAlike (p.leaves s (.object es)) (p.leaves s (.object fs)) := by
  cases p with
  | filter m => exact failAlike_perm (h.flatMap_right _)
  | entry m key =>
    simp only [Place.leaves]
    cases hk : Operator.ofKey? key with
    | none =>
      rw [entryLeaves_none_object s m hk, entryLeaves_none_object s m hk]
      exact failAlike_singleton ⟨canList_perm (h.map _) (hfree hk), listRefusal?_perm (h.map _)⟩
    | some op =>
      by_cases ho : op = .or
      · subst ho
        rw [entryLeaves_or_entries s m hk, entryLeaves_or_entries s m hk]
        exact failAlike_perm (h.flatMap_right _)
      · rw [entryLeaves_object s m hk ho, entryLeaves_object s m hk ho]
        exact failAlike_perm (h.flatMap_right _)
  | applied m op field =>
    simp only [Place.leaves]
    by_cases ho : op = .or
    · subst ho
      rw [appliedLeaves_or_entries, appliedLeaves_or_entries]
      exact failAlike_perm (h.flatMap_right _)
    by_cases hr : op = .relation
    · subst hr
      rw [appliedLeaves_relation, appliedLeaves_relation]
      cases s.resolve? m field with
      | none => exact failAlike_refl _
      | some r => exact failAlike_perm (h.flatMap_right _)
    · have hstep : Reorders s (.applied m op field) (.object es) (.object fs) := .here h hfree
      rw [appliedLeaves_plain s m ho hr, appliedLeaves_plain s m ho hr]
      exact failAlike_singleton (hstep.appliedAlike ho hr).fails
  | listed m field =>
    have hstep : Reorders s (.listed m field) (.object es) (.object fs) := .here h hfree
    exact failAlike_singleton (failsAs_item hstep.similar [] [])
  | searched => exact failAlike_refl _
  | value => exact failAlike_refl _

theorem fails_under {xs ys : List (String × Value)} {key : String} {v w : Value}
    (h : Reorders s (p.child s key) v w)
    (ih : FailAlike ((p.child s key).leaves s v) ((p.child s key).leaves s w)) :
    FailAlike (p.leaves s (.object (xs ++ (key, v) :: ys)))
      (p.leaves s (.object (xs ++ (key, w) :: ys))) := by
  have hvw := h.similar
  cases p with
  | filter m =>
    refine failAlike_flatMap ?_ xs ys
    exact ih
  | entry m outer =>
    simp only [Place.leaves]
    cases hk : Operator.ofKey? outer with
    | none =>
      simp only [entryLeaves_none_object s m hk, List.map_append, List.map_cons]
      exact failAlike_singleton (failsAs_item hvw _ _)
    | some op =>
      rw [Place.child, hk] at ih
      by_cases ho : op = .or
      · subst ho
        rw [entryLeaves_or_entries s m hk, entryLeaves_or_entries s m hk]
        refine failAlike_flatMap ?_ xs ys
        exact ih
      · rw [entryLeaves_object s m hk ho, entryLeaves_object s m hk ho]
        refine failAlike_flatMap ?_ xs ys
        exact ih
  | applied m op field =>
    simp only [Place.leaves]
    by_cases ho : op = .or
    · subst ho
      rw [Place.child] at ih
      rw [appliedLeaves_or_entries, appliedLeaves_or_entries]
      refine failAlike_flatMap ?_ xs ys
      dsimp only
      rw [hvw.present]
      split
      · exact ih
      · exact failAlike_refl _
    by_cases hr : op = .relation
    · subst hr
      rw [appliedLeaves_relation, appliedLeaves_relation]
      cases hm : s.resolve? m field with
      | none => exact failAlike_refl _
      | some r =>
        rw [Place.child, hm] at ih
        refine failAlike_flatMap ?_ xs ys
        dsimp only
        rw [hvw.present, hvw.leaf]
        split
        · exact ih
        · exact failAlike_refl _
    · rw [appliedLeaves_plain s m ho hr, appliedLeaves_plain s m ho hr]
      exact failAlike_singleton ((Reorders.under h).appliedAlike ho hr).fails
  | listed m field => exact failAlike_singleton (failsAs_item (Reorders.under h).similar [] [])
  | searched => exact failAlike_refl _
  | value => exact failAlike_refl _

theorem fails_among {xs ys : List Value} {v w : Value} (h : Reorders s p.item v w) :
    FailAlike (p.leaves s (.list (xs ++ v :: ys))) (p.leaves s (.list (xs ++ w :: ys))) := by
  have hvw := h.similar
  cases p with
  | filter m => exact failAlike_refl _
  | entry m key =>
    simp only [Place.leaves]
    rw [entryLeaves_list s m key rfl, entryLeaves_list s m key rfl]
    split
    · exact failAlike_singleton (failsAs_item hvw xs ys)
    · exact failAlike_refl _
  | applied m op field =>
    simp only [Place.leaves]
    by_cases ho : op = .or
    · subst ho
      simp only [appliedLeaves_or, alternativesUnder]
      split
      · rw [List.flatMap_map, List.flatMap_map, flatMap_filter, flatMap_filter]
        refine failAlike_flatMap ?_ xs ys
        rw [hvw.present]
        split
        · simp only [alternativeLeaves]
          exact failAlike_singleton (failsAs_item hvw [] [])
        · exact failAlike_refl _
      · exact failAlike_refl _
    by_cases hr : op = .relation
    · subst hr
      rw [appliedLeaves_relation_flat s m field rfl, appliedLeaves_relation_flat s m field rfl]
      exact failAlike_singleton ⟨Iff.rfl, Iff.rfl⟩
    · rw [appliedLeaves_plain s m ho hr, appliedLeaves_plain s m ho hr]
      exact failAlike_singleton ((Reorders.among h).appliedAlike ho hr).fails
  | listed m field => exact failAlike_singleton (failsAs_item (Reorders.among h).similar [] [])
  | searched => exact failAlike_refl _
  | value => exact failAlike_refl _

/-- A reordered filter fails alike. -/
theorem Reorders.failAlike {v w : Value} (h : Reorders s p v w) :
    FailAlike (p.leaves s v) (p.leaves s w) := by
  induction h with
  | here h hfree => exact fails_here h hfree
  | under h ih => exact fails_under h ih
  | among h _ => exact fails_among h

end Fails

end Records.Filter
