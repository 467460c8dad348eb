import Records.Proofs.Filter.Interchange

/-!
The spellings of a group. A term of a group is an operator on a field with a value beside it, and
either of the two names may stand first; a group inside a group is that group; and a list under a
field offers its items one by one. A list beside a column that stands outside a group asks for the
same items, but there the first of them tells how all are written.
-/
namespace Records

/-- Whether a value is a text, a number or a boolean. -/
def Value.isScalar : Value → Bool
  | .bool _ => true
  | .int _ => true
  | .float _ => true
  | .text _ => true
  | _ => false

namespace Filter

open Predicate (compareHolds)

namespace Demand

/-- Whether a row is offered as an alternative. -/
def isOffered (d : Demand) (r : Row) : Bool := d.elim false fun f => f r

theorem ext_offered {a b : Demand} (hsome : a.isSome = b.isSome)
    (h : ∀ r, a.isOffered r = b.isOffered r) : a = b := by
  cases a with
  | none => exact (Option.isSome_eq_false_iff.1 hsome.symm |> Option.isNone_iff_eq_none.1).symm
  | some f =>
    obtain ⟨g, rfl⟩ := Option.isSome_iff_exists.1 hsome.symm
    exact congrArg some (funext h)

theorem isSome_any (ds : List Demand) : (any ds).isSome = ds.any Option.isSome := by
  induction ds with
  | nil => rfl
  | cons d ds ih =>
    rw [List.any_cons, ← ih]
    change (d.or (any ds)).isSome = _
    cases d <;> cases any ds <;> rfl

theorem isOffered_any (ds : List Demand) (r : Row) :
    (any ds).isOffered r = ds.any fun d => d.isOffered r := by
  induction ds with
  | nil => rfl
  | cons d ds ih =>
    rw [List.any_cons, ← ih]
    change (d.or (any ds)).isOffered r = _
    cases d <;> cases any ds <;> simp [Demand.or, Option.merge, isOffered]

/-- A disjunction depends only on the set of its members. -/
theorem any_congr_mem {ds es : List Demand} (h : ∀ d, d ∈ ds ↔ d ∈ es) : any ds = any es := by
  have hany (p : Demand → Bool) : ds.any p = es.any p := by
    rw [Bool.eq_iff_iff, List.any_eq_true, List.any_eq_true]
    simp only [h]
  refine ext_offered ?_ fun r => ?_
  · rw [isSome_any, isSome_any, hany]
  · rw [isOffered_any, isOffered_any, hany]

end Demand

section Groups
variable {s : Schema} {m : Model} {es fs : List (String × Value)}

theorem ofKey?_or : Operator.ofKey? "or" = some .or := Operator.ofKey?_key .or

/-- A group depends only on the set of its alternatives. -/
theorem askAlike_of_alternatives
    (h : ∀ a, a ∈ groupAlternatives es ↔ a ∈ groupAlternatives fs) :
    AskAlike s m [("or", .object es)] [("or", .object fs)] := by
  have hleaves (P : Leaf → Prop) : (∀ l ∈ entryLeaves s m "or" (.object es), P l) ↔
      ∀ l ∈ entryLeaves s m "or" (.object fs), P l := by
    rw [entryLeaves_or s m ofKey?_or, entryLeaves_or s m ofKey?_or, List.forall_mem_flatMap,
      List.forall_mem_flatMap]
    simp only [h]
  refine askAlike_of_leaves (fun st => ?_) hleaves
  rw [entryDemand_or s st m ofKey?_or, entryDemand_or s st m ofKey?_or]
  refine Demand.any_congr_mem fun d => ?_
  simp only [List.mem_map, h]

/-- An operator on a field, and the value beside it. -/
structure Term where
  op : Operator
  field : String
  value : Value

namespace Term

/-- Two keys and a value spell a term, whichever of its names stands first. -/
def SpelledBy (t : Term) (outer key : String) (v : Value) : Prop :=
  v = t.value ∧ (outer = t.op.key ∧ key = t.field ∨ outer = t.field ∧ key = t.op.key)

instance (t : Term) (outer key : String) (v : Value) : Decidable (t.SpelledBy outer key v) :=
  inferInstanceAs (Decidable (_ ∧ _))

theorem pairAlternative_of_spelled {t : Term} {outer key : String} {v : Value}
    (ht : Operator.ofKey? t.field = none) (h : t.SpelledBy outer key v) :
    pairAlternative outer key v = .applied t.op t.field t.value := by
  obtain ⟨rfl, ⟨rfl, rfl⟩ | ⟨rfl, rfl⟩⟩ := h
  · unfold pairAlternative
    rw [Operator.ofKey?_key]
  · unfold pairAlternative
    rw [ht, Operator.ofKey?_key]

end Term

/-- The payload of a group spells a set of terms: each of its pairs is one of them, and each of them
is one of its pairs. Pairs under one outer key stand in one object. -/
structure Spells (es : List (String × Value)) (ts : List Term) : Prop where
  isObject : ∀ e ∈ es, ∃ pairs, e.2 = .object pairs
  isTerm : ∀ outer pairs, (outer, .object pairs) ∈ es → ∀ p ∈ pairs,
    ∃ t ∈ ts, t.SpelledBy outer p.1 p.2
  isSpelled : ∀ t ∈ ts, ∃ outer pairs, (outer, .object pairs) ∈ es ∧
    ∃ p ∈ pairs, t.SpelledBy outer p.1 p.2

theorem exists_of_forall₂ {α β : Type} {R : α → β → Prop} {xs : List α} {ys : List β}
    (h : List.Forall₂ R xs ys) : ∀ x ∈ xs, ∃ y ∈ ys, R x y := by
  induction h with
  | nil => nofun
  | @cons x y xs ys hxy _ ih =>
    refine List.forall_mem_cons.2 ⟨⟨y, List.mem_cons_self .., hxy⟩, fun z hz => ?_⟩
    obtain ⟨w, hw, hzw⟩ := ih z hz
    exact ⟨w, List.mem_cons_of_mem _ hw, hzw⟩

/-- Terms that share their outer key stand in one object. -/
theorem spells_entry {outer : String} {pairs : List (String × Value)} {ts : List Term}
    (h : List.Forall₂ (fun p t => t.SpelledBy outer p.1 p.2) pairs ts) :
    Spells [(outer, .object pairs)] ts := by
  refine ⟨by simp, fun o ps hmem p hp => ?_, fun t ht => ?_⟩
  · cases List.mem_singleton.1 hmem
    exact exists_of_forall₂ h p hp
  · obtain ⟨p, hp, hspelled⟩ := exists_of_forall₂ h.flip t ht
    exact ⟨outer, pairs, List.mem_singleton_self _, p, hp, hspelled⟩

theorem Spells.append {ts us : List Term} (hes : Spells es ts) (hfs : Spells fs us) :
    Spells (es ++ fs) (ts ++ us) := by
  refine ⟨?_, fun outer pairs hmem p hp => ?_, fun t ht => ?_⟩
  · rw [List.forall_mem_append]
    exact ⟨hes.isObject, hfs.isObject⟩
  · rcases List.mem_append.1 hmem with hmem | hmem
    · obtain ⟨t, ht, h⟩ := hes.isTerm outer pairs hmem p hp
      exact ⟨t, List.mem_append_left _ ht, h⟩
    · obtain ⟨t, ht, h⟩ := hfs.isTerm outer pairs hmem p hp
      exact ⟨t, List.mem_append_right _ ht, h⟩
  · rcases List.mem_append.1 ht with ht | ht
    · obtain ⟨outer, pairs, hmem, h⟩ := hes.isSpelled t ht
      exact ⟨outer, pairs, List.mem_append_left _ hmem, h⟩
    · obtain ⟨outer, pairs, hmem, h⟩ := hfs.isSpelled t ht
      exact ⟨outer, pairs, List.mem_append_right _ hmem, h⟩

theorem Spells.mem_groupAlternatives {ts : List Term} (h : Spells es ts)
    (hts : ∀ t ∈ ts, Operator.ofKey? t.field = none) (a : Alternative) :
    a ∈ groupAlternatives es ↔
      ∃ t ∈ ts, t.value.isPresent ∧ a = .applied t.op t.field t.value := by
  unfold groupAlternatives
  rw [List.mem_flatMap]
  constructor
  · rintro ⟨⟨outer, v⟩, he, ha⟩
    obtain ⟨pairs, rfl⟩ := h.isObject _ he
    obtain ⟨p, hp, rfl⟩ := List.mem_map.1 ha
    obtain ⟨hp, hpresent⟩ := List.mem_filter.1 hp
    obtain ⟨t, ht, hspelled⟩ := h.isTerm outer pairs he p hp
    exact ⟨t, ht, hspelled.1 ▸ hpresent, Term.pairAlternative_of_spelled (hts t ht) hspelled⟩
  · rintro ⟨t, ht, hpresent, rfl⟩
    obtain ⟨outer, pairs, he, p, hp, hspelled⟩ := h.isSpelled t ht
    refine ⟨(outer, .object pairs), he, List.mem_map.2 ⟨p, List.mem_filter.2 ⟨hp, ?_⟩, ?_⟩⟩
    · rw [hspelled.1]
      exact hpresent
    · exact Term.pairAlternative_of_spelled (hts t ht) hspelled

/-- Two payloads that spell the same terms make groups that ask the same. -/
theorem Spells.askAlike {ts : List Term} (hes : Spells es ts) (hfs : Spells fs ts)
    (hts : ∀ t ∈ ts, Operator.ofKey? t.field = none) :
    AskAlike s m [("or", .object es)] [("or", .object fs)] :=
  askAlike_of_alternatives fun a => by
    rw [hes.mem_groupAlternatives hts, hfs.mem_groupAlternatives hts]

end Groups

section Nested
variable {s : Schema} {m : Model}

theorem pairAlternative_or (key : String) (v : Value) :
    pairAlternative "or" key v = .applied .or key v := by
  unfold pairAlternative
  rw [ofKey?_or]

/-- The payload of a group inside a group offers what the group offers. -/
theorem appliedDemand_or_or (st : Store) (es : List (String × Value)) :
    appliedDemand s st m .or "or" (.object es) = entryDemand s st m "or" (.object es) := by
  rw [appliedDemand_or_entries, entryDemand_or_entries s st m ofKey?_or]
  congr 1
  refine List.map_congr_left fun e _ => ?_
  rw [pairAlternative_or]
  split
  · rfl
  · rw [appliedDemand_or, alternativesUnder_absent _ (Bool.not_eq_true _ ▸ ‹_›)]
    rfl

theorem appliedLeaves_or_or (es : List (String × Value)) :
    appliedLeaves s m .or "or" (.object es) = entryLeaves s m "or" (.object es) := by
  rw [appliedLeaves_or_entries, entryLeaves_or_entries s m ofKey?_or]
  congr 1
  funext e
  rw [pairAlternative_or]
  split
  · rfl
  · rw [appliedLeaves_or, alternativesUnder_absent _ (Bool.not_eq_true _ ▸ ‹_›)]
    rfl

theorem entryDemand_or_singleton (st : Store) (v : Value) :
    entryDemand s st m "or" (.object [("or", v)]) = appliedDemand s st m .or "or" v := by
  rw [entryDemand_or_entries s st m ofKey?_or]
  exact Demand.or_none _

theorem entryLeaves_or_singleton (v : Value) :
    entryLeaves s m "or" (.object [("or", v)]) = appliedLeaves s m .or "or" v := by
  rw [entryLeaves_or_entries s m ofKey?_or, List.flatMap_singleton]

theorem alternativesUnder_or {v : Value} (hv : v.entries? = none) :
    alternativesUnder "or" v = [] := by
  unfold alternativesUnder
  cases v <;> simp_all [Value.entries?, ofKey?_or]

/-- A group inside a group asks what the group asks. A payload that is no collection makes no group,
and is searched for in a column of that name, where there is one. -/
theorem askAlike_nested {v : Value}
    (hv : v.items? = none → v.entries? = none → m.column? "or" = none) :
    AskAlike s m [("or", .object [("or", v)])] [("or", v)] := by
  have halike (hdemand : ∀ st, appliedDemand s st m .or "or" v = entryDemand s st m "or" v)
      (hleaves : appliedLeaves s m .or "or" v = entryLeaves s m "or" v) :
      AskAlike s m [("or", .object [("or", v)])] [("or", v)] := by
    refine askAlike_of_leaves (fun st => ?_) fun P => ?_
    · rw [entryDemand_or_singleton, hdemand]
    · rw [entryLeaves_or_singleton, hleaves]
  cases he : v.entries? with
  | some es =>
    obtain rfl : v = .object es := by cases v <;> simp_all [Value.entries?]
    exact halike (fun st => appliedDemand_or_or st es) (appliedLeaves_or_or es)
  | none =>
    refine halike (fun st => ?_) ?_
    · rw [appliedDemand_or, alternativesUnder_or he]
      cases hi : v.items? with
      | some vs =>
        rw [entryDemand_list s st m hi, ofKey?_or]
        rfl
      | none =>
        rw [entryDemand_plain s st m _ hi he, contains, hv hi he]
        exact (ite_self _).symm
    · rw [appliedLeaves_or, alternativesUnder_or he]
      cases hi : v.items? with
      | some vs =>
        rw [entryLeaves_list s m _ hi, ofKey?_or]
        rfl
      | none => rw [entryLeaves_plain s m _ hi he]; rfl

end Nested

section Lists
variable {s : Schema} {m : Model} {field : String} {c : Column} {vs : List Value}

/-- A column takes a value alike under two codecs: neither binds it, or what they bind is equal to
the same cells. -/
structure TakenAlike (f : Field) (k l : Codec) (v : Value) : Prop where
  bindable : Parameter.Bindable ⟨k, v⟩ ↔ Parameter.Bindable ⟨l, v⟩
  holds : compareHolds f .eq ⟨k, v⟩ = compareHolds f .eq ⟨l, v⟩

/-- A text, a number or a boolean is bound by its type as it is without one. -/
theorem takenAlike_raw (f : Field) {v : Value} (hv : v.isScalar) :
    TakenAlike f .raw (Codec.ofValue f.column.kind v) v := by
  have hcell : Parameter.cell ⟨.raw, v⟩ = Parameter.cell ⟨Codec.ofValue f.column.kind v, v⟩ := by
    cases v with
    | bool | int | float | text => unfold Codec.ofValue; split <;> rfl
    | null | bytes | date | moment | list | tuple | object => cases hv
  refine ⟨by unfold Parameter.Bindable; rw [hcell], ?_⟩
  funext r
  unfold compareHolds comparedCell
  rw [hcell]

/-- One item of a list under a field, as an alternative. -/
theorem listed_singleton (hc : m.column? field = some c) (v : Value) :
    listed m field [v] = some fun r =>
      compareHolds ⟨m.table, c⟩ .eq ⟨Codec.ofValue c.kind v, v⟩ r := by
  unfold listed membershipParameters
  rw [hc]
  simp

theorem contains_null_of_present (hvs : ∀ v ∈ vs, v.isPresent) : vs.contains .null = false := by
  rw [← Bool.not_eq_true, List.contains_iff_mem]
  exact fun h => by cases hvs _ h

/-- The first of some values that are present tells how all are bound. -/
theorem membershipParameters_of_present (f : Field) (hvs : ∀ v ∈ vs, v.isPresent) :
    membershipParameters f vs =
      vs.map fun v => ⟨Codec.ofValue f.column.kind (vs.headD .null), v⟩ := by
  simp only [membershipParameters, contains_null_of_present hvs, Bool.false_eq_true, if_false]

theorem listed_of_present (hc : m.column? field = some c) (hvs : ∀ v ∈ vs, v.isPresent) :
    listed m field vs = some fun r => vs.any fun v =>
      compareHolds ⟨m.table, c⟩ .eq ⟨Codec.ofValue c.kind (vs.headD .null), v⟩ r := by
  unfold listed
  rw [hc, Option.bind_eq_bind, Option.bind_some, membershipParameters_of_present _ hvs]
  simp only [List.any_map]
  rfl

theorem canList_of_present (hc : m.column? field = some c) (hvs : ∀ v ∈ vs, v.isPresent) :
    CanList m field vs ↔
      ∀ v ∈ vs, Parameter.Bindable ⟨Codec.ofValue c.kind (vs.headD .null), v⟩ := by
  have hnull : .null ∉ vs := fun h => by cases hvs _ h
  unfold CanList
  simp [hc, hnull, membershipParameters_of_present _ hvs]

theorem listRefusal?_of_present (hvs : ∀ v ∈ vs, v.isPresent) : listRefusal? m field vs = none := by
  rw [listRefusal?, contains_null_of_present hvs, Bool.and_false]
  rfl

/-- Alternatives that each list one value offer what the whole list asks for, if every value is
taken as though it stood alone. -/
theorem any_listed (hc : m.column? field = some c) (hvs : ∀ v ∈ vs, v.isPresent) (hne : vs ≠ [])
    (htaken : ∀ v ∈ vs, TakenAlike ⟨m.table, c⟩ (Codec.ofValue c.kind (vs.headD .null))
      (Codec.ofValue c.kind v) v) :
    Demand.any (vs.map fun v => listed m field [v]) = listed m field vs := by
  rw [listed_of_present hc hvs]
  refine Demand.ext_offered ?_ fun r => ?_
  · obtain ⟨v, vs, rfl⟩ := List.exists_cons_of_ne_nil hne
    rw [Demand.isSome_any, List.map_cons, List.any_cons, listed_singleton hc]
    rfl
  · rw [Demand.isOffered_any, List.any_map]
    change _ = vs.any _
    rw [Bool.eq_iff_iff, List.any_eq_true, List.any_eq_true]
    refine exists_congr fun v => and_congr_right fun hv => ?_
    rw [Function.comp_apply, listed_singleton hc, (htaken v hv).holds]
    rfl

/-- A list under a column asks the same inside a group and outside. -/
theorem askAlike_listed (hc : m.column? field = some c) (hvs : ∀ v ∈ vs, v.isPresent)
    (htaken : ∀ v ∈ vs, TakenAlike ⟨m.table, c⟩ (Codec.ofValue c.kind (vs.headD .null))
      (Codec.ofValue c.kind v) v) :
    AskAlike s m [("or", .object [(field, .list vs)])] [(field, .list vs)] := by
  have hpresent : vs.filter Value.isPresent = vs := List.filter_eq_self.2 hvs
  have hdemand (st : Store) : entryDemand s st m "or" (.object [(field, .list vs)]) =
      .any ((alternativesUnder field (.list vs)).map (alternativeDemand s st m)) := by
    rw [entryDemand_or_entries s st m ofKey?_or, List.map_singleton, appliedDemand_or]
    exact Demand.or_none _
  have hleaves : entryLeaves s m "or" (.object [(field, .list vs)]) =
      (alternativesUnder field (.list vs)).flatMap (alternativeLeaves s m) := by
    rw [entryLeaves_or_entries s m ofKey?_or, List.flatMap_singleton, appliedLeaves_or]
  simp only [alternativesUnder, hpresent] at hdemand hleaves
  by_cases hk : Operator.ofKey? field = none
  · simp only [if_pos hk, List.map_map] at hdemand hleaves
    have hone (v : Value) (hv : v ∈ vs) : ∀ w ∈ [v], w.isPresent := by
      simpa using hvs v hv
    have heach (P : Leaf → Prop) : (∀ l ∈ entryLeaves s m "or" (.object [(field, .list vs)]), P l) ↔
        ∀ v ∈ vs, P (.listed m field [v]) := by
      rw [hleaves, List.flatMap_map, List.forall_mem_flatMap]
      simp only [alternativeLeaves, List.forall_mem_singleton]
    have hplain (P : Leaf → Prop) : (∀ l ∈ entryLeaves s m field (.list vs), P l) ↔
        P (.listed m field vs) := by
      rw [entryLeaves_list s m field rfl, if_pos hk, List.forall_mem_singleton]
    refine askAlike_entry (fun st => ?_) ?_ ?_
    · rw [hdemand, entryDemand_list s st m rfl]
      by_cases hne : vs = []
      · subst hne
        rw [if_neg fun h => h.2 rfl]
        rfl
      · rw [if_pos ⟨hk, hne⟩, ← any_listed hc hvs hne htaken]
        congr 1
        refine List.map_congr_left fun v _ => ?_
        rw [Function.comp_apply, alternativeDemand]
    · rw [heach, hplain]
      simp only [Leaf.refusal?, listRefusal?_of_present hvs, iff_true]
      exact fun v hv => listRefusal?_of_present (hone v hv)
    · rw [heach, hplain]
      simp only [Leaf.Usable, canList_of_present hc hvs]
      refine forall₂_congr fun v hv => ?_
      rw [canList_of_present hc (hone v hv), List.forall_mem_singleton]
      exact (htaken v hv).bindable.symm
  · simp only [if_neg hk] at hdemand hleaves
    refine askAlike_of_leaves (fun st => ?_) fun P => ?_
    · rw [hdemand, entryDemand_list s st m rfl, if_neg fun h => hk h.1]
      rfl
    · rw [hleaves, entryLeaves_list s m field rfl, if_neg hk]
      rfl

end Lists

/-- Authors of a country or with a status, operator first. -/
def operatorFirst : List (String × Value) :=
  [("equal", .object [("country", .text "AR"), ("status", .text "archived")])]

/-- The same authors, one term with its field first. -/
def mixedFirst : List (String × Value) :=
  [("equal", .object [("country", .text "AR")]), ("status", .object [("equal", .text "archived")])]

/-- The country or the status of an author. -/
def ofCountryOrStatus : List Term :=
  [⟨.equal, "country", .text "AR"⟩, ⟨.equal, "status", .text "archived"⟩]

/-- The ids of the authors of a store that a filter selects. -/
def authorIds (st : Store) (es : List (String × Value)) : Option (List Int) :=
  (selected Library.schema (Query.base Library.author true) es st).map fun rows =>
    rows.map (·.id)

/-- A table whose only column of its own has the name of a group. -/
def choices : Model where
  name := "Choice"
  table := "choice"
  columns := [idColumn, Library.textColumn "or"]

end Filter

end Records
