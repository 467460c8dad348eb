import Records.Proofs.Record.Mirror
import Records.Record.Attribute

/-!
Attributes of the records of a store and of the store without its trashed rows. An attribute that
reads a relation which is not loaded reads whatever the relation holds in the store, so it reads the
same exactly where that is not trashed.
-/
namespace Records

/-- A record of a trashed row. -/
def IsTrashedRef (s : Schema) (st : Store) (ref : Ref) : Prop :=
  ∃ m ∈ s.models, ∃ row ∈ st.rows m, m.isLive row = false ∧ ref = .stored m.name row.id

/-- Reading an attribute shows a trashed row: it is a relation that is not loaded and that holds
one. -/
def Node.ReadsTrash (s : Schema) (st : Store) (n : Node) (name : String) : Prop :=
  n.model.hasColumn name = false ∧ n.related? name = none ∧
    ∃ r, n.within? name = some r ∧ ∃ child ∈ r.refs, IsTrashedRef s st child

section Relations
variable {s : Schema} {st : Store}

/-- The relation of a model that a name declares, with its models. -/
def Schema.declared? (s : Schema) (m : Model) (name : String) : Option Handle :=
  (s.handles m).find? (·.relation.name == name)

theorem find?_within (s : Schema) (st : Store) (m : Model) (row : Row) (name : String) :
    ((st.within s m row).find? (·.1 == name)).map (·.2) =
      (s.declared? m name).map fun h => h.relatedOf (memberRows st h row) := by
  unfold Store.within Schema.declared?
  rw [List.find?_map, Option.map_map]
  rfl

theorem Schema.handle?_of_declared? {m : Model} {name : String} {h : Handle}
    (hh : s.declared? m name = some h) : s.handle? m name = some h := by
  obtain ⟨r, hr, hhandle⟩ := List.mem_filterMap.1 (List.mem_of_find?_eq_some hh)
  have hname : h.relation.name = name := by simpa using List.find?_some hh
  rw [← hname, relation_name_of_handle? hhandle, hhandle]

theorem isTrashedRef_iff {m : Model} (hm : m ∈ s.models) {t : Row} (ht : t ∈ st.rows m) :
    IsTrashedRef s st (.stored m.name t.id) ↔ m.isLive t = false := by
  constructor
  · rintro ⟨m', hm', row, hrow, hdead, href⟩
    obtain ⟨hname, hid⟩ := Ref.stored.inj href
    obtain rfl := Schema.eq_of_name hm hm' hname
    have hsame := (Table.find?_of_mem ht).symm.trans (hid ▸ Table.find?_of_mem hrow)
    rwa [Option.some.inj hsame]
  · intro hdead
    exact ⟨m, hm, t, ht, hdead, rfl⟩

/-- A relation holds the same in both stores exactly if it holds no trashed row. -/
theorem relatedOf_live_iff {h : Handle} (ht : h.target ∈ s.models) (row : Row) :
    h.relatedOf (memberRows (st.live s) h row) = h.relatedOf (memberRows st h row) ↔
      ∀ child ∈ (h.relatedOf (memberRows st h row)).refs, ¬ IsTrashedRef s st child := by
  have hmember : ∀ t ∈ memberRows st h row, t ∈ st.rows h.target := fun t => Store.mem_memberRows
  rw [Store.memberRows_live ht]
  constructor
  · intro heq child hc
    rw [← heq] at hc
    obtain ⟨t, htm, rfl⟩ := List.mem_map.1 (Related.mem_of_mem_ofRefs hc)
    obtain ⟨hmem, hlive⟩ := List.mem_filter.1 htm
    rw [isTrashedRef_iff ht (hmember t hmem), hlive]
    exact Bool.true_eq_false_eq_False
  · intro hall
    have hlive : ∀ t ∈ memberRows st h row,
        .stored h.target.name t.id ∈ (h.relatedOf (memberRows st h row)).refs →
          h.target.isLive t := by
      intro t htm hc
      have hnot := hall _ hc
      rw [isTrashedRef_iff ht (hmember t htm)] at hnot
      exact Bool.eq_true_of_not_eq_false hnot
    -- A relation to many shows all of its rows, a singular one only the first.
    unfold Handle.relatedOf Related.ofRefs at hlive ⊢
    cases hmany : h.relation.link.isMany with
    | true =>
      simp only [hmany, if_true, Related.refs] at hlive ⊢
      rw [List.filter_eq_self.2 fun t htm => hlive t htm (List.mem_map_of_mem htm)]
    | false =>
      simp only [hmany, Bool.false_eq_true, if_false, Related.refs] at hlive ⊢
      cases hrows : memberRows st h row with
      | nil => rfl
      | cons t ts =>
        rw [hrows] at hlive
        rw [List.filter_cons_of_pos (hlive t (List.mem_cons_self ..) (by simp))]
        rfl

/-- A relation as it is read from a record. -/
def Related.datum : Related → Datum
  | .many refs => .list (refs.map .record)
  | .one (some ref) => .record ref
  | .one none => .value .null

theorem Related.datum_injective : Function.Injective Related.datum := by
  intro a b h
  cases a with
  | many refs =>
    cases b with
    | many refs' =>
      have hmap : refs.map Datum.record = refs'.map Datum.record := Datum.list.inj h
      rw [List.map_injective_iff.2 (fun _ _ => Datum.record.inj) hmap]
    | one ref => cases ref <;> cases h
  | one ref =>
    cases b with
    | many refs => cases ref <;> cases h
    | one ref' => cases ref <;> cases ref' <;> cases h <;> rfl

theorem Node.relatedDatum_of_some {n : Node} {r : Relation} {q : Related}
    (h : (n.related? r.name).or (n.within? r.name) = some q) : n.relatedDatum r = q.datum := by
  unfold Node.relatedDatum
  rw [h]
  rcases q with _ | _ | _ <;> rfl

variable {m : Model} {row : Row} {n n' : Node}

theorem Mirrors.within?_eq (h : Mirrors s st m row n n') (name : String) :
    n.within? name = (s.declared? m name).map fun d => d.relatedOf (memberRows st d row) := by
  unfold Node.within?
  rw [h.within_eq, find?_within]

theorem Mirrors.within?_live (h : Mirrors s st m row n n') (name : String) :
    n'.within? name =
      (s.declared? m name).map fun d => d.relatedOf (memberRows (st.live s) d row) := by
  unfold Node.within?
  rw [h.twin, find?_within]

/-- Mirrors show the same in an attribute exactly if reading it shows no trashed row. -/
theorem Mirrors.attr?_eq_iff (h : Mirrors s st m row n n') (name : String) :
    n'.attr? name = n.attr? name ↔ ¬ n.ReadsTrash s st name := by
  have hw := h.within?_eq name
  have hw' := h.within?_live name
  have hmodel : n'.model = n.model := by rw [h.twin]
  have hrelated : n'.related? name = n.related? name := by rw [h.twin]; rfl
  have hcomputed : n'.computed? name = n.computed? name := by rw [h.twin]; rfl
  have hvalue : n'.value name = n.value name := by rw [h.twin]; rfl
  -- Columns, computed attributes and loaded relations are part of the record. Only a relation that
  -- is not loaded looks at the store.
  unfold Node.ReadsTrash Node.attr?
  rw [hmodel, hcomputed, hvalue]
  cases hc : n.model.hasColumn name with
  | true => simp
  | false =>
    simp only [Bool.false_eq_true, if_false]
    cases hr : n.model.relation? name with
    | none =>
      have hnone : s.declared? m name = none := by
        cases hd : s.declared? m name with
        | none => rfl
        | some d =>
          have hrelation := (Schema.handle?_eq_some.1 (Schema.handle?_of_declared? hd)).1
          rw [← h.model_eq, hr] at hrelation
          cases hrelation
      simp [hw, hnone]
    | some r =>
      have hname : r.name = name := by simpa using List.find?_some hr
      dsimp only
      cases hrel : n.related? name with
      | some q =>
        rw [Node.relatedDatum_of_some (q := q) (by rw [hname, hrelated, hrel]; rfl),
          Node.relatedDatum_of_some (q := q) (by rw [hname, hrel]; rfl)]
        simp
      | none =>
        cases hd : s.declared? m name with
        | none =>
          rw [hd, Option.map_none] at hw hw'
          simp [Node.relatedDatum, hname, hrelated, hrel, hw, hw']
        | some d =>
          rw [hd, Option.map_some] at hw hw'
          rw [Node.relatedDatum_of_some (by rw [hname, hrelated, hrel, Option.none_or, hw']),
            Node.relatedDatum_of_some (by rw [hname, hrel, Option.none_or, hw]), hw]
          simp only [Except.ok.injEq, Related.datum_injective.eq_iff, Option.some.injEq]
          have ht := Schema.target_mem_of_handle? (Schema.handle?_of_declared? hd)
          simpa using relatedOf_live_iff ht row

end Relations

end Records
