import Records.Proofs.Store.Live

/-!
What a graph shows of a store: what it holds of a record, or else what it would load. Each way of
changing a graph is described by what it does to the records that are held, to their values and to
the relations loaded on them.
-/
namespace Records

/-- The values of a record: those held, or else those of its row. -/
def Graph.valuesOf (s : Schema) (st : Store) (g : Graph) (ref : Ref) :
    Option (List (String × Value)) :=
  ((g.node? ref).map (·.values)).or <|
    match ref with
    | .stored name id => do
      let m ← s.model? name
      let row ← (st.table m.table).find? id
      return (Node.ofRow m [] row).values
    | .draft _ => none

/-- What a relation of a record would load. -/
def Store.loads (st : Store) (h : Handle) (id : Int) : Related :=
  match (st.table h.parent.table).find? id with
  | some row => h.relatedOf (loadedRows st h row)
  | none => .many []

/-- What a relation of a record was loaded with, or else would load. -/
def Graph.loadedOf (st : Store) (g : Graph) (h : Handle) (id : Int) : Related :=
  (g.related? (.stored h.parent.name id) h.relation.name).getD (st.loads h id)

namespace Graph
variable {s : Schema} {st : Store} {g : Graph} {m : Model}

theorem mem_refs_iff {ref : Ref} : ref ∈ g.refs ↔ ∃ n, g.node? ref = some n := by
  rw [← Option.isSome_iff_exists, Option.isSome_iff_ne_none, ne_eq, node?_eq_none, not_not]

section Changes
variable (g)

theorem node?_add (ref : Ref) (n : Node) (r : Ref) :
    (g.add ref n).node? r = (g.node? r).or (if r = ref then some n else none) := by
  unfold node? add
  rw [List.find?_append, Option.map_or]
  by_cases h : r = ref
  · simp [h]
  · simp [h, Ne.symm h]

theorem node?_modify (ref : Ref) (f : Node → Node) (r : Ref) :
    (g.modify ref f).node? r = (g.node? r).map fun n => if r = ref then f n else n := by
  unfold node? modify
  dsimp only
  induction g.nodes with
  | nil => rfl
  | cons e es ih =>
    obtain ⟨k, n⟩ := e
    by_cases h : k = r
    · simp [h]
    · simpa [h] using ih

theorem refs_modify (ref : Ref) (f : Node → Node) : (g.modify ref f).refs = g.refs := by
  unfold refs modify
  rw [List.map_map]
  rfl

end Changes

theorem node?_hold (s : Schema) (st : Store) (m : Model) (deferred : List String) (g : Graph)
    (row : Row) (r : Ref) : (g.hold s st m deferred row).node? r =
      if r = .stored m.name row.id then
        some (((g.node? r).map fun n =>
          { n with deferred := n.deferred.filter deferred.contains }).getD
            (Node.ofStored s st m deferred row))
      else g.node? r := by
  unfold hold contains
  dsimp only
  -- A record that is held already keeps its place and its values.
  by_cases hc : Ref.stored m.name row.id ∈ g.refs
  · rw [if_pos (List.contains_iff_mem.2 hc), node?_modify]
    split
    · rename_i hr
      obtain ⟨n, hn⟩ := mem_refs_iff.1 (hr ▸ hc)
      rw [hn]
      rfl
    · simp
  · rw [if_neg (fun h => hc (List.contains_iff_mem.1 h)), node?_add]
    split
    · rename_i hr
      rw [node?_eq_none.2 (hr ▸ hc)]
      rfl
    · exact Option.or_none

theorem related?_hold (deferred : List String) (row : Row) (r : Ref) (name : String) :
    (g.hold s st m deferred row).related? r name = g.related? r name := by
  unfold related?
  rw [node?_hold]
  split
  · cases g.node? r <;> rfl
  · rfl

theorem mem_refs_hold (deferred : List String) (row : Row) (r : Ref) :
    r ∈ (g.hold s st m deferred row).refs ↔ r ∈ g.refs ∨ r = .stored m.name row.id := by
  rw [mem_refs_iff, mem_refs_iff, node?_hold]
  split <;> simp_all

theorem valuesOf_hold (hm : m ∈ s.models) {row : Row} (hrow : row ∈ st.rows m)
    (deferred : List String) (r : Ref) :
    (g.hold s st m deferred row).valuesOf s st r = g.valuesOf s st r := by
  unfold valuesOf
  rw [node?_hold]
  split
  · rename_i hr
    cases hn : g.node? r with
    | some n => rfl
    | none =>
      subst hr
      simp only [Schema.model?_of_mem hm, Table.find?_of_mem hrow, Option.bind_eq_bind,
        Option.bind_some, Option.map_none, Option.getD_none]
      rfl
  · rfl

section HoldAll
variable {rows : List Row} {deferred : List String}

theorem related?_holdAll (r : Ref) (name : String) :
    (rows.foldl (hold s st m deferred) g).related? r name = g.related? r name := by
  induction rows generalizing g with
  | nil => rfl
  | cons row rows ih => rw [List.foldl_cons, ih, related?_hold]

theorem mem_refs_holdAll (r : Ref) : r ∈ (rows.foldl (hold s st m deferred) g).refs ↔
    r ∈ g.refs ∨ ∃ row ∈ rows, r = .stored m.name row.id := by
  induction rows generalizing g with
  | nil => simp
  | cons row rows ih =>
    rw [List.foldl_cons, ih, mem_refs_hold, List.exists_mem_cons_iff, or_assoc]

theorem valuesOf_holdAll (hm : m ∈ s.models) (hrows : ∀ row ∈ rows, row ∈ st.rows m) (r : Ref) :
    (rows.foldl (hold s st m deferred) g).valuesOf s st r = g.valuesOf s st r := by
  induction rows generalizing g with
  | nil => rfl
  | cons row rows ih =>
    rw [List.foldl_cons, ih fun t ht => hrows t (List.mem_cons_of_mem _ ht),
      valuesOf_hold hm (hrows row (List.mem_cons_self ..))]

end HoldAll

theorem related?_setRelated {ref : Ref} (href : ref ∈ g.refs) (name : String) (q : Related)
    (r : Ref) (other : String) : (g.setRelated ref name q).related? r other =
      if r = ref ∧ other = name then some q else g.related? r other := by
  unfold related? setRelated
  rw [node?_modify]
  by_cases hr : r = ref
  · obtain ⟨n, hn⟩ := mem_refs_iff.1 href
    subst hr
    simp [hn, Node.related?_setRelated]
  · simp [hr]

theorem valuesOf_setRelated (ref : Ref) (name : String) (q : Related) (r : Ref) :
    (g.setRelated ref name q).valuesOf s st r = g.valuesOf s st r := by
  unfold valuesOf setRelated
  rw [node?_modify, Option.map_map]
  congr 2
  funext n
  dsimp only [Function.comp]
  split <;> rfl

end Graph

end Records
