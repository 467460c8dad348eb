import Records.Library.Models
import Records.Proofs.Record.Held
import Records.Proofs.Record.Shown

/-!
Records that lead back to each other, as plain data. Each way down from the record that is shown
ends, since no record is repeated on it; where it would be, the data is cut, and nowhere else.
-/
namespace Records

instance : Nonempty Datum := ⟨.value .null⟩

namespace Related
variable {name : String} {rest : List Ref} {f : Ref → Except MissingAttribute Datum}
  {q : Option Related}

theorem exists_of_entries_error {e : MissingAttribute} (h : entries name rest f q = .error e) :
    ∃ child, f child = .error e := by
  rcases q with _ | children | _ | child
  · cases h
  · rcases except_bind_error.1 h with hitems | ⟨items, -, h⟩
    · obtain ⟨child, -, hchild⟩ := exists_of_mapM_error hitems
      exact ⟨child, hchild⟩
    · cases h
  · cases h
  · rw [entries] at h
    split at h
    · rcases except_bind_error.1 h with hchild | ⟨d, -, h⟩
      · exact ⟨child, hchild⟩
      · cases h
    · cases h

end Related

namespace Graph

/-- A graph that holds each record once, and every record that a relation in it was loaded with. -/
structure Closed (g : Graph) : Prop where
  nodup : g.refs.Nodup
  related_mem : ∀ e ∈ g.nodes, ∀ q ∈ e.2.related, ∀ child ∈ q.2.refs, child ∈ g.refs

mutual

/-- The data of a record that is shown below the records of `path`, the nearest of them first. -/
inductive Serializes (g : Graph) : List Ref → Ref → Visibility → Datum → Prop
  | object {path : List Ref} {ref : Ref} {v : Visibility} {n : Node}
      {shown : Relation → List (String × Datum)} {app : List (String × Datum)}
      (hfresh : ref ∉ path) (hn : g.node? ref = some n)
      (hshown : ∀ r ∈ n.model.relations, r.name ∉ n.model.hidden ++ v.hidden →
        SerializesRelation g (ref :: path) r.name (n.related? r.name) (shown r))
      (happ : n.appendedData (n.model.hidden ++ v.hidden) (v.appends.getD n.model.appends)
        = .ok app) :
      Serializes g path ref v (.object (overlay
        (n.columnData (n.model.hidden ++ v.hidden) ++
          (n.model.relations.filter fun r => !(n.model.hidden ++ v.hidden).contains r.name).flatMap
            shown) app))

/-- The entries that show a relation to a record and those above it. -/
inductive SerializesRelation (g : Graph) :
    List Ref → String → Option Related → List (String × Datum) → Prop
  | unloaded {path : List Ref} {name : String} : SerializesRelation g path name none []
  | empty {path : List Ref} {name : String} :
      SerializesRelation g path name (some (.one none)) [(name, .value .null)]
  | cut {path : List Ref} {name : String} {child : Ref} (habove : child ∈ path) :
      SerializesRelation g path name (some (.one (some child))) []
  | one {path : List Ref} {name : String} {child : Ref} {d : Datum} (hbelow : child ∉ path)
      (hd : Serializes g path child {} d) :
      SerializesRelation g path name (some (.one (some child))) [(name, d)]
  | many {path : List Ref} {name : String} {children : List Ref} {data : Ref → Datum}
      (hd : ∀ child ∈ children, child ∉ path → Serializes g path child {} (data child)) :
      SerializesRelation g path name (some (.many children))
        [(name, .list ((children.filter (· ∉ path)).map data))]

end

/-- An attribute that some record is to show besides, and does not have. -/
def Lacks (g : Graph) (ref : Ref) (v : Visibility) (e : MissingAttribute) : Prop :=
  ∃ r w n, (r = ref ∧ w = v ∨ w = {}) ∧ g.node? r = some n ∧
    e.name ∈ w.appends.getD n.model.appends ∧ e.name ∉ n.model.hidden ++ w.hidden ∧
    n.attr? e.name = .error e

variable {g : Graph}

/-- Data that cannot be had asks a record for an attribute it lacks. -/
theorem lacks_of_dataBelow {remaining : List Ref} {ref : Ref} {v : Visibility}
    {e : MissingAttribute} (h : g.dataBelow remaining ref v = .error e) : g.Lacks ref v e := by
  induction hk : remaining.length using Nat.strong_induction_on generalizing remaining ref v with
  | _ k ih =>
    by_cases href : ref ∈ remaining
    · cases hn : g.node? ref with
      | none => rw [dataBelow_of_node?_none hn] at h; cases h
      | some n =>
        rw [dataBelow_of_node? href hn] at h
        rcases except_bind_error.1 h with hrels | ⟨es, -, h⟩
        · obtain ⟨r, -, hr⟩ := exists_of_mapM_error hrels
          obtain ⟨child, hchild⟩ := Related.exists_of_entries_error hr
          obtain ⟨r, w, m, hw, hfound⟩ := ih _ (hk ▸ length_erase_lt href) hchild rfl
          exact ⟨r, w, m, .inr (hw.elim And.right id), hfound⟩
        rcases except_bind_error.1 h with happ | ⟨app, -, h⟩
        · obtain ⟨a, ha, he⟩ := exists_of_mapM_error happ
          rcases except_bind_error.1 he with he | ⟨d, -, he⟩
          · obtain ⟨hmem, hhidden⟩ := List.mem_filter.1 ha
            obtain rfl : e.name = a := by
              unfold Node.attr? at he
              repeat' split at he
              all_goals cases he
              rfl
            exact ⟨ref, v, n, .inl ⟨rfl, rfl⟩, hn, List.mem_eraseDups.1 hmem,
              by simpa using hhidden, he⟩
          · cases he
        · cases h
    · rw [dataBelow_of_not_mem href] at h
      cases h

namespace Closed
variable {path remaining : List Ref} {ref : Ref}

theorem mem_of_related? (hg : g.Closed) {n : Node} (hn : g.node? ref = some n) {name : String}
    {q : Related} (hq : n.related? name = some q) : ∀ child ∈ q.refs, child ∈ g.refs := by
  obtain ⟨e, he, rfl⟩ := Option.map_eq_some_iff.1 hn
  obtain ⟨r, hr, rfl⟩ := Option.map_eq_some_iff.1 hq
  exact hg.related_mem e (List.mem_of_find?_eq_some he) r (List.mem_of_find?_eq_some hr)

/-- The entries of a relation, as long as only what is above may not be shown any more. -/
theorem serializesRelation_of_entries (hg : g.Closed) {n : Node} (hn : g.node? ref = some n)
    {name : String} {es : List (String × Datum)}
    (hrest : ∀ r, r ∈ remaining ↔ r ∈ g.refs ∧ r ∉ path)
    (hbelow : ∀ child d, child ∈ remaining → g.dataBelow remaining child {} = .ok d →
      g.Serializes path child {} d)
    (h : Related.entries name remaining (fun child => g.dataBelow remaining child {})
      (n.related? name) = .ok es) : g.SerializesRelation path name (n.related? name) es := by
  rcases hq : n.related? name with _ | children | _ | child
  · rw [hq] at h
    cases h
    exact .unloaded
  · rw [hq] at h
    obtain ⟨items, hitems, h⟩ := except_bind_ok.1 h
    cases h
    obtain ⟨data, rfl, hdata⟩ := exists_map_of_mapM_ok hitems
    have hkept : children.filter (· ∈ remaining) = children.filter (· ∉ path) :=
      List.filter_congr fun c hc => by simp [hrest, hg.mem_of_related? hn hq c hc]
    rw [hkept]
    refine .many fun c hc hpath => ?_
    have hc' : c ∈ remaining := (hrest c).2 ⟨hg.mem_of_related? hn hq c hc, hpath⟩
    exact hbelow c _ hc' (hdata c (List.mem_filter.2 ⟨hc, decide_eq_true hc'⟩))
  · rw [hq] at h
    cases h
    exact .empty
  · rw [hq, Related.entries] at h
    have hc := hg.mem_of_related? hn hq child (List.mem_singleton_self _)
    split at h
    · rename_i hrem
      obtain ⟨d, hd, h⟩ := except_bind_ok.1 h
      cases h
      exact .one ((hrest child).1 hrem).2 (hbelow child d hrem hd)
    · rename_i hrem
      cases h
      exact .cut (by simpa [hrest, hc] using hrem)

/-- The records that may still be shown are those that are not above; each level down takes one of
them away. -/
theorem serializes_of_dataBelow (hg : g.Closed) (hnodup : remaining.Nodup)
    (hrest : ∀ r, r ∈ remaining ↔ r ∈ g.refs ∧ r ∉ path) (href : ref ∈ remaining) {v : Visibility}
    {d : Datum} (hd : g.dataBelow remaining ref v = .ok d) : g.Serializes path ref v d := by
  induction hk : remaining.length using Nat.strong_induction_on
    generalizing path remaining ref v d with
  | _ k ih =>
    obtain ⟨n, hn⟩ := mem_refs_iff.1 ((hrest ref).1 href).1
    rw [dataBelow_of_node? href hn] at hd
    obtain ⟨rels, hrels, hd⟩ := except_bind_ok.1 hd
    obtain ⟨app, happ, hd⟩ := except_bind_ok.1 hd
    cases hd
    obtain ⟨shown, rfl, hshown⟩ := exists_map_of_mapM_ok hrels
    have hrest' : ∀ r, r ∈ remaining.erase ref ↔ r ∈ g.refs ∧ r ∉ ref :: path := by
      intro r
      rw [hnodup.mem_erase_iff, hrest, List.mem_cons]
      tauto
    rw [← List.flatMap_def]
    refine .object ((hrest ref).1 href).2 hn (fun r hr hvisible => ?_) happ
    refine hg.serializesRelation_of_entries hn hrest' (fun child d hchild hd => ?_)
      (hshown r (List.mem_filter.2 ⟨hr, by simpa using hvisible⟩))
    exact ih _ (hk ▸ length_erase_lt href) (hnodup.erase ref) hrest' hchild hd rfl

end Closed

/-- A category that is its own parent, with one more below it. -/
def selfRooted : Graph where
  nodes :=
    let root := Ref.stored "Category" 1
    let branch := Ref.stored "Category" 2
    [(root,
      { model := Library.category
        values := [("id", .int 1), ("name", .text "root"), ("parent_id", .int 1)]
        deferred := []
        related := [("parent", .one (some root)), ("children", .many [root, branch])] }),
     (branch,
      { model := Library.category
        values := [("id", .int 2), ("name", .text "branch"), ("parent_id", .int 1)]
        deferred := []
        related := [("parent", .one (some root)), ("children", .many [])] })]

theorem selfRooted_closed : selfRooted.Closed := ⟨by decide, by decide⟩

end Graph

end Records
