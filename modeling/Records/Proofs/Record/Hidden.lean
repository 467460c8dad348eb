import Records.Proofs.Record.Unfolded
import Records.Record.View

/-!
What stays hidden. The visibility of a view is that of its record alone: whatever changes it, what
is hidden at some step is not shown, what is below the record is shown as if nothing had been
changed, and no record shows what its model hides.
-/
namespace Records

/-- A change of a view. -/
inductive ViewEdit
  | setAppends (names : List String)
  | makeHidden (names : List String)

namespace ViewEdit

def apply (v : RecordView) : ViewEdit → RecordView
  | setAppends names => v.setAppends names
  | makeHidden names => v.makeHidden names

def hides : ViewEdit → List String
  | setAppends _ => []
  | makeHidden names => names

def appends? : ViewEdit → Option (List String)
  | setAppends names => some names
  | makeHidden _ => none

theorem visibility_apply (v : RecordView) (e : ViewEdit) :
    (e.apply v).visibility =
      ⟨v.visibility.hidden ++ e.hides, e.appends?.or v.visibility.appends⟩ := by
  cases e with
  | setAppends names => simp [apply, RecordView.setAppends, hides, appends?]
  | makeHidden names => simp [apply, RecordView.makeHidden, hides, appends?]

end ViewEdit

namespace RecordView

def edited (v : RecordView) (edits : List ViewEdit) : RecordView := edits.foldl ViewEdit.apply v

theorem record_edited (v : RecordView) (edits : List ViewEdit) :
    (v.edited edits).record = v.record := by
  induction edits generalizing v with
  | nil => rfl
  | cons e edits ih =>
    have hfirst : (e.apply v).record = v.record := by cases e <;> rfl
    exact (ih (e.apply v)).trans hfirst

/-- All that is ever hidden stays hidden, and the last change of what is appended counts. -/
theorem visibility_edited (v : RecordView) (edits : List ViewEdit) :
    (v.edited edits).visibility = ⟨v.visibility.hidden ++ edits.flatMap ViewEdit.hides,
      (edits.reverse.findSome? ViewEdit.appends?).or v.visibility.appends⟩ := by
  induction edits generalizing v with
  | nil => simp [edited]
  | cons e edits ih =>
    have hlast : (e :: edits).reverse.findSome? ViewEdit.appends? =
        (edits.reverse.findSome? ViewEdit.appends?).or e.appends? := by
      rw [List.reverse_cons, List.findSome?_append, List.findSome?_singleton]
    have hrest := ih (e.apply v)
    rw [ViewEdit.visibility_apply] at hrest
    rw [List.flatMap_cons, hlast, Option.or_assoc, ← List.append_assoc]
    exact hrest

end RecordView

/-- A datum is another or stands somewhere inside it. -/
inductive Datum.Contains : Datum → Datum → Prop
  | refl (d : Datum) : Contains d d
  | item {items : List Datum} {d inner : Datum} (hd : d ∈ items) (h : Contains d inner) :
      Contains (.list items) inner
  | entry {es : List (String × Datum)} {key : String} {d inner : Datum} (hd : (key, d) ∈ es)
      (h : Contains d inner) : Contains (.object es) inner

namespace Related
variable {name : String} {rest : List Ref} {f : Ref → Except MissingAttribute Datum}
  {q : Option Related} {es inner : List (String × Datum)}

/-- An object in what a record shows of a relation is that of a record there, or inside it. -/
theorem contains_of_entries (h : entries name rest f q = .ok es) {key : String} {d : Datum}
    (hd : (key, d) ∈ es) (hinner : d.Contains (.object inner)) : key = name ∧
      ((∃ child ∈ rest, q = some (.one (some child)) ∧ f child = .ok d) ∨
        ∃ children items, q = some (.many children) ∧ d = .list items ∧
          (children.filter (· ∈ rest)).mapM f = .ok items) := by
  rcases q with _ | children | _ | child
  · cases h
    cases hd
  · obtain ⟨items, hitems, h⟩ := except_bind_ok.1 h
    cases h
    obtain ⟨rfl, rfl⟩ := Prod.mk.inj (List.mem_singleton.1 hd)
    exact ⟨rfl, .inr ⟨children, items, rfl, rfl, hitems⟩⟩
  · cases h
    obtain ⟨rfl, rfl⟩ := Prod.mk.inj (List.mem_singleton.1 hd)
    cases hinner
  · rw [entries] at h
    split at h
    · rename_i hchild
      obtain ⟨data, hdata, h⟩ := except_bind_ok.1 h
      cases h
      obtain ⟨rfl, rfl⟩ := Prod.mk.inj (List.mem_singleton.1 hd)
      exact ⟨rfl, .inl ⟨child, hchild, rfl, hdata⟩⟩
    · cases h
      cases hd

end Related

namespace Node

/-- Attributes are values and records, never their data. -/
theorem not_contains_attr {n : Node} {name : String} {d : Datum} (h : n.attr? name = .ok d)
    (inner : List (String × Datum)) : ¬ d.Contains (.object inner) := by
  have hrelated (r : Relation) : ¬ (n.relatedDatum r).Contains (.object inner) := by
    unfold relatedDatum
    split
    · intro hc
      cases hc with
      | item hd hc =>
        obtain ⟨ref, -, rfl⟩ := List.mem_map.1 hd
        cases hc
    · nofun
    · nofun
    · split
      · intro hc
        cases hc with
        | item hd hc => cases hd
      · nofun
  unfold attr? at h
  split at h
  · cases h
    nofun
  · split at h
    · cases h
      exact hrelated _
    · split at h
      · cases h
        nofun
      · cases h

theorem mem_appendedData {n : Node} {hidden appends : List String} {app : List (String × Datum)}
    (h : n.appendedData hidden appends = .ok app) {key : String} {d : Datum} :
    (key, d) ∈ app ↔ (key ∈ appends ∧ key ∉ hidden) ∧ n.attr? key = .ok d := by
  unfold appendedData at h
  constructor
  · intro hd
    obtain ⟨a, ha, hfound⟩ := exists_of_mem_mapM h hd
    obtain ⟨d', hd', hpair⟩ := except_bind_ok.1 hfound
    cases hpair
    obtain ⟨hmem, hhidden⟩ := List.mem_filter.1 ha
    exact ⟨⟨List.mem_eraseDups.1 hmem, by simpa using hhidden⟩, hd'⟩
  · rintro ⟨⟨hmem, hhidden⟩, hd⟩
    obtain ⟨e, he, hfound⟩ := exists_mem_mapM h
      (List.mem_filter.2 ⟨List.mem_eraseDups.2 hmem, by simpa using hhidden⟩)
    rw [hd] at hfound
    cases hfound
    exact he

theorem mem_columnData {n : Node} {hidden : List String} {key : String} {d : Datum} :
    (key, d) ∈ n.columnData hidden ↔
      (key ∈ n.model.columnNames ∧ key ∉ hidden) ∧ d = .value (n.value key) := by
  unfold columnData
  simp only [List.mem_map, List.mem_filter, Prod.mk.injEq]
  constructor
  · rintro ⟨c, ⟨hc, hhidden⟩, rfl, rfl⟩
    exact ⟨⟨hc, by simpa using hhidden⟩, rfl⟩
  · rintro ⟨⟨hc, hhidden⟩, rfl⟩
    exact ⟨key, ⟨hc, by simpa using hhidden⟩, rfl, rfl⟩

end Node

theorem mem_overlay {own app : List (String × Datum)} {e : String × Datum} :
    e ∈ overlay own app ↔ e ∈ own ∧ e.1 ∉ app.map (·.1) ∨ e ∈ app := by
  unfold overlay
  simp

namespace Graph
variable {g : Graph}

/-- An entry that shows a relation which is loaded. -/
def RelationEntry (g : Graph) (rest : List Ref) (n : Node) (key : String) (d : Datum) : Prop :=
  ∃ r ∈ n.model.relations, r.name = key ∧ ∃ es,
    Related.entries key rest (fun child => g.dataBelow rest child {}) (n.related? key) = .ok es ∧
      (key, d) ∈ es

theorem mem_relationEntries {rest : List Ref} {n : Node} {hidden : List String}
    {rels : List (List (String × Datum))} (h : g.relationEntries rest n hidden = .ok rels)
    {key : String} {d : Datum} :
    (key, d) ∈ rels.flatten ↔ key ∉ hidden ∧ g.RelationEntry rest n key d := by
  unfold relationEntries at h
  rw [List.mem_flatten]
  constructor
  · rintro ⟨es, hes, he⟩
    obtain ⟨r, hr, hfound⟩ := exists_of_mem_mapM h hes
    obtain ⟨hr, hhidden⟩ := List.mem_filter.1 hr
    obtain rfl : key = r.name := by
      have hkey := List.mem_map_of_mem (f := Prod.fst) he
      rw [Related.keys_entries hfound] at hkey
      exact Related.eq_of_mem_entryKeys hkey
    exact ⟨by simpa using hhidden, r, hr, rfl, es, hfound, he⟩
  · rintro ⟨hhidden, r, hr, rfl, es, hes, he⟩
    obtain ⟨es', hes', hfound⟩ := exists_mem_mapM h
      (List.mem_filter.2 ⟨hr, by simpa using hhidden⟩)
    obtain rfl := Except.ok.inj (hes.symm.trans hfound)
    exact ⟨es, hes', he⟩

/-- An entry that a record shows by itself: a column, or a loaded relation. -/
def OwnEntry (g : Graph) (rest : List Ref) (n : Node) (key : String) (d : Datum) : Prop :=
  (key ∈ n.model.columnNames ∧ d = .value (n.value key)) ∨ g.RelationEntry rest n key d

variable {remaining : List Ref} {ref : Ref} {v : Visibility} {es : List (String × Datum)}

/-- The entries of the object that a record is shown as. -/
theorem mem_object (h : g.dataBelow remaining ref v = .ok (.object es)) :
    ∃ n, ref ∈ remaining ∧ g.node? ref = some n ∧
      (∀ a ∈ v.appends.getD n.model.appends, a ∉ n.model.hidden ++ v.hidden →
        ∃ d, n.attr? a = .ok d) ∧
      ∀ key d, (key, d) ∈ es ↔ key ∉ n.model.hidden ++ v.hidden ∧
        (key ∈ v.appends.getD n.model.appends ∧ n.attr? key = .ok d ∨
          key ∉ v.appends.getD n.model.appends ∧ g.OwnEntry (remaining.erase ref) n key d) := by
  by_cases href : ref ∈ remaining
  · cases hn : g.node? ref with
    | none =>
      rw [dataBelow_of_node?_none hn] at h
      cases h
    | some n =>
      rw [dataBelow_of_node? href hn] at h
      obtain ⟨rels, hrels, h⟩ := except_bind_ok.1 h
      obtain ⟨app, happ, h⟩ := except_bind_ok.1 h
      cases h
      refine ⟨n, href, rfl, fun a ha hhidden => ?_, fun key d => ?_⟩
      · obtain ⟨e, he⟩ := exists_of_mapM_ok happ
          (List.mem_filter.2 ⟨List.mem_eraseDups.2 ha, by simpa using hhidden⟩)
        obtain ⟨d, hd, -⟩ := except_bind_ok.1 he
        exact ⟨d, hd⟩
      · have hkeys : key ∈ app.map (·.1) ↔
            key ∈ v.appends.getD n.model.appends ∧ key ∉ n.model.hidden ++ v.hidden := by
          rw [keys_appendedData happ]
          simp [List.mem_eraseDups]
        rw [mem_overlay, List.mem_append, Node.mem_columnData, mem_relationEntries hrels,
          Node.mem_appendedData happ, hkeys]
        unfold OwnEntry
        tauto
  · rw [dataBelow_of_not_mem href] at h
    cases h

theorem object_of_node? (href : ref ∈ remaining) {n : Node} (hn : g.node? ref = some n)
    {d : Datum} (h : g.dataBelow remaining ref v = .ok d) : ∃ es, d = .object es := by
  rw [dataBelow_of_node? href hn] at h
  obtain ⟨rels, -, h⟩ := except_bind_ok.1 h
  obtain ⟨app, -, h⟩ := except_bind_ok.1 h
  cases h
  exact ⟨_, rfl⟩

theorem object_of_contains {d : Datum} (h : g.dataBelow remaining ref v = .ok d)
    {inner : List (String × Datum)} (hinner : d.Contains (.object inner)) :
    ∃ es, d = .object es := by
  by_cases href : ref ∈ remaining
  · cases hn : g.node? ref with
    | none =>
      rw [dataBelow_of_node?_none hn] at h
      cases h
      cases hinner
    | some n => exact object_of_node? href hn h
  · rw [dataBelow_of_not_mem href] at h
    cases h
    cases hinner

/-- An object in an entry of a record that is shown is that of a related record, or inside it. -/
theorem contains_of_mem (h : g.dataBelow remaining ref v = .ok (.object es)) {key : String}
    {d : Datum} (hd : (key, d) ∈ es) {inner : List (String × Datum)}
    (hinner : d.Contains (.object inner)) : ref ∈ remaining ∧
      ((∃ child ∈ remaining.erase ref, g.related? ref key = some (.one (some child)) ∧
          g.dataBelow (remaining.erase ref) child {} = .ok d) ∨
        ∃ children items, g.related? ref key = some (.many children) ∧ d = .list items ∧
          (children.filter (· ∈ remaining.erase ref)).mapM
            (fun child => g.dataBelow (remaining.erase ref) child {}) = .ok items) := by
  obtain ⟨n, href, hn, -, hes⟩ := mem_object h
  have hrelated : g.related? ref key = n.related? key := by
    unfold related?
    rw [hn]
    rfl
  rw [hrelated]
  obtain ⟨-, ⟨-, hattr⟩ | ⟨-, ⟨-, rfl⟩ | ⟨r, -, -, shown, hshown, hmem⟩⟩⟩ := (hes key d).1 hd
  · exact absurd hinner (Node.not_contains_attr hattr inner)
  · cases hinner
  · exact ⟨href, (Related.contains_of_entries hshown hmem hinner).2⟩

/-- A place in what is shown of a record: the data there, the record whose data it is, and the
records that may still be shown there. -/
structure Place where
  remaining : List Ref
  ref : Ref
  datum : Datum

/-- One place is right below another: it stands for the record that a relation holds, or for one of
the records there that may still be shown. -/
inductive Leads (g : Graph) : Place → Place → Prop
  | one {remaining : List Ref} {ref child : Ref} {es : List (String × Datum)} {name : String}
      {d : Datum} (hone : g.related? ref name = some (.one (some child))) (hd : (name, d) ∈ es) :
      Leads g ⟨remaining, ref, .object es⟩ ⟨remaining.erase ref, child, d⟩
  | many {remaining children : List Ref} {ref child : Ref} {es : List (String × Datum)}
      {name : String} {items : List Datum} {d : Datum}
      (hmany : g.related? ref name = some (.many children)) (hitems : (name, .list items) ∈ es)
      (hd : (child, d) ∈ (children.filter (· ∈ remaining.erase ref)).zip items) :
      Leads g ⟨remaining, ref, .object es⟩ ⟨remaining.erase ref, child, d⟩

/-- What is right below a record is shown as if nothing of it had been changed. -/
theorem dataBelow_of_leads {p q : Place} (hpq : g.Leads p q)
    (hp : g.dataBelow p.remaining p.ref v = .ok p.datum) {inner : List (String × Datum)}
    (hq : q.datum = .object inner) : g.dataBelow q.remaining q.ref {} = .ok q.datum := by
  cases hpq with
  | one hone hd =>
    obtain rfl : _ = Datum.object inner := hq
    obtain ⟨-, ⟨child', -, hone', hchild⟩ | ⟨children, items, -, hlist, -⟩⟩ :=
      contains_of_mem hp hd (.refl _)
    · rw [hone] at hone'
      cases hone'
      exact hchild
    · cases hlist
  | many hmany hitems hd =>
    obtain rfl : _ = Datum.object inner := hq
    obtain ⟨-, ⟨child', -, hone', -⟩ | ⟨children', items', hmany', hlist, hwalk⟩⟩ :=
      contains_of_mem hp hitems (.item (List.of_mem_zip hd).2 (.refl _))
    · rw [hmany] at hone'
      cases hone'
    · rw [hmany] at hmany'
      cases hmany'
      cases hlist
      exact ok_of_mem_zip_mapM hwalk hd

theorem dataBelow_of_below {p q : Place} (hpq : Relation.TransGen g.Leads p q)
    (hp : g.dataBelow p.remaining p.ref v = .ok p.datum) {inner : List (String × Datum)}
    (hq : q.datum = .object inner) : g.dataBelow q.remaining q.ref {} = .ok q.datum := by
  induction hpq generalizing inner with
  | single hpq => exact dataBelow_of_leads hpq hp hq
  | tail _ hqr ih =>
    -- Only what is an object leads further down.
    cases hqr with
    | one hone hd => exact dataBelow_of_leads (.one hone hd) (ih rfl) hq
    | many hmany hitems hd => exact dataBelow_of_leads (.many hmany hitems hd) (ih rfl) hq

/-- Every object in what is shown of a record is that of the record, or of one at a place below. -/
theorem below_of_contains (h : g.dataBelow remaining ref v = .ok (.object es))
    {inner : List (String × Datum)} (hinner : (Datum.object es).Contains (.object inner)) :
    inner = es ∨ ∃ remaining' ref', Relation.TransGen g.Leads ⟨remaining, ref, .object es⟩
      ⟨remaining', ref', .object inner⟩ := by
  induction hk : remaining.length using Nat.strong_induction_on
    generalizing remaining ref v es with
  | _ k ih =>
    cases hinner with
    | refl => exact .inl rfl
    | entry hd hinner =>
      obtain ⟨href, hbelow⟩ := contains_of_mem h hd hinner
      -- The records that may still be shown get fewer from place to place.
      have hdown {child : Ref} {d : Datum}
          (hleads : g.Leads ⟨remaining, ref, .object es⟩ ⟨remaining.erase ref, child, d⟩)
          (hd : g.dataBelow (remaining.erase ref) child {} = .ok d)
          (hinner : d.Contains (.object inner)) :
          ∃ remaining' ref', Relation.TransGen g.Leads ⟨remaining, ref, .object es⟩
            ⟨remaining', ref', .object inner⟩ := by
        obtain ⟨es', rfl⟩ := object_of_contains hd hinner
        rcases ih _ (hk ▸ length_erase_lt href) hd hinner rfl with rfl | ⟨rest, ref', hbelow⟩
        · exact ⟨_, _, .single hleads⟩
        · exact ⟨rest, ref', .head hleads hbelow⟩
      rcases hbelow with ⟨child, -, hone, hchild⟩ | ⟨children, items, hmany, rfl, hwalk⟩
      · exact .inr (hdown (.one hone hd) hchild hinner)
      · cases hinner with
        | item hitem hinner =>
          obtain ⟨child, hchild⟩ := exists_mem_zip_mapM hwalk hitem
          exact .inr (hdown (.many hmany hd hchild) (ok_of_mem_zip_mapM hwalk hchild) hinner)

end Graph

/-- What a view shows of a record: what is hidden and what is appended counts for the record alone,
and below it every record is shown as it would be by itself. -/
structure Graph.Veils (g : Graph) (ref : Ref) (n : Node) (hidden appended : List String)
    (es : List (String × Datum)) : Prop where
  unhidden : ∀ e ∈ es, e.1 ∉ n.model.hidden ++ hidden
  extra : ∀ a ∈ appended, a ∉ n.model.hidden ++ hidden →
    ∃ d, n.attr? a = .ok d ∧ ∀ d', (a, d') ∈ es ↔ d' = d
  own : ∀ e ∈ es, e.1 ∉ appended →
    e.1 ∈ n.model.columnNames ∨ ∃ r ∈ n.model.relations, r.name = e.1
  plain : ∀ fs, g.data ref = .ok (.object fs) → ∀ key, key ∉ hidden → key ∉ appended →
    key ∉ n.model.appends → ∀ d, (key, d) ∈ es ↔ (key, d) ∈ fs
  below : ∀ inner, (Datum.object es).Contains (.object inner) → inner = es ∨
    ∃ remaining ref', Relation.TransGen g.Leads ⟨g.refs, ref, .object es⟩
      ⟨remaining, ref', .object inner⟩
  nested : ∀ remaining ref' inner, Relation.TransGen g.Leads ⟨g.refs, ref, .object es⟩
      ⟨remaining, ref', .object inner⟩ →
    g.dataBelow remaining ref' {} = .ok (.object inner) ∧
      ∃ m, g.node? ref' = some m ∧ ∀ e ∈ inner, e.1 ∉ m.model.hidden

theorem Graph.veils_of_data {g : Graph} {ref : Ref} {n : Node} (hn : g.node? ref = some n)
    {v : Visibility} {es : List (String × Datum)} (h : g.data ref v = .ok (.object es)) :
    g.Veils ref n v.hidden (v.appends.getD n.model.appends) es := by
  obtain ⟨n', -, hn', happended, hes⟩ := mem_object h
  obtain rfl := Option.some.inj (hn.symm.trans hn')
  constructor
  case unhidden => exact fun e he => ((hes e.1 e.2).1 he).1
  case extra =>
    intro a ha hhidden
    obtain ⟨d, hd⟩ := happended a ha hhidden
    refine ⟨d, hd, fun d' => ?_⟩
    rw [hes, hd, Except.ok.injEq]
    constructor
    · rintro ⟨-, ⟨-, rfl⟩ | ⟨hnot, -⟩⟩
      · rfl
      · exact absurd ha hnot
    · rintro rfl
      exact ⟨hhidden, .inl ⟨ha, rfl⟩⟩
  case own =>
    intro e he hnot
    obtain ⟨-, ⟨ha, -⟩ | ⟨-, hcolumn | ⟨r, hr, hname, -⟩⟩⟩ := (hes e.1 e.2).1 he
    · exact absurd ha hnot
    · exact .inl hcolumn.1
    · exact .inr ⟨r, hr, hname⟩
  case plain =>
    intro fs hfs key hhidden hnot hdefault d
    obtain ⟨n'', -, hn'', -, hfs⟩ := mem_object hfs
    obtain rfl := Option.some.inj (hn.symm.trans hn'')
    rw [hes, hfs]
    simp [hhidden, hnot, hdefault]
  case below => exact fun inner => below_of_contains h
  case nested =>
    intro remaining ref' inner hbelow
    have hinner := dataBelow_of_below hbelow h rfl
    obtain ⟨m, -, hm, -, hentries⟩ := mem_object hinner
    refine ⟨hinner, m, hm, fun e he => ?_⟩
    simpa using ((hentries e.1 e.2).1 he).1

namespace RecordView

/-- A view shows nothing that was hidden from it at some step, and no record below shows what its
model hides. It can only fail for an appended attribute that is missing. -/
theorem hidden_never_shown {g : Graph} {ref : Ref} {n : Node} (hn : g.node? ref = some n)
    (start : Visibility) (edits : List ViewEdit) :
    let view := edited ⟨ref, start⟩ edits
    let hidden := start.hidden ++ edits.flatMap ViewEdit.hides
    let appended := ((edits.reverse.findSome? ViewEdit.appends?).or start.appends).getD
      n.model.appends
    (∃ es, view.data g = .ok (.object es) ∧ g.Veils ref n hidden appended es) ∨
      ∃ e, view.data g = .error e ∧ g.Lacks ref view.visibility e := by
  intro view hidden appended
  have hview : view.data g = g.data ref view.visibility := by
    unfold data
    rw [record_edited]
  have hvisibility : view.visibility = ⟨hidden, _⟩ := visibility_edited ⟨ref, start⟩ edits
  rw [hview]
  cases hd : g.data ref view.visibility with
  | ok d =>
    have href : ref ∈ g.refs := Graph.mem_refs_iff.2 ⟨n, hn⟩
    obtain ⟨es, rfl⟩ := Graph.object_of_node? href hn hd
    refine .inl ⟨es, rfl, ?_⟩
    have hveils := Graph.veils_of_data hn hd
    rwa [hvisibility] at hveils
  | error e => exact .inr ⟨e, rfl, Graph.lacks_of_dataBelow hd⟩

/-- A book with its author, who has a secret note and leads back to the book. -/
def signed : Graph where
  nodes :=
    let dune := Ref.stored "Book" 10
    let ann := Ref.stored "Author" 1
    [(dune,
      { model := Library.book
        values := [("id", .int 10), ("author_id", .int 1), ("title", .text "Dune")]
        deferred := []
        related := [("author", .one (some ann))] }),
     (ann,
      { model := Library.author
        values := [("id", .int 1), ("name", .text "Ann"), ("country", .text "AR"),
          ("secret_note", .text "ghostwriter")]
        deferred := []
        related := [("books", .many [dune])] })]

theorem hidden_never_shown_signed :
    let dune := Ref.stored "Book" 10
    let edits := [ViewEdit.setAppends ["secret"], .makeHidden ["title"],
      .setAppends ["title", "trashed"]]
    ∃ n es inner, signed.node? dune = some n ∧
      (edited ⟨dune, { hidden := ["pages"] }⟩ edits).data signed = .ok (.object es) ∧
      signed.Veils dune n ["pages", "title"] ["title", "trashed"] es ∧
      ("author", .object inner) ∈ es ∧ "secret_note" ∉ inner.map (·.1) ∧
      inner.map (·.1) = ["id", "name", "country", "status", "rating", "active", "created_at",
        "updated_at", "deleted_at", "books", "display_name"] := by
  intro dune edits
  obtain ⟨n, hn⟩ : ∃ n, signed.node? dune = some n := ⟨_, rfl⟩
  let inner : List (String × Datum) :=
    [("id", .value (.int 1)), ("name", .value (.text "Ann")), ("country", .value (.text "AR")),
     ("status", .value .null), ("rating", .value .null), ("active", .value .null),
     ("created_at", .value .null), ("updated_at", .value .null), ("deleted_at", .value .null),
     ("books", .list []), ("display_name", .value (.text "Ann (AR)"))]
  let es : List (String × Datum) :=
    [("id", .value (.int 10)), ("author_id", .value (.int 1)), ("genre", .value .null),
     ("created_at", .value .null), ("updated_at", .value .null), ("deleted_at", .value .null),
     ("author", .object inner), ("trashed", .value (.bool false))]
  have hauthor : ("author", .object inner) ∈ es := by simp [es]
  have hdata : (edited ⟨dune, { hidden := ["pages"] }⟩ edits).data signed = .ok (.object es) := by
    with_unfolding_all rfl
  rcases hidden_never_shown hn { hidden := ["pages"] } edits with ⟨es', hes', hveils⟩ | ⟨e, he, -⟩
  · obtain rfl : es = es' := Datum.object.inj (Except.ok.inj (hdata.symm.trans hes'))
    obtain ⟨-, m, hm, hhidden⟩ := hveils.nested _ _ inner (.single (.one rfl hauthor))
    refine ⟨n, es, inner, hn, hdata, hveils, hauthor, fun hkey => ?_, rfl⟩
    obtain rfl : _ = m := Option.some.inj hm
    obtain ⟨⟨key, d⟩, he, rfl⟩ := List.mem_map.1 hkey
    exact hhidden _ he (List.mem_singleton_self _)
  · rw [hdata] at he
    cases he

end RecordView

end Records
