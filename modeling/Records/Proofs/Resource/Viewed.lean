import Records.Proofs.Record.Paths
import Records.Proofs.Record.Reference
import Records.Proofs.Resource.Merging
import Records.Proofs.Resource.Traces
import Records.Proofs.Session.Mirrored

/-!
What a view holds of a record that is there and not trashed. It holds the values of the row, and for
each relation that is asked for by a name of its own those rows that are not trashed.
-/
namespace Records

open Records.Filter (Predicate)

section Names
variable {s : Schema} {m : Model} {h : Handle} {name : String} {c : Char} {cs before : List Char}

theorem mem_markCapitals (hc : c ∈ cs) : c ∈ markCapitals cs := by
  have hgo {cs : List Char} (hc : c ∈ cs) : c ∈ markCapitals.go cs := by
    induction cs with
    | nil => exact hc
    | cons d cs ih =>
      unfold markCapitals.go
      rcases List.mem_cons.1 hc with rfl | hc
      · split <;> simp
      · split <;> simp [ih hc]
  cases cs with
  | nil => exact hc
  | cons d cs =>
    rcases List.mem_cons.1 hc with rfl | hc
    · exact List.mem_cons_self ..
    · exact List.mem_cons_of_mem _ (hgo hc)

theorem Text.dot_mem_lowerChars (hc : '.' ∈ cs) : '.' ∈ Text.lowerChars before cs := by
  induction cs generalizing before with
  | nil => exact hc
  | cons d cs ih =>
    unfold Text.lowerChars
    rcases List.mem_cons.1 hc with rfl | hc
    · exact List.mem_append_left _ (List.mem_singleton_self _)
    · exact List.mem_append_right _ (ih hc)

/-- What names a relation is no path. -/
theorem Schema.Regular.not_mem_of_resolve? (hs : s.Regular) (hm : m ∈ s.models)
    (hr : s.resolve? m name = some h) : '.' ∉ name.toList := by
  have hdeclared {name : String} (hh : s.handle? m name = some h) : '.' ∉ name.toList := by
    rw [← relation_name_of_handle? hh]
    exact hs.undotted m hm _ (List.mem_of_find?_eq_some (handle?_eq_some.1 hh).1)
  unfold resolve? at hr
  split at hr
  · cases hr
  · rcases Option.or_eq_some_iff.1 hr with hh | ⟨-, hh⟩
    · exact hdeclared hh
    · refine fun hdot => hdeclared hh ?_
      unfold snakeCase Text.lower
      rw [String.toList_ofList, String.toList_ofList]
      exact Text.dot_mem_lowerChars (mem_markCapitals hdot)

theorem segments_of_undotted (hname : '.' ∉ name.toList) : segments name = [name] := by
  unfold segments
  rw [List.splitOn_eq_singleton hname, List.map_singleton, String.ofList_toList]

/-- Names of relations are followed each by itself. -/
theorem Schema.eagerChains_names {ε : Type} {names : List String}
    (hnames : ∀ name ∈ names, '.' ∉ name.toList) :
    ∃ chains, (s.eagerChains m names : Reported ε _).outcome = .ok chains ∧
      ∀ name ∈ names, ∀ h, s.resolve? m name = some h → [h] ∈ chains := by
  refine ⟨_, outcome_chains _, fun name hname h hh => ?_⟩
  refine List.mem_filterMap.2 ⟨name, mem_leadingPaths.2 ⟨hname, fun q hq hpass => ?_⟩, ?_⟩
  · obtain ⟨t, ht⟩ := passesThrough_iff.1 hpass
    refine hnames q hq ?_
    rw [ht]
    simp
  · rw [segments_of_undotted (hnames name hname), chain_cons_ok.2 ⟨h, [], hh, rfl, rfl⟩]
    rfl

end Names

section Query
variable {st : Store} {m : Model} {row : Row}

theorem exactly_int (m : Model) (c : Column) (n : Int) :
    exactly m c (.int n) = .compare ⟨m.table, c⟩ .eq (.int n) := rfl

/-- A row that is not trashed is the one that is found by its id. -/
theorem Query.rows_of_id (hrow : row ∈ st.rows m) (hlive : m.isLive row = true)
    (hfits : fitsInteger row.id = true) :
    ((Query.base m false).when [exactly m idColumn (.int row.id)]).rows st = [row] := by
  refine List.perm_singleton.1 ((List.perm_ext_iff_of_nodup ?_ (List.nodup_singleton _)).2 ?_)
  · exact ((st.table m.table).nodup_ids.of_map _).filter _
  · intro t
    change t ∈ (st.rows m).filter _ ↔ _
    rw [List.mem_filter, List.mem_singleton]
    change _ ∧ Predicate.allHold st t (notTrashed m ++ [_]) = true ↔ _
    rw [Predicate.allHold_append, allHold_notTrashed, Bool.and_eq_true, exactly_int,
      Predicate.allHold, Predicate.allHold, Bool.and_true, holds_compare_int rfl, Row.cell_id,
      Cell.equals_integers]
    constructor
    · rintro ⟨ht, -, -, hid⟩
      exact Store.eq_of_id hrow ht hid
    · rintro rfl
      exact ⟨hrow, hlive, hfits, rfl⟩

theorem Query.run_of_id (hrow : row ∈ st.rows m) (hlive : m.isLive row = true)
    (hfits : fitsInteger row.id = true) :
    ((Query.base m false).when [exactly m idColumn (.int row.id)]).run st = .ok [row] := by
  rw [← Query.rows_of_id hrow hlive hfits, Query.run_runs]
  intro p hp
  have hparameter : p = ⟨.raw, .int row.id⟩ := by
    change p ∈ Predicate.allParameters (notTrashed m ++ [_]) ++ [] at hp
    rw [List.append_nil, Predicate.allParameters_eq_flatMap, List.flatMap_append] at hp
    rcases List.mem_append.1 hp with hp | hp
    · unfold notTrashed at hp
      split at hp <;> cases hp
    · exact List.mem_singleton.1 hp
  rw [hparameter]
  exact Parameter.bindable_int.2 hfits

end Query

namespace Graph
variable {s : Schema} {st : Store} {g : Graph} {m : Model} {row t : Row} {h : Handle}

/-- The record of a row is held with the values of the row. -/
def Holds (g : Graph) (m : Model) (row : Row) : Prop :=
  ∃ n, g.node? (.stored m.name row.id) = some n ∧ ∀ c ∈ m.columns, n.value c.name = row.value c

theorem Grown.holds (hg : Grown s st .empty g) (hs : s.Referential) (hm : m ∈ s.models)
    (hrow : row ∈ st.rows m) (hheld : .stored m.name row.id ∈ g.refs) : g.Holds m row := by
  obtain ⟨n, hn⟩ := mem_refs_iff.1 hheld
  have hfound : (st.table m.table).find? row.id = some row := Table.find?_of_mem hrow
  have hvalues := hg.values_eq (.stored m.name row.id)
  unfold valuesOf at hvalues
  rw [hn] at hvalues
  replace hvalues : n.values = (Node.ofRow m [] row).values := by
    simpa [empty, node?, Schema.model?_of_mem hm, hfound] using hvalues
  refine ⟨n, hn, fun c hc => ?_⟩
  calc n.value c.name
    _ = (Node.ofRow m [] row).value c.name := congrArg (fun vs => (Value.lookup? c.name vs).getD _)
          hvalues
    _ = row.value c := by rw [Node.value_ofRow, hs.column? hm hc]; rfl

/-- A relation that was not loaded and now is has the rows that are not trashed. -/
theorem Grown.related_of_isSome (hg : Grown s st .empty g) (hd : s.Declares h)
    (hrow : row ∈ st.rows h.parent)
    (hloaded : (g.related? (.stored h.parent.name row.id) h.relation.name).isSome) :
    g.related? (.stored h.parent.name row.id) h.relation.name =
      some (h.relatedOf (loadedRows st h row)) := by
  rcases hg.related h hd row.id with hnone | ⟨row', hid, hfills⟩
  · rw [hnone] at hloaded
    cases hloaded
  · obtain rfl : row' = row := Store.eq_of_id hrow hfills.stored hid
    exact hfills.filled

/-- A record is held with the values of its row, and a relation of it with its rows that are not
trashed, each with its values. -/
structure HoldsUnder (st : Store) (g : Graph) (h : Handle) (row : Row) : Prop where
  related : g.related? (.stored h.parent.name row.id) h.relation.name =
    some (h.relatedOf (loadedRows st h row))
  members : ∀ t ∈ loadedRows st h row,
    .stored h.target.name t.id ∈ (h.relatedOf (loadedRows st h row)).refs → g.Holds h.target t

theorem Grown.holdsUnder (hg : Grown s st .empty g) (hs : s.Referential) (hd : s.Declares h)
    (hrow : row ∈ st.rows h.parent)
    (hloaded : (g.related? (.stored h.parent.name row.id) h.relation.name).isSome) :
    g.HoldsUnder st h row := by
  have hrelated := hg.related_of_isSome hd hrow hloaded
  refine ⟨hrelated, fun t ht hmember => ?_⟩
  exact hg.holds hs hd.target_mem (Store.mem_loadedRows ht).1
    (hg.sound h hd row.id _ hrelated _ hmember).1

end Graph

namespace Resource
variable {r : Resource} {st : Store} {se : Session} {row : Row}

theorem toPaths_names (names : List String) :
    (Value.list (names.map .text)).toPaths = .ok names := by
  cases names with
  | nil => rfl
  | cons name names =>
    have hitems : (Value.list ((name :: names).map .text)).toItems =
        .ok ((name :: names).map .text) := rfl
    refine except_bind_ok.2 ⟨_, hitems, mapM_map_ok ?_ _⟩
    exact fun _ => rfl

section Found
variable (hse : se.IsFresh st) (hactive : se.inactive = false) (hrow : row ∈ st.rows r.model)
  (hlive : r.model.isLive row = true) (hfits : fitsInteger row.id = true)
include hse hactive hrow hlive hfits

theorem findById_ok (chains : List (List Handle)) :
    (r.findById (.int row.id) chains false se).result = .ok (some (.stored r.model.name row.id)) ∧
      (r.findById (.int row.id) chains false se).session.records =
        (Graph.empty.hold r.schema st r.model [] row).loadChains r.schema st chains
          [.stored r.model.name row.id] := by
  obtain rfl := hse.store_eq
  have hquery : (Action.query ((Query.base r.model false).when
      [exactly r.model idColumn (.int row.id)]) se).result = .ok [row] :=
    Action.result_query_ok.2 ⟨hactive, Query.run_of_id hrow hlive hfits⟩
  have hsession : (Action.query ((Query.base r.model false).when
      [exactly r.model idColumn (.int row.id)]) se).session = se := by
    unfold Action.query
    rw [hactive]
    rfl
  have hheld := Action.records_hold (s := r.schema) (m := r.model) hse.staged [row] []
  rw [hse.records] at hheld
  have hfetch : (r.fetch ((Query.base r.model false).when
      [exactly r.model idColumn (.int row.id)]) chains [] se).result =
        .ok [.stored r.model.name row.id] := by
    refine Action.result_bind_ok.2 ⟨[row], hquery, Action.result_bind_ok.2 ⟨_, rfl, ?_⟩⟩
    exact Action.result_bind_ok.2 ⟨(), rfl, rfl⟩
  refine ⟨Action.result_bind_ok.2 ⟨_, hfetch, rfl⟩, ?_⟩
  unfold findById
  rw [Action.session_bind_of_ok hfetch]
  unfold fetch
  rw [Action.session_bind_of_ok hquery, hsession]
  change Graph.loadChains r.schema se.store chains _
    (Action.hold r.schema r.model [] [row] se).session.records = _
  rw [hheld]
  rfl

/-- A record that is there and not trashed is shown, with what is loaded on it. -/
theorem view_ok {relations : Value} {chains : List (List Handle)}
    (hchains : (r.eager relations se).result = .ok chains) :
    (r.view (.int row.id) relations .null (.list []) false se).result =
        .ok ⟨.stored r.model.name row.id, {}⟩ ∧
      (r.view (.int row.id) relations .null (.list []) false se).session.records =
        (Graph.empty.hold r.schema st r.model [] row).loadChains r.schema st chains
          [.stored r.model.name row.id] := by
  obtain ⟨hfound, hrecords⟩ := findById_ok hse hactive hrow hlive hfits chains
  have hsession := session_eager_of_ok hchains
  unfold view
  rw [Action.session_bind_of_ok hchains, hsession, Action.session_bind_of_ok hfound]
  refine ⟨Action.result_bind_ok.2 ⟨chains, hchains, ?_⟩, hrecords⟩
  rw [hsession]
  exact Action.result_bind_ok.2 ⟨_, hfound, rfl⟩

/-- Asked for with some of its relations by their names, a record that is there and not trashed is
shown with its values, and with these relations. -/
theorem view_shows (hs : r.schema.Regular) (hm : r.model ∈ r.schema.models) {names : List String}
    (hnames : ∀ name ∈ names, ∃ h, r.schema.resolve? r.model name = some h) :
    let viewed := r.view (.int row.id) (.list (names.map .text)) .null (.list []) false se
    viewed.result = .ok ⟨.stored r.model.name row.id, {}⟩ ∧
      viewed.session.records.Holds r.model row ∧
      ∀ name ∈ names, ∀ h, r.schema.resolve? r.model name = some h →
        viewed.session.records.HoldsUnder st h row := by
  intro viewed
  have hundotted : ∀ name ∈ names, '.' ∉ name.toList := fun name hname => by
    obtain ⟨h, hh⟩ := hnames name hname
    exact hs.not_mem_of_resolve? hm hh
  obtain ⟨chains, houtcome, hin⟩ := @Schema.eagerChains_names r.schema r.model _ names hundotted
  have hchains : (r.eager (.list (names.map .text)) se).result = .ok chains := by
    refine Action.result_bind_ok.2 ⟨names, toPaths_names names, ?_⟩
    exact Action.result_ofReported_ok.2 houtcome
  obtain ⟨hresult, hrecords⟩ := view_ok hse hactive hrow hlive hfits hchains
  have hstart : .stored r.model.name row.id ∈
      (Graph.empty.hold r.schema st r.model [] row).refs := (Graph.mem_refs_hold ..).2 (.inr rfl)
  have hrows : ∀ t ∈ [row], t ∈ st.rows r.model := List.forall_mem_singleton.2 hrow
  have hgrown : Graph.Grown r.schema st .empty viewed.session.records := by
    rw [hrecords]
    refine Graph.Grown.loadChains ?_ hm (isChain_of_chains houtcome) ?_
    · exact (Graph.Grown.refl Graph.sound_empty).holdAll hm hrows []
    · exact List.forall_mem_singleton.2 ⟨hstart, hstart, row.id, rfl⟩
  refine ⟨hresult, hgrown.holds hs.toReferential hm hrow ?_, fun name hname h hh => ?_⟩
  · rw [hrecords]
    exact Graph.mem_refs_loadChains hstart
  · obtain ⟨hd, hparent⟩ := Schema.declares_of_resolve? hm hh
    rw [← hparent] at hrow hstart
    refine hgrown.holdsUnder hs.toReferential hd hrow ?_
    rw [hrecords, ← hparent]
    refine Graph.isSome_of_mem_loadChains (hin name hname h hh) (Table.find?_of_mem hrow)
      (List.mem_singleton_self _) (List.forall_mem_singleton.2 ⟨?_, row.id, rfl⟩)
    rwa [hparent] at hstart ⊢

end Found

end Resource

end Records
