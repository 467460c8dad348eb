import Records.Proofs.Record.Loaded
import Records.Proofs.Resource.Trash

/-!
What reads load of the records they find: all columns but those that are left out on request, and
all columns of the records that relations are loaded with. So what is shown of a record was loaded,
but for the columns left out and for appended relations, which are shown although they were not.
-/
namespace Records

open Records.Action

namespace Graph
variable {s : Schema} {st : Store} {g g' : Graph} {m : Model} {deferred : List String}

/-- A graph that holds all that another does, and is whole if that is. -/
structure Gains (g g' : Graph) : Prop where
  keeps : ∀ ref deferred, g.Has ref deferred → g'.Has ref deferred
  whole : g.Whole → g'.Whole

theorem Gains.refl (g : Graph) : Gains g g := ⟨fun _ _ h => h, id⟩

theorem Gains.trans {g'' : Graph} (h : Gains g g') (h' : Gains g' g'') : Gains g g'' :=
  ⟨fun ref d hd => h'.keeps ref d (h.keeps ref d hd), h'.whole ∘ h.whole⟩

theorem Gains.foldl {α : Type} {f : Graph → α → Graph} (h : ∀ g x, Gains g (f g x)) (xs : List α)
    (g : Graph) : Gains g (xs.foldl f g) := by
  induction xs generalizing g with
  | nil => exact .refl g
  | cons x xs ih => exact (h g x).trans (ih (f g x))

/-- Where no relation is loaded, a graph stays whole as long as it keeps what it holds. -/
theorem gains_of_related (hkeeps : ∀ ref deferred, g.Has ref deferred → g'.Has ref deferred)
    (hrelated : ∀ ref name, g'.related? ref name = g.related? ref name) : Gains g g' := by
  refine ⟨hkeeps, fun hg ref name q hq child hchild => hkeeps _ _ ?_⟩
  rw [hrelated] at hq
  exact hg ref name q hq child hchild

theorem gains_hold (deferred : List String) (row : Row) :
    Gains g (g.hold s st m deferred row) := by
  refine gains_of_related ?_ fun ref name => related?_hold deferred row ref name
  rintro ref columns ⟨n, hn, hd⟩
  unfold Has
  rw [node?_hold, hn]
  split
  · exact ⟨_, rfl, fun c hc => hd c (List.mem_of_mem_filter hc)⟩
  · exact ⟨n, rfl, hd⟩

theorem gains_holdAll (deferred : List String) (rows : List Row) :
    Gains g (rows.foldl (hold s st m deferred) g) :=
  .foldl (fun _ row => gains_hold deferred row) rows g

theorem has_hold (deferred : List String) (row : Row) :
    (g.hold s st m deferred row).Has (.stored m.name row.id) deferred := by
  unfold Has
  rw [node?_hold, if_pos rfl]
  cases g.node? (.stored m.name row.id) with
  | none => exact ⟨_, rfl, fun c hc => hc⟩
  | some n => exact ⟨_, rfl, fun c hc => by simpa using (List.mem_filter.1 hc).2⟩

theorem has_holdAll {rows : List Row} {row : Row} (hrow : row ∈ rows) :
    (rows.foldl (hold s st m deferred) g).Has (.stored m.name row.id) deferred := by
  induction rows generalizing g with
  | nil => cases hrow
  | cons first rows ih =>
    rcases List.mem_cons.1 hrow with rfl | hrow
    · exact (gains_holdAll deferred rows).keeps _ _ (has_hold deferred row)
    · exact ih hrow

theorem gains_modify (ref : Ref) {f : Node → Node} (hcolumns : ∀ n, (f n).deferred = n.deferred)
    (hrelated : ∀ n, (f n).related = n.related) : Gains g (g.modify ref f) := by
  refine gains_of_related ?_ fun r name => ?_
  · rintro r columns ⟨n, hn, hd⟩
    unfold Has
    rw [node?_modify, hn]
    refine ⟨_, rfl, ?_⟩
    dsimp only
    split
    · rwa [hcolumns]
    · exact hd
  · unfold related?
    rw [node?_modify]
    cases g.node? r with
    | none => rfl
    | some n =>
      dsimp only [Option.map_some, Option.bind_some]
      split
      · unfold Node.related?
        rw [hrelated]
      · rfl

/-- A relation may be loaded with records that have all of their columns. -/
theorem gains_setRelated (ref : Ref) (name : String) {q : Related}
    (hq : ∀ child ∈ q.refs, g.Has child []) : Gains g (g.setRelated ref name q) := by
  have hkeeps (r : Ref) (columns : List String) (h : g.Has r columns) :
      (g.setRelated ref name q).Has r columns := by
    obtain ⟨n, hn, hd⟩ := h
    unfold Has setRelated
    rw [node?_modify, hn]
    refine ⟨_, rfl, ?_⟩
    dsimp only
    split <;> exact hd
  refine ⟨hkeeps, fun hg r other p hp child hchild => hkeeps _ _ ?_⟩
  by_cases href : ref ∈ g.refs
  · rw [related?_setRelated href] at hp
    split at hp
    · cases hp
      exact hq child hchild
    · exact hg r other p hp child hchild
  · have hsame : (g.setRelated ref name q).related? r other = g.related? r other := by
      unfold related? setRelated
      rw [node?_modify]
      by_cases hr : r = ref
      · rw [hr, node?_eq_none.2 href]
        rfl
      · simp [hr]
    rw [hsame] at hp
    exact hg r other p hp child hchild

theorem gains_loadRelation (h : Handle) (ref : Ref) : Gains g (g.loadRelation s st h ref) := by
  unfold loadRelation
  split
  · split
    · rename_i row _
      refine (gains_holdAll [] (loadedRows st h row)).trans
        (gains_setRelated _ _ fun child hchild => ?_)
      obtain ⟨t, ht, rfl⟩ := List.mem_map.1 (Related.mem_of_mem_ofRefs hchild)
      exact has_holdAll ht
    · exact .refl g
  · exact .refl g

theorem gains_loadChain (hs : List Handle) (refs : List Ref) :
    Gains g (g.loadChain s st hs refs) := by
  induction hs generalizing refs g with
  | nil => exact .refl g
  | cons h hs ih => exact (Gains.foldl (fun g ref => gains_loadRelation h ref) refs g).trans (ih _)

theorem gains_loadChains (chains : List (List Handle)) (refs : List Ref) :
    Gains g (g.loadChains s st chains refs) :=
  .foldl (fun _ hs => gains_loadChain hs refs) chains g

/-- A graph of records of one model, each with all of its columns but the same ones. -/
def Uniform (g : Graph) (m : Model) (deferred : List String) : Prop :=
  ∀ ref n, g.node? ref = some n → n.model = m ∧ n.deferred = deferred

theorem Uniform.hold (hg : g.Uniform m deferred) (row : Row) :
    (g.hold s st m deferred row).Uniform m deferred := by
  intro ref n hn
  rw [node?_hold] at hn
  split at hn
  · cases hbefore : g.node? ref with
    | none =>
      rw [hbefore] at hn
      cases hn
      exact ⟨rfl, rfl⟩
    | some n' =>
      rw [hbefore] at hn
      cases hn
      obtain ⟨hmodel, hcolumns⟩ := hg ref n' hbefore
      have hkept : n'.deferred.filter deferred.contains = deferred := by
        rw [hcolumns]
        exact List.filter_eq_self.2 fun c hc => by simpa using hc
      exact ⟨hmodel, hkept⟩
  · exact hg ref n hn

theorem Uniform.holdAll (hg : g.Uniform m deferred) (rows : List Row) :
    (rows.foldl (Graph.hold s st m deferred) g).Uniform m deferred := by
  induction rows generalizing g with
  | nil => exact hg
  | cons row rows ih => exact ih (hg.hold row)

theorem Uniform.modify (hg : g.Uniform m deferred) (ref : Ref) {f : Node → Node}
    (hmodel : ∀ n, (f n).model = n.model) (hcolumns : ∀ n, (f n).deferred = n.deferred) :
    (g.modify ref f).Uniform m deferred := by
  intro r n hn
  rw [node?_modify] at hn
  obtain ⟨n', hn', rfl⟩ := Option.map_eq_some_iff.1 hn
  split
  · rw [hmodel, hcolumns]
    exact hg r n' hn'
  · exact hg r n' hn'

end Graph

/-- The columns that are left out when only some are asked for. -/
def Model.leftOut (m : Model) (columns : Value) : List String :=
  match columns.toNames with
  | .ok names => m.deferredColumns names
  | .error _ => []

/-- The columns that a read leaves out. -/
def Read.leftOut (m : Model) : Read → List String
  | .findAll columns => m.leftOut columns
  | .getList _ _ columns => m.leftOut columns
  | _ => []

theorem Read.mem_columnNames {m : Model} (q : Read) {c : String} (hc : c ∈ q.leftOut m) :
    c ∈ m.columnNames := by
  have hcolumns {columns : Value} (hc : c ∈ m.leftOut columns) : c ∈ m.columnNames := by
    unfold Model.leftOut at hc
    split at hc
    · unfold Model.deferredColumns at hc
      split at hc
      · exact List.mem_of_mem_filter hc
      · cases hc
    · cases hc
  cases q with
  | findAll columns => exact hcolumns hc
  | getList criteria relations columns => exact hcolumns hc
  | view | findBy | listAll | listPage => cases hc

/-- A session that is whole and holds some records, with all of their columns but some. -/
def Session.Holds (se : Session) (deferred : List String) (refs : List Ref) : Prop :=
  se.records.Whole ∧ ∀ ref ∈ refs, se.records.Has ref deferred

namespace Action

theorem gains_hold {s : Schema} {m : Model} (deferred : List String) (rows : List Row)
    (se : Session) : Graph.Gains (rows.foldl (Graph.hold s se.store m deferred) se.records)
      (Action.hold s m deferred rows se).session.records := by
  refine Graph.Gains.foldl (fun g ref => ?_) _ _
  cases ref with
  | stored name id => exact Graph.gains_modify _ (fun _ => rfl) fun _ => rfl
  | draft n => exact .refl g

theorem loads_hold {s : Schema} {m : Model} (deferred : List String) (rows : List Row) :
    Leaves (fun se => se.records.Whole) (Action.hold s m deferred rows)
      (fun refs se => se.Holds deferred refs) fun _ se => se.records.Whole := by
  intro se hse
  have hedited := gains_hold (s := s) (m := m) deferred rows se
  refine ⟨((Graph.gains_holdAll deferred rows).trans hedited).whole hse, fun ref href => ?_⟩
  obtain ⟨row, hrow, rfl⟩ := List.mem_map.1 href
  exact hedited.keeps _ _ (Graph.has_holdAll hrow)

end Action

namespace Resource
variable {r : Resource} {withTrashed : Bool}

/-- What is fetched has all of its columns but those that are left out. -/
theorem loads_fetch (q : Query) (chains : List (List Handle)) (deferred : List String) :
    Leaves (fun se => se.records.Whole) (r.fetch q chains deferred)
      (fun refs se => se.Holds deferred refs) fun _ se => se.records.Whole := by
  unfold fetch
  refine (leaves_query_same q).bind fun rows => (loads_hold deferred rows).bind fun refs => ?_
  refine Leaves.bind (.modify fun se h => ?_) fun _ => .pure fun _ h => h
  have hloaded : Graph.Gains se.records (se.records.loadChains r.schema se.store chains refs) :=
    Graph.gains_loadChains chains refs
  exact ⟨hloaded.whole h.1, fun ref href => hloaded.keeps _ _ (h.2 ref href)⟩

theorem loads_fetch_head (q : Query) (chains : List (List Handle)) :
    Leaves (fun se => se.records.Whole) (do return (← r.fetch q chains []).head?)
      (fun found se => se.Holds [] found.toList) fun _ se => se.records.Whole :=
  (loads_fetch q chains []).bind fun _ => .pure fun _ h =>
    ⟨h.1, fun ref href => h.2 ref (List.mem_of_head? (Option.mem_toList.1 href))⟩

theorem leaves_deferred {P : Session → Prop} (columns : Value) :
    Leaves P (r.deferred columns) (fun names se => P se ∧ names = r.model.leftOut columns)
      fun _ => P := by
  unfold deferred Model.leftOut
  cases columns.toNames with
  | ok names => exact fun se h => ⟨h, rfl⟩
  | error e => exact fun se h => h

theorem leaves_ofReported_same {α ε : Type} {P : Session → Prop} (f : ε → Failure)
    (x : Reported ε α) : Leaves P (Action.ofReported f x) (fun _ => P) fun _ => P := by
  intro se h
  split <;> exact h

theorem leaves_listing_same {P : Session → Prop} (params : Listing.Params) :
    Leaves P (r.listing params withTrashed) (fun _ => P) fun _ => P := by
  unfold listing
  exact (leaves_ofReported_same _ _).bind fun _ => leaves_ofReported_same _ _

theorem loads_findById (id : Value) (chains : List (List Handle)) :
    Leaves (fun se => se.records.Whole) (r.findById id chains withTrashed)
      (fun found se => se.Holds [] found.toList) fun _ se => se.records.Whole :=
  loads_fetch_head _ chains

theorem loads_view (id relations appends hidden : Value) :
    Leaves (fun se => se.records.Whole) (r.view id relations appends hidden withTrashed)
      (fun view se => se.Holds [] [view.record]) fun _ se => se.records.Whole := by
  unfold view
  refine (leaves_eager_same relations).bind fun chains => ?_
  refine (loads_findById id chains).bind fun found => ?_
  cases found with
  | none => exact fun se h => h.1
  | some ref =>
    have hread {α : Type} (x : Except Failure α) :
        Leaves (fun se => se.Holds [] [ref]) (.ofExcept x) (fun _ se => se.Holds [] [ref])
          fun _ se => se.records.Whole :=
      (leaves_ofExcept_same x).mono_error fun _ _ h => h.1
    refine Leaves.bind (hread _) fun items => ?_
    split
    · exact Leaves.bind (Q := fun _ se => se.Holds [] [ref]) (.pure fun _ h => h)
        fun _ => .pure fun _ h => h
    · refine (hread _).bind fun _ => ?_
      exact Leaves.bind (Q := fun _ se => se.Holds [] [ref]) (.pure fun _ h => h)
        fun _ => .pure fun _ h => h

theorem loads_findBy (criteria relations : Value) :
    Leaves (fun se => se.records.Whole) (r.findBy criteria relations withTrashed)
      (fun found se => se.Holds [] found.toList) fun _ se => se.records.Whole := by
  unfold findBy findOneBy
  refine (leaves_eager_same relations).bind fun chains => ?_
  exact (leaves_conditions_same criteria).bind fun _ => loads_fetch_head _ chains

theorem loads_getList (criteria relations columns : Value) :
    Leaves (fun se => se.records.Whole) (r.getList criteria relations columns withTrashed)
      (fun refs se => se.Holds (r.model.leftOut columns) refs) fun _ se => se.records.Whole := by
  unfold getList findAllBy
  refine (leaves_eager_same relations).bind fun chains => ?_
  refine (leaves_deferred columns).bind fun names => .given fun hnames => hnames ▸ ?_
  exact (leaves_conditions_same criteria).bind fun _ => loads_fetch _ chains _

theorem loads_findAll (columns : Value) :
    Leaves (fun se => se.records.Whole) (r.findAll columns)
      (fun refs se => se.Holds (r.model.leftOut columns) refs) fun _ se => se.records.Whole := by
  unfold findAll
  refine (leaves_deferred columns).bind fun names => .given fun hnames => hnames ▸ ?_
  exact loads_fetch _ [] _

theorem loads_listAll (params relations : Value) :
    Leaves (fun se => se.records.Whole) (r.listAll params relations withTrashed)
      (fun refs se => se.Holds [] refs) fun _ se => se.records.Whole := by
  unfold listAll
  refine (leaves_ofReported_same _ _).bind fun p => (leaves_eager_same relations).bind fun chains =>
    (leaves_listing_same p).bind fun q => loads_fetch q chains []

theorem loads_listPage (params relations : Value) :
    Leaves (fun se => se.records.Whole) (r.listPage params relations withTrashed)
      (fun page se => se.Holds [] page.items) fun _ se => se.records.Whole := by
  unfold listPage paginate
  refine (leaves_ofReported_same _ _).bind fun p => (leaves_eager_same relations).bind fun chains =>
    (leaves_listing_same p).bind fun q => ?_
  refine (leaves_count_same q).bind fun total => ?_
  exact (loads_fetch _ chains []).bind fun _ => .pure fun _ h => h

/-- A read finds records with all of their columns but those it leaves out, in a session whose
relations are loaded with whole records, as they were before. -/
theorem loads_read (q : Read) :
    Leaves (fun se => se.records.Whole) (r.read withTrashed q)
      (fun found se => se.Holds (q.leftOut r.model) (found.views.map (·.record)))
      fun _ se => se.records.Whole := by
  have hofRefs (refs : List Ref) (summary : List (String × Value)) :
      (Found.ofRefs refs summary).views.map (·.record) = refs := by
    unfold Found.ofRefs
    rw [List.map_map]
    exact List.map_id refs
  have hfound {x : Action (List Ref)} {deferred : List String}
      (hx : Leaves (fun se => se.records.Whole) x (fun refs se => se.Holds deferred refs)
        fun _ se => se.records.Whole) :
      Leaves (fun se => se.records.Whole) (do return Found.ofRefs (← x) : Action Found)
        (fun found se => se.Holds deferred (found.views.map (·.record)))
        fun _ se => se.records.Whole :=
    hx.bind fun refs => .pure fun _ h => (hofRefs refs []).symm ▸ h
  cases q with
  | findAll columns => exact hfound (loads_findAll columns)
  | view id relations appends hidden =>
    exact (loads_view id relations appends hidden).bind fun _ => .pure fun _ h => h
  | findBy criteria relations =>
    refine (loads_findBy criteria relations).bind fun found => .pure fun se h => ?_
    exact (hofRefs found.toList []).symm ▸ h
  | getList criteria relations columns => exact hfound (loads_getList criteria relations columns)
  | listAll params relations => exact hfound (loads_listAll params relations)
  | listPage params relations =>
    refine (loads_listPage params relations).bind fun page => .pure fun se h => ?_
    exact (hofRefs page.items page.summary).symm ▸ h

/-- Where no relation is loaded, all records that are fetched lack the same columns. -/
theorem uniform_fetch (q : Query) (deferred : List String) :
    Leaves (fun se => se.records.Uniform r.model deferred) (r.fetch q [] deferred)
      (fun _ se => se.records.Uniform r.model deferred) fun _ _ => True := by
  unfold fetch
  refine ((leaves_query_same q).mono_error fun _ _ _ => trivial).bind fun rows => ?_
  refine Leaves.bind (Q := fun _ se => se.records.Uniform r.model deferred) (fun se hse => ?_)
    fun refs => Leaves.bind (.modify fun _ h => h) fun _ => .pure fun _ h => h
  have hheld : (rows.foldl (Graph.hold r.schema se.store r.model deferred) se.records).Uniform
      r.model deferred := hse.holdAll rows
  have hedited : (Action.hold r.schema r.model deferred rows se).session.records.Uniform
      r.model deferred := by
    refine List.foldlRecOn (motive := fun g => Graph.Uniform g r.model deferred) _ _ hheld
      fun g hg ref _ => ?_
    cases ref with
    | stored name id => exact hg.modify _ (fun _ => rfl) fun _ => rfl
    | draft n => exact hg
  exact hedited

end Resource

/-- A read that may leave out columns, and loads no relations. -/
inductive Read.IsNarrow : Read → Prop
  | findAll (columns : Value) : IsNarrow (.findAll columns)
  | getList (criteria columns : Value) : IsNarrow (.getList criteria .null columns)

namespace Resource
variable {r : Resource} {withTrashed : Bool}

theorem leaves_eager_none {P : Session → Prop} :
    Leaves P (r.eager .null) (fun chains se => P se ∧ chains = []) fun _ => P :=
  fun _ h => ⟨h, rfl⟩

theorem uniform_read {q : Read} (hq : q.IsNarrow) :
    Leaves (fun se => se.records.Uniform r.model (q.leftOut r.model)) (r.read withTrashed q)
      (fun _ se => se.records.Uniform r.model (q.leftOut r.model)) fun _ _ => True := by
  cases hq with
  | findAll columns =>
    refine Leaves.bind (Q := fun _ se => se.records.Uniform r.model (r.model.leftOut columns)) ?_
      fun _ => .pure fun _ h => h
    unfold findAll
    refine ((leaves_deferred columns).mono_error fun _ _ _ => trivial).bind fun names => .given ?_
    rintro rfl
    exact uniform_fetch _ _
  | getList criteria columns =>
    refine Leaves.bind (Q := fun _ se => se.records.Uniform r.model (r.model.leftOut columns)) ?_
      fun _ => .pure fun _ h => h
    unfold getList findAllBy
    refine (leaves_eager_none.mono_error fun _ _ _ => trivial).bind fun chains => .given ?_
    rintro rfl
    refine ((leaves_deferred columns).mono_error fun _ _ _ => trivial).bind fun names => .given ?_
    rintro rfl
    exact ((leaves_conditions_same criteria).mono_error fun _ _ _ => trivial).bind
      fun _ => uniform_fetch _ _

end Resource

/-- What is loaded of what a view of a record shows, where a read that leaves out some columns found
the record. -/
structure Graph.Provides (g : Graph) (leftOut : List String) (view : RecordView) (n : Node) :
    Prop where
  node : g.node? view.record = some n
  leaves_out : ∀ c ∈ n.deferred, c ∈ leftOut
  own : ∀ es, view.data g = .ok (.object es) → ∀ key ∈ es.map (·.1),
    n.isLoaded key = false ↔ key ∈ view.visibility.appends.getD n.model.appends ∧
      n.isLazy key = true ∨ n.isDeferred key = true
  below : ∀ es, view.data g = .ok (.object es) → ∀ inner,
    (Datum.object es).Contains (.object inner) → inner = es ∨ ∃ rest ref m,
      Relation.TransGen g.Leads ⟨g.refs, view.record, .object es⟩ ⟨rest, ref, .object inner⟩ ∧
        g.node? ref = some m ∧ ∀ key ∈ inner.map (·.1),
          m.isLoaded key = false ↔ key ∈ m.model.appends ∧ m.isLazy key = true
  enough : leftOut = [] →
    (∀ ref m, g.node? ref = some m → ∀ a ∈ m.model.appends, m.isLazy a = false) →
    (∀ a ∈ view.visibility.appends.getD n.model.appends, n.isLazy a = false) →
    ∀ g', g.HoldsSame g' → view.data g' = view.data g

theorem Graph.Whole.provides {g : Graph} (hg : g.Whole) {leftOut : List String} {view : RecordView}
    (h : g.Has view.record leftOut) : ∃ n, g.Provides leftOut view n := by
  obtain ⟨n, hn, hcolumns⟩ := h
  refine ⟨n, hn, hcolumns, fun es hes key hkey => isLoaded_eq_false_of_shown hn hes hkey,
    fun es hes inner hinner => ?_, fun hnone hplain happends g' hsame => ?_⟩
  · refine (below_of_contains hes hinner).imp_right ?_
    rintro ⟨rest, ref, hbelow⟩
    obtain ⟨m, hm, hkeys⟩ := hg.shown_below hes hbelow
    exact ⟨rest, ref, m, hbelow, hm, hkeys⟩
  · have hall : n.deferred = [] :=
      List.eq_nil_iff_forall_not_mem.2 fun c hc => nomatch hnone ▸ hcolumns c hc
    unfold RecordView.data Graph.data
    rw [hsame.refs_eq]
    exact hsame.dataBelow_eq (hg.not_looksUp hplain hn hall happends)

namespace Resource

/-- All that a record shows was loaded by the read that found it, and so was all that the records
below it show; but a column that the read left out is shown like any other, and a relation that is
appended is shown whether it is loaded or not. -/
theorem shown_is_loaded (r : Resource) (withTrashed : Bool) (q : Read) :
    (∀ se found, se.records.Whole → (r.read withTrashed q se).result = .ok found →
      let g := (r.read withTrashed q se).session.records
      g.Whole ∧ ∀ view ∈ found.views, ∃ n, g.Provides (q.leftOut r.model) view n) ∧
    (q.IsNarrow → ∀ st now found, (r.read withTrashed q (.fresh st now)).result = .ok found →
      let g := (r.read withTrashed q (.fresh st now)).session.records
      ∀ view ∈ found.views, ∃ n, g.node? view.record = some n ∧
        ∀ es, view.data g = .ok (.object es) → ∀ c ∈ q.leftOut r.model,
          c ∉ r.model.hidden ++ view.visibility.hidden →
            c ∈ es.map (·.1) ∧ n.isLoaded c = false) := by
  refine ⟨fun se found hse hfound => ?_, fun hq st now found hfound view hview => ?_⟩
  · obtain ⟨hwhole, hheld⟩ := (loads_read q).ok hse hfound
    exact ⟨hwhole, fun view hview => hwhole.provides (hheld _ (List.mem_map_of_mem hview))⟩
  · have hwhole : (Session.fresh st now).records.Whole := Graph.whole_empty
    have hempty : (Session.fresh st now).records.Uniform r.model (q.leftOut r.model) :=
      fun _ _ hn => nomatch hn
    obtain ⟨-, hheld⟩ := (loads_read q).ok hwhole hfound
    have huniform := (uniform_read hq).ok hempty hfound
    obtain ⟨n, hn, -⟩ := hheld _ (List.mem_map_of_mem hview)
    obtain ⟨hmodel, hdeferred⟩ := huniform _ n hn
    refine ⟨n, hn, fun es hes c hc hshown => ?_⟩
    have hcolumn : c ∈ n.model.columnNames := hmodel ▸ q.mem_columnNames hc
    have hhas := Model.hasColumn_of_mem hcolumn
    obtain ⟨n', -, hn', -, hentries⟩ := Graph.mem_object hes
    obtain rfl := Option.some.inj (hn.symm.trans hn')
    constructor
    · refine List.mem_map.2 ⟨(c, .value (n.value c)), (hentries _ _).2 ⟨hmodel ▸ hshown, ?_⟩, rfl⟩
      -- A column that is appended as well is shown once.
      by_cases happended : c ∈ view.visibility.appends.getD n.model.appends
      · exact .inl ⟨happended, if_pos hhas⟩
      · exact .inr ⟨happended, .inl ⟨hcolumn, rfl⟩⟩
    · rw [Node.isLoaded_eq_false, Node.isDeferred_column hhas, hdeferred]
      exact .inr (List.contains_iff_mem.2 hc)

/-- Of a book only the title is asked for, but its pages are shown as well, although they were not
loaded. -/
theorem shown_is_loaded_title :
    let q : Read := .getList (.object [("id", .int 12)]) .null (.list [.text "title"])
    let now := (Library.visit Library.catalogue).now
    let books := Library.resource Library.book
    let view : RecordView := ⟨.stored "Book" 12, [], none⟩
    let x := books.read false q (.fresh Library.catalogue now)
    x.result = .ok ⟨[view], []⟩ ∧ ∃ n es,
      x.session.records.Provides (q.leftOut books.model) view n ∧
      view.data x.session.records = .ok (.object es) ∧
      "title" ∈ es.map (·.1) ∧ n.isLoaded "title" = true ∧
      "pages" ∈ es.map (·.1) ∧ n.isLoaded "pages" = false := by
  intro q now books view x
  have hresult : x.result = .ok ⟨[view], []⟩ := by with_unfolding_all rfl
  have hview : view ∈ [view] := List.mem_singleton_self view
  obtain ⟨hread, hnarrow⟩ := shown_is_loaded books false q
  obtain ⟨n, hprovides⟩ := (hread _ _ Graph.whole_empty hresult).2 _ hview
  obtain ⟨n', hn', hshown⟩ := hnarrow (.getList _ _) _ _ _ hresult _ hview
  obtain rfl := Option.some.inj (hprovides.node.symm.trans hn')
  have hdata : ∃ n es, x.session.records.node? view.record = some n ∧
      view.data x.session.records = .ok (.object es) ∧
      "title" ∈ es.map (·.1) ∧ n.isLoaded "title" = true := by
    refine ⟨_, ?es, by with_unfolding_all rfl, ?data, ?title, ?loaded⟩
    case data =>
      unfold RecordView.data Graph.data
      rw [Graph.dataBelow_of_node? (by with_unfolding_all decide) (by with_unfolding_all rfl)]
      with_unfolding_all rfl
    case title => exact List.mem_of_getElem? (i := 2) (by with_unfolding_all rfl)
    case loaded => with_unfolding_all rfl
  obtain ⟨_, es, hn, hes, htitle, hloaded⟩ := hdata
  obtain rfl := Option.some.inj (hn'.symm.trans hn)
  obtain ⟨hpages, hunloaded⟩ := hshown es hes "pages" (by decide) (by decide)
  exact ⟨hresult, n, es, hprovides, hes, htitle, hloaded, hpages, hunloaded⟩

end Resource

end Records
