import Records.Library.Catalogue
import Records.Library.Resources
import Records.Proofs.Resource.Settled

/-!
What a read leaves behind. It holds the records it found and loads relations on them, and all else
stays as it was, so the calls after it have the same results as without it. They can tell the
difference only by a relation that it loaded without some of its rows, for these are trashed.
-/
namespace Records

open Records.Action

namespace Graph
variable {s : Schema} {st : Store} {g g' : Graph} {h : Handle} {m : Model}

/-- A relation of the record of a row was not loaded, and now is, with the rows not trashed. -/
structure Fills (st : Store) (g g' : Graph) (h : Handle) (row : Row) : Prop where
  stored : row ∈ st.rows h.parent
  unloaded : g.related? (.stored h.parent.name row.id) h.relation.name = none
  filled : g'.related? (.stored h.parent.name row.id) h.relation.name =
    some (h.relatedOf (loadedRows st h row))

/-- A graph in which records are held and relations are loaded that were not before. -/
structure Grown (s : Schema) (st : Store) (g g' : Graph) : Prop where
  sound : g'.Sound s
  values_eq : ∀ ref, g'.valuesOf s st ref = g.valuesOf s st ref
  related : ∀ h, s.Declares h → ∀ id,
    g'.related? (.stored h.parent.name id) h.relation.name =
      g.related? (.stored h.parent.name id) h.relation.name ∨
    ∃ row : Row, row.id = id ∧ Fills st g g' h row
  drafts_eq : ∀ n name, g'.related? (.draft n) name = g.related? (.draft n) name

theorem Grown.refl (hg : g.Sound s) : Grown s st g g :=
  ⟨hg, fun _ => rfl, fun _ _ _ => .inl rfl, fun _ _ => rfl⟩

theorem Grown.holdAll {rows : List Row} (hg : Grown s st g g') (hm : m ∈ s.models)
    (hrows : ∀ row ∈ rows, row ∈ st.rows m) (deferred : List String) :
    Grown s st g (rows.foldl (hold s st m deferred) g') where
  sound := hg.sound.holdAll deferred
  values_eq ref := by rw [valuesOf_holdAll hm hrows, hg.values_eq]
  related h hd id := by
    rw [related?_holdAll]
    refine (hg.related h hd id).imp_right ?_
    rintro ⟨row, rfl, hrow, hunloaded, hfilled⟩
    exact ⟨row, rfl, hrow, hunloaded, (related?_holdAll ..).trans hfilled⟩
  drafts_eq n name := by rw [related?_holdAll, hg.drafts_eq]

theorem Grown.loadRelation (hg : Grown s st g g') (hd : s.Declares h) {id : Int}
    (href : .stored h.parent.name id ∈ g'.refs) :
    Grown s st g (g'.loadRelation s st h (.stored h.parent.name id)) := by
  cases hrow : (st.table h.parent.table).find? id with
  | none => rwa [loadRelation_of_missing hrow]
  | some row =>
    have hr := related?_loadRelation (s := s) hrow href
    obtain ⟨hmem, rfl⟩ := Table.mem_of_find? hrow
    refine ⟨hg.sound.loadRelation hd href, fun ref => ?_, fun k hk i => ?_, fun n name => ?_⟩
    · rw [valuesOf_loadRelation hd.target_mem, hg.values_eq]
    · by_cases hsame : Ref.stored k.parent.name i = .stored h.parent.name row.id ∧
          k.relation.name = h.relation.name
      -- The relation itself: as it was loaded before, or else with the rows it loads.
      · obtain rfl := hd.eq_of_names hk (Ref.stored.inj hsame.1).1 hsame.2
        obtain rfl := (Ref.stored.inj hsame.1).2
        have hloaded := (hr _ _).trans (if_pos ⟨rfl, rfl⟩)
        unfold loadedOf at hloaded
        rcases hg.related k hk row.id with hkept | ⟨row', hid, hfills⟩
        · cases hbefore : g.related? (.stored k.parent.name row.id) k.relation.name with
          | some q =>
            rw [hkept, hbefore] at hloaded
            exact .inl hloaded
          | none =>
            rw [hkept, hbefore, Option.getD_none, loads_of_find? hrow] at hloaded
            exact .inr ⟨row, rfl, hmem, hbefore, hloaded⟩
        · refine .inr ⟨row', hid, hfills.stored, hfills.unloaded, ?_⟩
          have hfilled := hfills.filled
          rw [hid] at hfilled ⊢
          rwa [hfilled] at hloaded
      · have hother := (hr _ _).trans (if_neg hsame)
        refine (hg.related k hk i).imp (hother.trans ·) ?_
        rintro ⟨row', rfl, hfills⟩
        exact ⟨row', rfl, hfills.stored, hfills.unloaded, hother.trans hfills.filled⟩
    · rw [hr, if_neg (by simp), hg.drafts_eq]

theorem Grown.loadRelations {refs : List Ref} (hg : Grown s st g g') (hd : s.Declares h)
    (hrefs : ∀ ref ∈ refs, BothHold h.parent g' g' ref) :
    Grown s st g (refs.foldl (Graph.loadRelation s st h) g') := by
  induction refs generalizing g' with
  | nil => exact hg
  | cons ref refs ih =>
    obtain ⟨⟨href, -, id, rfl⟩, hrest⟩ := List.forall_mem_cons.1 hrefs
    refine ih (hg.loadRelation hd href) fun r hr => ?_
    obtain ⟨hheld, -, hkind⟩ := hrest r hr
    exact ⟨mem_refs_loadRelation hheld, mem_refs_loadRelation hheld, hkind⟩

theorem Grown.loadChain (hg : Grown s st g g') (hm : m ∈ s.models) {hs : List Handle}
    (hchain : IsChain s m hs) {refs : List Ref} (hrefs : ∀ ref ∈ refs, BothHold m g' g' ref) :
    Grown s st g (g'.loadChain s st hs refs) := by
  induction hs generalizing m refs g' with
  | nil => exact hg
  | cons h hs ih =>
    obtain ⟨rfl, hh, hrest⟩ := hchain
    have hd : s.Declares h := ⟨hm, hh⟩
    have hnext := hg.loadRelations hd hrefs
    refine ih hnext hd.target_mem hrest fun c hc => ?_
    obtain ⟨hheld, hkind⟩ := held_of_mem_next hnext.sound hd hrefs hc
    exact ⟨hheld, hheld, hkind⟩

theorem Grown.loadChains (hg : Grown s st g g') (hm : m ∈ s.models) {chains : List (List Handle)}
    (hchains : ∀ hs ∈ chains, IsChain s m hs) {refs : List Ref}
    (hrefs : ∀ ref ∈ refs, BothHold m g' g' ref) :
    Grown s st g (g'.loadChains s st chains refs) := by
  unfold Graph.loadChains
  induction chains generalizing g' with
  | nil => exact hg
  | cons hs chains ih =>
    obtain ⟨hchain, hrest⟩ := List.forall_mem_cons.1 hchains
    refine ih (hg.loadChain hm hchain hrefs) hrest fun ref href => ?_
    obtain ⟨hheld, -, hkind⟩ := hrefs ref href
    exact ⟨mem_refs_loadChain hheld, mem_refs_loadChain hheld, hkind⟩

/-- A relation was loaded on some record without a row that it leads to. -/
def LeavesOut (s : Schema) (st : Store) (g g' : Graph) : Prop :=
  ∃ h, s.Declares h ∧ ∃ row, Fills st g g' h row ∧
    ∃ t ∈ memberRows st h row, h.target.isLive t = false

/-- Where no row is left out, the same is seen as before. -/
theorem Grown.alike (hg : g.Sound s) (hgrown : Grown s st g g') (hwhole : ¬LeavesOut s st g g') :
    Alike s st g g' where
  sound := hg
  sound_other := hgrown.sound
  values_eq := hgrown.values_eq
  members_eq h hd id := by
    rcases hgrown.related h hd id with hkept | ⟨row, rfl, hfills⟩
    · exact members_congr h _ hkept
    · have hall : loadedRows st h row = memberRows st h row := by
        refine List.filter_eq_self.2 fun t ht => ?_
        exact Bool.eq_true_of_not_eq_false fun hdead => hwhole ⟨h, hd, row, hfills, t, ht, hdead⟩
      rw [members_of_related? hfills.filled, hall]
      unfold members
      rw [hfills.unloaded]
      dsimp only
      rw [Table.find?_of_mem hfills.stored]
  loaded_eq h hd id := by
    unfold loadedOf
    rcases hgrown.related h hd id with hkept | ⟨row, rfl, hfills⟩
    · rw [hkept]
    · rw [hfills.filled, hfills.unloaded, Option.getD_none, Option.getD_some,
        loads_of_find? (Table.find?_of_mem hfills.stored)]
  drafts_eq := hgrown.drafts_eq

end Graph

/-- A session in which records are held and relations are loaded that were not before. -/
structure Session.Grown (s : Schema) (before se : Session) : Prop where
  store_eq : se.store = before.store
  now_eq : se.now = before.now
  staged : se.staged = .empty
  active : se.inactive = false
  records : Graph.Grown s before.store before.records se.records

namespace Resource
variable {r : Resource} {before : Session}

theorem grown_query {q : Query} (hmodel : q.model = r.model) :
    Leaves (Session.Grown r.schema before) (Action.query q)
      (fun rows se => before.Grown r.schema se ∧ ∀ row ∈ rows, row ∈ se.store.rows r.model)
      fun _ => Session.Grown r.schema before := by
  intro se h
  unfold Action.query
  rw [h.active]
  cases hr : q.run se.store with
  | error e => exact h
  | ok rows =>
    obtain rfl := Query.run_ok hr
    exact ⟨h, fun row hrow => hmodel ▸ (Query.of_mem_rows hrow).1⟩

section Reads
variable (hm : r.model ∈ r.schema.models)
include hm

theorem grown_hold (rows : List Row) (deferred : List String) :
    Leaves (fun se => before.Grown r.schema se ∧ ∀ row ∈ rows, row ∈ se.store.rows r.model)
      (Action.hold r.schema r.model deferred rows)
      (fun refs se => before.Grown r.schema se ∧
        ∀ ref ∈ refs, Graph.BothHold r.model se.records se.records ref)
      fun _ => Session.Grown r.schema before := by
  rintro se ⟨h, hrows⟩
  refine ⟨⟨h.store_eq, h.now_eq, h.staged, h.active, ?_⟩, fun ref href => ?_⟩
  · rw [records_hold h.staged, h.store_eq]
    exact h.records.holdAll hm (h.store_eq ▸ hrows) deferred
  · obtain ⟨row, hrow, rfl⟩ := List.mem_map.1 href
    rw [records_hold h.staged]
    have hheld : .stored r.model.name row.id ∈
        (rows.foldl (Graph.hold r.schema se.store r.model deferred) se.records).refs :=
      (Graph.mem_refs_holdAll _).2 (.inr ⟨row, hrow, rfl⟩)
    exact ⟨hheld, hheld, row.id, rfl⟩

theorem grown_fetch {q : Query} (hmodel : q.model = r.model) {chains : List (List Handle)}
    (hchains : ∀ hs ∈ chains, IsChain r.schema r.model hs) (deferred : List String) :
    Leaves (Session.Grown r.schema before) (r.fetch q chains deferred)
      (fun _ => Session.Grown r.schema before) fun _ => Session.Grown r.schema before := by
  unfold fetch
  refine (grown_query hmodel).bind fun rows => (grown_hold hm rows deferred).bind fun refs => ?_
  refine Leaves.bind (Q := fun _ => Session.Grown r.schema before) (.modify ?_) fun _ =>
    .pure fun _ h => h
  rintro se ⟨h, hrefs⟩
  refine ⟨h.store_eq, h.now_eq, h.staged, h.active, ?_⟩
  dsimp only
  rw [h.store_eq]
  exact h.records.loadChains hm hchains hrefs

theorem respects_grown (withTrashed : Bool) :
    r.Respects withTrashed (fun _ => True) (Session.Only (Session.Grown r.schema before))
      (Session.Only (Session.Grown r.schema before)) where
  fetch hmodel _ _ _ hchains deferred := .of_leaves (grown_fetch hm hmodel hchains deferred)
  count _ _ _ := .of_leaves fun se h => by
    rw [session_count]
    split <;> exact h
  fails _ _ h := h
  looks_exactly _ := trivial
  looks_filter _ := trivial

/-- A read, whether it finds anything or fails, only holds records and loads relations. -/
theorem grown_read (withTrashed : Bool) (q : Read) :
    Leaves (Session.Grown r.schema before) (r.read withTrashed q)
      (fun _ => Session.Grown r.schema before) fun _ => Session.Grown r.schema before :=
  .of_relates (relates_read (respects_grown hm withTrashed) (respects_grown hm false) q)

end Reads

end Resource

/-- Nothing is staged in a session, and what its relations are loaded with is held. -/
structure Session.Orderly (s : Schema) (se : Session) : Prop where
  staged : se.staged = .empty
  active : se.inactive = false
  sound : se.records.Sound s

theorem Session.Settled.orderly {s : Schema} {se : Session} (h : se.Settled s) : se.Orderly s :=
  ⟨h.staged, h.active, h.inStep.sound⟩

theorem Session.Orderly.alike {s : Schema} {se : Session} (h : se.Orderly s) :
    Session.Alike s .empty [] se se :=
  Session.Same.alike ⟨rfl, h.staged, h.active, h.sound⟩

theorem Session.Orderly.next {s : Schema} {c : Call} (hs : c.resource.schema = s)
    (hm : c.resource.model ∈ s.models) {se : Session} (h : se.Orderly s) :
    (c.run se).next.Orderly s := by
  subst hs
  have hnow : Session.Orderly c.resource.schema { se with now := c.now } :=
    ⟨h.staged, h.active, h.sound⟩
  obtain ⟨-, -, hsession⟩ := Resource.alike_perform hm c.operation hnow.alike
  unfold Outcome.next Call.run
  cases hr : (c.resource.perform c.operation { se with now := c.now }).result with
  | ok a =>
    rw [hr] at hsession
    exact ⟨hsession.staged, hsession.active, hsession.records.sound⟩
  | error e => exact (Session.settled_rolledBack ..).orderly

theorem Session.Orderly.after {s : Schema} {calls : List Call}
    (hcalls : ∀ c ∈ calls, c.resource.schema = s ∧ c.resource.model ∈ s.models) {se : Session}
    (h : se.Orderly s) : (Session.after calls se).Orderly s := by
  induction calls generalizing se with
  | nil => exact h
  | cons c calls ih =>
    obtain ⟨⟨hs, hm⟩, hrest⟩ := List.forall_mem_cons.1 hcalls
    exact ih hrest (h.next hs hm)

theorem replay_now (calls : List Call) (se : Session) (t : Calendar.Moment) :
    replay calls { se with now := t } = replay calls se := by
  cases calls <;> rfl

theorem grown_run {c : Call} {withTrashed : Bool} {q : Read}
    (hread : c.operation = .read withTrashed q)
    (hm : c.resource.model ∈ c.resource.schema.models) {se : Session}
    (h : se.Orderly c.resource.schema) :
    Session.Grown c.resource.schema { se with now := c.now } (c.run se).session := by
  have hstart : Session.Grown c.resource.schema { se with now := c.now } { se with now := c.now } :=
    ⟨rfl, rfl, h.staged, h.active, .refl h.sound⟩
  have hleaves : Leaves (Session.Grown c.resource.schema { se with now := c.now })
      (c.resource.perform c.operation)
      (fun _ => Session.Grown c.resource.schema { se with now := c.now })
      fun _ => Session.Grown c.resource.schema { se with now := c.now } := by
    rw [hread]
    exact (Resource.grown_read hm withTrashed q).bind fun _ => .pure fun _ h => h
  have hrun := hleaves hstart
  unfold Call.run
  split at hrun <;> exact hrun

/-- A read does not show in what comes after it, unless it left trashed rows out of a relation that
it loaded: the store is as before, and whatever is called later has the results and leaves the
stores that it has and leaves without the read. -/
theorem replay_after_read {s : Schema} {before later : List Call} {c : Call}
    (hcalls : ∀ d ∈ before ++ c :: later, d.resource.schema = s ∧ d.resource.model ∈ s.models)
    {withTrashed : Bool} {q : Read} (hread : c.operation = .read withTrashed q) {se : Session}
    (hse : se.Orderly s) :
    let reached := Session.after before se
    let left := (c.run reached).session
    left.store = reached.store ∧
      (¬Graph.LeavesOut s reached.store reached.records left.records →
        replay later left = replay later reached) := by
  intro reached left
  obtain ⟨hbefore, hrest⟩ := List.forall_mem_append.1 hcalls
  obtain ⟨⟨rfl, hm⟩, hlater⟩ := List.forall_mem_cons.1 hrest
  have hreached := hse.after hbefore
  have hgrown := grown_run hread hm hreached
  refine ⟨hgrown.store_eq, fun hwhole => ?_⟩
  have halike : Session.Alike c.resource.schema .empty [] { reached with now := c.now } left :=
    ⟨hgrown.store_eq, hgrown.now_eq, hreached.staged, hgrown.staged, hreached.active,
      hgrown.active, hgrown.records.alike hreached.sound hwhole, by simp⟩
  rw [replay_alike hlater halike, replay_now]

/-- Where nothing is trashed, no read leaves anything out. -/
theorem Graph.not_leavesOut {s : Schema} {st : Store}
    (hlive : ∀ m ∈ s.models, ∀ row ∈ st.rows m, m.isLive row) (g g' : Graph) :
    ¬LeavesOut s st g g' := by
  rintro ⟨h, hd, row, -, t, ht, hdead⟩
  rw [hlive _ hd.target_mem t (Store.mem_memberRows ht)] at hdead
  cases hdead

-- The trashed book of an author, given to another under his books: once he was shown without it,
-- it counts as put there and stays with him.
example :
    let st : Store := ⟨[("author", Library.tableOf Library.author Library.authors),
      ("book", Library.tableOf Library.book (Library.books.filter (·.1 == 13)))]⟩
    let se := Library.visit st
    let authors := Library.resource Library.author
    let shown : Call :=
      ⟨authors, .read false (.view (.int 2) (.list [.text "books"]) .null .null), se.now⟩
    let given : Call := ⟨authors, .update (.int 2)
      (.object [("books", .list [.object [("id", .int 13), ("author_id", .int 3)]])]), se.now⟩
    let holders (st : Store) := (st.rows Library.book).map (·.cell "author_id")
    holders (given.run se).session.store = [.integer 3] ∧
      holders (given.run (shown.run se).session).session.store = [.integer 2] := by
  decide +kernel

end Records
