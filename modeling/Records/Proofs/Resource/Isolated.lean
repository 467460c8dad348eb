import Records.Library.Catalogue
import Records.Library.Resources
import Records.Proofs.Library
import Records.Proofs.Resource.Updating

/-!
What an update leaves alone. Besides the record itself and those that its payload names, it reaches
records that lose their place under a singular relation, and what goes with them.
-/
namespace Records

open Records.Action

/-- A session on a store in which nothing was done yet. -/
structure Session.IsFresh (st : Store) (se : Session) : Prop where
  store_eq : se.store = st
  records : se.records = .empty
  staged : se.staged = .empty

namespace Update
variable {u : Update} {se : Session}

/-- The records that a relation of another one holds in the store. -/
def members (u : Update) (h : Handle) (ref : Ref) : List Ref := Graph.empty.members u.store h ref

/-- A record loses its place under a singular relation. -/
inductive Displaces (u : Update) : Handle → Ref → Prop
  /-- The payload gives the relation another record. -/
  | replaced {h : Handle} {es : List (String × Value)} {ref : Ref} (hn : u.Nests h es)
    (hone : ∃ fk owned, h.relation.link = .one fk owned) (hmember : ref ∈ u.members h u.holder) :
    Displaces u h ref
  /-- The record is put under a parent that it did not belong to, where another one was. -/
  | ousted {h back : Handle} {parent ref : Ref} (hn : u.Names h parent)
    (hparent : ∃ fk, h.relation.link = .parent fk) (hback : h.back? = some back)
    (hsingle : back.relation.link.isMany = false) (hnew : parent ∉ u.members h u.holder)
    (hmember : ref ∈ u.members back parent) : Displaces u back ref

/-- A record goes: it lost its place under its owner, or its owner goes. -/
inductive Removes (u : Update) : Ref → Prop
  | displaced {h : Handle} {ref : Ref} (hd : u.Displaces h ref)
    (howned : h.relation.link.isOwned = true) : Removes u ref
  | owned {owner ref : Ref} (ho : u.Removes owner)
    (hmember : ref ∈ u.resource.schema.owned u.store .empty owner) : Removes u ref

/-- An update may change or remove a record. -/
inductive Touches (u : Update) : Ref → Prop
  | holder : Touches u u.holder
  | named {h : Handle} {ref : Ref} (hn : u.Names h ref) : Touches u ref
  | displaced {h : Handle} {ref : Ref} (hd : u.Displaces h ref) : Touches u ref
  | removed {ref : Ref} (hr : u.Removes ref) : Touches u ref
  /-- The record belonged to one that goes, and was not owned by it. -/
  | released {owner ref : Ref} {fk : String} (ho : u.Removes owner)
    (hmember : (ref, fk) ∈ u.resource.schema.borrowed u.store .empty owner) : Touches u ref

/-- An update that only adds new records to many touches no other one. -/
theorem Touches.eq_holder (hadds : ∀ h es, u.Nests h es →
    h.relation.link.isMany = true ∧ Value.lookup? idColumn.name es = none) {ref : Ref}
    (ht : u.Touches ref) : ref = u.holder := by
  have hnames (h : Handle) (ref : Ref) : ¬u.Names h ref := by
    rintro ⟨hn, hmem, hid, -⟩
    rw [(hadds h _ hn).2] at hid
    simp [exactly, Filter.Predicate.holds, Row.cell_id] at hid
  have hdisplaces (h : Handle) (ref : Ref) : ¬u.Displaces h ref := by
    rintro (⟨hn, ⟨fk, owned, hone⟩, -⟩ | ⟨hn, -⟩)
    · have hmany := (hadds h _ hn).1
      rw [hone] at hmany
      cases hmany
    · exact hnames _ _ hn
  have hremoves (ref : Ref) : ¬u.Removes ref := by
    intro hr
    induction hr with
    | displaced hd => exact hdisplaces _ _ hd
    | owned _ _ ih => exact ih
  cases ht with
  | holder => rfl
  | named hn => exact (hnames _ _ hn).elim
  | displaced hd => exact (hdisplaces _ _ hd).elim
  | removed hr => exact (hremoves _ hr).elim
  | released hr => exact (hremoves _ hr).elim

theorem Underway.members_eq (hu : u.Underway se) (h : Handle) (ref : Ref) :
    se.records.members u.store h ref = u.members h ref :=
  Graph.members_congr h ref (hu.loads_nothing ref h.relation.name)

theorem Underway.owned_eq (hu : u.Underway se) (s : Schema) :
    s.owned u.store se.records = s.owned u.store .empty := by
  funext ref
  unfold Schema.owned
  exact List.flatMap_congr fun h _ => hu.members_eq h ref

theorem Underway.borrowed_eq (hu : u.Underway se) (s : Schema) :
    s.borrowed u.store se.records = s.borrowed u.store .empty := by
  funext ref
  unfold Schema.borrowed
  refine List.flatMap_congr fun h _ => ?_
  rw [hu.members_eq h ref]
  rfl

theorem foreignKey_ne_id {s : Schema} (hs : s.Keyed) {h : Handle} (hd : s.Declares h) :
    h.relation.link.foreignKey ≠ idColumn.name := by
  have hfound := (Schema.handle?_eq_some.1 hd.handle?).1
  exact hs.links h.parent hd.parent_mem h.relation (List.mem_of_find?_eq_some hfound)

theorem mem_attachments {a : Attachment} (ha : a ∈ se.staged.standing) :
    a ∈ se.staged.attachments := (List.mem_filter.1 (List.mem_eraseDups.1 ha)).1

variable (hs : u.resource.schema.Keyed)
  (hmodel : u.resource.model ∈ u.resource.schema.models)
include hs hmodel

theorem Underway.bonds (hu : u.Underway se) {b : Bond}
    (hb : b ∈ se.staged.bonds u.store se.records) :
    ((∃ n, b.record = .draft n) ∨ u.Touches b.record) ∧ b.column ≠ idColumn.name := by
  obtain ⟨a, ha, hb⟩ := List.mem_filterMap.1 hb
  obtain ⟨hholder, ⟨es, hn⟩, hmember⟩ := hu.attachments a (mem_attachments ha)
  have hcolumn := foreignKey_ne_id hs (declares_of_nests hmodel hn)
  unfold Attachment.bond? at hb
  split at hb
  · cases hb
  · split at hb
    · rename_i fk hlink
      cases hb
      rw [hlink] at hcolumn
      exact ⟨.inr (hholder ▸ .holder), hcolumn⟩
    · cases hb
      exact ⟨hmember.imp_right .named, hcolumn⟩

theorem Underway.displaced (hu : u.Underway se) {e : Handle × Ref}
    (he : e ∈ se.staged.displaced u.store se.records) :
    u.Displaces e.1 e.2 ∧ e.1.relation.link.foreignKey ≠ idColumn.name := by
  obtain ⟨a, ha, he⟩ := List.mem_flatMap.1 he
  obtain ⟨hholder, ⟨es, hn⟩, hmember⟩ := hu.attachments a (mem_attachments ha)
  have hd := declares_of_nests hmodel hn
  split at he
  · cases he
  · rename_i hnew
    split at he
    · rename_i h holder kept hdisplacing
      obtain ⟨ref, href, rfl⟩ := List.mem_map.1 he
      obtain ⟨hheld, -⟩ := List.mem_filter.1 href
      rw [hu.members_eq] at hheld hnew
      rcases Staging.displacing?_cases hdisplacing with
        ⟨fk, owned, hlink, rfl, rfl⟩ | ⟨fk, hlink, hback, hsingle, rfl⟩
      · exact ⟨.replaced hn ⟨fk, owned, hlink⟩ (hholder ▸ hheld), foreignKey_ne_id hs hd⟩
      · refine ⟨?_, foreignKey_ne_id hs (Schema.declares_back hd hback).1⟩
        -- A new parent has no records yet.
        rcases hmember with ⟨n, hdraft⟩ | hnames
        · rw [hdraft] at hheld
          cases hheld
        · refine .ousted hnames ⟨fk, hlink⟩ hback hsingle ?_ hheld
          rw [← hholder]
          exact fun hin => hnew (List.contains_iff_mem.2 hin)
    · cases he

theorem Underway.removals (hu : u.Underway se) {ref : Ref}
    (href : ref ∈ se.staged.removals u.resource.schema u.store se.records) : u.Removes ref := by
  unfold Staging.removals Schema.withOwned at href
  rw [hu.owned_eq] at href
  have howned (owner : Ref) (ho : u.Removes owner) :
      ∀ member ∈ u.resource.schema.owned u.store .empty owner, u.Removes member :=
    fun member hmember => .owned ho hmember
  refine forall_mem_reach howned (fun ref href => ?_) _ href
  rcases List.mem_append.1 href with href | href
  · rw [hu.removed] at href
    cases href
  · obtain ⟨e, he, rfl⟩ := List.mem_map.1 href
    obtain ⟨he, howned⟩ := List.mem_filter.1 he
    exact .displaced (hu.displaced hs hmodel he).1 howned

theorem Underway.cleared (hu : u.Underway se) {c : Ref × String}
    (hc : c ∈ se.staged.cleared u.resource.schema u.store se.records) :
    u.Touches c.1 ∧ c.2 ≠ idColumn.name := by
  rcases List.mem_append.1 hc with hc | hc
  · obtain ⟨e, he, rfl⟩ := List.mem_map.1 hc
    obtain ⟨hdisplaces, hcolumn⟩ := hu.displaced hs hmodel (List.mem_filter.1 he).1
    exact ⟨.displaced hdisplaces, hcolumn⟩
  · obtain ⟨owner, howner, hc⟩ := List.mem_flatMap.1 hc
    rw [hu.borrowed_eq] at hc
    refine ⟨.released (hu.removals hs hmodel howner) hc, ?_⟩
    obtain ⟨h, hh, hc⟩ := List.mem_flatMap.1 hc
    obtain ⟨member, -, rfl⟩ := List.mem_map.1 hc
    exact foreignKey_ne_id hs (Schema.mem_downward (List.mem_filter.1 hh).1).1

/-- All that is staged is about new records and about those that the update touches. -/
theorem Underway.reaches (hu : u.Underway se) :
    se.staged.Reaches u.resource.schema u.store se.records fun ref =>
      (∃ n, ref = .draft n) ∨ u.Touches ref where
  edits e he := by
    obtain ⟨hsubject, hvalues⟩ := hu.edits e he
    refine ⟨.inr ?_, fun v hv => (hvalues v hv).1⟩
    rcases hsubject with hself | ⟨h, hnames⟩
    · exact hself ▸ .holder
    · exact .named hnames
  bonds b hb := hu.bonds hs hmodel hb
  cleared c hc := (hu.cleared hs hmodel hc).imp_left .inr
  removals ref href := .inr (.removed (hu.removals hs hmodel href))

/-- The rows of a store that the update does not touch are in another one as they were. -/
def Spares (u : Update) (st : Store) : Prop :=
  ∀ m ∈ u.resource.schema.models, ∀ row ∈ u.store.rows m,
    ¬u.Touches (.stored m.name row.id) → row ∈ st.rows m

theorem Underway.spares_flush (hu : u.Underway se) {w : Written}
    (hw : ((Action.flush u.resource.schema) se).result = .ok w) : u.Spares w.store := by
  intro m hm row hrow huntouched
  obtain ⟨-, hflush⟩ := result_flush_ok.1 hw
  rw [hu.store_eq] at hflush
  refine (hu.reaches hs hmodel).flush_keeps hs hm ?_ hflush hrow
  rintro (⟨n, hdraft⟩ | htouched)
  · cases hdraft
  · exact huntouched htouched

/-- The record is written and read back, and what the update does not touch is spared. -/
theorem leaves_saveRecord (message : String) :
    Leaves u.Underway (u.resource.saveRecord u.holder message)
      (fun saved se => ∀ ref, saved = some ref → ref = u.holder ∧ u.Spares se.store)
      fun _ _ => True := by
  unfold Resource.saveRecord
  refine Leaves.bind (Q := fun saved se => ∀ w, saved = some w →
    se.store = w.store ∧ u.Spares w.store) ?_ fun saved => ?_
  · intro se hu
    cases hr : ((Action.flush u.resource.schema) se).result with
    | ok w =>
      rw [save_apply_of_ok hr]
      intro w' hw
      have hstore := (Resource.settles_flush (P := u.Underway) u.resource.schema).ok hu hr
      rw [← Option.some.inj hw]
      exact ⟨hstore.2, hu.spares_flush hs hmodel hr⟩
    | error e =>
      rcases save_of_error (m := u.resource.model) hr with ⟨hnone, -⟩ | ⟨-, herror⟩
      · rw [hnone]
        exact nofun
      · rw [herror]
        trivial
  · cases saved with
    | none => exact .pure fun se _ => nofun
    | some w =>
      refine Leaves.bind (Q := fun ref se => ref = u.holder ∧ u.Spares se.store) ?_ fun ref => ?_
      · unfold Resource.reload
        split
        · rename_i row hrow
          have hid : row.id = u.id := (Table.mem_of_find? hrow).2
          intro se hw
          refine ⟨congrArg (Ref.stored u.resource.model.name) hid, ?_⟩
          obtain ⟨hstore, hspares⟩ := hw w rfl
          change u.Spares se.store
          rw [hstore]
          exact hspares
        · exact fun se _ => trivial
      · refine Leaves.bind (.entry _) fun _ => .pure fun se hsaved ref' hsome => ?_
        rw [← Option.some.inj hsome]
        exact hsaved

/-- The payload is merged into the record, and what comes of it is written. -/
theorem leaves_mergeAndSave (message : String) :
    Leaves u.Underway (do
      let es ← Action.ofExcept u.payload.toEntries
      Resource.fill u.resource.model u.holder es
      (← u.resource.nested es).forM fun n =>
        n.records.forM (u.resource.attachNested u.holder n.handle)
      u.resource.saveRecord u.holder message)
      (fun saved se => ∀ ref, saved = some ref → ref = u.holder ∧ u.Spares se.store)
      fun _ _ => True := by
  refine Leaves.bind (Q := fun es se => u.Underway se ∧ es = u.payload.entries) ?_ fun es =>
    .given fun hes => ?_
  · refine .ofExcept (fun es hes se hu => ⟨hu, ?_⟩) fun _ _ _ _ => trivial
    exact Value.entries_of_toEntries hes
  · exact proceeds_merge hs hmodel hes (leaves_saveRecord hs hmodel message)

end Update

namespace Resource
variable {r : Resource} {st : Store}

/-- The row that an id stands for. -/
def IdOf (r : Resource) (st : Store) (id : Value) (n : Int) : Prop :=
  ∃ row ∈ st.rows r.model, row.id = n ∧ Filter.Predicate.holds st row (exactly r.model idColumn id)

theorem leaves_findById_underway (hmodel : r.model ∈ r.schema.models) (id payload : Value) :
    Leaves (Session.IsFresh st) (r.findById id [] false) (fun found se => ∀ ref, found = some ref →
      ∃ n, ref = .stored r.model.name n ∧ r.IdOf st id n ∧
        Update.Underway ⟨r, st, n, payload⟩ se) fun _ _ => True := by
  unfold findById fetch
  refine Leaves.bind (Q := fun refs se => ∀ ref ∈ refs, ∃ n, ref = .stored r.model.name n ∧
    r.IdOf st id n ∧ Update.Underway ⟨r, st, n, payload⟩ se) ?_ fun refs => ?_
  · have hquery (q : Query) :=
      leaves_query_rows (P := Session.IsFresh st) (fun se hse => hse.store_eq) q
    refine (hquery _).bind fun rows => .given fun hrows => ?_
    refine Leaves.bind (Q := fun refs se => ∀ ref ∈ refs, ∃ n, ref = .stored r.model.name n ∧
      r.IdOf st id n ∧ Update.Underway ⟨r, st, n, payload⟩ se) ?_ fun refs => ?_
    · intro se hse ref href
      obtain ⟨row, hrow, rfl⟩ := List.mem_map.1 href
      obtain ⟨hmem, hconditions⟩ := hrows row hrow
      have hid := hconditions _ (List.mem_append_right _ (List.mem_singleton_self _))
      have hfresh : Update.Underway ⟨r, st, row.id, payload⟩ se :=
        Update.underway_of_fresh hse.store_eq hse.records hse.staged
      have hstored (row : Row) (hrow : row ∈ rows) : row ∈ st.rows r.model := (hrows row hrow).1
      exact ⟨row.id, rfl, ⟨row, hmem, rfl, hid⟩, hfresh.hold hmodel hmodel hstored []⟩
    · exact Leaves.bind (.modify fun se hse => hse) fun _ => .pure fun se hse => hse
  · exact .pure fun se hse ref hfound => hse ref (List.mem_of_head? hfound)

/-- The record with an id was updated to a store, and what that does not touch is as it was. -/
def UpdatedApart (r : Resource) (st : Store) (id payload : Value) (ref : Ref) (st' : Store) :
    Prop :=
  ∃ n, ref = .stored r.model.name n ∧ r.IdOf st id n ∧ Update.Spares ⟨r, st, n, payload⟩ st'

theorem leaves_update_apart (hs : r.schema.Keyed) (hmodel : r.model ∈ r.schema.models)
    (id payload : Value) : Leaves (Session.IsFresh st) (r.update id payload)
      (fun saved se => ∀ ref, saved = some ref → r.UpdatedApart st id payload ref se.store)
      fun _ _ => True := by
  unfold update
  refine (leaves_findById_underway hmodel id payload).bind fun found => ?_
  cases found with
  | none => exact fun se _ => trivial
  | some holder =>
    intro se hfound
    obtain ⟨n, rfl, hid, hu⟩ := hfound holder rfl
    have hsaved := Update.leaves_mergeAndSave (u := ⟨r, st, n, payload⟩) hs hmodel "Record updated"
    have hapart : Leaves (Update.Underway ⟨r, st, n, payload⟩) _ (fun saved se => ∀ ref,
        saved = some ref → r.UpdatedApart st id payload ref se.store) fun _ _ => True :=
      hsaved.mono fun saved se h ref href => ⟨n, (h ref href).1, hid, (h ref href).2⟩
    exact hapart hu

/-- An update that succeeds writes to the record with the id, and every row that it does not touch
stays as it is in every column. Touched are the record, the records of its relations that the
payload names by their ids, those that lose their place under a singular relation, and what goes
with these. A record loses its place not only when the payload gives its relation another one: it
also does when the payload puts the record itself under a parent that holds one already, which it
can name once it has set the key to that parent. -/
theorem update_spares_untouched (hs : r.schema.Keyed) (hmodel : r.model ∈ r.schema.models)
    {se : Session} (hse : se.IsFresh st) {id payload : Value} {ref : Ref}
    (hupdated : (r.update id payload se).result = .ok (some ref)) :
    ∃ n, ref = .stored r.model.name n ∧ r.IdOf st id n ∧
      ∀ m ∈ r.schema.models, ∀ row ∈ st.rows m,
        ¬Update.Touches ⟨r, st, n, payload⟩ (.stored m.name row.id) →
          row ∈ (r.update id payload se).session.store.rows m :=
  (leaves_update_apart hs hmodel id payload).ok hse hupdated ref rfl

/-- An author is renamed and given a new book: the books that were there stay. -/
theorem update_spares_untouched_books :
    let authors := Library.resource Library.author
    let se := Library.visit Library.catalogue
    let payload : Value := .object [("name", .text "Emile"),
      ("books", .list [.object [("title", .text "Germinal")]])]
    (authors.update (.int 5) payload se).result = .ok (some (.stored "Author" 5)) ∧
      ∀ row ∈ Library.catalogue.rows Library.book,
        row ∈ (authors.update (.int 5) payload se).session.store.rows Library.book := by
  intro authors se payload
  have hupdated : (authors.update (.int 5) payload se).result =
      .ok (some (.stored "Author" 5)) := except_of_toOption (by decide +kernel)
  refine ⟨hupdated, fun row hrow => ?_⟩
  obtain ⟨n, -, -, hspares⟩ :=
    update_spares_untouched Library.keyed (by decide) ⟨rfl, rfl, rfl⟩ hupdated
  refine hspares Library.book (by decide) row hrow fun htouched => ?_
  have hbooks : (authors.schema.resolve? authors.model "books").map (·.relation.link) =
      some (.many "author_id" "id" true) := by decide +kernel
  have hself := htouched.eq_holder fun h es hn => ?_
  · have hname : Library.book.name = Library.author.name := (Ref.stored.inj hself).1
    exact absurd hname (by decide)
  · obtain ⟨key, v, records, hentry, -, hrelation, hrecords, hes⟩ := hn
    -- Only the second entry nests anything.
    rcases List.mem_pair.1 hentry with hname | hnested
    · cases hname
      cases hrecords
    · cases hnested
      cases hrecords
      have hfound : authors.schema.resolve? authors.model "books" = some h := hrelation
      rw [hfound] at hbooks
      have hlink : h.relation.link = .many "author_id" "id" true := Option.some.inj hbooks
      rw [List.mem_singleton.1 hes, hlink]
      exact ⟨rfl, rfl⟩

/-- A profile is given to an author whom it did not belong to, and names that author as its own: the
profile that the author had is gone. -/
example :
    let payload : Value := .object [("author_id", .int 1), ("author", .object [("id", .int 1)])]
    let o := (Library.resource Library.profile).update (.int 51) payload
      (Library.visit Library.catalogue)
    (o.session.store.rows Library.profile).map (·.id) = [51, 52] := by
  decide +kernel

end Resource

end Records
