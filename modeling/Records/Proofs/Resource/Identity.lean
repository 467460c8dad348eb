import Records.Proofs.Resource.Saved
import Records.Proofs.Store.Identity

/-!
Records keep their ids. In a run of operations a record is found under its id to the end, unless it
is deleted at some point: by being destroyed, or by losing its place under an owner. Only a bulk
update can give a record another id, namely where it names the column of the id.
-/
namespace Records

open Records.Action

/-- The rows of a store are in another one under their ids, but for some records. -/
def Store.KeepsIds (s : Schema) (gone : Ref → Prop) (st st' : Store) : Prop :=
  ∀ m ∈ s.models, ∀ row ∈ st.rows m, ¬gone (.stored m.name row.id) →
    ∃ row' ∈ st'.rows m, row'.id = row.id

theorem Store.KeepsIds.refl (s : Schema) (gone : Ref → Prop) (st : Store) :
    st.KeepsIds s gone st :=
  fun _ _ row hrow _ => ⟨row, hrow, rfl⟩

theorem Graph.members_draft {held : Graph} {st : Store} {h : Handle} {n : Nat}
    (hn : held.related? (.draft n) h.relation.name = none) : held.members st h (.draft n) = [] := by
  unfold members
  rw [hn]

namespace Staging
variable {s : Schema} {g : Staging} {st : Store} {held : Graph}

theorem SparesIds.flush_keeps (hs : s.Keyed) (hg : g.SparesIds s) {now : Calendar.Moment}
    {w : Written} (h : g.flush s now st held = .ok w) :
    st.KeepsIds s (· ∈ g.removals s st held) w.store := by
  intro m hm row hrow hstays
  obtain ⟨row', hrow', hnew⟩ := hg.rewrites hs hm hstays hrow h
  exact ⟨row', hrow', hnew.id_eq⟩

theorem removals_of_undisplaced (hdisplaced : g.displaced st held = []) :
    g.removals s st held = s.withOwned st held g.removed := by
  unfold removals
  rw [hdisplaced, List.filter_nil, List.map_nil, List.append_nil]

theorem removals_eq_nil (hdisplaced : g.displaced st held = []) (hremoved : g.removed = []) :
    g.removals s st held = [] := by
  rw [removals_of_undisplaced hdisplaced, hremoved]
  exact reach_nil ..

theorem displaced_of_unattached (h : g.attachments = []) : g.displaced st held = [] := by
  unfold displaced standing
  rw [h]
  rfl

theorem displaced_of_drafts (hheld : ∀ n name, held.related? (.draft n) name = none)
    (h : ∀ a ∈ g.attachments, (∃ n, a.holder = .draft n) ∧ ∃ n, a.member = .draft n) :
    g.displaced st held = [] := by
  refine List.flatMap_eq_nil_iff.2 fun a ha => ?_
  obtain ⟨⟨n, hholder⟩, ⟨k, hmember⟩⟩ := h a (List.mem_filter.1 (List.mem_eraseDups.1 ha)).1
  split
  · rfl
  · split
    · rename_i back holder kept hdisplacing
      have hdraft : ∃ n, holder = .draft n := by
        rcases displacing?_cases hdisplacing with ⟨-, -, -, -, rfl⟩ | ⟨-, -, -, -, rfl⟩
        · exact ⟨n, hholder⟩
        · exact ⟨k, hmember⟩
      obtain ⟨n, rfl⟩ := hdraft
      rw [Graph.members_draft (hheld ..)]
      rfl
    · rfl

end Staging

/-- A session on a store, in which what is staged leaves ids alone and removes only some records. -/
structure Session.Sparing (s : Schema) (st : Store) (gone : Ref → Prop) (se : Session) : Prop where
  store_eq : se.store = st
  spares : se.staged.SparesIds s
  removals : ∀ ref ∈ se.staged.removals s st se.records, gone ref

/-- A session on a store, with nothing staged. -/
def Session.Unstaged (st : Store) (se : Session) : Prop := se.store = st ∧ se.staged = .empty

/-- A session on a store, in which new records are staged, put under each other only. -/
structure Session.Drafting (s : Schema) (st : Store) (se : Session) : Prop where
  store_eq : se.store = st
  records : se.records = .empty
  edits : se.staged.edits = []
  removed : se.staged.removed = []
  attached : ∀ a ∈ se.staged.attachments, s.Declares a.handle ∧ (∃ n, a.holder = .draft n) ∧
    ∃ n, a.member = .draft n

/-- A session on a store that has the rows of another one under their ids, but for some records. -/
def Session.Keeping (s : Schema) (st : Store) (gone : Ref → Prop) (se : Session) : Prop :=
  st.KeepsIds s gone se.store

namespace Session
variable {s : Schema} {st : Store} {gone : Ref → Prop} {se : Session}

theorem keeping_of_eq (h : se.store = st) : se.Keeping s st gone := h ▸ .refl s gone _

theorem Unstaged.keeping (h : se.Unstaged st) : se.Keeping s st gone := keeping_of_eq h.1

theorem Sparing.keeping_flush (hs : s.Keyed) (h : se.Sparing s st gone) {w : Written}
    (hw : (Action.flush s se).result = .ok w) : (Action.flush s se).session.Keeping s st gone := by
  have hstore := ((Resource.settles_flush (P := Session.Sparing s st gone) s).ok h hw).2
  obtain ⟨-, hflush⟩ := result_flush_ok.1 hw
  rw [h.store_eq] at hflush
  intro m hm row hrow hstays
  rw [hstore]
  exact h.spares.flush_keeps hs hflush m hm row hrow fun hgone => hstays (h.removals _ hgone)

theorem Sparing.store_flush_error (h : se.Sparing s st gone) {e : Failure}
    (he : (Action.flush s se).result = .error e) : (Action.flush s se).session.store = st := by
  have hkept : (∀ p, e ≠ .problem p) ∧ se.Kept (Action.flush s se).session :=
    (Resource.leaves_flush s).error (.refl se) he
  exact hkept.2.1.1.trans h.store_eq

/-- Where nothing is put under a relation and nothing is removed, nothing goes. -/
theorem sparing_of_unattached (hstore : se.store = st)
    (hedits : ∀ e ∈ se.staged.edits, SparesId e.values)
    (hapart : se.staged.edits.Pairwise Edit.Apart) (hattached : se.staged.attachments = [])
    (hremoved : se.staged.removed = []) : se.Sparing s st gone := by
  refine ⟨hstore, ⟨hedits, hapart, fun a ha => ?_⟩, fun ref href => ?_⟩
  · rw [hattached] at ha
    cases ha
  · rw [Staging.removals_eq_nil (Staging.displaced_of_unattached hattached) hremoved] at href
    cases href

theorem Unstaged.sparing (h : se.Unstaged st) : se.Sparing s st gone := by
  refine sparing_of_unattached h.1 ?_ ?_ ?_ ?_ <;> rw [h.2]
  · exact fun _ he => absurd he List.not_mem_nil
  · exact .nil
  all_goals rfl

theorem Unstaged.sparing_edit (h : se.Unstaged st) (m : Model) (id : Int)
    (es : List (String × Value)) :
    Sparing s st gone { se with staged := se.staged.edit m id (m.fillValues es) } := by
  refine sparing_of_unattached h.1 ?_ ?_ ?_ ?_ <;> rw [h.2]
  · exact fun e he => List.mem_singleton.1 he ▸ m.spares_fillValues es
  · exact List.pairwise_singleton ..
  all_goals rfl

theorem Unstaged.sparing_draft (h : se.Unstaged st) (m : Model) (es : List (String × Value)) :
    Sparing s st gone { se with staged := (se.staged.addDraft m es).1 } := by
  refine sparing_of_unattached h.1 ?_ ?_ ?_ ?_ <;> rw [h.2]
  · exact fun _ he => absurd he List.not_mem_nil
  · exact .nil
  all_goals rfl

theorem Drafting.sparing (h : se.Drafting s st) : se.Sparing s st gone := by
  refine ⟨h.store_eq, ⟨?_, ?_, fun a ha => ?_⟩, fun ref href => ?_⟩
  · rw [h.edits]
    exact fun _ he => absurd he List.not_mem_nil
  · rw [h.edits]
    exact .nil
  · obtain ⟨hdeclared, ⟨n, hholder⟩, ⟨k, hmember⟩⟩ := h.attached a ha
    exact ⟨hdeclared, hholder ▸ Ref.isOf_draft .., hmember ▸ Ref.isOf_draft ..⟩
  · rw [h.records, Staging.removals_eq_nil
      (Staging.displaced_of_drafts (fun _ _ => rfl) fun a ha => (h.attached a ha).2) h.removed]
      at href
    cases href

theorem IsFresh.drafting (h : se.IsFresh st) (m : Model) (es : List (String × Value)) :
    Drafting s st { se with staged := (se.staged.addDraft m es).1 } := by
  refine ⟨h.store_eq, h.records, ?_, ?_, ?_⟩ <;> rw [h.staged]
  · rfl
  · rfl
  · exact fun _ ha => absurd ha List.not_mem_nil

theorem Drafting.draft (h : se.Drafting s st) (m : Model) (es : List (String × Value)) :
    Drafting s st { se with staged := (se.staged.addDraft m es).1 } :=
  ⟨h.store_eq, h.records, h.edits, h.removed, h.attached⟩

theorem Drafting.attach (h : se.Drafting s st) {relation : Handle} (hd : s.Declares relation)
    (holder member : Nat) : Drafting s st
      { se with staged := se.staged.attach relation (.draft holder) (.draft member) } := by
  refine ⟨h.store_eq, h.records, h.edits, h.removed, fun a ha => ?_⟩
  rcases List.mem_append.1 ha with ha | ha
  · exact h.attached a ha
  · obtain rfl := List.mem_singleton.1 ha
    exact ⟨hd, ⟨holder, rfl⟩, member, rfl⟩

theorem Unstaged.sparing_remove (h : se.Unstaged st)
    (hunloaded : ∀ ref name, se.records.related? ref name = none) {ref : Ref}
    (hgone : ∀ other ∈ s.withOwned st .empty [ref], gone other) :
    Sparing s st gone { se with staged := se.staged.remove ref } := by
  rw [Unstaged] at h
  have hstaged : (se.staged.remove ref) = Staging.empty.remove ref := by rw [h.2]
  rw [hstaged]
  refine ⟨h.1, ⟨fun _ he => ?_, .nil, fun _ ha => ?_⟩, fun other hother => hgone other ?_⟩
  · cases he
  · cases ha
  · change other ∈ (Staging.empty.remove ref).removals s st se.records at hother
    rw [Staging.removals_of_unloaded hunloaded,
      Staging.removals_of_undisplaced (Staging.displaced_of_unattached rfl)] at hother
    exact hother

end Session

/-- From a session with some property, an action leaves a store with the rows of another one under
their ids, but for some records. It may fail or not. -/
def Action.Retains {α : Type} (P : Session → Prop) (s : Schema) (st : Store) (gone : Ref → Prop)
    (x : Action α) : Prop :=
  Leaves P x (fun _ => Session.Keeping s st gone) fun _ => Session.Keeping s st gone

namespace Action
variable {α β : Type} {P : Session → Prop} {s : Schema} {st : Store} {gone : Ref → Prop}

theorem Retains.keeps {x : Action α} (hx : Retains P s st gone x) {se : Session} (hP : P se) :
    st.KeepsIds s gone (x se).session.store := by
  cases hr : (x se).result with
  | ok a => exact Leaves.ok hx hP hr
  | error e => exact Leaves.error hx hP hr

theorem Retains.bind {x : Action α} {f : α → Action β} (hx : Retains P s st gone x)
    (hf : ∀ a, Retains (Session.Keeping s st gone) s st gone (f a)) :
    Retains P s st gone (x >>= f) :=
  Leaves.bind hx hf

theorem Retains.after {x : Action α} {f : α → Action β}
    (hx : Leaves (Session.Unstaged st) x (fun _ => Session.Unstaged st) fun _ =>
      Session.Unstaged st) (hf : ∀ a, Retains (Session.Unstaged st) s st gone (f a)) :
    Retains (Session.Unstaged st) s st gone (x >>= f) :=
  Leaves.bind (hx.mono_error fun _ _ h => h.keeping) hf

theorem Retains.pure (hP : ∀ se, P se → se.Keeping s st gone) (a : α) :
    Retains P s st gone (Pure.pure a) :=
  Leaves.pure hP

theorem Retains.reply {x : Action α} (hx : Retains P s st gone x) (f : α → β) :
    Retains P s st gone (do return f (← x)) :=
  hx.bind fun _ => .pure (fun _ h => h) _

theorem Retains.raise (hP : ∀ se, P se → se.Keeping s st gone) (p : Problem × LogEntry) :
    Retains P s st gone (.raise p : Action α) :=
  hP

theorem retains_commit (hs : s.Keyed) :
    Retains (Session.Sparing s st gone) s st gone (Action.commit s) := by
  intro se h
  cases hr : (Action.flush s se).result with
  | ok w =>
    rw [commit_apply_of_ok hr, hr]
    exact h.keeping_flush hs hr
  | error e =>
    rw [commit_apply_of_error hr]
    exact Session.keeping_of_eq (h.store_flush_error hr)

theorem retains_save (hs : s.Keyed) (m : Model) :
    Retains (Session.Sparing s st gone) s st gone (Action.save s m) := by
  intro se h
  cases hr : (Action.flush s se).result with
  | ok w =>
    rw [save_apply_of_ok hr]
    exact h.keeping_flush hs hr
  | error e =>
    have hstore : (Action.save s m se).session.store = st := by
      unfold Action.save
      simp only [hr]
      split <;> exact h.store_flush_error hr
    cases (Action.save s m se).result <;> exact Session.keeping_of_eq hstore

end Action

namespace Resource
variable {r : Resource} {s : Schema} {st : Store} {gone : Ref → Prop}

theorem retains_reload (w : Written) (ref : Ref) :
    Retains (Session.Keeping s st gone) s st gone (r.reload w ref) := by
  unfold reload
  split
  · exact Retains.bind (fun se h => h) fun _ => .pure (fun _ h => h) _
  · exact fun se h => h

section Steps
variable (hs : r.schema.Keyed)
include hs

theorem retains_saveRecord (ref : Ref) (message : String) :
    Retains (Session.Sparing r.schema st gone) r.schema st gone (r.saveRecord ref message) := by
  refine (retains_save hs r.model).bind fun saved => ?_
  cases saved with
  | none => exact .pure (fun _ h => h) _
  | some w =>
    refine (retains_reload w ref).bind fun _ => ?_
    exact Retains.bind (fun se h => h) fun _ => .pure (fun _ h => h) _

theorem retains_commitValues (ref : Ref) (es : List (String × Value)) :
    Retains (Session.Unstaged st) r.schema st gone (r.commitValues ref es) := by
  have hfill : Leaves (Session.Unstaged st) (fill r.model ref es)
      (fun _ => Session.Sparing r.schema st gone) fun _ => Session.Keeping r.schema st gone := by
    cases ref with
    | stored name id => exact .modify fun se h => h.sparing_edit r.model id es
    | draft n => exact .pure fun se h => h.sparing
  exact hfill.bind fun _ => (retains_commit hs).bind fun w => retains_reload w ref

theorem retains_create (es : List (String × Value)) :
    Retains (Session.Unstaged st) r.schema st gone (r.create es) := by
  have hdraft : Leaves (Session.Unstaged st) (Action.stageDraft r.model (r.model.columnValues es))
      (fun _ => Session.Sparing r.schema st gone) fun _ => Session.Keeping r.schema st gone :=
    fun se h => h.sparing_draft r.model _
  exact hdraft.bind fun ref => (retains_commit hs).bind fun w => retains_reload w ref

/-- Only a record that cannot be trashed goes, and what it owns goes with it. -/
theorem retains_delete (ref : Ref) (hgone : r.model.softDeletes = false →
    ∀ other ∈ r.schema.withOwned st .empty [ref], gone other) :
    Retains (fun se => se.Unstaged st ∧ ∀ ref name, se.records.related? ref name = none) r.schema st
      gone (r.delete ref) := by
  unfold delete
  split
  · refine Leaves.bind (Q := fun _ => Session.Unstaged st) (fun se h => h.1) fun se => ?_
    exact (retains_commitValues hs ref _).reply _
  · rename_i hhard
    have hremove : Leaves (fun se => Session.Unstaged st se ∧
        ∀ ref name, se.records.related? ref name = none) (Action.stage (·.remove ref))
        (fun _ => Session.Sparing r.schema st gone) fun _ => Session.Keeping r.schema st gone :=
      .modify fun se h => h.1.sparing_remove h.2 (hgone (Bool.eq_false_iff.2 hhard))
    exact hremove.bind fun _ => (retains_commit hs).reply _

end Steps

section Operations
variable (hs : r.schema.Keyed) (hmodel : r.model ∈ r.schema.models)
include hs

theorem retains_firstOrCreate (attributes values : Value) :
    Retains (Session.Unstaged st) r.schema st gone (r.firstOrCreate attributes values) := by
  refine .after (leaves_findOneBy_same (fun _ _ h => h) attributes) fun found => ?_
  cases found with
  | some ref => exact Retains.pure (fun _ h => h.keeping) _
  | none =>
    refine .after (leaves_ofExcept_same _) fun es => ?_
    exact (retains_create hs es).reply _

theorem retains_updateOrCreate (attributes values : Value) :
    Retains (Session.Unstaged st) r.schema st gone (r.updateOrCreate attributes values) := by
  refine .after (leaves_findOneBy_same (fun _ _ h => h) attributes) fun found => ?_
  cases found with
  | some ref =>
    refine .after (leaves_ofExcept_same _) fun es => ?_
    exact (retains_commitValues hs ref es).reply _
  | none =>
    refine .after (leaves_ofExcept_same _) fun es => ?_
    exact (retains_create hs es).reply _

theorem retains_restore (id : Value) :
    Retains (Session.Unstaged st) r.schema st gone (r.restore id) := by
  refine .after (leaves_findById_same (fun _ _ h => h) id) fun found => ?_
  split
  · rename_i ref hsoft
    refine Retains.bind ?_ fun _ se h => h
    exact (retains_commitValues hs ref _).reply _
  · exact .raise (fun _ h => h.keeping) _

include hmodel

theorem retains_store (payload : Value) :
    Retains (Session.IsFresh st) r.schema st gone (r.store payload) := by
  unfold store
  refine Leaves.bind (Q := fun es se => se.IsFresh st ∧ es = payload.entries) ?_ fun es =>
    .given fun hes => ?_
  · exact .ofExcept (fun _ hes _ h => ⟨h, Value.entries_of_toEntries hes⟩)
      fun _ _ _ h => Session.keeping_of_eq h.store_eq
  refine Leaves.bind (Q := fun holder se => Session.Drafting r.schema st se ∧
    ∃ n, holder = .draft n) ?_ fun holder => .given ?_
  · exact fun se h => ⟨h.drafting r.model _, _, rfl⟩
  rintro ⟨n, rfl⟩
  refine (nested_nests fun e he => hes ▸ he).bind fun ns => .given fun hns => ?_
  refine (Leaves.forM fun n hn => .forM fun record hrecord => ?_).bind fun _ => ?_
  · have hd := Update.declares_of_nests (u := ⟨r, st, 0, payload⟩) hmodel (hns n hn record hrecord)
    refine Leaves.bind (Q := fun member se => Session.Drafting r.schema st se ∧
      ∃ k, member = .draft k) ?_ fun member => .given ?_
    · exact fun se h => ⟨h.draft _ _, _, rfl⟩
    · rintro ⟨k, rfl⟩
      exact .modify fun se h => h.attach hd _ _
  · exact Leaves.weaken (retains_saveRecord hs _ _) fun se h => h.sparing

theorem retains_destroy (id : Value) (hgone : r.model.softDeletes = false →
    ∀ n, r.IdOf st id n → ∀ other ∈ r.schema.withOwned st .empty [.stored r.model.name n],
      gone other) :
    Retains (fun se => se.IsFresh st ∧ se.inactive = false) r.schema st gone (r.destroy id) := by
  rintro se ⟨hfresh, hactive⟩
  obtain rfl := hfresh.store_eq
  suffices hdestroy : Retains (Eq se) r.schema se.store gone (r.destroy id) from hdestroy rfl
  have hfind := (leaves_findById_at hmodel hfresh hactive id .null).and (leaves_findById_store id)
  refine Leaves.bind (hfind.mono_error fun _ _ h => Session.keeping_of_eq h.2) fun found => ?_
  cases found with
  | none => exact Retains.raise (fun _ h => Session.keeping_of_eq h.2) _
  | some ref =>
    refine Retains.bind ?_ fun _ se h => h
    rintro se₁ ⟨hfound, -⟩
    obtain ⟨row, -, rfl, hid, hat⟩ := hfound ref rfl
    have hdelete := retains_delete hs (.stored r.model.name row.id) fun hhard =>
      hgone hhard row.id hid
    exact hdelete ⟨⟨hat.kept.1.1, hat.staged⟩, hat.loads_nothing⟩

theorem retains_update (id payload : Value)
    (hgone : ∀ n, r.IdOf st id n → ∀ ref, Update.Removes ⟨r, st, n, payload⟩ ref → gone ref) :
    Retains (fun se => se.IsFresh st ∧ se.inactive = false) r.schema st gone
      (r.update id payload) := by
  rintro se ⟨hfresh, hactive⟩
  obtain rfl := hfresh.store_eq
  have hkept : (r.update id payload se).session.Keeping r.schema se.store gone := by
    cases update_ends hs hmodel hfresh hactive id payload with
    | unfound _ _ hstore => exact Session.keeping_of_eq hstore
    | unread _ _ hstore => exact Session.keeping_of_eq hstore
    | broken _ _ _ hhalts => exact Session.keeping_of_eq hhalts.1
    | @saved n g se₁ _ hid hstaging hat _ hsession =>
      -- What is saved has no ids in it, and removes what the payload displaces.
      have hg : Update.Staged ⟨r, se.store, n, payload⟩ g := Update.staged_of_staging hstaging
      have hsparing : se₁.Sparing r.schema se.store gone := by
        refine ⟨hat.kept.1.1, ?_, fun ref href => ?_⟩
        · rw [hat.staged]
          exact hg.sparesIds hmodel
        · rw [hat.staged, Staging.removals_of_unloaded hat.loads_nothing] at href
          exact hgone n hid ref (hg.removes hs hmodel se.now href)
      have hsaved := retains_saveRecord hs (.stored r.model.name n) "Record updated" hsparing
      rw [hsession]
      split at hsaved <;> exact hsaved
  split <;> exact hkept

end Operations

/-- A bulk update gives the only row that it selects an id that no row had. -/
structure Rekeys (r : Resource) (ids : List Value) (es : List (String × Value)) (st st' : Store)
    (row : Row) : Prop where
  given : ∃ e ∈ es, e.1 = idColumn.name
  selected : ∃ chosen,
    (Filter.membershipPredicate ⟨r.model.table, idColumn⟩ ids).outcome = .ok chosen ∧
      Query.matching { model := r.model, conditions := chosen ++ notTrashed r.model } st = [row]
  moved : ∃ row' ∈ st'.rows r.model, ∀ old ∈ st.rows r.model, old.id ≠ row'.id

section Bulk
variable {m : Model} (hs : s.Keyed)
include hs

theorem spares_bulkValues (hm : m ∈ s.models) {es : List (String × Value)}
    (hes : SparesId es) (now : Calendar.Moment) : (m.updateValues now
      (m.columns.filterMap fun c => (Value.lookup? c.name es).map fun v => (c, v))).Spares := by
  refine hs.spares_updateValues hm (fun a ha => ?_) now
  obtain ⟨c, -, hc⟩ := List.mem_filterMap.1 ha
  obtain ⟨v, hv, rfl⟩ := Option.map_eq_some_iff.1 hc
  exact hes _ (Value.mem_of_lookup? hv)

/-- What is written in bulk keeps all ids, but for a row that it selects alone. -/
theorem bulkWrite_ids (hm : m ∈ s.models) {st' : Store} {ps : List Filter.Predicate}
    {as : Assigned} {count : Nat}
    (h : bulkWrite s st { model := m, conditions := ps } as = .ok (st', count)) {other : Model}
    {row : Row} (hrow : row ∈ st.rows other) :
    (∃ row' ∈ st'.rows other, row'.id = row.id) ∨ other.table = m.table ∧ ¬as.Spares ∧
      Query.matching { model := m, conditions := ps } st = [row] ∧
        ∃ row' ∈ st'.rows m, ∀ old ∈ st.rows m, old.id ≠ row'.id := by
  obtain ⟨cells, -, h⟩ := except_bind_ok.1 h
  obtain ⟨written, hwritten, h⟩ := except_bind_ok.1 h
  cases h
  have hchanged := Store.change_ids (hs.id_mem m hm)
    (fun r hr => (List.mem_filter.1 hr).1)
    (((st.table m.table).ascending.filter _).imp Int.ne_of_lt) (mapError_eq_ok.1 hwritten) hrow
  refine hchanged.imp_right fun ⟨htable, hcells, hselected, hmoved⟩ => ?_
  exact ⟨htable, fun has => hcells (has.kept cells), hselected, hmoved⟩

theorem leaves_commitOn_keeping (st' : Store) : Leaves (Session.Unstaged st)
    (Action.commitOn s st') (fun _ => Session.Keeping s st' fun _ => False)
    fun _ se => se.store = st := by
  intro se h
  have hsparing : Session.Sparing s st' (fun _ => False) { se with store := st' } :=
    Session.Unstaged.sparing ⟨rfl, h.2⟩
  have hcommit := retains_commit hs hsparing
  unfold Action.commitOn
  cases hr : (Action.commit s { se with store := st' }).result with
  | ok w =>
    rw [hr] at hcommit
    simp only [hr]
    exact hcommit
  | error e =>
    simp only [hr]
    exact h.1

end Bulk

section Bulk
variable (hs : r.schema.Keyed) (hmodel : r.model ∈ r.schema.models)
include hs hmodel

theorem leaves_changeAll_ids (ids : List Value) (es : List (String × Value)) :
    Leaves (Session.Unstaged st) (r.changeAll ids es)
      (fun _ se => se.Keeping r.schema st fun ref =>
        ∃ row, ref = .stored r.model.name row.id ∧ r.Rekeys ids es st se.store row)
      fun _ se => se.store = st := by
  unfold changeAll
  refine Leaves.bind (Q := fun chosen se => se.Unstaged st ∧
    (Filter.membershipPredicate ⟨r.model.table, idColumn⟩ ids).outcome = .ok chosen) ?_
    fun chosen => .given fun hchosen => ?_
  · intro se h
    split
    · rename_i chosen hr
      exact ⟨h, result_ofReported_ok.1 hr⟩
    · exact h.1
  refine Leaves.bind (Q := fun now se => se.Unstaged st ∧ now.store = st) (fun se h => ⟨h, h.1⟩)
    fun now => .given ?_
  rintro rfl
  dsimp only
  split
  · exact fun se h => h.1
  refine Leaves.bind (Q := fun written se => se.Unstaged now.store ∧ bulkWrite r.schema now.store
    { model := r.model, conditions := chosen ++ notTrashed r.model }
    (r.model.updateValues now.now (r.model.columns.filterMap fun c =>
      (Value.lookup? c.name es).map fun v => (c, v))) = .ok written) ?_
    fun written => .given fun hwritten => ?_
  · exact .ofExcept (fun written hwritten se h => ⟨h, mapError_eq_ok.1 hwritten⟩)
      fun _ _ se h => h.1
  -- Two steps: the bulk write moves at most one row, and the commit after it keeps all of them.
  refine (leaves_commitOn_keeping hs written.1).bind fun _ => .pure fun se hkept => ?_
  intro m hm row hrow hstays
  rcases bulkWrite_ids hs hmodel hwritten hrow with ⟨row₁, hrow₁, hid⟩ |
    ⟨htable, hspares, hselected, row₁, hrow₁, hmoved⟩
  · obtain ⟨row', hrow', hid'⟩ := hkept m hm row₁ hrow₁ id
    exact ⟨row', hrow', hid'.trans hid⟩
  · obtain ⟨row', hrow', hid'⟩ := hkept r.model hmodel row₁ hrow₁ id
    refine absurd ⟨row, ?_, ?_, ⟨chosen, hchosen, hselected⟩, row', hrow', fun old hold =>
      hid' ▸ hmoved old hold⟩ hstays
    · rw [Schema.eq_of_table hm hmodel htable]
    · by_contra hnone
      exact hspares (spares_bulkValues hs hmodel (fun e he hname => hnone ⟨e, he, hname⟩) _)

end Bulk

/-- An operation takes a record out of a store: the record is deleted, or it is given another id. -/
inductive Loses (r : Resource) (st st' : Store) : Operation → Ref → Prop
  | destroyed {id : Value} {n : Int} {ref : Ref} (hhard : r.model.softDeletes = false)
    (hid : r.IdOf st id n)
    (howned : ref ∈ r.schema.withOwned st .empty [.stored r.model.name n]) :
    Loses r st st' (.destroy id) ref
  | orphaned {id payload : Value} {n : Int} {ref : Ref} (hid : r.IdOf st id n)
    (hgoes : Update.Removes ⟨r, st, n, payload⟩ ref) : Loses r st st' (.update id payload) ref
  | rekeyed {ids attributes : Value} {vs : List Value} {es : List (String × Value)} {row : Row}
    (hids : ids.toItems = .ok vs) (hattributes : attributes.toEntries = .ok es)
    (hmoves : r.Rekeys vs (r.model.columnValues es) st st' row) :
    Loses r st st' (.multiUpdate ids attributes) (.stored r.model.name row.id)

section Performing
variable (hs : r.schema.Keyed) (hmodel : r.model ∈ r.schema.models)
include hs hmodel

theorem leaves_multiUpdate_ids (ids attributes : Value) :
    Leaves (Session.Unstaged st) (r.multiUpdate ids attributes)
      (fun _ se => se.Keeping r.schema st (r.Loses st se.store (.multiUpdate ids attributes)))
      fun _ se => se.store = st := by
  unfold multiUpdate
  refine Leaves.bind (Q := fun vs se => se.Unstaged st ∧ ids.toItems = .ok vs) ?_ fun vs =>
    .given fun hids => ?_
  · exact .ofExcept (fun vs hvs se h => ⟨h, hvs⟩) fun _ _ se h => h.1
  refine Leaves.bind (Q := fun es se => se.Unstaged st ∧ attributes.toEntries = .ok es) ?_ fun es =>
    .given fun hattributes => ?_
  · exact .ofExcept (fun es hes se h => ⟨h, hes⟩) fun _ _ se h => h.1
  dsimp only
  split
  · exact fun se h => h.1
  split
  · exact .pure fun se h => h.keeping
  refine (leaves_changeAll_ids hs hmodel vs _).bind fun count => ?_
  refine Leaves.bind (.entry _) fun _ => .pure fun se hkept m hm row hrow hstays => ?_
  refine hkept m hm row hrow ?_
  rintro ⟨old, hsame, hmoves⟩
  exact hstays (hsame ▸ .rekeyed hids hattributes hmoves)

/-- An operation that writes no bulk update takes only records out of the store that it deletes. -/
theorem retains_perform (st' : Store) {op : Operation}
    (hop : ∀ ids attributes, op ≠ .multiUpdate ids attributes) :
    Retains (fun se => se.IsFresh st ∧ se.inactive = false) r.schema st (r.Loses st st' op)
      (r.perform op) := by
  have hunstaged (se : Session) (h : se.IsFresh st ∧ se.inactive = false) : se.Unstaged st :=
    ⟨h.1.store_eq, h.1.staged⟩
  cases op with
  | read withTrashed q =>
    refine Leaves.weaken ?_ hunstaged
    refine Retains.after (leaves_read_same (fun _ _ h => h) q) fun _ => ?_
    exact .pure (fun _ h => h.keeping) _
  | store payload =>
    exact Leaves.weaken ((retains_store hs hmodel payload).reply _) fun _ h => h.1
  | update id payload =>
    refine (retains_update hs hmodel id payload fun n hid ref hgoes => ?_).reply _
    exact .orphaned hid hgoes
  | destroy id =>
    refine (retains_destroy hs hmodel id fun hhard n hid ref howned => ?_).reply _
    exact .destroyed hhard hid howned
  | restore id => exact Leaves.weaken ((retains_restore hs id).reply _) hunstaged
  | firstOrCreate attributes values =>
    exact Leaves.weaken ((retains_firstOrCreate hs attributes values).reply _) hunstaged
  | updateOrCreate attributes values =>
    exact Leaves.weaken ((retains_updateOrCreate hs attributes values).reply _) hunstaged
  | multiUpdate ids attributes => exact absurd rfl (hop ids attributes)

/-- Whether an operation fails or not, it takes only records out of the store that it deletes or
gives another id. -/
theorem perform_keepsIds {se : Session} (hfresh : se.IsFresh se.store)
    (hactive : se.inactive = false) (op : Operation) : se.store.KeepsIds r.schema
      (r.Loses se.store (r.perform op se).session.store op) (r.perform op se).session.store := by
  by_cases hop : ∃ ids attributes, op = .multiUpdate ids attributes
  · obtain ⟨ids, attributes, rfl⟩ := hop
    have hmulti : Leaves (Session.Unstaged se.store) (r.perform (.multiUpdate ids attributes))
        (fun _ se' => se'.Keeping r.schema se.store
          (r.Loses se.store se'.store (.multiUpdate ids attributes)))
        fun _ se' => se'.store = se.store :=
      (leaves_multiUpdate_ids hs hmodel ids attributes).bind fun _ => .pure fun _ h => h
    have hunstaged : se.Unstaged se.store := ⟨rfl, hfresh.staged⟩
    cases hr : (r.perform (.multiUpdate ids attributes) se).result with
    | ok reply => exact hmulti.ok hunstaged hr
    | error e =>
      rw [hmulti.error hunstaged hr]
      exact Store.KeepsIds.refl _ _ _
  · refine Retains.keeps (retains_perform hs hmodel _ fun ids attributes h => ?_) ⟨hfresh, hactive⟩
    exact hop ⟨ids, attributes, h⟩

end Performing

end Resource

theorem Session.Settled.keepsIds {c : Call} (hs : c.resource.schema.Keyed)
    (hm : c.resource.model ∈ c.resource.schema.models) {se : Session}
    (h : se.Settled c.resource.schema) : se.store.KeepsIds c.resource.schema
      (c.resource.Loses se.store (c.run se).next.store c.operation) (c.run se).next.store := by
  -- The call does the same once what the session holds is forgotten.
  have hundone : se.Undone se.rolledBack := ⟨.inr rfl, rfl⟩
  have hcalls (c' : Call) (hc : c' ∈ [c]) :
      c'.resource.schema = c.resource.schema ∧ c'.resource.model ∈ c.resource.schema.models := by
    obtain rfl := List.mem_singleton.1 hc
    exact ⟨rfl, hm⟩
  have hreplay := replay_alike hcalls (hundone.alike h)
  have hstore : (c.run se).next.store = (c.run se.rolledBack).session.store := by
    have hsame : (c.run se.rolledBack).session.store = (c.run se).session.store :=
      congrArg Prod.snd (List.cons.inj hreplay).1
    rw [hsame]
    unfold Outcome.next
    split <;> rfl
  rw [hstore]
  let start : Session := { se.rolledBack with now := c.now }
  have hfresh : start.IsFresh start.store := ⟨rfl, rfl, rfl⟩
  exact Resource.perform_keepsIds hs hm hfresh rfl c.operation

/-- Records keep their ids. A row of the store that a run of operations begins with, one of them
after another, is found under its id in the store that the run ends with, unless there is a first
operation that takes it out: it destroys the record or one that owns it; it is an update in which
the record, or one that owns it, loses its place; or it is a bulk update that names the column of
the id, selects this row alone, and moves it to an id that no row had. -/
theorem record_ids_stable {s : Schema} (hs : s.Keyed) {calls : List Call}
    (hcalls : ∀ c ∈ calls, c.resource.schema = s ∧ c.resource.model ∈ s.models)
    (hops : ∀ c ∈ calls, c.operation.LoadsNothing) {se : Session} (hse : se.Settled s) {m : Model}
    (hm : m ∈ s.models) {row : Row} (hrow : row ∈ se.store.rows m) :
    (∃ row' ∈ (Session.after calls se).store.rows m, row'.id = row.id) ∨
      ∃ done c rest, calls = done ++ c :: rest ∧
        (∃ row' ∈ (Session.after done se).store.rows m, row'.id = row.id) ∧
        c.resource.Loses (Session.after done se).store (Session.after (done ++ [c]) se).store
          c.operation (.stored m.name row.id) := by
  -- Along the calls: the first one takes the row out, or the rest begins with the row it left.
  induction calls generalizing se row with
  | nil => exact .inl ⟨row, hrow, rfl⟩
  | cons c calls ih =>
    obtain ⟨⟨rfl, hmodel⟩, hrest⟩ := List.forall_mem_cons.1 hcalls
    obtain ⟨hop, hlater⟩ := List.forall_mem_cons.1 hops
    by_cases hloses : c.resource.Loses se.store (c.run se).next.store c.operation
      (.stored m.name row.id)
    · exact .inr ⟨[], c, calls, rfl, ⟨row, hrow, rfl⟩, hloses⟩
    obtain ⟨row₁, hrow₁, hid⟩ := hse.keepsIds hs hmodel m hm row hrow hloses
    rw [← hid]
    rcases ih hrest hlater (hse.next hmodel hop) hrow₁ with hkept | ⟨done, c', rest, hcalls, hlost⟩
    · exact .inl hkept
    · exact .inr ⟨c :: done, c', rest, congrArg _ hcalls, hlost⟩

/-- A bulk update moves a category to another id. -/
theorem record_ids_stable_rekeyed :
    let se := Library.visit Library.catalogue
    let categories := Library.resource Library.category
    let bulk : Call := ⟨categories,
      .multiUpdate (.list [.int 5]) (.object [("id", .int 77), ("name", .text "solo")]), se.now⟩
    let st' := (Session.after [bulk] se).store
    (st'.rows Library.category).map (·.id) = [1, 2, 3, 4, 77] ∧
    ∃ row : Row, row.id = 5 ∧ categories.Rekeys [.int 5] [("id", .int 77), ("name", .text "solo")]
      Library.catalogue st' row := by
  intro se categories bulk st'
  have hids : (st'.rows Library.category).map (·.id) = [1, 2, 3, 4, 77] := by decide +kernel
  refine ⟨hids, ?_⟩
  obtain ⟨row, hrow, hid⟩ : ∃ row ∈ se.store.rows Library.category, row.id = 5 := by decide +kernel
  have hcalls (c : Call) (hc : c ∈ [bulk]) :
      c.resource.schema = Library.schema ∧ c.resource.model ∈ Library.schema.models :=
    List.mem_singleton.1 hc ▸ ⟨rfl, by decide⟩
  have hops (c : Call) (hc : c ∈ [bulk]) : c.operation.LoadsNothing :=
    List.mem_singleton.1 hc ▸ trivial
  rcases record_ids_stable Library.keyed hcalls hops (Session.settled_of_empty rfl rfl rfl)
    (by decide) hrow with ⟨row', hrow', hid'⟩ | ⟨done, c, rest, hsplit, -, hlost⟩
  · have hmem : row'.id ∈ (st'.rows Library.category).map (·.id) := List.mem_map_of_mem hrow'
    rw [hids, hid', hid] at hmem
    exact absurd hmem (by decide)
  · obtain rfl : done = [] := by
      cases done with
      | nil => rfl
      | cons d done => exact absurd (List.cons.inj hsplit).2 (by simp)
    obtain ⟨rfl, -⟩ := List.cons.inj hsplit
    generalize href : Ref.stored Library.category.name row.id = ref at hlost
    cases hlost with
    | rekeyed hvs hes hmoves =>
      cases hvs
      cases hes
      exact ⟨_, (Ref.stored.inj href).2.symm.trans hid, hmoves⟩

/-- An update gives no record another id. -/
example :
    let payload : Value := .object [("id", .int 77), ("name", .text "solo")]
    let o := (Library.resource Library.category).update (.int 5) payload
      (Library.visit Library.catalogue)
    (o.session.store.rows Library.category).map (·.id) = [1, 2, 3, 4, 5] := by
  decide +kernel

end Records
