import Records.Proofs.Resource.Identity
import Records.Proofs.Resource.Marked
import Records.Proofs.Resource.RoundTrip
import Records.Proofs.Staging.Deleted

/-!
What it does to a store to remove a record and to restore it. A record that can be trashed is only
marked, and unmarked again; another one is gone, with all that it owns however deep, and the records
that only link to what is gone lose the link. Nothing else changes.
-/
namespace Records

open Records.Calendar (Moment)

namespace Resource
variable {r : Resource} {st : Store} {now : Moment} {se : Session} {row : Row} {id : Value}

section Hard
variable (hs : r.schema.Cascading) (hm : r.model ∈ r.schema.models)
  (hhard : r.model.softDeletes = false) (hst : st.Lawful r.schema) (hrow : row ∈ st.rows r.model)
  (hone : r.schema.LeadsSingly st r.model row)
include hs hm hhard hst hrow hone

/-- The removal of a record that cannot be trashed is staged, and then committed. -/
theorem delete_hard (hse : se.Ready st now)
    (hunloaded : ∀ ref name, se.records.related? ref name = none) :
    (r.delete (r.refOf row) se).result = .ok () ∧
      (r.delete (r.refOf row) se).session.isClean = true ∧
      r.schema.Deletes st r.model row (r.delete (r.refOf row) se).session.store := by
  obtain ⟨w, hflush, hdeletes⟩ := Staging.flush_removing hs hm hrow hone hst now
  rw [← Staging.flush_of_unloaded hunloaded] at hflush
  rw [← hse.store_eq, ← hse.now_eq] at hflush
  have hstaged : se.staged.remove (r.refOf row) = Staging.removing r.model row := by
    rw [hse.staged]
    rfl
  have hcommit := Action.commit_of_ok { se with staged := se.staged.remove (r.refOf row) }
    hse.active (hstaged ▸ hflush)
  have hdelete : r.delete (r.refOf row) se =
      (Action.commit r.schema >>= fun _ => (Pure.pure () : Action Unit))
        { se with staged := se.staged.remove (r.refOf row) } := by
    unfold delete
    rw [hhard]
    rfl
  rw [hdelete, Action.bind_apply_of_ok (congrArg Outcome.result hcommit), hcommit]
  exact ⟨rfl, (Session.ready_committed _ w.store).isClean, hdeletes⟩

theorem destroy_hard (hfresh : se.IsFresh st) (hactive : se.inactive = false)
    (hid : r.model.Identifies id row.id) :
    (r.destroy id se).result = .ok () ∧ (r.destroy id se).session.isClean = true ∧
      r.schema.Deletes st r.model row (r.destroy id se).session.store := by
  obtain rfl := hfresh.store_eq
  have hse : se.Ready se.store se.now := ⟨rfl, rfl, hfresh.staged, hactive⟩
  have hlive : r.model.isLive row = true := by
    unfold Model.isLive
    rw [hhard]
    rfl
  have hfound := findById_of_mem hse false hid hrow (.inr hlive)
  obtain ⟨row', -, -, -, hat⟩ :=
    (leaves_findById_at hm hfresh hactive id .null).ok rfl hfound _ rfl
  obtain ⟨hdeleted, hafter⟩ := delete_hard hs hm hhard hst hrow hone
    (ready_findById (r := r) hse id false) hat.loads_nothing
  unfold destroy
  rw [Action.bind_apply_of_ok hfound]
  refine ⟨Action.result_bind_ok.2 ⟨(), hdeleted, rfl⟩, ?_⟩
  dsimp only
  rw [Action.session_bind_of_ok hdeleted]
  exact hafter

end Hard

/-- Removing a record that is not trashed, by an id that stands for it. If it can be trashed, only
its mark changes, and its stamp; it cannot be removed again, and once restored it is as it was but
for the stamp. If it cannot be trashed, it goes with all that it owns, trashed or not, and the keys
of the rows that only link to what goes are null; it cannot be restored. No other row changes. -/
theorem destroy_restore_exact (hs : r.schema.Cascading) (hm : r.model ∈ r.schema.models)
    (hst : st.Lawful r.schema) (hrow : row ∈ st.rows r.model) (hlive : r.model.isLive row = true)
    (hid : r.model.Identifies id row.id) (hfresh : se.IsFresh st)
    (hactive : se.inactive = false) :
    (r.model.softDeletes = true →
      (r.destroy id se).result = .ok () ∧ (r.destroy id se).session.isClean = true ∧
      (∃ row', r.model.Marks se.now (.moment se.now) row row' ∧
        (r.destroy id se).session.store = st.withRow r.model row' ∧
        ∀ se' : Session, se'.isClean = true → se'.store = st.withRow r.model row' →
          (r.destroy id se').result = .error (.problem (Problem.notFound r.model.name id).1) ∧
          (r.destroy id se').session.store = se'.store ∧
          (r.restore id se').result = .ok () ∧
          ∃ row'', r.model.Varies [updatedAt] row row'' ∧
            (r.restore id se').session.store = st.withRow r.model row'') ∧
      ∀ se' : Session, se'.isClean = true → se'.store = st →
        (r.restore id se').result = .ok () ∧ (r.restore id se').session.store = st) ∧
    (r.model.softDeletes = false →
      (r.schema.LeadsSingly st r.model row → (r.destroy id se).result = .ok () ∧
        (r.destroy id se).session.isClean = true ∧
        r.schema.Deletes st r.model row (r.destroy id se).session.store) ∧
      ∀ se' : Session, se'.isClean = true →
        (r.restore id se').result = .error (.problem (Problem.notFound r.model.name id).1) ∧
        (r.restore id se').session.store = se'.store) := by
  have hse : se.Ready st se.now := ⟨hfresh.store_eq, rfl, hfresh.staged, hactive⟩
  have hclean {st' : Store} {se' : Session} (h : se'.isClean = true) (hstore : se'.store = st') :
      se'.Ready st' se'.now := hstore ▸ Session.ready_of_isClean h
  refine ⟨fun hsoft => ?_, fun hhard => ⟨fun hone => ?_, fun se' hse' => ?_⟩⟩
  · obtain ⟨hdestroyed, row', hmarks, hlawful, hafter⟩ :=
      destroy_soft hs.toStamped hm hsoft hst hse hrow hid hlive
    refine ⟨hdestroyed, hafter.isClean, ⟨row', hmarks, hafter.store_eq, fun se' hse' hstore' => ?_⟩,
      fun se' hse' hstore' => ?_⟩
    · have hready := hclean hse' hstore'
      have hin : row' ∈ (st.withRow r.model row').rows r.model := Store.mem_rows_withRow.2 (.inl rfl)
      have htrashed := hmarks.trashed hsoft
      have hid' : r.model.Identifies id row'.id := hmarks.varies.id_eq ▸ hid
      have hnone := findById_of_trashed hready hid' fun x hx hsame =>
        Store.eq_of_id hin hx hsame ▸ htrashed
      obtain ⟨hagain, hkept⟩ := destroy_of_none hready hnone
      obtain ⟨hrestored, row'', hmarks', -, hback⟩ :=
        restore_trashed hs.toStamped hm hsoft hlawful hready hin hid' htrashed
      refine ⟨hagain, hkept.trans hstore'.symm, hrestored, row'',
        hmarks.restored hsoft hlive hmarks', ?_⟩
      rw [hback, Store.withRow_withRow hmarks'.varies.id_eq]
    · exact restore_live hs.toStamped hm hsoft (hclean hse' hstore') hrow hid hlive
  · exact destroy_hard hs hm hhard hst hrow hone hfresh hactive hid
  · exact restore_of_hard (hclean hse' rfl) hhard hid

end Resource

namespace Library

theorem cascading : schema.Cascading where
  toRegular := regular
  stamps := by decide +kernel
  covered := by decide +kernel
  optional := by decide +kernel
  sole := by decide +kernel
  deeper := by decide +kernel

/-- The only singular relation that leads down is that of the authors, who can be trashed, and whom
no record owns. -/
theorem leadsSingly {m : Model} (hm : m ∈ schema.models) (hhard : m.softDeletes = false)
    (st : Store) (row : Row) : schema.LeadsSingly st m row := by
  have hother : ∀ m ∈ schema.models, m.softDeletes = false → m ≠ author := by decide +kernel
  exact Schema.leadsSingly_of_plural (· ≠ author) (hother m hm hhard) (by decide +kernel)

theorem lawful_catalogue : catalogue.Lawful schema where
  complete := by unfold Store.Complete; decide +kernel
  checked m hm row hrow := by
    have hall : ∀ m ∈ schema.models, ∀ row ∈ catalogue.rows m, row.lacking? m = none ∧
        row.clash? m ((catalogue.table m.table).erase row.id).rows = none := by decide +kernel
    exact Row.check_ok_iff.2 (hall m hm row hrow)

end Library

namespace Resource

/-- An author is trashed. A venue goes with its event slots, one of them trashed, and the first
category leaves two others without a parent. -/
theorem destroy_restore_exact_catalogue :
    let st := Library.catalogue
    let se := Library.visit st
    let authors := Library.resource Library.author
    let venues := Library.resource Library.venue
    let categories := Library.resource Library.category
    (∃ ann ∈ st.rows Library.author, ann.id = 1 ∧ (authors.destroy (.int 1) se).result = .ok () ∧
      ∃ row, Library.author.Marks se.now (.moment se.now) ann row ∧
        (authors.destroy (.int 1) se).session.store = st.withRow Library.author row) ∧
    (∃ hall ∈ st.rows Library.venue, hall.id = 1 ∧ (venues.destroy (.int 1) se).result = .ok () ∧
      Library.schema.Deletes st Library.venue hall (venues.destroy (.int 1) se).session.store) ∧
    ∃ root ∈ st.rows Library.category, root.id = 1 ∧
      (categories.destroy (.int 1) se).result = .ok () ∧
      Library.schema.Deletes st Library.category root
        (categories.destroy (.int 1) se).session.store := by
  intro st se authors venues categories
  have hfirst (m : Model) (hfound : ((st.table m.table).find? 1).isSome = true) :
      ∃ row ∈ st.rows m, row.id = 1 := by
    obtain ⟨row, hrow⟩ := Option.isSome_iff_exists.1 hfound
    exact ⟨row, Table.mem_of_find? hrow⟩
  have hlive : ∀ m ∈ Library.schema.models, ∀ row ∈ st.rows m, row.id = 1 →
      m.isLive row = true := by decide +kernel
  have hfresh : se.IsFresh st := ⟨rfl, rfl, rfl⟩
  have hactive : se.inactive = false := rfl
  have hidentifies (m : Model) {row : Row} (hid : row.id = 1) : m.Identifies (.int 1) row.id := by
    rw [hid]
    exact Model.identifies_int rfl
  have hexact (m : Model) (hm : m ∈ Library.schema.models) {row : Row} (hrow : row ∈ st.rows m)
      (hid : row.id = 1) := destroy_restore_exact (r := Library.resource m) Library.cascading hm
    Library.lawful_catalogue hrow (hlive m hm row hrow hid) (hidentifies m hid) hfresh hactive
  obtain ⟨ann, hann, hannId⟩ := hfirst Library.author (by decide +kernel)
  obtain ⟨hall, hhall, hhallId⟩ := hfirst Library.venue (by decide +kernel)
  obtain ⟨root, hroot, hrootId⟩ := hfirst Library.category (by decide +kernel)
  refine ⟨⟨ann, hann, hannId, ?_⟩, ⟨hall, hhall, hhallId, ?_⟩, ⟨root, hroot, hrootId, ?_⟩⟩
  · obtain ⟨hresult, -, ⟨row, hmarks, hstore, -⟩, -⟩ :=
      (hexact Library.author (by decide) hann hannId).1 rfl
    exact ⟨hresult, row, hmarks, hstore⟩
  · obtain ⟨hresult, -, hdeletes⟩ := ((hexact Library.venue (by decide) hhall hhallId).2 rfl).1
      (Library.leadsSingly (by decide) rfl _ _)
    exact ⟨hresult, hdeletes⟩
  · obtain ⟨hresult, -, hdeletes⟩ := ((hexact Library.category (by decide) hroot hrootId).2 rfl).1
      (Library.leadsSingly (by decide) rfl _ _)
    exact ⟨hresult, hdeletes⟩

end Resource

end Records
