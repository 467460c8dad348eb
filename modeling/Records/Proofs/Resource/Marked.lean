import Records.Proofs.Resource.Lookup
import Records.Proofs.Staging.Free

/-!
Removing a record that can be trashed, and restoring it. Only its row changes: the mark that it is
trashed is set, and taken away again, and the row is stamped each time.
-/
namespace Records

open Records.Calendar (Moment)
open Records.Filter (Predicate)

namespace Model
variable {m : Model} {id : Value} {n n' : Int}

/-- A value stands for an id: it can be looked up, and is equal to it there. -/
structure Identifies (m : Model) (id : Value) (n : Int) : Prop where
  bindable : ∀ p ∈ Predicate.allParameters [exactly m idColumn id], p.Bindable
  finds : m.Finds idColumn id (.integer n)

theorem Identifies.unique (h : m.Identifies id n) (h' : m.Finds idColumn id (.integer n')) :
    n' = n := h.finds.unique h'

theorem identifies_int (h : fitsInteger n = true) : m.Identifies (.int n) n := by
  refine ⟨fun p hp => ?_, ?_⟩
  · rw [List.mem_singleton.1 hp]
    exact Parameter.bindable_int.2 h
  · rw [← Row.cell_id ⟨n, []⟩]
    have hholds : (exactly m idColumn (.int n)).holds .empty ⟨n, []⟩ = true := by
      rw [exactly, if_neg nofun, holds_compare_int rfl, Row.cell_id]
      exact ⟨h, Cell.equals_integer n⟩
    exact holds_exactly_iff.1 hholds

/-- The mark of a trashed row is all that is given for it. -/
theorem fillValues_mark (h : deletedAt ∈ m.columns) (v : Value) :
    m.fillValues [(deletedAt.name, v)] = [(deletedAt.name, v)] := by
  have hcolumn : m.hasColumn deletedAt.name = true := by
    unfold hasColumn column?
    rw [List.find?_isSome]
    exact ⟨_, h, beq_self_eq_true _⟩
  unfold fillValues columnValues
  rw [List.filter_singleton]
  simp only [hcolumn]
  rfl

end Model

section Mark
variable {s : Schema} {m : Model} {now : Moment} {st : Store} {row : Row} {v : Value}
  (hs : s.Stamped) (hm : m ∈ s.models) (hmark : deletedAt ∈ m.columns)
include hs hm hmark

theorem Model.changedValues_mark (hnew : (row.value deletedAt).same v = false) :
    ∀ a, a ∈ m.changedValues row [(deletedAt.name, v)] ↔ a = (deletedAt, v) := by
  rintro ⟨c, v'⟩
  rw [mem_changedValues]
  constructor
  · rintro ⟨hc, hv, -⟩
    obtain ⟨hname, rfl⟩ := Prod.mk.inj (List.mem_singleton.1 (Value.mem_of_lookup? hv))
    rw [eq_of_column_name (hs.names m hm) hmark hc hname]
  · intro h
    obtain ⟨rfl, rfl⟩ := Prod.mk.inj h
    exact ⟨hmark, by simp [Value.lookup?], hnew⟩

/-- A new mark is written to a row, and nothing else but the stamp. -/
theorem Store.rewrite_mark (now : Moment) (hst : st.Lawful s) (hrow : row ∈ st.rows m)
    (hnew : (row.value deletedAt).same v = false) {cell : Cell} (hv : deletedAt.Keeps v cell) :
    ∃ row', st.rewrite s m now row [(deletedAt.name, v)] = .ok (st.withRow m row') ∧
      m.Varies [deletedAt, updatedAt] row row' ∧ row'.cell deletedAt.name = cell ∧
      (updatedAt ∈ m.columns → updatedAt.Keeps (.moment now) (row'.cell updatedAt.name)) ∧
      (st.withRow m row').Lawful s := by
  have hchanged := Model.changedValues_mark hs hm hmark hnew
  have hmarkId : deletedAt.name ≠ idColumn.name := by decide
  have hstampId : updatedAt.name ≠ idColumn.name := by decide
  have hspares : SparesId [(deletedAt.name, v)] := by
    intro e he
    rw [List.mem_singleton.1 he]
    exact hmarkId
  have hfree : (m.changedValues row [(deletedAt.name, v)]).Free := by
    intro a ha
    rw [(hchanged a).1 ha]
    exact ⟨cell, hv, nofun, .inr ⟨rfl, rfl⟩⟩
  have hsuits : (m.updateValues now (m.changedValues row [(deletedAt.name, v)])).Suits m :=
    suits_update hs hm hspares
  obtain ⟨row', hrewrites, hassigned, hamends⟩ := assign_free hm (hs.names m hm) hst hsuits
    (Model.free_updateValues hs hm hfree) hrow
  have hcomplete := hst.complete m hm row hrow
  refine ⟨row', ?_, ⟨hrewrites.id_eq, fun c hc hspared => ?_⟩, ?_, fun hstamp => ?_, hamends.lawful⟩
  · unfold rewrite
    rw [if_neg fun hnone => List.not_mem_nil (hnone ▸ (hchanged _).2 rfl)]
    exact hassigned
  · simp only [List.mem_cons, List.not_mem_nil, or_false, not_or] at hspared
    refine frame_of_rewrites hs hm hc hspared.2 hrewrites fun v' hv' => hspared.1 ?_
    exact congrArg Prod.fst ((hchanged _).1 hv')
  · refine Column.Keeps.eq (hrewrites.keeps (deletedAt, v) ?_ (hcomplete _ hmark hmarkId)) hv
    exact Model.mem_updateValues_of_changed (hs.names m hm) ((hchanged _).2 rfl)
  · refine hrewrites.keeps (updatedAt, .moment now) ?_ (hcomplete _ hstamp hstampId)
    refine List.mem_filterMap.2 ⟨updatedAt, hstamp, ?_⟩
    rw [List.find?_eq_none.2]
    · rfl
    · intro a ha hname
      rw [(hchanged a).1 ha] at hname
      exact absurd (eq_of_beq hname) (by decide : deletedAt.name ≠ updatedAt.name)

end Mark

namespace Resource
variable {r : Resource} {st st' : Store} {now : Moment} {se se' : Session} {row : Row} {id : Value}
  {n : Int} {withTrashed : Bool}

/-- The query for a record by its id. -/
def byId (r : Resource) (id : Value) (withTrashed : Bool) : Query :=
  (Query.base r.model withTrashed).when [exactly r.model idColumn id]

theorem mem_rows_byId : row ∈ (r.byId id withTrashed).rows st ↔ row ∈ st.rows r.model ∧
    (withTrashed = true ∨ r.model.isLive row = true) ∧
      r.model.Finds idColumn id (.integer row.id) := by
  change row ∈ (st.rows r.model).filter _ ↔ _
  rw [List.mem_filter]
  refine and_congr_right fun _ => ?_
  change Predicate.allHold st row ((if withTrashed then [] else notTrashed r.model) ++
    [exactly r.model idColumn id]) = true ↔ _
  have hexactly : Predicate.allHold st row [exactly r.model idColumn id] = true ↔
      r.model.Finds idColumn id (.integer row.id) := by
    rw [Predicate.allHold_eq_all, List.all_cons, List.all_nil, Bool.and_true,
      Model.holds_exactly_iff, Row.cell_id]
  rw [Predicate.allHold_append, Bool.and_eq_true, hexactly]
  refine and_congr_left fun _ => ?_
  cases withTrashed with
  | true => exact iff_of_true rfl (.inl rfl)
  | false => rw [if_neg (by decide), allHold_notTrashed]; simp

theorem bindable_byId (h : r.model.Identifies id n) :
    ∀ p ∈ (r.byId id withTrashed).parameters ++ Query.windowParameters none, p.Bindable := by
  intro p hp
  change p ∈ Predicate.allParameters ((if withTrashed then [] else notTrashed r.model) ++
    [exactly r.model idColumn id]) ++ [] at hp
  rw [List.append_nil, Predicate.allParameters_eq_flatMap, List.flatMap_append] at hp
  rcases List.mem_append.1 hp with hp | hp
  · unfold notTrashed at hp
    split at hp
    · cases hp
    · split at hp <;> cases hp
  · rw [← Predicate.allParameters_eq_flatMap] at hp
    exact h.bindable p hp

section Found
variable (hse : se.Ready st now)
include hse

theorem result_findById (h : r.model.Identifies id n) :
    (r.findById id [] withTrashed se).result =
      .ok (((r.byId id withTrashed).rows st).head?.map r.refOf) := by
  rw [result_findById_ok, hse.store_eq]
  exact ⟨hse.active, Query.run_runs.2 (bindable_byId h), rfl⟩

theorem findById_of_mem (withTrashed : Bool) (h : r.model.Identifies id row.id) (hrow : row ∈ st.rows r.model)
    (hseen : withTrashed = true ∨ r.model.isLive row = true) :
    (r.findById id [] withTrashed se).result = .ok (some (r.refOf row)) := by
  have hmem : row ∈ (r.byId id withTrashed).rows st := mem_rows_byId.2 ⟨hrow, hseen, h.finds⟩
  rw [result_findById hse h]
  cases hrows : (r.byId id withTrashed).rows st with
  | nil => exact absurd (hrows ▸ hmem) List.not_mem_nil
  | cons first rest =>
    obtain ⟨hfirst, -, hfinds⟩ := mem_rows_byId.1
      (hrows ▸ List.mem_cons_self .. : first ∈ (r.byId id withTrashed).rows st)
    rw [Store.eq_of_id hrow hfirst (h.unique hfinds)]
    rfl

theorem findById_of_trashed (h : r.model.Identifies id n)
    (htrashed : ∀ row ∈ st.rows r.model, row.id = n → r.model.isLive row = false) :
    (r.findById id [] false se).result = .ok none := by
  have hnone : (r.byId id false).rows st = [] := by
    refine List.eq_nil_iff_forall_not_mem.2 fun row hrow => ?_
    obtain ⟨hrow, hlive, hfinds⟩ := mem_rows_byId.1 hrow
    rw [htrashed row hrow (h.unique hfinds)] at hlive
    simp at hlive
  rw [result_findById hse h, hnone]
  rfl

theorem destroy_of_none (hfound : (r.findById id [] false se).result = .ok none) :
    (r.destroy id se).result = .error (.problem (Problem.notFound r.model.name id).1) ∧
      (r.destroy id se).session.store = st := by
  unfold destroy
  rw [Action.bind_apply_of_ok hfound]
  exact ⟨rfl, (ready_findById hse id false).store_eq⟩

/-- Records that cannot be trashed cannot be restored, whether they are there or not. -/
theorem restore_of_hard (hhard : r.model.softDeletes = false) (h : r.model.Identifies id n) :
    (r.restore id se).result = .error (.problem (Problem.notFound r.model.name id).1) ∧
      (r.restore id se).session.store = st := by
  unfold restore
  rw [Action.bind_apply_of_ok (result_findById hse h), hhard]
  refine ⟨?_, ?_⟩
  · cases ((r.byId id true).rows st).head?.map r.refOf <;> rfl
  · have hstore := (ready_findById (r := r) hse id true).store_eq
    cases ((r.byId id true).rows st).head?.map r.refOf <;> exact hstore

end Found

end Resource

/-- The mark of a row is replaced, and the row is stamped. -/
structure Model.Marks (m : Model) (now : Moment) (mark : Value) (row row' : Row) : Prop where
  varies : m.Varies [deletedAt, updatedAt] row row'
  marked : deletedAt.Keeps mark (row'.cell deletedAt.name)
  stamped : updatedAt ∈ m.columns → updatedAt.Keeps (.moment now) (row'.cell updatedAt.name)

namespace Model
variable {m : Model} {now now' t : Moment} {row row' row'' : Row}

theorem isLive_soft (hsoft : m.softDeletes = true) :
    m.isLive row = true ↔ row.cell deletedAt.name = .null := by
  unfold isLive
  rw [hsoft]
  exact beq_iff_eq

theorem deletedAt_keeps_moment (t : Moment) :
    deletedAt.Keeps (.moment t) (.text t.stored) :=
  ⟨.text t.stored, rfl, (Cell.kept_text (Cell.number?_of_colon t.colon_mem_stored)).symm⟩

theorem Marks.trashed (hsoft : m.softDeletes = true) (h : m.Marks now (.moment t) row row') :
    m.isLive row' = false := by
  rw [Bool.eq_false_iff, ne_eq, isLive_soft hsoft, h.marked.eq (deletedAt_keeps_moment t)]
  exact nofun

/-- What is restored is as it was before it was trashed, but for the stamp. -/
theorem Marks.restored (hsoft : m.softDeletes = true) (hlive : m.isLive row = true)
    (h : m.Marks now (.moment t) row row') (h' : m.Marks now' .null row' row'') :
    m.Varies [updatedAt] row row'' := by
  refine ⟨h'.varies.id_eq.trans h.varies.id_eq, fun c hc hspared => ?_⟩
  by_cases hmark : c = deletedAt
  · have hnull : deletedAt.Keeps .null .null := ⟨.null, rfl, rfl⟩
    rw [hmark, h'.marked.eq hnull, (isLive_soft hsoft).1 hlive]
  · have hother : c ∉ [deletedAt, updatedAt] := by simpa [hmark] using hspared
    rw [h'.varies.frame c hc hother, h.varies.frame c hc hother]

end Model

namespace Resource
variable {r : Resource} {st : Store} {now : Moment} {se : Session} {row : Row} {id : Value}

theorem delete_soft (hsoft : r.model.softDeletes = true) (ref : Ref) (se : Session) :
    r.delete ref se =
      (do let _ ← r.commitValues ref [(deletedAt.name, .moment se.now)] : Action Unit) se := by
  unfold delete
  rw [hsoft]
  rfl

/-- To restore a record is to commit the value of its mark. -/
theorem restore_of_committed (hsoft : r.model.softDeletes = true) {ref ref' : Ref}
    (hfound : (r.findById id [] true se).result = .ok (some ref))
    (hcommitted : (r.commitValues ref [(deletedAt.name, .null)]
      (r.findById id [] true se).session).result = .ok ref') :
    (r.restore id se).result = .ok () ∧ (r.restore id se).session.store =
      (r.commitValues ref [(deletedAt.name, .null)]
        (r.findById id [] true se).session).session.store := by
  have hunmarked : (r.unmark (some ref) (r.findById id [] true se).session).result = .ok () :=
    Action.result_bind_ok.2 ⟨_, hcommitted, rfl⟩
  unfold restore
  rw [Action.bind_apply_of_ok hfound, hsoft]
  refine ⟨Action.result_bind_ok.2 ⟨(), hunmarked, rfl⟩, ?_⟩
  dsimp only
  rw [Action.session_bind_of_ok hunmarked]
  change (r.unmark (some ref) (r.findById id [] true se).session).session.store = _
  unfold unmark
  rw [Action.session_bind_of_ok hcommitted]
  rfl

section Soft
variable (hs : r.schema.Stamped) (hm : r.model ∈ r.schema.models)
  (hsoft : r.model.softDeletes = true) (hst : st.Lawful r.schema) (hse : se.Ready st now)
  (hrow : row ∈ st.rows r.model)
include hs hm hsoft hst hse hrow

/-- A new mark of a record is committed. -/
theorem commitValues_mark {v : Value} {cell : Cell} (hnew : (row.value deletedAt).same v = false)
    (hv : deletedAt.Keeps v cell) :
    (r.commitValues (r.refOf row) [(deletedAt.name, v)] se).result = .ok (r.refOf row) ∧
      ∃ row', r.model.Marks now v row row' ∧ (st.withRow r.model row').Lawful r.schema ∧
        (r.commitValues (r.refOf row) [(deletedAt.name, v)] se).session.Ready
          (st.withRow r.model row') now := by
  have hmark := hs.marks _ hm hsoft
  obtain ⟨row', hrewritten, hvaries, hcell, hstamp, hlawful⟩ :=
    Store.rewrite_mark hs hm hmark now hst hrow hnew hv
  rw [← Model.fillValues_mark hmark] at hrewritten
  obtain ⟨hresult, hready⟩ := commitValues_of_ok hse hm hrow hs hrewritten
  exact ⟨hresult, row', ⟨hvaries, hcell ▸ hv, hstamp⟩, hlawful, hready⟩

variable (hid : r.model.Identifies id row.id)
include hid

/-- A record that can be trashed is trashed when it is removed. -/
theorem destroy_soft (hlive : r.model.isLive row = true) :
    (r.destroy id se).result = .ok () ∧ ∃ row', r.model.Marks now (.moment now) row row' ∧
      (st.withRow r.model row').Lawful r.schema ∧
      (r.destroy id se).session.Ready (st.withRow r.model row') now := by
  have hfound := findById_of_mem hse false hid hrow (.inr hlive)
  have hready := ready_findById (r := r) hse id false
  have hnew : (row.value deletedAt).same (.moment now) = false := by
    unfold Row.value
    rw [(Model.isLive_soft hsoft).1 hlive]
    rfl
  obtain ⟨hresult, row', hmarks, hlawful, hafter⟩ := commitValues_mark hs hm hsoft hst hready hrow
    hnew (Model.deletedAt_keeps_moment now)
  unfold destroy
  rw [Action.bind_apply_of_ok hfound]
  have hdeleted : (r.delete (r.refOf row) (r.findById id [] false se).session).result = .ok () := by
    rw [delete_soft hsoft, hready.now_eq]
    exact Action.result_bind_ok.2 ⟨_, hresult, rfl⟩
  refine ⟨Action.result_bind_ok.2 ⟨(), hdeleted, rfl⟩, row', hmarks, hlawful, ?_⟩
  dsimp only
  rw [Action.session_bind_of_ok hdeleted]
  change (r.delete (r.refOf row) (r.findById id [] false se).session).session.Ready _ _
  rw [delete_soft hsoft, hready.now_eq, Action.session_bind_of_ok hresult]
  exact hafter

/-- A trashed record is restored. -/
theorem restore_trashed (htrashed : r.model.isLive row = false) :
    (r.restore id se).result = .ok () ∧ ∃ row', r.model.Marks now .null row row' ∧
      (st.withRow r.model row').Lawful r.schema ∧
      (r.restore id se).session.store = st.withRow r.model row' := by
  have hfound := findById_of_mem hse true hid hrow (.inl rfl)
  have hready := ready_findById (r := r) hse id true
  have hnew : (row.value deletedAt).same .null = false := by
    rw [Bool.eq_false_iff, ne_eq, Value.same_null, Row.value, Cell.decode_eq_null,
      ← Model.isLive_soft hsoft, htrashed]
    exact nofun
  obtain ⟨hresult, row', hmarks, hlawful, hafter⟩ := commitValues_mark hs hm hsoft hst hready hrow
    hnew ⟨.null, rfl, rfl⟩
  obtain ⟨hrestored, hstore⟩ := restore_of_committed hsoft hfound hresult
  exact ⟨hrestored, row', hmarks, hlawful, hstore.trans hafter.store_eq⟩

omit hst in
/-- To restore a record that is not trashed changes nothing. -/
theorem restore_live (hlive : r.model.isLive row = true) :
    (r.restore id se).result = .ok () ∧ (r.restore id se).session.store = st := by
  have hfound := findById_of_mem hse true hid hrow (.inl rfl)
  have hready := ready_findById (r := r) hse id true
  have hmark := hs.marks _ hm hsoft
  have hsame : r.model.changedValues row [(deletedAt.name, .null)] = [] := by
    refine List.eq_nil_iff_forall_not_mem.2 fun ⟨c, v⟩ hcv => ?_
    obtain ⟨hc, hv, hdiffers⟩ := Model.mem_changedValues.1 hcv
    obtain ⟨hname, rfl⟩ := Prod.mk.inj (List.mem_singleton.1 (Value.mem_of_lookup? hv))
    rw [Row.value, hname, (Model.isLive_soft hsoft).1 hlive] at hdiffers
    cases hdiffers
  have hrewritten : st.rewrite r.schema r.model now row
      (r.model.fillValues [(deletedAt.name, .null)]) = .ok st := by
    rw [Model.fillValues_mark hmark]
    exact if_pos hsame
  obtain ⟨hresult, hafter⟩ := commitValues_of_ok hready hm hrow hs hrewritten
  obtain ⟨hrestored, hstore⟩ := restore_of_committed hsoft hfound hresult
  exact ⟨hrestored, hstore.trans hafter.store_eq⟩

end Soft

end Resource

end Records
