import Records.Proofs.Staging.Overwritten
import Records.Proofs.Store.Lawful

/-!
Writes that cannot fail. Where every value that is written is one that its column takes whatever the
rows are, each update goes through, and leaves a lawful store with rows under the same ids.
-/
namespace Records

open Records.Calendar (Moment)

/-- A walk gets through if each step does, from whatever the steps keep. -/
theorem foldlM_runs {α β ε : Type} {P : β → Prop} {step : β → α → Except ε β} {xs : List α}
    (h : ∀ x ∈ xs, ∀ b, P b → ∃ b', step b x = .ok b' ∧ P b') {b : β} (hb : P b) :
    ∃ b', xs.foldlM step b = .ok b' ∧ P b' := by
  induction xs generalizing b with
  | nil => exact ⟨b, rfl, hb⟩
  | cons x xs ih =>
    obtain ⟨next, hnext, hkept⟩ := h x (List.mem_cons_self ..) b hb
    obtain ⟨b', hrest, hb'⟩ := ih (fun y hy => h y (List.mem_cons_of_mem _ hy)) hkept
    exact ⟨b', by rw [List.foldlM_cons]; exact except_bind_ok.2 ⟨next, hnext, hrest⟩, hb'⟩

theorem mapM_runs {α β ε : Type} {f : α → Except ε β} {xs : List α}
    (h : ∀ x ∈ xs, ∃ y, f x = .ok y) : ∃ ys, xs.mapM f = .ok ys := by
  induction xs with
  | nil => exact ⟨[], rfl⟩
  | cons x xs ih =>
    obtain ⟨y, hy⟩ := h x (List.mem_cons_self ..)
    obtain ⟨ys, hys⟩ := ih fun z hz => h z (List.mem_cons_of_mem _ hz)
    exact ⟨y :: ys, mapM_cons_ok.2 ⟨y, ys, hy, hys, rfl⟩⟩

theorem Table.ids_insert {t : Table} {row row' : Row} (hrow : row ∈ t.rows)
    (hid : row'.id = row.id) : (t.insert row').rows.map (·.id) = t.rows.map (·.id) := by
  have hsorted : ∀ {rs : List Row}, rs.Pairwise (fun a b => a.id < b.id) → row ∈ rs →
      (Table.insertRow row' rs).map (·.id) = rs.map (·.id) := by
    intro rs hrs hmem
    induction rs with
    | nil => cases hmem
    | cons r rs ih =>
      obtain ⟨hfirst, hrest⟩ := List.pairwise_cons.1 hrs
      unfold Table.insertRow
      rcases List.mem_cons.1 hmem with rfl | hmem
      · rw [if_neg (by omega), if_pos hid.symm]
        simp [hid]
      · have hlater := hfirst row hmem
        rw [if_neg (by omega), if_neg (by omega), List.map_cons, List.map_cons, ih hrest hmem]
  exact hsorted t.ascending hrow

/-- A lawful store with rows under the ids of another one. -/
structure Store.Amends (s : Schema) (st st' : Store) : Prop where
  lawful : st'.Lawful s
  ids : ∀ m ∈ s.models, (st'.rows m).map (·.id) = (st.rows m).map (·.id)

namespace Store.Amends
variable {s : Schema} {st st' st'' : Store} {m : Model} {row row' : Row}

theorem trans (h : st.Amends s st') (h' : st'.Amends s st'') : st.Amends s st'' :=
  ⟨h'.lawful, fun m hm => (h'.ids m hm).trans (h.ids m hm)⟩

theorem exists_row (h : st.Amends s st') (hm : m ∈ s.models) (hrow : row' ∈ st'.rows m) :
    ∃ row ∈ st.rows m, row.id = row'.id := by
  have hid : row'.id ∈ (st'.rows m).map (·.id) := List.mem_map_of_mem hrow
  rw [h.ids m hm] at hid
  exact List.mem_map.1 hid

theorem withRow (hst : st.Lawful s) (hm : m ∈ s.models) (hrow : row ∈ st.rows m)
    (h : m.Eases row row') (hkeys : row'.cells.map (·.1) = row.cells.map (·.1)) :
    st.Amends s (st.withRow m row') := by
  refine ⟨hst.withRow hm hrow h hkeys, fun m' hm' => ?_⟩
  by_cases htable : m'.table = m.table
  · obtain rfl := Schema.eq_of_table hm' hm htable
    unfold rows
    rw [table_withRow]
    exact Table.ids_insert hrow h.id_eq
  · rw [rows_withRow_of_ne htable]

end Store.Amends

namespace Assigned
variable {as : Assigned} {row : Row}

/-- Values that are kept, each as a cell that its column takes whatever the rows are. -/
def Free (as : Assigned) : Prop := ∀ a ∈ as, ∃ cell, a.1.Keeps a.2 cell ∧ a.1.Admits cell

theorem Free.storable (h : as.Free) : as.Storable := fun a ha => (h a ha).imp fun _ h => h.1

theorem Free.fits (h : as.Free) (row : Row) : as.Fits row := by
  intro a ha _ cell hkeeps
  obtain ⟨cell', hkeeps', hadmits⟩ := h a ha
  exact .inl (hkeeps.eq hkeeps' ▸ hadmits)

end Assigned

section Updates
variable {s : Schema} {m : Model} {now : Moment} {row : Row} (hs : s.Stamped) (hm : m ∈ s.models)
include hs hm

/-- The stamp is free. -/
theorem Model.free_updateValues {values : List (String × Value)}
    (h : (m.changedValues row values).Free) :
    (m.updateValues now (m.changedValues row values)).Free := by
  intro a ha
  rcases updateValues_cases ha with hchanged | ⟨hc, hrefreshed, hnow, -⟩
  · exact h a hchanged
  · obtain ⟨cell, hkeeps⟩ := updatedAt_keeps_now now
    rw [hs.stamps m hm _ hc hrefreshed, hnow]
    exact ⟨cell, hkeeps, updatedAt_admits cell⟩

omit hs in
theorem Store.assign_free {st : Store} {as : Assigned} (hnames : (m.columns.map (·.name)).Nodup)
    (hst : st.Lawful s) (has : as.Suits m) (hfree : as.Free) (hrow : row ∈ st.rows m) :
    ∃ row', as.Rewrites row row' ∧ st.assign s m row as = .ok (st.withRow m row') ∧
      st.Amends s (st.withRow m row') := by
  obtain ⟨row', hrewrites, hassigned⟩ := assign_fits has hnames hfree.storable (hfree.fits row)
    (hst.checked m hm row hrow)
  exact ⟨row', hrewrites, hassigned,
    .withRow hst hm hrow (has.eases hnames (hfree.fits row) hrewrites) hrewrites.keys_eq⟩

end Updates

namespace Written
variable {s : Schema} {m : Model} {w : Written}

section Groups
variable (hnames : (m.columns.map (·.name)).Nodup) (hm : m ∈ s.models) (hst : w.store.Lawful s)
include hnames hm hst

theorem put_free (id : Int) {as forms : Assigned} (has : as.Suits m) (hfree : as.Free)
    (hforms : as.encode = .ok forms) :
    ∃ w', w.put s m (id, forms) = .ok w' ∧ w.store.Amends s w'.store := by
  unfold put
  cases hfound : (w.store.table m.table).find? id with
  | none =>
    obtain ⟨cells, hcells⟩ := hfree.storable.exists_cells
    rw [hforms] at hcells
    exact ⟨w, except_bind_ok.2 ⟨cells, hcells, rfl⟩, hst, fun _ _ => rfl⟩
  | some row =>
    obtain ⟨row', -, hassigned, hamends⟩ := Store.assign_free hm hnames hst has hfree
      (Table.mem_of_find? hfound).1
    obtain ⟨cells, hcells, hchanged⟩ := except_bind_ok.1 hassigned
    rw [hforms] at hcells
    exact ⟨_, except_bind_ok.2 ⟨cells, hcells, except_bind_ok.2 ⟨_, hchanged, rfl⟩⟩, hamends⟩

theorem update_free {group : List (Int × Assigned)}
    (hgroup : ∀ e ∈ group, e.2.Suits m ∧ e.2.Free) :
    ∃ w', w.update s m group = .ok w' ∧ w.store.Amends s w'.store := by
  have hencodes : ∀ e ∈ group, ∃ e' : Int × Assigned,
      (do return (e.1, ← e.2.encode) : Except WriteError (Int × Assigned)) = .ok e' := by
    intro e he
    obtain ⟨cells, hcells⟩ := (hgroup e he).2.storable.exists_cells
    obtain ⟨forms, hforms, -⟩ := except_bind_ok.1 hcells
    exact ⟨(e.1, forms), except_bind_ok.2 ⟨forms, hforms, rfl⟩⟩
  obtain ⟨encoded, hencoded⟩ := mapM_runs hencodes
  have hput : ∀ e' ∈ encoded, ∀ w₁ : Written, w.store.Amends s w₁.store →
      ∃ w₂, w₁.put s m e' = .ok w₂ ∧ w.store.Amends s w₂.store := by
    intro e' he' w₁ hw₁
    obtain ⟨e, he, hpair⟩ := exists_of_mem_mapM hencoded he'
    obtain ⟨-, hforms⟩ := encode_pair_ok hpair
    obtain ⟨w₂, hw₂, hamends⟩ :=
      put_free hnames hm hw₁.lawful e'.1 (hgroup e he).1 (hgroup e he).2 hforms
    exact ⟨w₂, hw₂, hw₁.trans hamends⟩
  obtain ⟨w', hw', hamends⟩ := foldlM_runs hput ⟨hst, fun _ _ => rfl⟩
  exact ⟨w', except_bind_ok.2 ⟨encoded, hencoded, hw'⟩, hamends⟩

end Groups

end Written

namespace Plan
variable {s : Schema} {p : Plan} {m : Model} {now : Moment} {w : Written}

/-- A plan that adds nothing, and edits columns with values that they take whatever the rows are. -/
structure Free (s : Schema) (p : Plan) : Prop where
  drafts : p.drafts = []
  given : ∀ e ∈ p.edits, ∀ m ∈ s.models, m.name = e.model.name → ∀ w, ∀ c ∈ m.columns, ∀ v,
    Value.lookup? c.name (p.given w m e) = some v → ∃ cell, c.Keeps v cell ∧ c.Admits cell

section Rounds
variable (hs : s.Stamped) (hp : p.Free s) (hspares : p.SparesIds) (hm : m ∈ s.models)
  (hst : w.store.Lawful s)
include hs hp hspares hm hst

theorem writeLevel_free (level : Nat) :
    ∃ w', p.writeLevel s now m w level = .ok w' ∧ w.store.Amends s w'.store := by
  have hupdates : ∀ a ∈ (p.editsAt m level).filterMap (p.update? now m w),
      a.2.Suits m ∧ a.2.Free := by
    intro a ha
    obtain ⟨e, he, ha⟩ := List.mem_filterMap.1 ha
    obtain ⟨hin, hname⟩ := mem_editsAt he
    obtain ⟨row, -, -, rfl⟩ := update?_eq_some.1 ha
    have hgiven : SparesId (p.given w m e) :=
      (hspares.edits e hin).merge (Written.sparesId_bondValues hspares.bonds w _)
    refine ⟨Model.suits_updateValues (hs.names m hm) (hs.stamps m hm) hgiven,
      Model.free_updateValues hs hm ?_⟩
    rintro ⟨c, v⟩ hcv
    obtain ⟨hc, hv, -⟩ := Model.mem_changedValues.1 hcv
    exact hp.given e hin m hm hname.symm w c hc v hv
  have hdrafts : p.draftsAt m level = [] := by
    unfold draftsAt
    rw [hp.drafts, List.filter_nil]
  have hgroups : ∀ group ∈ ((p.editsAt m level).filterMap (p.update? now m w)).splitBy fun a b =>
      a.2.map (·.1.name) == b.2.map (·.1.name), ∀ w₁ : Written, w.store.Amends s w₁.store →
      ∃ w₂, w₁.update s m group = .ok w₂ ∧ w.store.Amends s w₂.store := by
    intro group hgroup w₁ hw₁
    obtain ⟨w₂, hw₂, hamends⟩ := Written.update_free (hs.names m hm) hm hw₁.lawful
      fun a ha => hupdates a (mem_of_mem_splitBy hgroup ha)
    exact ⟨w₂, hw₂, hw₁.trans hamends⟩
  obtain ⟨w', hw', hamends⟩ := foldlM_runs hgroups ⟨hst, fun _ _ => rfl⟩
  refine ⟨w', ?_, hamends⟩
  unfold writeLevel
  rw [hdrafts]
  exact except_bind_ok.2 ⟨(), rfl, except_bind_ok.2 ⟨w', hw', rfl⟩⟩

omit hm in
theorem writeModels_free : ∃ w', s.models.foldlM (p.writeModel s now) w = .ok w' ∧
    w.store.Amends s w'.store := by
  refine foldlM_runs (fun m hm w₁ hw₁ => ?_) ⟨hst, fun _ _ => rfl⟩
  refine foldlM_runs (fun level _ w₂ hw₂ => ?_) hw₁
  obtain ⟨w₃, hw₃, hamends⟩ := writeLevel_free hs hp hspares hm hw₂.lawful level
  exact ⟨w₃, hw₃, hw₂.trans hamends⟩

end Rounds

/-- A store with the edits of a plan written, before anything is removed. -/
structure Edits (p : Plan) (s : Schema) (now : Moment) (st st' : Store) : Prop where
  amends : st.Amends s st'
  rewrites : ∀ m ∈ s.models, ∀ row ∈ st.rows m, ∃ row' ∈ st'.rows m, p.Rewrites now m row row'

theorem Edits.exists_row {st st' : Store} (h : p.Edits s now st st') (hm : m ∈ s.models)
    {row' : Row} (hrow' : row' ∈ st'.rows m) : ∃ row ∈ st.rows m, p.Rewrites now m row row' := by
  obtain ⟨row, hrow, hid⟩ := h.amends.exists_row hm hrow'
  obtain ⟨row'', hrow'', hrewrites⟩ := h.rewrites m hm row hrow
  obtain rfl := Store.eq_of_id hrow' hrow'' (hrewrites.id_eq.trans hid)
  exact ⟨row, hrow, hrewrites⟩

/-- A free plan gets through its edits. -/
theorem edits_run (now : Moment) (hs : s.Stamped) (hp : p.Free s) (hspares : p.SparesIds)
    (hdistinct : p.edits.Pairwise Edit.Apart) {st : Store} (hst : st.Lawful s) :
    ∃ w, s.models.foldlM (p.writeModel s now) ⟨st, []⟩ = .ok w ∧ p.Edits s now st w.store := by
  obtain ⟨w, hw, hamends⟩ : ∃ w, s.models.foldlM (p.writeModel s now) ⟨st, []⟩ = .ok w ∧
      st.Amends s w.store := writeModels_free hs hp hspares hst
  refine ⟨w, hw, hamends, fun m hm row hrow => ?_⟩
  -- Without its removals the plan ends here, so it rewrites the rows as any plan does.
  have hwritten : ({ p with removals := [] } : Plan).write s now st = .ok w :=
    except_bind_ok.2 ⟨w, hw, rfl⟩
  obtain ⟨row', hrow', hrewrites⟩ := write_rewrites (p := { p with removals := [] }) hs.toKeyed
    ⟨hspares.edits, hspares.bonds⟩ hdistinct hm hrow List.not_mem_nil hwritten
  refine ⟨row', hrow', ?_⟩
  cases hrewrites with
  | spared hnone => exact .spared hnone
  | same he hname hid hsame => exact .same he hname hid hsame
  | changed he hname hid hcells => exact .changed he hname hid hcells

end Plan

end Records
