import Records.Proofs.Record.Reference
import Records.Proofs.Staging.Taken
import Records.Proofs.Store.Binding
import Records.Proofs.Store.Replaced

/-!
What an update makes of one row. Its columns keep what they are assigned, where they have a cell,
and the others are left alone. An update goes through if its values can be stored and are none that
a constraint is about, or are what the row has.
-/
namespace Records

open Records.Calendar (Moment)

theorem Column.Keeps.eq {c : Column} {v : Value} {a b : Cell} (ha : c.Keeps v a)
    (hb : c.Keeps v b) : a = b := by
  obtain ⟨x, hx, rfl⟩ := ha
  obtain ⟨y, hy, rfl⟩ := hb
  rw [Except.ok.inj (hx.symm.trans hy)]

theorem length_of_mapM_ok {α β ε : Type} {f : α → Except ε β} {xs : List α} {ys : List β}
    (h : xs.mapM f = .ok ys) : ys.length = xs.length := by
  induction xs generalizing ys with
  | nil =>
    cases h
    rfl
  | cons x xs ih =>
    obtain ⟨y, later, -, hlater, rfl⟩ := mapM_cons_ok.1 h
    rw [List.length_cons, List.length_cons, ih hlater]

theorem sublist_keys_filterMap {α β κ : Type} {f : α → Option β} {k : α → κ} {k' : β → κ}
    (h : ∀ a b, f a = some b → k' b = k a) (xs : List α) :
    ((xs.filterMap f).map k').Sublist (xs.map k) := by
  induction xs with
  | nil => exact .slnil
  | cons x xs ih =>
    rw [List.filterMap_cons]
    split
    · exact ih.cons (k x)
    · rename_i b hb
      rw [List.map_cons, h x b hb]
      exact ih.cons_cons (k x)

theorem Row.keys_withCells (row : Row) (id : Int) (cells : List (String × Cell)) :
    (row.withCells id cells).cells.map (·.1) = row.cells.map (·.1) := by
  have hset (start : Row) : (cells.foldl (fun r e => r.set e.1 e.2) start).cells.map (·.1) =
      start.cells.map (·.1) := by
    induction cells generalizing start with
    | nil => rfl
    | cons e cells ih => rw [List.foldl_cons, ih, Row.keys_set]
  exact hset ⟨id, row.cells⟩

namespace Assigned
variable {as : Assigned} {m : Model} {row row' : Row} {cells : List (String × Cell)}

/-- Each column takes what it is assigned. -/
def Storable (as : Assigned) : Prop := ∀ a ∈ as, ∃ cell, a.1.Keeps a.2 cell

theorem storable_of_cells (h : as.encode.bind Assigned.cells = .ok cells) : as.Storable := by
  intro a ha
  obtain ⟨e, -, -, hkeeps⟩ := (keeps_cells h).1 a ha
  exact ⟨e.2, hkeeps⟩

/-- Where the values are bound, their cells are those that the columns keep. -/
theorem cells_of_bound {bound : List Cell} (h : bindAll as.parameters = .ok bound) :
    as.encode.bind Assigned.cells = .ok (as.kept bound) := by
  obtain ⟨forms, hforms, hbound⟩ := except_bind_ok.1 h
  have hlength : forms.length = (as.map (·.1)).length := by
    rw [length_of_mapM_ok hforms, parameters, List.length_map, List.length_map]
  have hencode : as.encode = .ok ((as.map (·.1)).zip forms) :=
    except_bind_ok.2 ⟨forms, mapError_eq_ok.2 hforms, rfl⟩
  have hforms : ((as.map (·.1)).zip forms).map (·.2) = forms := List.map_snd_zip hlength.le
  have hkept : Assigned.kept ((as.map (·.1)).zip forms) bound = as.kept bound := by
    unfold Assigned.kept
    have hcolumns : ((as.map (·.1)).zip forms).map (·.1) = as.map (·.1) :=
      List.map_fst_zip hlength.ge
    calc _ = List.zipWith (fun c cell => (c.name, cell.kept c.kind.affinity))
            (((as.map (·.1)).zip forms).map (·.1)) bound := by rw [List.zipWith_map_left]
      _ = _ := by rw [hcolumns, List.zipWith_map_left]
  refine except_bind_ok.2 ⟨_, hencode, except_bind_ok.2 ⟨bound, mapError_eq_ok.2 ?_, hkept ▸ rfl⟩⟩
  rw [hforms]
  exact hbound

theorem Storable.exists_cells (h : as.Storable) :
    ∃ cells, as.encode.bind Assigned.cells = .ok cells := by
  have hbindable : ∀ p ∈ as.parameters, p.Bindable := by
    unfold parameters
    rintro p hp
    obtain ⟨a, ha, rfl⟩ := List.mem_map.1 hp
    obtain ⟨-, bound, hbound, -⟩ := h a ha
    exact ⟨bound, hbound⟩
  obtain ⟨bound, hbound⟩ := bindAll_runs.2 hbindable
  exact ⟨_, cells_of_bound hbound⟩

/-- Columns of a model but the id, each of them assigned once. -/
structure Suits (as : Assigned) (m : Model) : Prop where
  columns : ∀ a ∈ as, a.1 ∈ m.columns
  names : (as.map (·.1.name)).Nodup
  spares : as.Spares

/-- A row in which the columns hold what they are assigned. Only a cell that there is can be
replaced. -/
structure Rewrites (as : Assigned) (row row' : Row) : Prop where
  id_eq : row'.id = row.id
  keys_eq : row'.cells.map (·.1) = row.cells.map (·.1)
  keeps : ∀ a ∈ as, a.1.name ∈ row.cells.map (·.1) → a.1.Keeps a.2 (row'.cell a.1.name)
  frame : ∀ name, (∀ a ∈ as, a.1.name = name → name ∉ row.cells.map (·.1)) →
    row'.cell name = row.cell name

theorem Suits.rewrites (has : as.Suits m) (hcells : as.encode.bind Assigned.cells = .ok cells)
    (row : Row) : as.Rewrites row (row.withCells row.id cells) := by
  obtain ⟨hassigned, hkept⟩ := keeps_cells hcells
  refine ⟨Row.id_withCells .., Row.keys_withCells .., fun a ha hhas => ?_, fun name hfree => ?_⟩
  · rcases Row.cell_withCells (has.spares a ha) row row.id cells with ⟨hnone, -⟩ |
      ⟨-, e, he, hkey, hcell⟩
    · obtain ⟨e, he, hkey, -⟩ := hassigned a ha
      exact hnone.elim (fun hnone => absurd hkey (hnone e he)) (absurd hhas)
    · obtain ⟨b, hb, hname, hkeeps⟩ := hkept e he
      obtain rfl : b = a := List.inj_on_of_nodup_map has.names hb ha (hname.symm.trans hkey)
      exact hcell ▸ hkeeps
  · by_cases hid : name = idColumn.name
    · rw [hid, Row.cell_id, Row.cell_id, Row.id_withCells]
    · rcases Row.cell_withCells hid row row.id cells with ⟨-, hsame⟩ | ⟨hhas, e, he, hkey, -⟩
      · exact hsame
      · obtain ⟨a, ha, hname, -⟩ := hkept e he
        exact absurd hhas (hfree a ha (hname.symm.trans hkey))

/-- A row takes what is assigned to it: it is nothing that a constraint is about, or what the row
has. -/
def Fits (as : Assigned) (row : Row) : Prop :=
  ∀ a ∈ as, a.1.name ∈ row.cells.map (·.1) → ∀ cell, a.1.Keeps a.2 cell →
    a.1.Admits cell ∨ cell = row.cell a.1.name

theorem Suits.eases (has : as.Suits m) (hnames : (m.columns.map (·.name)).Nodup)
    (hfits : as.Fits row) (h : as.Rewrites row row') : m.Eases row row' where
  id_eq := h.id_eq
  cells c hc := by
    by_cases hfree : ∀ a ∈ as, a.1.name = c.name → c.name ∉ row.cells.map (·.1)
    · exact .inl (h.frame c.name hfree)
    · push Not at hfree
      obtain ⟨a, ha, hname, hhas⟩ := hfree
      obtain rfl : a.1 = c := Model.eq_of_column_name hnames hc (has.columns a ha) hname
      exact (hfits a ha hhas _ (h.keeps a ha hhas)).symm

end Assigned

namespace Store
variable {s : Schema} {m : Model} {st st' : Store} {row : Row} {as : Assigned}

/-- The store with what is assigned to a row written to it. -/
def assign (s : Schema) (m : Model) (st : Store) (row : Row) (as : Assigned) :
    Except WriteError Store := do
  let cells ← as.encode.bind Assigned.cells
  (st.change s m [row] cells).mapError .constraint

theorem spares_cells (has : as.Suits m) {cells : List (String × Cell)}
    (hcells : as.encode.bind Assigned.cells = .ok cells) : SparesId cells := by
  obtain ⟨forms, hforms, hbound⟩ := except_bind_ok.1 hcells
  exact (has.spares.encode hforms).cells hbound

/-- What was written to a row was storable, and the new row passed its check. -/
theorem assign_ok (has : as.Suits m) (h : st.assign s m row as = .ok st') :
    as.Storable ∧ ∃ row', as.Rewrites row row' ∧ st' = st.withRow m row' ∧
      row'.check m ((st.table m.table).erase row.id).rows = .ok () := by
  obtain ⟨cells, hcells, h⟩ := except_bind_ok.1 h
  replace h := mapError_eq_ok.1 h
  have hspares := spares_cells has hcells
  refine ⟨Assigned.storable_of_cells hcells, _, has.rewrites hcells row, change_eq hspares h, ?_⟩
  obtain ⟨⟨t, pairs⟩, hchanged, -⟩ := except_bind_ok.1 h
  obtain ⟨⟨t₁, new⟩, hfirst, -⟩ := except_bind_ok.1 hchanged
  rw [changeRow_spares hspares] at hfirst
  obtain ⟨⟨⟩, hchecked, -⟩ := except_bind_ok.1 hfirst
  exact hchecked

/-- What a row takes is written to it. -/
theorem assign_fits (has : as.Suits m) (hnames : (m.columns.map (·.name)).Nodup)
    (hstorable : as.Storable) (hfits : as.Fits row)
    (hchecked : row.check m ((st.table m.table).erase row.id).rows = .ok ()) :
    ∃ row', as.Rewrites row row' ∧ st.assign s m row as = .ok (st.withRow m row') := by
  obtain ⟨cells, hcells⟩ := hstorable.exists_cells
  have hrewrites := has.rewrites hcells row
  refine ⟨_, hrewrites, except_bind_ok.2 ⟨cells, hcells, mapError_eq_ok.2 ?_⟩⟩
  exact change_eases (spares_cells has hcells) hchecked (has.eases hnames hfits hrewrites)

end Store

/-- Rows under one id that differ in no other columns than some. -/
structure Model.Varies (m : Model) (cs : List Column) (row row' : Row) : Prop where
  id_eq : row'.id = row.id
  frame : ∀ c ∈ m.columns, c ∉ cs → row'.cell c.name = row.cell c.name

theorem Model.Varies.refl (m : Model) (cs : List Column) (row : Row) : m.Varies cs row row :=
  ⟨rfl, fun _ _ _ => rfl⟩

/-- A regular schema in which an update stamps rows in one column, if at all. -/
structure Schema.Stamped (s : Schema) : Prop extends s.Regular where
  stamps : ∀ m ∈ s.models, ∀ c ∈ m.columns, c.refreshed = true → c = updatedAt

/-- The column of the stamp takes anything. -/
theorem updatedAt_admits (cell : Cell) : updatedAt.Admits cell := ⟨nofun, .inr ⟨rfl, rfl⟩⟩

theorem updatedAt_keeps_now (now : Moment) : ∃ cell, updatedAt.Keeps (.moment now) cell :=
  ⟨_, _, rfl, rfl⟩

namespace Model
variable {m : Model} {now : Moment} {row : Row} {values : List (String × Value)}

/-- An update assigns what changes, and stamps what does not. -/
theorem updateValues_cases {changed : Assigned} {a : Column × Value}
    (ha : a ∈ m.updateValues now changed) :
    a ∈ changed ∨ a.1 ∈ m.columns ∧ a.1.refreshed = true ∧ a.2 = .moment now ∧
      ∀ b ∈ changed, b.1.name ≠ a.1.name := by
  unfold updateValues at ha
  obtain ⟨c, hc, ha⟩ := List.mem_filterMap.1 ha
  split at ha
  · rename_i b hb
    cases ha
    exact .inl (List.mem_of_find?_eq_some hb)
  · rename_i hnone
    split at ha
    · rename_i hrefreshed
      cases ha
      exact .inr ⟨hc, hrefreshed, rfl, fun b hb hname =>
        List.find?_eq_none.1 hnone b hb (beq_iff_eq.2 hname)⟩
    · cases ha

theorem mem_updateValues_of_mem {changed : Assigned}
    (hdistinct : (changed.map (·.1.name)).Nodup) {a : Column × Value} (ha : a ∈ changed)
    (hc : a.1 ∈ m.columns) : a ∈ m.updateValues now changed := by
  have hfound := find?_of_nodup hdistinct ha
  refine List.mem_filterMap.2 ⟨a.1, hc, ?_⟩
  rw [hfound]

theorem mem_updateValues_of_refreshed {changed : Assigned} {c : Column} (hc : c ∈ m.columns)
    (hrefreshed : c.refreshed = true) (hfree : ∀ b ∈ changed, b.1.name ≠ c.name) :
    (c, .moment now) ∈ m.updateValues now changed := by
  have hnone : changed.find? (·.1.name == c.name) = none :=
    List.find?_eq_none.2 fun b hb => by simpa using hfree b hb
  refine List.mem_filterMap.2 ⟨c, hc, ?_⟩
  rw [hnone]
  exact if_pos hrefreshed

theorem suits_of_assigned {changed : Assigned} (hnames : (m.columns.map (·.name)).Nodup)
    (hstamps : ∀ c ∈ m.columns, c.refreshed = true → c = updatedAt)
    (hcolumns : ∀ a ∈ changed, a.1 ∈ m.columns) (hspares : changed.Spares) :
    (m.updateValues now changed).Suits m := by
  refine ⟨fun a ha => ?_, ?_, fun a ha => ?_⟩
  · rcases updateValues_cases ha with hchanged | ⟨hc, -⟩
    · exact hcolumns a hchanged
    · exact hc
  · refine (sublist_keys_filterMap (fun c a ha => ?_) m.columns).nodup hnames
    split at ha
    · rename_i b hb
      cases ha
      simpa using List.find?_some hb
    · split at ha
      · cases ha
        rfl
      · cases ha
  · rcases updateValues_cases ha with hchanged | ⟨hc, hrefreshed, -⟩
    · exact hspares a hchanged
    · rw [hstamps _ hc hrefreshed]
      decide

theorem nodup_changedValues (hnames : (m.columns.map (·.name)).Nodup) (row : Row)
    (values : List (String × Value)) : ((m.changedValues row values).map (·.1.name)).Nodup := by
  refine (sublist_keys_filterMap (fun c a ha => ?_) m.columns).nodup hnames
  split at ha
  · split at ha
    · cases ha
    · cases ha
      rfl
  · cases ha

theorem mem_updateValues_of_changed (hnames : (m.columns.map (·.name)).Nodup)
    {a : Column × Value} (ha : a ∈ m.changedValues row values) :
    a ∈ m.updateValues now (m.changedValues row values) :=
  mem_updateValues_of_mem (nodup_changedValues hnames row values) ha (mem_changedValues.1 ha).1

theorem suits_updateValues (hnames : (m.columns.map (·.name)).Nodup)
    (hstamps : ∀ c ∈ m.columns, c.refreshed = true → c = updatedAt) (hvalues : SparesId values) :
    (m.updateValues now (m.changedValues row values)).Suits m :=
  suits_of_assigned hnames hstamps (fun _ ha => (mem_changedValues.1 ha).1)
    (m.spares_changedValues hvalues row)

end Model

namespace Store
variable {s : Schema} {m : Model} {now : Moment} {st st' : Store} {row : Row}
  {values : List (String × Value)}

/-- The store with values written to a row; nothing is written where the row has them. -/
def rewrite (s : Schema) (m : Model) (now : Moment) (st : Store) (row : Row)
    (values : List (String × Value)) : Except WriteError Store :=
  if m.changedValues row values = [] then .ok st
  else st.assign s m row (m.updateValues now (m.changedValues row values))

section Stamped
variable (hs : s.Stamped) (hm : m ∈ s.models) (hvalues : SparesId values)
include hs hm hvalues

theorem suits_update : (m.updateValues now (m.changedValues row values)).Suits m :=
  Model.suits_updateValues (hs.names m hm) (hs.stamps m hm) hvalues

/-- Values that were written to a row are in a row in its place. -/
theorem rewrite_ok (hrow : row ∈ st.rows m) (h : st.rewrite s m now row values = .ok st') :
    ∃ row', st' = st.withRow m row' ∧ row'.id = row.id ∧
      (row' = row ∧ m.changedValues row values = [] ∨
        (m.updateValues now (m.changedValues row values)).Storable ∧
          (m.updateValues now (m.changedValues row values)).Rewrites row row' ∧
            row'.check m ((st.table m.table).erase row.id).rows = .ok ()) := by
  unfold rewrite at h
  split at h
  · rename_i hnone
    cases h
    exact ⟨row, (withRow_of_mem hrow).symm, rfl, .inl ⟨rfl, hnone⟩⟩
  · obtain ⟨hstorable, row', hrewrites, hst, hchecked⟩ :=
      assign_ok (suits_update hs hm hvalues) h
    exact ⟨row', hst, hrewrites.id_eq, .inr ⟨hstorable, hrewrites, hchecked⟩⟩

/-- Values are written to a row if each of those that change it is storable, and nothing that a
constraint is about unless the row has its cell. -/
theorem rewrite_fits (now : Moment) (hrow : row ∈ st.rows m)
    (hgiven : ∀ a ∈ m.changedValues row values, ∃ cell, a.1.Keeps a.2 cell ∧
      (a.1.name ∈ row.cells.map (·.1) → a.1.Admits cell ∨ cell = row.cell a.1.name))
    (hchecked : m.changedValues row values ≠ [] →
      row.check m ((st.table m.table).erase row.id).rows = .ok ()) :
    ∃ row', st.rewrite s m now row values = .ok (st.withRow m row') ∧ row'.id = row.id ∧
      (row' = row ∧ m.changedValues row values = [] ∨
        (m.updateValues now (m.changedValues row values)).Rewrites row row') := by
  unfold rewrite
  split
  · rename_i hnone
    exact ⟨row, by rw [withRow_of_mem hrow], rfl, .inl ⟨rfl, hnone⟩⟩
  · rename_i hsome
    have hcells : ∀ a ∈ m.updateValues now (m.changedValues row values), ∃ cell,
        a.1.Keeps a.2 cell ∧ (a.1.name ∈ row.cells.map (·.1) →
          a.1.Admits cell ∨ cell = row.cell a.1.name) := by
      intro a ha
      rcases Model.updateValues_cases ha with hchanged | ⟨hc, hrefreshed, hnow, -⟩
      · exact hgiven a hchanged
      · obtain ⟨cell, hkeeps⟩ := updatedAt_keeps_now now
        rw [hs.stamps m hm _ hc hrefreshed, hnow]
        exact ⟨cell, hkeeps, fun _ => .inl (updatedAt_admits cell)⟩
    have hstorable : (m.updateValues now (m.changedValues row values)).Storable :=
      fun a ha => (hcells a ha).imp fun _ h => h.1
    have hfits : (m.updateValues now (m.changedValues row values)).Fits row := by
      intro a ha hhas cell hkeeps
      obtain ⟨cell', hkeeps', hadmits⟩ := hcells a ha
      rw [hkeeps.eq hkeeps']
      exact hadmits hhas
    obtain ⟨row', hrewrites, hassigned⟩ :=
      assign_fits (suits_update hs hm hvalues) (hs.names m hm) hstorable hfits (hchecked hsome)
    exact ⟨row', hassigned, hrewrites.id_eq, .inr hrewrites⟩

omit hvalues in
/-- Columns that no change is about stay as they are, but for the stamp. -/
theorem frame_of_rewrites {row' : Row} {c : Column} (hc : c ∈ m.columns) (hne : c ≠ updatedAt)
    (h : (m.updateValues now (m.changedValues row values)).Rewrites row row')
    (hfree : ∀ v, (c, v) ∉ m.changedValues row values) : row'.cell c.name = row.cell c.name := by
  refine h.frame c.name fun a ha hname => ?_
  rcases Model.updateValues_cases ha with hchanged | ⟨ha, hrefreshed, -⟩
  · obtain rfl := Model.eq_of_column_name (hs.names m hm) hc (Model.mem_changedValues.1 hchanged).1
      hname
    exact absurd hchanged (hfree a.2)
  · obtain rfl := Model.eq_of_column_name (hs.names m hm) hc ha hname
    exact absurd (hs.stamps m hm _ ha hrefreshed) hne

/-- Values that a row keeps already make no difference to it when they are written, but for the
stamp. -/
theorem rewrite_kept (hrow : row ∈ st.rows m)
    (hchecked : m.changedValues row values ≠ [] →
      row.check m ((st.table m.table).erase row.id).rows = .ok ())
    (hkept : ∀ a ∈ m.changedValues row values, (∃ cell, a.1.Keeps a.2 cell) ∧
      (a.1.name ∈ row.cells.map (·.1) → a.1 ≠ updatedAt → a.1.Keeps a.2 (row.cell a.1.name))) :
    ∃ row', st.rewrite s m now row values = .ok (st.withRow m row') ∧
      m.Varies [updatedAt] row row' := by
  have hgiven : ∀ a ∈ m.changedValues row values, ∃ cell, a.1.Keeps a.2 cell ∧
      (a.1.name ∈ row.cells.map (·.1) → a.1.Admits cell ∨ cell = row.cell a.1.name) := by
    intro a ha
    obtain ⟨⟨cell, hcell⟩, hkeeps⟩ := hkept a ha
    refine ⟨cell, hcell, fun hhas => ?_⟩
    by_cases hstamp : a.1 = updatedAt
    · exact .inl (hstamp ▸ updatedAt_admits cell)
    · exact .inr (hcell.eq (hkeeps hhas hstamp))
  obtain ⟨row', hrewritten, hid, hrow'⟩ := rewrite_fits hs hm hvalues now hrow hgiven hchecked
  refine ⟨row', hrewritten, hid, fun c hc hfree => ?_⟩
  have hne : c ≠ updatedAt := by simpa using hfree
  rcases hrow' with ⟨rfl, -⟩ | hrewrites
  · rfl
  · by_cases hchanged : ∀ v, (c, v) ∉ m.changedValues row values
    · exact frame_of_rewrites hs hm hc hne hrewrites hchanged
    · push Not at hchanged
      obtain ⟨v, hv⟩ := hchanged
      by_cases hhas : c.name ∈ row.cells.map (·.1)
      · have hwritten : (c, v) ∈ m.updateValues now (m.changedValues row values) :=
          Model.mem_updateValues_of_changed (hs.names m hm) hv
        exact (hrewrites.keeps _ hwritten hhas).eq ((hkept _ hv).2 hhas hne)
      · exact hrewrites.frame c.name fun a _ _ => hhas

end Stamped

end Store

end Records
