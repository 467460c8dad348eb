import Records.Proofs.Library
import Records.Proofs.Resource.Inserted
import Records.Proofs.Resource.Lookup
import Records.Proofs.Resource.RoundTrip

/-!
Looking a record up or creating it, twice. The second time finds the record of the first, as long as
a new record is found by the attributes that it was given and is not trashed, and an update leaves
the attributes alone.
-/
namespace Records

open Records.Calendar (Moment)

section Mappings
variable {A V es extra : List (String × Value)}

/-- Two mappings with no key in common. -/
structure Value.Separate (A V : List (String × Value)) : Prop where
  first : (A.map (·.1)).Nodup
  second : (V.map (·.1)).Nodup
  apart : ∀ a ∈ A, ∀ v ∈ V, a.1 ≠ v.1

theorem Value.lookup?_of_nodup (h : (es.map (·.1)).Nodup) {e : String × Value} (he : e ∈ es) :
    lookup? e.1 es = some e.2 := by
  unfold lookup?
  rw [find?_of_nodup h he]
  rfl

theorem Value.lookup?_merge_of_mem (h : (extra.map (·.1)).Nodup) {e : String × Value}
    (he : e ∈ extra) : lookup? e.1 (merge es extra) = some e.2 := by
  cases hv : lookup? e.1 (merge es extra) with
  | none => exact absurd rfl ((lookup?_merge_eq_none hv).1 e he)
  | some v =>
    rcases lookup?_merge_cases hv with hmem | ⟨hnone, -⟩
    · rw [← List.inj_on_of_nodup_map h hmem he rfl]
    · exact absurd rfl (hnone e he)

/-- Entries in which those of two mappings are found, and no other ones. -/
structure Value.Joins (A V es : List (String × Value)) : Prop where
  first : ∀ a ∈ A, lookup? a.1 es = some a.2
  second : ∀ v ∈ V, lookup? v.1 es = some v.2
  only : ∀ key v, lookup? key es = some v → (key, v) ∈ A ++ V

theorem Resource.joins_mergedEntries (h : Value.Separate A V)
    (hes : mergedEntries (.object A) (.object V) = .ok es) : Value.Joins A V es := by
  cases V with
  | nil =>
    obtain rfl : Value.merge [] A = es := Except.ok.inj hes
    refine ⟨fun a ha => Value.lookup?_merge_of_mem h.first ha, nofun, fun key v hv => ?_⟩
    rcases Value.lookup?_merge_cases hv with hmem | ⟨-, hv⟩
    · exact List.mem_append_left _ hmem
    · cases hv
  | cons v V =>
    obtain rfl : Value.merge A (v :: V) = es := Except.ok.inj hes
    refine ⟨fun a ha => ?_, fun v hv => Value.lookup?_merge_of_mem h.second hv, fun key w hw => ?_⟩
    · have hnone : Value.lookup? a.1 (v :: V) = none :=
        Value.lookup?_eq_none fun w hw hkey => h.apart a ha w hw hkey.symm
      rw [Value.lookup?_merge_of_none hnone, Value.lookup?_of_nodup h.first ha]
    · rcases Value.lookup?_merge_cases hw with hmem | ⟨-, hw⟩
      · exact List.mem_append_right _ hmem
      · exact List.mem_append_left _ (Value.mem_of_lookup? hw)

end Mappings

namespace Cell

theorem equals_texts (s : String) : equals (.text s) (.text s) = true := by
  have horder : order (.text s) (.text s) = .eq := if_pos rfl
  change (some (order (.text s) (.text s)) == some .eq) = true
  rw [horder]
  rfl

theorem equals_unsignedZero {x : Number.Double} (h : x.isFinite = true) :
    equals (.real x.unsignedZero) (.real x) = true := by
  have horder : order (.real x.unsignedZero) (.real x) = .eq := by
    cases x with
    | nan => cases h
    | infinite s => cases h
    | finite s m e hm =>
      have hequal := congrArg (Option.getD · .eq) (Number.Double.compare?_unsignedZero h)
      cases m <;> exact hequal
  change (some (order (.real x.unsignedZero) (.real x)) == some .eq) = true
  rw [horder]
  rfl

theorem equals_kept_text (a : Affinity) {s : String} (h : number? s = none) :
    equals ((Cell.text s).kept a) ((Cell.text s).compared a) = true := by
  rw [kept_text h, compared_text h]
  exact equals_texts s

end Cell

namespace Model
variable {m : Model} {now : Moment} {A V es : List (String × Value)} {row : Row}

/-- A lookup by a value finds what a new row keeps of it. -/
structure Recognises (m : Model) (c : Column) (v : Value) : Prop where
  null : v = .null → c.default = none ∧ c.name ≠ idColumn.name
  finds : ∀ cell, c.Keeps v cell → m.Finds c v cell

/-- A new record that is given attributes and values is found by the attributes. -/
structure Recalls (m : Model) (A V : List (String × Value)) : Prop where
  recognised : ∀ a ∈ A, ∀ c, m.column? a.1 = some c → m.Recognises c a.2
  unmarked : m.softDeletes = true → ∀ e ∈ A ++ V, e.1 = deletedAt.name → e.2 = .null

/-- A value is recognised where the cell that it is compared as equals what is kept of it. -/
theorem recognises_of_equals {c : Column} {v : Value} {bound cell : Cell} (hv : v ≠ .null)
    (hbound : (Parameter.mk c.kind.codec v).cell = .ok bound)
    (hcell : (Filter.comparisonParameter ⟨m.table, c⟩ v).cell = .ok cell)
    (h : Cell.equals (bound.kept c.kind.affinity) (cell.compared c.kind.affinity) = true) :
    m.Recognises c v := by
  refine ⟨fun hnull => absurd hnull hv, fun stored hkeeps => ?_⟩
  obtain ⟨bound', hbound', rfl⟩ := hkeeps
  obtain rfl : bound = bound' := Except.ok.inj (hbound.symm.trans hbound')
  unfold Finds Filter.comparedCell
  rw [if_neg hv, hcell]
  exact h

/-- Values of a column's own kind are recognised. -/
theorem recognises_of_admits {c : Column} {v : Value} (hv : c.kind.admits v = true) :
    m.Recognises c v := by
  have hne := Kind.ne_null_of_admits hv
  obtain ⟨name, kind, _, _, _, _, _⟩ := c
  change kind.admits v = true at hv
  unfold Kind.admits at hv
  split at hv
  · exact recognises_of_equals hne rfl rfl (Cell.equals_texts _)
  · exact recognises_of_equals hne rfl rfl (Cell.equals_texts _)
  · rename_i n
    have hcell : (Parameter.mk .raw (.int n)).cell = .ok (.integer n) :=
      Parameter.cell_ok.2 ⟨_, rfl, by rw [Cell.bind, if_pos hv]; rfl⟩
    exact recognises_of_equals hne hcell hcell (Cell.equals_integer n)
  · rename_i x
    have hcell : (Parameter.mk .number (.float x)).cell = .ok (.real x) := by
      cases x with
      | nan => cases hv
      | infinite s => cases hv
      | finite s m e hm => rfl
    exact recognises_of_equals hne hcell hcell (Cell.equals_unsignedZero hv)
  · rename_i b
    exact recognises_of_equals hne rfl rfl (Cell.equals_integer b.toInt)
  · rename_i d
    exact recognises_of_equals hne rfl rfl (Cell.equals_kept_text _ (Cell.number?_date d))
  · rename_i w
    exact recognises_of_equals hne rfl rfl
      (Cell.equals_kept_text _ (Cell.number?_of_colon w.colon_mem_stored))
  · cases hv

theorem initial_of_given {c : Column} {v : Value} (h : v = .null → c.default = none) :
    c.initial now (some v) = v := by
  unfold Column.initial
  cases v <;> simp_all

theorem eq_of_column? {key : String} {c : Column} (h : m.column? key = some c) :
    c ∈ m.columns ∧ c.name = key :=
  ⟨List.mem_of_find?_eq_some h, by simpa using List.find?_some h⟩

theorem Recalls.answers (h : m.Recalls A V) (hjoins : Value.Joins A V es)
    (hid : ∀ c ∈ m.columns, c.name = idColumn.name → c = idColumn)
    (hmarks : m.softDeletes = true → deletedAt ∈ m.columns)
    (hrow : m.NewRow now (m.columnValues es) row) : m.Answers A row := by
  constructor
  · unfold isLive
    cases hsoft : m.softDeletes with
    | false => rfl
    | true =>
      have hnull : deletedAt.initial now (Value.lookup? deletedAt.name (m.columnValues es)) =
          .null := by
        rw [lookup?_columnValues (hmarks hsoft)]
        cases hv : Value.lookup? deletedAt.name es with
        | none => rfl
        | some v =>
          obtain rfl : v = .null := h.unmarked hsoft _ (hjoins.only _ v hv) rfl
          rfl
      have hkeeps := hrow.keeps deletedAt (hmarks hsoft) (by decide)
      rw [hnull] at hkeeps
      rw [hkeeps.of_null]
      rfl
  · intro a ha c hc
    obtain ⟨hmem, hname⟩ := eq_of_column? hc
    have hgiven : Value.lookup? c.name (m.columnValues es) = some a.2 := by
      rw [lookup?_columnValues hmem, hname]
      exact hjoins.first a ha
    obtain ⟨hnull, hfinds⟩ := h.recognised a ha c hc
    by_cases hkey : c.name = idColumn.name
    · obtain rfl := hid c hmem hkey
      rw [Row.cell_id]
      exact hfinds _ (hrow.id_eq _ hgiven fun hv => (hnull hv).2 rfl)
    · have hkeeps := hrow.keeps c hmem hkey
      rw [hgiven, initial_of_given fun hv => (hnull hv).1] at hkeeps
      exact hfinds _ hkeeps

/-- A new record has the values as they are given: a null where nothing stands for it. -/
def HoldsNulls (m : Model) (V : List (String × Value)) : Prop :=
  ∀ v ∈ V, ∀ c, m.column? v.1 = some c → v.2 = .null → c.default = none

/-- A record that was found by attributes is found by them when it is given the values, and takes
them again. -/
structure Stays (m : Model) (A V : List (String × Value)) : Prop where
  unstamped : ∀ a ∈ A, m.column? a.1 ≠ some updatedAt
  unmarked : m.softDeletes = true → ∀ v ∈ V, v.1 = deletedAt.name → v.2 = .null
  storable : ∀ v ∈ V, v.1 = updatedAt.name → ∃ cell, updatedAt.Keeps v.2 cell

theorem chooses_withRow {st : Store} (hrow : m.Answers A row)
    (hothers : ∀ x ∈ st.rows m, x.id ≠ row.id → m.Answers A x → row.id ≤ x.id) :
    m.Chooses A (st.withRow m row) row where
  stored := Store.mem_rows_withRow.2 (.inl rfl)
  answers := hrow
  first x hx ha := by
    rcases Store.mem_rows_withRow.1 hx with rfl | ⟨hx, hne⟩
    · exact le_rfl
    · exact hothers x hx hne ha

end Model

namespace Resource
variable {r : Resource} {st st' : Store} {now now' : Moment} {se se' : Session}
  {A V : List (String × Value)} {ref : Ref} {isNew : Bool}

section Steps
variable {f : Ref → Action (Ref × Bool)}

/-- A record that was not found is created. -/
def createMerged (r : Resource) (attributes values : Value) : Action (Ref × Bool) := do
  return (← r.create (← .ofExcept (mergedEntries attributes values)), true)

/-- Looks a record up, and goes on with it or creates one. -/
def findOr (r : Resource) (f : Ref → Action (Ref × Bool)) (attributes values : Value) :
    Action (Ref × Bool) := do
  match ← r.findOneBy attributes [] false with
  | some ref => f ref
  | none => r.createMerged attributes values

/-- What is done with a record that was found. -/
def updateFound (r : Resource) (values : Value) (ref : Ref) : Action (Ref × Bool) := do
  let es ← .ofExcept (if values.isTruthy then values.toEntries else .ok [])
  return (← r.commitValues ref es, false)

theorem firstOrCreate_eq : r.firstOrCreate = r.findOr fun ref => pure (ref, false) := rfl

theorem updateOrCreate_eq (attributes values : Value) :
    r.updateOrCreate attributes values = r.findOr (r.updateFound values) attributes values := rfl

theorem updateFound_object (V : List (String × Value)) (ref : Ref) :
    r.updateFound (.object V) ref se = (do return (← r.commitValues ref V, false)) se := by
  cases V <;> rfl

theorem findOr_of_some (values : Value) {attributes : Value}
    (h : (r.findOneBy attributes [] false se).result = .ok (some ref)) :
    (r.findOr f attributes values se).result =
        (f ref (r.findOneBy attributes [] false se).session).result ∧
      (r.findOr f attributes values se).session =
        (f ref (r.findOneBy attributes [] false se).session).session := by
  unfold findOr
  rw [Action.bind_apply_of_ok h]
  exact ⟨rfl, rfl⟩

theorem findOr_of_none (values : Value) {attributes : Value}
    (h : (r.findOneBy attributes [] false se).result = .ok none) :
    (r.findOr f attributes values se).result =
        (r.createMerged attributes values (r.findOneBy attributes [] false se).session).result ∧
      (r.findOr f attributes values se).session =
        (r.createMerged attributes values (r.findOneBy attributes [] false se).session).session := by
  unfold findOr
  rw [Action.bind_apply_of_ok h]
  exact ⟨rfl, rfl⟩

theorem createMerged_ok {attributes values : Value}
    (h : (r.createMerged attributes values se).result = .ok (ref, isNew)) :
    isNew = true ∧ ∃ es, mergedEntries attributes values = .ok es ∧
      (r.create es se).result = .ok ref ∧
      (r.createMerged attributes values se).session = (r.create es se).session := by
  obtain ⟨es, hes, hcreating⟩ := Action.result_bind_ok.1 h
  obtain ⟨created, hcreated, hreply⟩ := Action.result_bind_ok.1 hcreating
  cases hreply
  refine ⟨rfl, es, hes, hcreated, ?_⟩
  unfold createMerged
  rw [Action.session_bind_of_ok hes, Action.session_bind_of_ok hcreated]
  rfl

end Steps

section Repeating
variable (hs : r.schema.Stamped) (hm : r.model ∈ r.schema.models) (hAV : Value.Separate A V)
include hs hm

/-- What looking a record up, or creating it, comes to: the chosen row, or a new one. -/
theorem findOr_cases (hse : se.Ready st now) {f : Ref → Action (Ref × Bool)}
    (h : (r.findOr f (.object A) (.object V) se).result = .ok (ref, isNew)) :
    (∃ row se₁, r.model.Chooses A st row ∧ se₁.Ready st now ∧
        (f (r.refOf row) se₁).result = .ok (ref, isNew) ∧
        (r.findOr f (.object A) (.object V) se).session = (f (r.refOf row) se₁).session) ∨
      isNew = true ∧ (∀ row ∈ st.rows r.model, ¬r.model.Answers A row) ∧
        ∃ row es, mergedEntries (.object A) (.object V) = .ok es ∧ ref = r.refOf row ∧
          r.model.NewRow now (r.model.columnValues es) row ∧
          row.check r.model (st.rows r.model) = .ok () ∧
          (r.findOr f (.object A) (.object V) se).session.Ready (st.withRow r.model row) now := by
  obtain ⟨found, hfound, -⟩ := Action.result_bind_ok.1 h
  have hready := ready_findOneBy (r := r) hse (.object A) false
  rcases findOneBy_ok hse hfound with ⟨rfl, hnone⟩ | ⟨row, rfl, hchosen⟩
  · obtain ⟨hresult, hsession⟩ := findOr_of_none (f := f) (.object V) hfound
    rw [hresult] at h
    obtain ⟨hnew, es, hes, hcreated, hafter⟩ := createMerged_ok h
    obtain ⟨row, hrow, hnewRow, hchecked, hcreate⟩ := create_ok hready hs hm hcreated
    rw [hsession, hafter]
    exact .inr ⟨hnew, hnone, row, es, hes, hrow, hnewRow, hchecked, hcreate⟩
  · obtain ⟨hresult, hsession⟩ := findOr_of_some (f := f) (.object V) hfound
    rw [hresult] at h
    exact .inl ⟨row, _, hchosen, hready, h, hsession⟩

omit hs hm in
/-- Looking up again goes on with the row that is chosen from the store that is left. -/
theorem findOr_again {f : Ref → Action (Ref × Bool)}
    (h : (r.findOr f (.object A) (.object V) se).result = .ok (ref, isNew))
    (hse' : se'.Ready st' now') {row : Row} (hrow : r.model.Chooses A st' row) :
    ∃ se₁, se₁.Ready st' now' ∧
      (r.findOr f (.object A) (.object V) se').result = (f (r.refOf row) se₁).result ∧
      (r.findOr f (.object A) (.object V) se').session = (f (r.refOf row) se₁).session := by
  obtain ⟨found, hfound, -⟩ := Action.result_bind_ok.1 h
  exact ⟨_, ready_findOneBy hse' _ _, findOr_of_some _ (findOneBy_again hse' hfound hrow)⟩

include hAV

theorem firstOrCreate_again (hse : se.Ready st now)
    (h : (r.firstOrCreate (.object A) (.object V) se).result = .ok (ref, isNew))
    (hnew : isNew = true → r.model.Recalls A V)
    (hse' : se'.Ready (r.firstOrCreate (.object A) (.object V) se).session.store now') :
    (r.firstOrCreate (.object A) (.object V) se').result = .ok (ref, false) ∧
      (r.firstOrCreate (.object A) (.object V) se').session.store = se'.store := by
  rw [firstOrCreate_eq] at h hse' ⊢
  -- It is enough that the row of the record is chosen from the store that is left.
  suffices hchosen : ∃ row, ref = r.refOf row ∧ r.model.Chooses A se'.store row by
    obtain ⟨row, rfl, hchosen⟩ := hchosen
    obtain ⟨se₁, hready, hresult, hsession⟩ := findOr_again h hse' (hse'.store_eq ▸ hchosen)
    refine ⟨hresult, ?_⟩
    rw [hsession, hse'.store_eq]
    exact hready.store_eq
  rw [hse'.store_eq]
  rcases findOr_cases hs hm hse h with ⟨row, se₁, hchosen, hready, hreply, hsession⟩ |
      ⟨hisNew, hnone, row, es, hes, hrow, hnewRow, -, hready⟩
  · cases hreply
    refine ⟨row, rfl, ?_⟩
    rw [hsession]
    exact hready.store_eq ▸ hchosen
  · refine ⟨row, hrow, ?_⟩
    rw [hready.store_eq]
    exact Model.chooses_withRow ((hnew hisNew).answers (joins_mergedEntries hAV hes)
      (hs.id_only _ hm) (hs.marks _ hm) hnewRow) fun x hx _ ha => absurd ha (hnone x hx)

omit hs hm hAV in
theorem mem_of_changed {row : Row} {c : Column} {v : Value}
    (h : (c, v) ∈ r.model.changedValues row (r.model.fillValues V)) :
    c ∈ r.model.columns ∧ (c.name, v) ∈ V ∧ c.name ≠ idColumn.name := by
  obtain ⟨hc, hv, -⟩ := Model.mem_changedValues.1 h
  exact ⟨hc, r.model.mem_fillValues (Value.mem_of_lookup? hv)⟩

/-- A new record keeps the values that it was created from. -/
theorem rewrite_newRow (now' : Moment) (hnulls : r.model.HoldsNulls V) {es : List (String × Value)}
    (hes : mergedEntries (.object A) (.object V) = .ok es) {row : Row}
    (hrow : r.model.NewRow now (r.model.columnValues es) row)
    (hchecked : row.check r.model (st.rows r.model) = .ok ()) :
    ∃ row', (st.withRow r.model row).rewrite r.schema r.model now' row (r.model.fillValues V) =
        .ok ((st.withRow r.model row).withRow r.model row') ∧
      r.model.Varies [updatedAt] row row' := by
  refine Store.rewrite_kept hs hm (r.model.spares_fillValues V)
    (Store.mem_rows_withRow.2 (.inl rfl)) (fun _ => ?_) fun a ha => ?_
  · have habsent : ∀ x ∈ (st.table r.model.table).rows, x.id ≠ row.id :=
      fun x hx => Row.ne_of_check (hs.id_mem _ hm) hchecked hx
    rw [Store.table_withRow, Table.erase_insert, Table.erase_of_absent habsent]
    exact hchecked
  · obtain ⟨c, v⟩ := a
    obtain ⟨hc, hv, hid⟩ := mem_of_changed ha
    have hkeeps := hrow.keeps c hc hid
    rw [Model.lookup?_columnValues hc, (joins_mergedEntries hAV hes).second _ hv,
      Model.initial_of_given fun hnull => hnulls _ hv c (hs.column? hm hc) hnull] at hkeeps
    exact ⟨⟨_, hkeeps⟩, fun _ _ => hkeeps⟩

omit hs hm in
/-- A row that answers attributes answers them when it is given the values. -/
theorem answers_of_frame (hstays : r.model.Stays A V) {row row' : Row}
    (hrow : r.model.Answers A row) (hmarks : r.model.softDeletes = true → deletedAt ∈ r.model.columns)
    (hframe : ∀ c ∈ r.model.columns, c ≠ updatedAt →
      (∀ v, (c, v) ∉ r.model.changedValues row (r.model.fillValues V)) →
        row'.cell c.name = row.cell c.name) : r.model.Answers A row' := by
  constructor
  · have hlive := hrow.live
    unfold Model.isLive at hlive ⊢
    cases hsoft : r.model.softDeletes with
    | false => rfl
    | true =>
      rw [hsoft] at hlive
      replace hlive : row.cell deletedAt.name = .null := by simpa using hlive
      rw [hframe deletedAt (hmarks hsoft) (by decide) fun v hv => ?_, hlive]
      · rfl
      · obtain rfl : v = .null := hstays.unmarked hsoft _ (mem_of_changed hv).2.1 rfl
        have hdiffers := (Model.mem_changedValues.1 hv).2.2
        unfold Row.value at hdiffers
        rw [hlive] at hdiffers
        cases hdiffers
  · intro a ha c hc
    obtain ⟨hmem, hname⟩ := Model.eq_of_column? hc
    rw [hframe c hmem (fun hstamp => hstays.unstamped a ha (hstamp ▸ hc)) fun v hv => ?_]
    · exact hrow.finds a ha c hc
    · exact hAV.apart a ha _ (mem_of_changed hv).2.1 hname.symm

omit hAV in
/-- A row that was given the values keeps them. -/
theorem rewrite_rewritten (now' : Moment) (hstays : r.model.Stays A V) {row : Row} (hrow : row ∈ st.rows r.model)
    (h : st.rewrite r.schema r.model now row (r.model.fillValues V) = .ok st') :
    ∃ row', st' = st.withRow r.model row' ∧ row'.id = row.id ∧
      (∀ c ∈ r.model.columns, c ≠ updatedAt →
        (∀ v, (c, v) ∉ r.model.changedValues row (r.model.fillValues V)) →
          row'.cell c.name = row.cell c.name) ∧
      ∃ row'', st'.rewrite r.schema r.model now' row' (r.model.fillValues V) =
          .ok (st'.withRow r.model row'') ∧ r.model.Varies [updatedAt] row' row'' := by
  have hspares := r.model.spares_fillValues V
  obtain ⟨row', rfl, hid, hrow'⟩ := Store.rewrite_ok hs hm hspares hrow h
  have hmem : row' ∈ (st.withRow r.model row').rows r.model := Store.mem_rows_withRow.2 (.inl rfl)
  rcases hrow' with ⟨rfl, hnone⟩ | ⟨hstorable, hrewrites, hchecked⟩
  · refine ⟨row', rfl, rfl, fun _ _ _ _ => rfl, Store.rewrite_kept hs hm hspares hmem ?_ ?_⟩
    · exact fun hsome => absurd hnone hsome
    · rw [hnone]
      exact nofun
  · have hframe (c : Column) (hc : c ∈ r.model.columns) (hne : c ≠ updatedAt)
        (hfree : ∀ v, (c, v) ∉ r.model.changedValues row (r.model.fillValues V)) :
        row'.cell c.name = row.cell c.name :=
      Store.frame_of_rewrites hs hm hc hne hrewrites hfree
    refine ⟨row', rfl, hid, hframe, Store.rewrite_kept hs hm hspares hmem (fun _ => ?_) ?_⟩
    · rw [Store.table_withRow, Table.erase_insert, hid]
      exact hchecked
    · rintro ⟨c, v⟩ ha
      obtain ⟨hc, hv, hdiffers⟩ := Model.mem_changedValues.1 ha
      by_cases hstamp : c = updatedAt
      · subst hstamp
        exact ⟨hstays.storable _ (mem_of_changed ha).2.1 rfl, fun _ hne => absurd rfl hne⟩
      -- A column that differs now did so before, for else it was left alone.
      have hchanged : (c, v) ∈ r.model.changedValues row (r.model.fillValues V) := by
        refine Model.mem_changedValues.2 ⟨hc, hv, ?_⟩
        by_contra hsame
        unfold Row.value at hdiffers hsame
        rw [hframe c hc hstamp fun v' hv' => hsame ?_] at hdiffers
        · exact hsame hdiffers
        · obtain ⟨-, hgiven, hother⟩ := Model.mem_changedValues.1 hv'
          rw [← Option.some.inj (hgiven.symm.trans hv)]
          exact hother
      have hwritten : (c, v) ∈ r.model.updateValues now
          (r.model.changedValues row (r.model.fillValues V)) :=
        Model.mem_updateValues_of_changed (hs.names _ hm) hchanged
      exact ⟨hstorable _ hwritten, fun hhas _ => hrewrites.keeps _ hwritten (hrewrites.keys_eq ▸ hhas)⟩

omit hAV in
/-- A record that is found is given the values as its row is rewritten. -/
theorem updateFound_of_ok (hse : se.Ready st now) {row : Row} (hrow : row ∈ st.rows r.model)
    (h : st.rewrite r.schema r.model now row (r.model.fillValues V) = .ok st') :
    (r.updateFound (.object V) (r.refOf row) se).result = .ok (r.refOf row, false) ∧
      (r.updateFound (.object V) (r.refOf row) se).session.store = st' := by
  obtain ⟨hcommitted, hafter⟩ := commitValues_of_ok hse hm hrow hs h
  rw [updateFound_object]
  refine ⟨Action.result_bind_ok.2 ⟨_, hcommitted, rfl⟩, ?_⟩
  rw [Action.session_bind_of_ok hcommitted]
  exact hafter.store_eq

omit hAV hs in
theorem updateFound_ok (hse : se.Ready st now) {row : Row} (hrow : row ∈ st.rows r.model)
    (h : (r.updateFound (.object V) (r.refOf row) se).result = .ok (ref, isNew)) :
    isNew = false ∧
      ∃ st', st.rewrite r.schema r.model now row (r.model.fillValues V) = .ok st' := by
  rw [updateFound_object] at h
  obtain ⟨ref', hcommitted, hreply⟩ := Action.result_bind_ok.1 h
  cases hreply
  refine ⟨rfl, ?_⟩
  cases hrewritten : st.rewrite r.schema r.model now row (r.model.fillValues V) with
  | ok st' => exact ⟨st', rfl⟩
  | error e =>
    rw [(commitValues_of_error hse hm hrow hrewritten).1] at hcommitted
    cases hcommitted

/-- The row of a record is the one that attributes choose, and the record takes values without a
change, but for its stamp. -/
def Steady (r : Resource) (A V : List (String × Value)) (now : Moment) (st : Store) (ref : Ref) :
    Prop :=
  ∃ row row', ref = r.refOf row ∧ r.model.Chooses A st row ∧
    st.rewrite r.schema r.model now row (r.model.fillValues V) = .ok (st.withRow r.model row') ∧
    r.model.Varies [updatedAt] row row'

/-- A record that was found is steady once it is updated. -/
theorem steady_found {row : Row} (hstays : r.model.Stays A V) (hchosen : r.model.Chooses A st row)
    (h : st.rewrite r.schema r.model now row (r.model.fillValues V) = .ok st') (now' : Moment) :
    r.Steady A V now' st' (r.refOf row) := by
  obtain ⟨row', rfl, hid, hframe, row'', hagain, hvaries⟩ :=
    rewrite_rewritten hs hm now' hstays hchosen.stored h
  have hanswers := answers_of_frame hAV hstays hchosen.answers (hs.marks _ hm) hframe
  refine ⟨row', row'', congrArg (Ref.stored r.model.name) hid.symm, ?_, hagain, hvaries⟩
  exact Model.chooses_withRow hanswers fun x hx _ ha => hid ▸ hchosen.first x hx ha

/-- A record that was created is steady. -/
theorem steady_created {row : Row} {es : List (String × Value)} (hrecalls : r.model.Recalls A V)
    (hnulls : r.model.HoldsNulls V) (hnone : ∀ x ∈ st.rows r.model, ¬r.model.Answers A x)
    (hes : mergedEntries (.object A) (.object V) = .ok es)
    (hrow : r.model.NewRow now (r.model.columnValues es) row)
    (hchecked : row.check r.model (st.rows r.model) = .ok ()) (now' : Moment) :
    r.Steady A V now' (st.withRow r.model row) (r.refOf row) := by
  obtain ⟨row', hrewritten, hvaries⟩ := rewrite_newRow hs hm hAV now' hnulls hes hrow hchecked
  have hanswers := hrecalls.answers (joins_mergedEntries hAV hes) (hs.id_only _ hm)
    (hs.marks _ hm) hrow
  refine ⟨row, row', rfl, ?_, hrewritten, hvaries⟩
  exact Model.chooses_withRow hanswers fun x hx _ ha => absurd ha (hnone x hx)

theorem steady_updateOrCreate (hse : se.Ready st now)
    (h : (r.updateOrCreate (.object A) (.object V) se).result = .ok (ref, isNew))
    (hnew : isNew = true → r.model.Recalls A V ∧ r.model.HoldsNulls V)
    (hfound : isNew = false → r.model.Stays A V) (now' : Moment) :
    r.Steady A V now' (r.updateOrCreate (.object A) (.object V) se).session.store ref := by
  rw [updateOrCreate_eq] at h ⊢
  rcases findOr_cases hs hm hse h with ⟨row, se₁, hchosen, hready, hreply, hsession⟩ |
      ⟨hisNew, hnone, row, es, hes, rfl, hnewRow, hchecked, hready⟩
  · obtain ⟨hold, st₂, hrewritten⟩ := updateFound_ok hm hready hchosen.stored hreply
    obtain ⟨hresult, hstore⟩ := updateFound_of_ok hs hm hready hchosen.stored hrewritten
    obtain rfl : r.refOf row = ref := congrArg Prod.fst (Except.ok.inj (hresult.symm.trans hreply))
    rw [hsession, hstore]
    exact steady_found hs hm hAV (hfound hold) hchosen hrewritten now'
  · rw [hready.store_eq]
    exact steady_created hs hm hAV (hnew hisNew).1 (hnew hisNew).2 hnone hes hnewRow hchecked now'

theorem updateOrCreate_again (hse : se.Ready st now)
    (h : (r.updateOrCreate (.object A) (.object V) se).result = .ok (ref, isNew))
    (hnew : isNew = true → r.model.Recalls A V ∧ r.model.HoldsNulls V)
    (hfound : isNew = false → r.model.Stays A V)
    (hse' : se'.Ready (r.updateOrCreate (.object A) (.object V) se).session.store now') :
    (r.updateOrCreate (.object A) (.object V) se').result = .ok (ref, false) ∧
      ∃ row ∈ se'.store.rows r.model, ref = r.refOf row ∧
        ∃ row', r.model.Varies [updatedAt] row row' ∧
          (r.updateOrCreate (.object A) (.object V) se').session.store =
            se'.store.withRow r.model row' := by
  obtain ⟨row, row', rfl, hchosen, hrewritten, hvaries⟩ :=
    steady_updateOrCreate hs hm hAV hse h hnew hfound now'
  rw [updateOrCreate_eq] at h hse' ⊢
  obtain ⟨se₁, hready, hresult, hsession⟩ := findOr_again h hse' hchosen
  obtain ⟨hreply, hafter⟩ := updateFound_of_ok hs hm hready hchosen.stored hrewritten
  rw [hse'.store_eq]
  refine ⟨hresult.trans hreply, row, hchosen.stored, rfl, row', hvaries, ?_⟩
  rw [hsession]
  exact hafter

end Repeating

/-- Creating a record once more is harmless. -/
theorem repeated_create_harmless (hs : r.schema.Stamped) (hm : r.model ∈ r.schema.models)
    (hAV : Value.Separate A V) (hse : se.isClean = true) (hse' : se'.isClean = true) :
    ((r.firstOrCreate (.object A) (.object V) se).result = .ok (ref, isNew) →
      (isNew = true → r.model.Recalls A V) →
      se'.store = (r.firstOrCreate (.object A) (.object V) se).session.store →
        (r.firstOrCreate (.object A) (.object V) se').result = .ok (ref, false) ∧
        (r.firstOrCreate (.object A) (.object V) se').session.store = se'.store) ∧
    ((r.updateOrCreate (.object A) (.object V) se).result = .ok (ref, isNew) →
      (isNew = true → r.model.Recalls A V ∧ r.model.HoldsNulls V) →
      (isNew = false → r.model.Stays A V) →
      se'.store = (r.updateOrCreate (.object A) (.object V) se).session.store →
        (r.updateOrCreate (.object A) (.object V) se').result = .ok (ref, false) ∧
        ∃ row ∈ se'.store.rows r.model, ref = r.refOf row ∧
          ∃ row', r.model.Varies [updatedAt] row row' ∧
            (r.updateOrCreate (.object A) (.object V) se').session.store =
              se'.store.withRow r.model row') := by
  have hready := Session.ready_of_isClean hse
  have hready' := Session.ready_of_isClean hse'
  constructor
  · intro h hnew hstore
    exact firstOrCreate_again hs hm hAV hready h hnew (hstore ▸ hready')
  · intro h hnew hfound hstore
    exact updateOrCreate_again hs hm hAV hready h hnew hfound (hstore ▸ hready')

end Resource

namespace Resource

theorem repeated_create_harmless_zed :
    let authors := Library.resource Library.author
    let se := Library.visit Library.catalogue
    let zed := Value.object [("name", .text "Zed")]
    let ann := Value.object [("name", .text "Ann")]
    let values := Value.object [("rating", .int 6)]
    (authors.firstOrCreate zed values (authors.firstOrCreate zed values se).session).result =
        .ok (.stored "Author" 9, false) ∧
      (authors.updateOrCreate zed values (authors.updateOrCreate zed values se).session).result =
        .ok (.stored "Author" 9, false) ∧
      (authors.updateOrCreate ann values (authors.updateOrCreate ann values se).session).result =
        .ok (.stored "Author" 1, false) := by
  intro authors se zed ann values
  have hseparate (name : Value) : Value.Separate [("name", name)] [("rating", .int 6)] :=
    ⟨List.nodup_singleton _, by decide, by simp⟩
  have hcolumn : authors.model.column? "name" = some (Library.textColumn "name" true) := rfl
  have hrecalls : authors.model.Recalls [("name", .text "Zed")] [("rating", .int 6)] := by
    refine ⟨fun a ha c hc => ?_, fun _ => by decide⟩
    obtain rfl := List.mem_singleton.1 ha
    obtain rfl := Option.some.inj (hcolumn.symm.trans hc)
    exact Model.recognises_of_admits rfl
  have hnulls : authors.model.HoldsNulls [("rating", .int 6)] := by
    rintro v hv c - hnull
    obtain rfl := List.mem_singleton.1 hv
    cases hnull
  have hstays : authors.model.Stays [("name", .text "Ann")] [("rating", .int 6)] := by
    refine ⟨fun a ha => ?_, fun _ => by decide, fun v hv hstamp => ?_⟩
    · obtain rfl := List.mem_singleton.1 ha
      rw [hcolumn]
      decide
    · obtain rfl := List.mem_singleton.1 hv
      exact absurd hstamp (by decide)
  have hm : authors.model ∈ authors.schema.models := by decide
  have hse : se.isClean = true := by decide +kernel
  have hcreated : (authors.firstOrCreate zed values se).result = .ok (.stored "Author" 9, true) :=
    except_of_toOption (by decide +kernel)
  have hnew : (authors.updateOrCreate zed values se).result = .ok (.stored "Author" 9, true) :=
    except_of_toOption (by decide +kernel)
  have hupdated : (authors.updateOrCreate ann values se).result = .ok (.stored "Author" 1, false) :=
    except_of_toOption (by decide +kernel)
  refine ⟨?_, ?_, ?_⟩
  · exact ((repeated_create_harmless Library.stamped (r := authors) hm (hseparate (.text "Zed")) hse
      (by decide +kernel)).1 hcreated (fun _ => hrecalls) rfl).1
  · exact ((repeated_create_harmless Library.stamped (r := authors) hm (hseparate (.text "Zed")) hse
      (by decide +kernel)).2 hnew (fun _ => ⟨hrecalls, hnulls⟩) nofun rfl).1
  · exact ((repeated_create_harmless Library.stamped (r := authors) hm (hseparate (.text "Ann")) hse
      (by decide +kernel)).2 hupdated nofun (fun _ => hstays) rfl).1

/-- A null where something stands for it, a mark, a stamp among the attributes, and a day for a
moment: each time there is a new record, or the second update fails. -/
theorem repeated_create_not_harmless :
    let authors := Library.resource Library.author
    let se := Library.visit Library.catalogue
    let twice (f : Action (Ref × Bool)) : Option (Ref × Bool) × Option (Ref × Bool) :=
      ((f se).result.toOption, (f (f se).session).result.toOption)
    let name : String × Value := ("name", .text "Zed")
    twice (authors.firstOrCreate (.object [name, ("status", .null)]) (.object [])) =
        (some (.stored "Author" 9, true), some (.stored "Author" 10, true)) ∧
      twice (authors.firstOrCreate (.object [name, ("created_at", .date se.now.date)])
        (.object [])) = (some (.stored "Author" 9, true), some (.stored "Author" 10, true)) ∧
      twice (authors.firstOrCreate (.object [name]) (.object [("deleted_at", .moment se.now)])) =
        (some (.stored "Author" 9, true), some (.stored "Author" 10, true)) ∧
      twice (authors.updateOrCreate (.object [name]) (.object [("status", .null)])) =
        (some (.stored "Author" 9, true), none) ∧
      twice (authors.updateOrCreate (.object [("name", .text "Ann"), ("updated_at", .null)])
        (.object [("rating", .int 6)])) =
        (some (.stored "Author" 1, false), some (.stored "Author" 9, true)) := by
  decide +kernel

end Resource

end Records
