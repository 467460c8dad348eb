import Records.Proofs.Staging.Added
import Records.Proofs.Staging.Alike
import Records.Proofs.Staging.Overwritten
import Records.Proofs.Store.Kept

/-!
Writing one staged change: values for a record, or a new record. Either comes to one step on the
store, since every other round of the write finds nothing to do.
-/
namespace Records

open Records.Calendar (Moment)

theorem foldlM_ok_self {α β ε : Type} {step : β → α → Except ε β} {xs : List α}
    (h : ∀ x ∈ xs, ∀ b, step b x = .ok b) (b : β) : xs.foldlM step b = .ok b := by
  induction xs with
  | nil => rfl
  | cons x xs ih =>
    rw [List.foldlM_cons, h x (List.mem_cons_self ..)]
    exact ih fun y hy => h y (List.mem_cons_of_mem _ hy)

/-- A walk of which only one step does anything is that step. -/
theorem foldlM_eq_step {α β κ ε : Type} {k : α → κ} {step : β → α → Except ε β} {xs : List α}
    (hdistinct : (xs.map k).Nodup) {x : α} (hx : x ∈ xs)
    (h : ∀ y ∈ xs, k y ≠ k x → ∀ b, step b y = .ok b) (b : β) : xs.foldlM step b = step b x := by
  induction xs with
  | nil => cases hx
  | cons y ys ih =>
    obtain ⟨hy, hys⟩ := List.nodup_cons.1 (List.map_cons ▸ hdistinct)
    rw [List.foldlM_cons]
    rcases List.mem_cons.1 hx with rfl | hx
    · cases step b x with
      | error e => rfl
      | ok b' =>
        refine foldlM_ok_self (fun z hz => h z (List.mem_cons_of_mem _ hz) fun hsame => hy ?_) b'
        exact hsame ▸ List.mem_map_of_mem hz
    · rw [h y (List.mem_cons_self ..) fun hsame => hy (hsame ▸ List.mem_map_of_mem hx)]
      exact ih hys hx fun z hz => h z (List.mem_cons_of_mem _ hz)

namespace Plan
variable {s : Schema} {m m' : Model} {now : Moment} {w : Written}

/-- A plan with edits and new records only, none of which waits for another. -/
def flat (drafts : List (Nat × Draft)) (edits : List Edit) : Plan := ⟨drafts, edits, [], [], []⟩

theorem writeLevel_idle {p : Plan} {level : Nat} (hdrafts : p.draftsAt m level = [])
    (hedits : p.editsAt m level = []) : p.writeLevel s now m w level = .ok w := by
  unfold writeLevel
  rw [hdrafts, hedits]
  rfl

theorem draftsAt_flat (drafts : List (Nat × Draft)) (edits : List Edit) :
    (flat drafts edits).draftsAt m 0 = drafts.filter fun e => e.2.model.name == m.name := by
  refine List.filter_congr fun e _ => ?_
  exact Bool.and_true _

theorem editsAt_flat (drafts : List (Nat × Draft)) (edits : List Edit) :
    (flat drafts edits).editsAt m 0 =
      (edits.filter fun e => e.model.name == m.name).mergeSort fun a b => a.id ≤ b.id := by
  unfold editsAt
  dsimp only
  congr 1
  refine List.filter_congr fun e _ => ?_
  exact Bool.and_true _

/-- A plan that is about one model is written in the round of that model. -/
theorem write_flat {drafts : List (Nat × Draft)} {edits : List Edit} (hm : m ∈ s.models)
    (hdrafts : ∀ e ∈ drafts, e.2.model = m) (hedits : ∀ e ∈ edits, e.model = m) (st : Store) :
    (flat drafts edits).write s now st = (flat drafts edits).writeLevel s now m ⟨st, []⟩ 0 := by
  have hround (m' : Model) (w : Written) : (flat drafts edits).writeModel s now w m' =
      (flat drafts edits).writeLevel s now m' w 0 := by
    change (do let w ← (flat drafts edits).writeLevel s now m' w 0; Except.ok w) = _
    cases (flat drafts edits).writeLevel s now m' w 0 <;> rfl
  -- In the rounds of the other models there is nothing to write.
  have hothers (m' : Model) (hm' : m' ∈ s.models) (hne : m'.name ≠ m.name) (w : Written) :
      (flat drafts edits).writeModel s now w m' = .ok w := by
    rw [hround]
    refine writeLevel_idle ?_ ?_
    · rw [draftsAt_flat, List.filter_eq_nil_iff]
      intro e he hname
      rw [hdrafts e he] at hname
      exact hne (eq_of_beq hname).symm
    · rw [editsAt_flat, List.filter_eq_nil_iff.2, List.mergeSort_nil]
      intro e he hname
      rw [hedits e he] at hname
      exact hne (eq_of_beq hname).symm
  have hmodels : s.models.foldlM ((flat drafts edits).writeModel s now) ⟨st, []⟩ =
      (flat drafts edits).writeModel s now ⟨st, []⟩ m :=
    foldlM_eq_step s.distinctNames hm hothers ⟨st, []⟩
  unfold write
  rw [hmodels, hround]
  cases (flat drafts edits).writeLevel s now m ⟨st, []⟩ 0 <;> rfl

end Plan

/-- A group of one record: its row is changed. -/
theorem Written.update_one {s : Schema} {m : Model} {w : Written} {id : Int} {row : Row}
    (hfound : (w.store.table m.table).find? id = some row) (as : Assigned) :
    w.update s m [(id, as)] = (w.store.assign s m row as).map fun st => { w with store := st } := by
  unfold update Store.assign
  simp only [List.mapM_cons, List.mapM_nil, bind, Except.bind, pure, Except.pure]
  cases as.encode with
  | error e => rfl
  | ok forms =>
    simp only [List.foldlM_cons, List.foldlM_nil, bind, Except.bind, pure, Except.pure]
    cases forms.cells with
    | error e => rfl
    | ok cells =>
      rw [hfound]
      dsimp only
      cases (w.store.change s m [row] cells).mapError WriteError.constraint <;> rfl

/-- A row of a new record: each column keeps its initial value, and the row has the id that is
given. -/
structure Model.NewRow (m : Model) (now : Moment) (values : List (String × Value)) (row : Row) :
    Prop where
  keeps : ∀ c ∈ m.columns, c.name ≠ idColumn.name →
    c.Keeps (c.initial now (Value.lookup? c.name values)) (row.cell c.name)
  keys : ∀ c ∈ m.columns, c.name ≠ idColumn.name → c.name ∈ row.cells.map (·.1)
  id_eq : ∀ v, Value.lookup? idColumn.name values = some v → v ≠ .null →
    idColumn.Keeps v (.integer row.id)

namespace Cell

theorem ofDouble_cases (x : Number.Double) :
    (∃ n, ofDouble x = .integer n) ∨ ofDouble x = .real x := by
  unfold ofDouble
  split
  · split
    · exact .inl ⟨_, rfl⟩
    · exact .inr rfl
  · exact .inr rfl

theorem kept_ofDouble (x : Number.Double) : (ofDouble x).kept .integer = ofDouble x := by
  rcases ofDouble_cases x with ⟨n, h⟩ | h
  · rw [h]
    rfl
  · rw [h]
    exact h

theorem number?_cases {s : String} {c : Cell} (h : number? s = some c) :
    (∃ n, c = .integer n) ∨ ∃ x, c = .real x := by
  unfold number? at h
  obtain ⟨n, -, h⟩ := Option.bind_eq_some_iff.1 h
  split at h
  · exact .inl ⟨_, (Option.some.inj h).symm⟩
  · rw [← Option.some.inj h]
    exact (ofDouble_cases _).imp_right fun h => ⟨_, h⟩

/-- A column of integers keeps of a text the number that it is. -/
theorem kept_of_number? {s : String} {c : Cell} (h : number? s = some c) :
    (Cell.text s).kept .integer = c.kept .integer := by
  have hcompared : (Cell.text s).compared .integer = c := by
    change (number? s).getD _ = c
    rw [h]
    rfl
  unfold kept
  rw [hcompared]
  rcases number?_cases h with ⟨n, rfl⟩ | ⟨x, rfl⟩ <;> rfl

/-- A column of integers keeps what it kept as it is. -/
theorem kept_kept (c : Cell) : (c.kept .integer).kept .integer = c.kept .integer := by
  cases c with
  | null => rfl
  | integer n => rfl
  | blob b => rfl
  | real x => exact kept_ofDouble x
  | text s =>
    cases hs : number? s with
    | none => rw [kept_text hs, kept_text hs]
    | some c =>
      rw [kept_of_number? hs]
      rcases number?_cases hs with ⟨n, rfl⟩ | ⟨x, rfl⟩
      · rfl
      · exact kept_ofDouble x

theorem eq_of_toId {c : Cell} {n : Int} (h : (c.kept .integer).toId = .ok n) :
    c.kept .integer = .integer n := by
  unfold toId at h
  rw [kept_kept] at h
  split at h
  · rename_i k hk
    cases h
    exact hk
  · cases h

end Cell

section Add
variable {m : Model} {now : Moment} {st : Store} {w w' : Written} {values : List (String × Value)}

theorem Written.place_ok {n : Nat} {forms : Assigned} (h : w.place m (n, forms) = .ok w') :
    ∃ cells given id, forms.cells = .ok cells ∧
      (cells.find? (·.1 == idColumn.name)).map (·.2) = given ∧
      w.store.addRow m (given.getD .null) (cells.filter (·.1 != idColumn.name)) =
        .ok (w'.store, id) ∧
      w'.ids = if given = some .null then w.ids else w.ids ++ [(n, id)] := by
  obtain ⟨cells, hcells, h⟩ := except_bind_ok.1 h
  dsimp only at h
  obtain ⟨⟨st', id⟩, hadded, h⟩ := except_bind_ok.1 h
  cases h
  exact ⟨cells, _, id, hcells, rfl, mapError_eq_ok.1 hadded, rfl⟩

theorem Store.toId_of_addRow {st' : Store} {cell : Cell} (hne : cell ≠ .null)
    {cells : List (String × Cell)} {id : Int} (h : st.addRow m cell cells = .ok (st', id)) :
    cell.toId = .ok id := by
  unfold addRow at h
  dsimp only at h
  rw [if_neg hne] at h
  obtain ⟨given, hgiven, h⟩ := except_bind_ok.1 h
  obtain ⟨⟨⟩, -, h⟩ := except_bind_ok.1 h
  split at h
  · cases h
    exact hgiven
  · cases h

theorem Model.nodup_initialValues (hnames : (m.columns.map (·.name)).Nodup) :
    ((m.initialValues now values).map (·.1.name)).Nodup := by
  unfold initialValues
  rw [List.map_map]
  exact (List.filter_sublist.map _).nodup hnames

/-- A new record becomes a row, which is known by its number unless the id that it was given was
bound as a null. -/
theorem Written.place_newRow (hnames : (m.columns.map (·.name)).Nodup) (hid : idColumn ∈ m.columns)
    {n : Nat} {forms : Assigned} (hforms : (m.initialValues now values).encode = .ok forms)
    (h : Written.place m ⟨st, []⟩ (n, forms) = .ok w) {id : Int}
    (hknown : w.id? (.draft n) = some id) :
    ∃ row, row.id = id ∧ m.NewRow now values row ∧ w.store = st.withRow m row ∧
      row.check m (st.rows m) = .ok () := by
  obtain ⟨cells, given, id', hcells, hgiven, hadded, hids⟩ := place_ok h
  have hall : (m.initialValues now values).encode.bind Assigned.cells = .ok cells :=
    except_bind_ok.2 ⟨forms, hforms, hcells⟩
  obtain ⟨hchecked, hstore⟩ := Store.addRow_ok hadded
  have hne : given ≠ some .null := by
    rintro rfl
    unfold id? at hknown
    rw [hids, if_pos rfl] at hknown
    cases hknown
  obtain rfl : id' = id := by
    unfold id? at hknown
    rw [hids, if_neg hne] at hknown
    simpa using hknown
  have hkept (c : Column) (hc : c ∈ m.columns) (hname : c.name ≠ idColumn.name) :
      ∃ cell, (cells.filter (·.1 != idColumn.name)).find? (·.1 == c.name) = some (c.name, cell) ∧
        c.Keeps (c.initial now (Value.lookup? c.name values)) cell :=
    Assigned.find?_cells (a := (c, _)) (Model.nodup_initialValues hnames) hall
      (Model.mem_initialValues.2 ⟨hc, .inl hname, rfl⟩) _ (fun e he => (List.mem_filter.1 he).1)
      fun e he hkey => List.mem_filter.2 ⟨he, by rw [hkey]; exact bne_iff_ne.2 hname⟩
  refine ⟨_, rfl, ⟨fun c hc hname => ?_, fun c hc hname => ?_, fun v hv hvalue => ?_⟩, hstore,
    hchecked⟩
  · obtain ⟨cell, hcell, hkeeps⟩ := hkept c hc hname
    unfold Row.cell
    rw [if_neg hname, hcell]
    exact hkeeps
  · obtain ⟨cell, hcell, -⟩ := hkept c hc hname
    exact List.mem_map.2 ⟨_, List.mem_of_find?_eq_some hcell, rfl⟩
  · have hinitial : idColumn.initial now (Value.lookup? idColumn.name values) = v := by
      rw [hv]
      cases v <;> rfl
    obtain ⟨cell, hcell, hkeeps⟩ := Assigned.find?_cells (a := (idColumn, v))
      (Model.nodup_initialValues hnames) hall
      (Model.mem_initialValues.2 ⟨hid, .inr (by rw [hv]; exact hvalue), hinitial.symm⟩)
      cells (fun e he => he) fun e he _ => he
    rw [hcell] at hgiven
    obtain rfl : some cell = given := hgiven
    obtain ⟨bound, hbound, rfl⟩ := hkeeps
    have hint :=
      Cell.eq_of_toId (Store.toId_of_addRow (fun hnull => hne (congrArg some hnull)) hadded)
    exact ⟨bound, hbound, hint.symm⟩

end Add

namespace Staging
variable {s : Schema} {m : Model} {now : Moment} {st : Store} {held : Graph}

theorem plan_edit (id : Int) (values : List (String × Value)) :
    (Staging.empty.edit m id values).plan s st held = .flat [] [⟨m, id, values⟩] := by
  have hremovals : (Staging.empty.edit m id values).removals s st held = [] := reach_nil ..
  unfold plan settledEdits cleared
  rw [hremovals]
  rfl

theorem plan_draft (values : List (String × Value)) :
    (Staging.empty.addDraft m values).1.plan s st held = .flat [(0, ⟨m, values⟩)] [] := by
  have hremovals : (Staging.empty.addDraft m values).1.removals s st held = [] := reach_nil ..
  unfold plan settledEdits cleared
  rw [hremovals]
  rfl

/-- Values staged for one record are written to its row. -/
theorem flush_edit (hm : m ∈ s.models) {row : Row} (hrow : row ∈ st.rows m)
    (values : List (String × Value)) :
    (Staging.empty.edit m row.id values).flush s now st held =
      (st.rewrite s m now row values).map fun st' => ⟨st', []⟩ := by
  have hfound : (st.table m.table).find? row.id = some row := Table.find?_of_mem hrow
  have hhere : (Plan.flat [] [⟨m, row.id, values⟩]).editsAt m 0 = [⟨m, row.id, values⟩] := by
    rw [Plan.editsAt_flat]
    simp
  have hmerged : Value.merge values ((⟨st, []⟩ : Written).bondValues [] (.stored m.name row.id)) =
      values := rfl
  unfold flush
  rw [plan_edit, Plan.write_flat hm (by simp) (by simp)]
  unfold Plan.writeLevel Store.rewrite
  rw [hhere, Plan.draftsAt_flat]
  simp only [List.filterMap_cons, List.filterMap_nil, hfound, Plan.flat, hmerged, List.filter_nil,
    List.map_nil, List.splitBy_nil, List.foldlM_nil]
  by_cases hnone : m.changedValues row values = []
  · rw [if_pos hnone, if_pos (List.isEmpty_iff.2 hnone)]
    rfl
  · rw [if_neg hnone, if_neg (mt List.isEmpty_iff.1 hnone)]
    generalize m.updateValues now (m.changedValues row values) = as
    change ((List.foldlM (Written.update s m) _ [[(row.id, as)]]) >>= _) = _
    have hone := Written.update_one (s := s) (m := m) (w := ⟨st, []⟩) hfound as
    simp only [List.foldlM_cons, List.foldlM_nil, hone]
    cases st.assign s m row as <;> rfl

/-- A new record becomes a row, unless its id cannot be a key. -/
theorem flush_draft (hm : m ∈ s.models) (values : List (String × Value)) :
    (Staging.empty.addDraft m values).1.flush s now st held = (do
      Plan.checkIds [(0, ⟨m, values⟩)]
      Written.add m ⟨st, []⟩ [(0, m.initialValues now values)]) := by
  have hhere : (Plan.flat [(0, ⟨m, values⟩)] []).draftsAt m 0 = [(0, ⟨m, values⟩)] := by
    rw [Plan.draftsAt_flat]
    simp
  have hmerged : Value.merge values ((⟨st, []⟩ : Written).bondValues [] (.draft 0)) = values := rfl
  unfold flush
  rw [plan_draft, Plan.write_flat hm (by simp) (by simp)]
  unfold Plan.writeLevel
  rw [hhere, Plan.editsAt_flat]
  simp only [List.filter_nil, List.mergeSort_nil, List.filterMap_nil, List.map_cons, List.map_nil,
    List.splitBy_nil, List.foldlM_nil, Plan.flat, hmerged]
  cases Plan.checkIds [(0, ⟨m, values⟩)] with
  | error e => rfl
  | ok u =>
    change (List.foldlM _ (⟨st, []⟩ : Written) [[_]] : Except WriteError Written) = _
    simp only [List.foldlM_cons, List.foldlM_nil]
    change _ = Written.add m ⟨st, []⟩ [(0, m.initialValues now values)]
    cases Written.add m ⟨st, []⟩ [(0, m.initialValues now values)] <;> rfl

end Staging

end Records
