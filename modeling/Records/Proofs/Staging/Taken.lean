import Records.Proofs.Staging.Rewritten
import Records.Proofs.Store.Binding

/-!
What the columns of a row come to when staged changes are written. A column takes the value of a
link that is settled on it, or else what was staged for it; a value that it holds already is not
written.
-/
namespace Records

open Records.Calendar (Moment)

section Cells

theorem Row.keys_set (r : Row) (name : String) (c : Cell) :
    (r.set name c).cells.map (·.1) = r.cells.map (·.1) := by
  unfold set
  rw [List.map_map]
  rfl

/-- A cell can be replaced only if there is one. -/
theorem Row.cell_set_self {r : Row} {name : String} (hid : name ≠ idColumn.name) (c : Cell) :
    (r.set name c).cell name = if name ∈ r.cells.map (·.1) then c else r.cell name := by
  unfold cell set
  rw [if_neg hid, if_neg hid]
  dsimp only
  induction r.cells with
  | nil => rfl
  | cons e es ih =>
    obtain ⟨k, old⟩ := e
    by_cases hk : k = name
    · simp [hk]
    · have hkeys : name ∈ ((k, old) :: es).map (·.1) ↔ name ∈ es.map (·.1) := by
        rw [List.map_cons, List.mem_cons]
        exact or_iff_right (Ne.symm hk)
      rw [if_congr hkeys rfl rfl]
      simpa [hk] using ih

theorem Row.cell_withCells {name : String} (hid : name ≠ idColumn.name) (r : Row) (id : Int)
    (cells : List (String × Cell)) :
    ((∀ e ∈ cells, e.1 ≠ name) ∨ name ∉ r.cells.map (·.1)) ∧
        (r.withCells id cells).cell name = r.cell name ∨
      name ∈ r.cells.map (·.1) ∧ ∃ e ∈ cells, e.1 = name ∧
        (r.withCells id cells).cell name = e.2 := by
  have hset (start : Row) :
      ((∀ e ∈ cells, e.1 ≠ name) ∨ name ∉ start.cells.map (·.1)) ∧
          (cells.foldl (fun r e => r.set e.1 e.2) start).cell name = start.cell name ∨
        name ∈ start.cells.map (·.1) ∧ ∃ e ∈ cells, e.1 = name ∧
          (cells.foldl (fun r e => r.set e.1 e.2) start).cell name = e.2 := by
    induction cells generalizing start with
    | nil => exact .inl ⟨.inl fun _ he => absurd he List.not_mem_nil, rfl⟩
    | cons e cells ih =>
      rw [List.foldl_cons]
      -- A later cell for the column goes over this one.
      have hlater := ih (start.set e.1 e.2)
      rw [keys_set] at hlater
      rcases hlater with ⟨hnone, hsame⟩ | ⟨hhas, e', he', hname, hnew⟩
      · by_cases hkey : name = e.1
        · rw [hsame, hkey, cell_set_self (hkey ▸ hid)]
          by_cases hhas : name ∈ start.cells.map (·.1)
          · exact .inr ⟨hkey ▸ hhas, e, List.mem_cons_self .., rfl, if_pos (hkey ▸ hhas)⟩
          · exact .inl ⟨.inr (hkey ▸ hhas), if_neg (hkey ▸ hhas)⟩
        · rw [hsame, cell_set_of_ne hkey]
          refine .inl ⟨hnone.imp_left fun hnone => ?_, rfl⟩
          exact List.forall_mem_cons.2 ⟨Ne.symm hkey, hnone⟩
      · exact .inr ⟨hhas, e', List.mem_cons_of_mem _ he', hname, hnew⟩
  have hcell : (⟨id, r.cells⟩ : Row).cell name = r.cell name := by
    unfold cell
    rw [if_neg hid, if_neg hid]
  have hcells := hset ⟨id, r.cells⟩
  rwa [hcell] at hcells

/-- The cell that a column keeps of a value, if it takes the value. -/
def Column.Keeps (c : Column) (v : Value) (cell : Cell) : Prop :=
  ∃ bound, (Parameter.mk c.kind.codec v).cell = .ok bound ∧ cell = bound.kept c.kind.affinity

/-- There is a cell for each column that is assigned a value, and no other one. -/
theorem Assigned.keeps_cells {as : Assigned} {cells : List (String × Cell)}
    (h : as.encode.bind Assigned.cells = .ok cells) :
    (∀ a ∈ as, ∃ e ∈ cells, e.1 = a.1.name ∧ a.1.Keeps a.2 e.2) ∧
      ∀ e ∈ cells, ∃ a ∈ as, e.1 = a.1.name ∧ a.1.Keeps a.2 e.2 := by
  obtain ⟨forms, hforms, hcells⟩ := except_bind_ok.1 h
  obtain ⟨values, hvalues, hzipped⟩ := except_bind_ok.1 hforms
  obtain ⟨bound, hbound, hkept⟩ := except_bind_ok.1 hcells
  cases hzipped
  cases hkept
  replace hvalues := mapError_eq_ok.1 hvalues
  replace hbound := mapError_eq_ok.1 hbound
  clear h hforms hcells
  induction as generalizing values bound with
  | nil =>
    cases hvalues
    cases hbound
    exact ⟨fun _ ha => absurd ha List.not_mem_nil, fun _ he => absurd he List.not_mem_nil⟩
  | cons a as ih =>
    obtain ⟨value, values', hvalue, hvalues', rfl⟩ := mapM_cons_ok.1 hvalues
    obtain ⟨cell, bound', hcell, hbound', rfl⟩ := mapM_cons_ok.1 hbound
    have hkeeps : a.1.Keeps a.2 (cell.kept a.1.kind.affinity) :=
      ⟨cell, Parameter.cell_ok.2 ⟨value, hvalue, hcell⟩, rfl⟩
    obtain ⟨hassigned, hcells⟩ := ih values' bound' hvalues' hbound'
    constructor
    · refine List.forall_mem_cons.2 ⟨⟨_, List.mem_cons_self .., rfl, hkeeps⟩, fun b hb => ?_⟩
      obtain ⟨e, he, hsame⟩ := hassigned b hb
      exact ⟨e, List.mem_cons_of_mem _ he, hsame⟩
    · refine List.forall_mem_cons.2 ⟨⟨a, List.mem_cons_self .., rfl, hkeeps⟩, fun e he => ?_⟩
      obtain ⟨b, hb, hsame⟩ := hcells e he
      exact ⟨b, List.mem_cons_of_mem _ hb, hsame⟩

end Cells

namespace Model
variable {m : Model} {row : Row} {values : List (String × Value)} {c : Column} {v : Value}

theorem mem_changedValues : (c, v) ∈ m.changedValues row values ↔
    c ∈ m.columns ∧ Value.lookup? c.name values = some v ∧ (row.value c).same v = false := by
  unfold changedValues
  rw [List.mem_filterMap]
  constructor
  · rintro ⟨c', hc', h⟩
    split at h
    · rename_i v' hv'
      split at h
      · cases h
      · rename_i hsame
        cases h
        exact ⟨hc', hv', Bool.eq_false_iff.2 hsame⟩
    · cases h
  · rintro ⟨hc, hv, hsame⟩
    refine ⟨c, hc, ?_⟩
    rw [hv]
    dsimp only
    rw [hsame]
    rfl

variable (hnames : (m.columns.map (·.name)).Nodup) (hc : c ∈ m.columns)
include hnames hc

theorem eq_of_column_name {c' : Column} (hc' : c' ∈ m.columns) (h : c'.name = c.name) : c' = c :=
  List.inj_on_of_nodup_map hnames hc' hc h

theorem mem_updateValues (hkept : c.refreshed = false) (now : Moment) {a : Column × Value}
    (hname : a.1.name = c.name) : a ∈ m.updateValues now (m.changedValues row values) ↔
      a ∈ m.changedValues row values ∧ a.1 = c := by
  unfold updateValues
  rw [List.mem_filterMap]
  constructor
  · rintro ⟨c', hc', h⟩
    split at h
    · rename_i b hb
      cases h
      have hmem : a ∈ m.changedValues row values := List.mem_of_find?_eq_some hb
      exact ⟨hmem, eq_of_column_name hnames hc (mem_changedValues.1 hmem).1 hname⟩
    · split at h
      · rename_i hrefreshed
        cases h
        rw [eq_of_column_name hnames hc hc' hname, hkept] at hrefreshed
        cases hrefreshed
      · cases h
  · rintro ⟨hmem, rfl⟩
    refine ⟨a.1, hc, ?_⟩
    have hfound : (m.changedValues row values).find? (·.1.name == a.1.name) = some a := by
      have hsome : ((m.changedValues row values).find? (·.1.name == a.1.name)).isSome :=
        List.find?_isSome.2 ⟨a, hmem, beq_self_eq_true _⟩
      obtain ⟨b, hb⟩ := Option.isSome_iff_exists.1 hsome
      have hin := mem_changedValues.1 (List.mem_of_find?_eq_some hb)
      have hcolumn : b.1 = a.1 :=
        eq_of_column_name hnames hc hin.1 (by simpa using List.find?_some hb)
      have hvalue : b.2 = a.2 := by
        have hgiven := hin.2.1
        rw [hcolumn, (mem_changedValues.1 hmem).2.1] at hgiven
        exact (Option.some.inj hgiven).symm
      rw [hb, Prod.ext hcolumn hvalue]
    rw [hfound]

end Model

/-- What a column of a row comes to that is given a value, or none. A value that the column has
already is not written, and a column without a cell cannot take one. -/
def Column.Takes (c : Column) (row row' : Row) : Option Value → Prop
  | none => row'.cell c.name = row.cell c.name
  | some v => c.Keeps v (row'.cell c.name) ∨ row'.cell c.name = row.cell c.name ∧
      ((row.value c).same v = true ∨ c.name ∉ row.cells.map (·.1))

/-- Columns take what the edit of the row and the links give them. -/
theorem Plan.Rewrites.takes {p : Plan} {now : Moment} {m : Model} {row row' : Row}
    (h : p.Rewrites now m row row') (hnames : (m.columns.map (·.name)).Nodup) {c : Column}
    (hc : c ∈ m.columns) (hkept : c.refreshed = false) (hid : c.name ≠ idColumn.name) :
    (∀ e ∈ p.edits, e.model.name = m.name → e.id ≠ row.id) ∧ c.Takes row row' none ∨
      ∃ e ∈ p.edits, e.model.name = m.name ∧ e.id = row.id ∧
        ∃ w, c.Takes row row' (Value.lookup? c.name (p.given w m e)) := by
  cases h with
  | spared hnone => exact .inl ⟨hnone, rfl⟩
  | @same e w he hname hid' hsame =>
    refine .inr ⟨e, he, hname, hid', w, ?_⟩
    cases hv : Value.lookup? c.name (p.given w m e) with
    | none => rfl
    | some v =>
      refine .inr ⟨rfl, .inl ?_⟩
      by_contra hdiffers
      have hmem := Model.mem_changedValues.2 ⟨hc, hv, Bool.eq_false_iff.2 hdiffers⟩
      rw [hsame] at hmem
      cases hmem
  | @changed e w cells he hname hid' hcells =>
    refine .inr ⟨e, he, hname, hid', w, ?_⟩
    obtain ⟨hassigned, hcells⟩ := Assigned.keeps_cells hcells
    rcases Row.cell_withCells hid row row.id cells with ⟨hnone, hsame⟩ | ⟨hhas, e', he', hkey, hnew⟩
    · cases hv : Value.lookup? c.name (p.given w m e) with
      | none => exact hsame
      | some v =>
        refine .inr ⟨hsame, ?_⟩
        by_contra hdiffers
        obtain ⟨hdiffers, hhas⟩ := not_or.1 hdiffers
        have hmem := (Model.mem_updateValues (a := (c, v)) hnames hc hkept now rfl).2
          ⟨Model.mem_changedValues.2 ⟨hc, hv, Bool.eq_false_iff.2 hdiffers⟩, rfl⟩
        obtain ⟨e', he', hkey, -⟩ := hassigned _ hmem
        exact hnone.elim (fun hnone => hnone e' he' hkey) hhas
    · obtain ⟨⟨c', v⟩, ha, hname', hkeeps⟩ := hcells e' he'
      obtain ⟨hmem, rfl⟩ :=
        (Model.mem_updateValues hnames hc hkept now (hname'.symm.trans hkey)).1 ha
      rw [(Model.mem_changedValues.1 hmem).2.1]
      exact .inl (hnew ▸ hkeeps)

/-- The value that a link gives to a foreign key, as far as the ids are known by then. -/
def Bond.value (b : Bond) (w : Written) : Value := ((w.id? b.target).map Value.int).getD .null

theorem Written.mem_bondValues {w : Written} {bonds : List Bond} {ref : Ref} {e : String × Value} :
    e ∈ w.bondValues bonds ref ↔
      ∃ b ∈ bonds, b.record = ref ∧ b.column = e.1 ∧ b.value w = e.2 := by
  unfold bondValues Bond.value
  rw [List.mem_map]
  constructor
  · rintro ⟨b, hb, rfl⟩
    obtain ⟨hb, hrecord⟩ := List.mem_filter.1 hb
    exact ⟨b, hb, eq_of_beq hrecord, rfl, rfl⟩
  · rintro ⟨b, hb, rfl, hcolumn, hvalue⟩
    exact ⟨b, List.mem_filter.2 ⟨hb, beq_self_eq_true _⟩, Prod.ext hcolumn hvalue⟩

namespace Staging
variable {s : Schema} {st : Store} {held : Graph} {g : Staging} {m : Model}

/-- One edit more, if it is for a stored record. -/
def touch (s : Schema) (g : Staging) (e : Ref × List (String × Value)) : Staging :=
  match s.modelOf? e.1, e.1 with
  | some m, .stored _ id => g.edit m id e.2
  | _, _ => g

/-- The edits that the links call for. -/
def touched (s : Schema) (g : Staging) (st : Store) (held : Graph) :
    List (Ref × List (String × Value)) :=
  (g.cleared s st held).map (fun (ref, fk) => (ref, [(fk, Value.null)])) ++
    (g.bonds st held).map fun b => (b.record, [])

/-- What is staged, completed by the edits that the links call for. These are the edits that are
written. -/
def settled (s : Schema) (g : Staging) (st : Store) (held : Graph) : Staging :=
  (g.touched s st held).foldl (touch s) g

theorem touch_stored (hm : m ∈ s.models) (id : Int) (values : List (String × Value)) :
    g.touch s (.stored m.name id, values) = g.edit m id values := by
  have hmodel : s.modelOf? (.stored m.name id) = some m := Schema.model?_of_mem hm
  unfold touch
  rw [hmodel]

theorem touch_cases (s : Schema) (g : Staging) (ref : Ref) (values : List (String × Value)) :
    g.touch s (ref, values) = g ∨ ∃ m ∈ s.models, ∃ id, ref = .stored m.name id ∧
      g.touch s (ref, values) = g.edit m id values := by
  cases ref with
  | draft n => exact .inl rfl
  | stored name id =>
    cases hm : s.model? name with
    | none =>
      have hmodel : s.modelOf? (.stored name id) = none := hm
      unfold touch
      rw [hmodel]
      exact .inl rfl
    | some m =>
      obtain rfl : m.name = name := Schema.name_of_model? hm
      have hmem : m ∈ s.models := Schema.mem_of_model? hm
      exact .inr ⟨m, hmem, id, rfl, touch_stored hmem id values⟩

/-- What holds of all that is staged, and goes along the edits that the links call for, holds in the
end. -/
theorem settled_induction {M : Staging → Prop} (hstart : M g)
    (hcleared : ∀ g' m id column, M g' → m ∈ s.models →
      (.stored m.name id, column) ∈ g.cleared s st held → M (g'.edit m id [(column, .null)]))
    (hbonds : ∀ g' m id, M g' → m ∈ s.models →
      (∃ b ∈ g.bonds st held, b.record = .stored m.name id) → M (g'.edit m id [])) :
    M (g.settled s st held) := by
  refine List.foldlRecOn (motive := M) _ _ hstart ?_
  rintro g' hg' ⟨ref, values⟩ htouched
  rcases touch_cases s g' ref values with hsame | ⟨m, hm, id, rfl, hedit⟩
  · rwa [hsame]
  · rw [hedit]
    rcases List.mem_append.1 htouched with htouched | htouched
    · obtain ⟨⟨ref, column⟩, hc, hsame⟩ := List.mem_map.1 htouched
      obtain ⟨rfl, rfl⟩ := Prod.mk.inj hsame
      exact hcleared g' m id column hg' hm hc
    · obtain ⟨b, hb, hsame⟩ := List.mem_map.1 htouched
      obtain ⟨hrecord, rfl⟩ := Prod.mk.inj hsame
      exact hbonds g' m id hg' hm ⟨b, hb, hrecord⟩

theorem pairwise_settled (hg : g.edits.Pairwise Edit.Apart) :
    (g.settled s st held).edits.Pairwise Edit.Apart := by
  refine settled_induction (M := fun g => g.edits.Pairwise Edit.Apart) hg ?_ ?_
  · exact fun g' m id column hg' _ _ => pairwise_putEdit hg'
  · exact fun g' m id hg' _ _ => pairwise_putEdit hg'

/-- A column that is not cleared is given by the edits of a write what was staged for it. -/
theorem lookup?_settled {name : String} {id : Int} {column : String}
    (hkept : (.stored name id, column) ∉ g.cleared s st held) :
    Value.lookup? column ((g.settled s st held).valuesOf name id) =
      Value.lookup? column (g.valuesOf name id) := by
  refine settled_induction (M := fun g' => Value.lookup? column (g'.valuesOf name id) =
    Value.lookup? column (g.valuesOf name id)) rfl ?_ ?_
  · intro g' m i column' hg' hm hc
    rw [lookup?_valuesOf_edit_of_none, hg']
    rintro rfl rfl
    refine Value.lookup?_eq_none fun e he => ?_
    rw [List.mem_singleton.1 he]
    rintro rfl
    exact hkept hc
  · intro g' m i hg' hm hb
    rw [lookup?_valuesOf_edit_of_none fun _ _ => rfl, hg']

/-- What an edit that the links call for brings about, and the other ones keep, holds in the end. -/
theorem settled_of_turn {Q : Staging → Prop} (hkeeps : ∀ g x, Q g → Q (touch s g x))
    {x : Ref × List (String × Value)} (hx : x ∈ g.touched s st held)
    (hturn : ∀ g, Q (touch s g x)) : Q (g.settled s st held) := by
  have hwalk {xs : List (Ref × List (String × Value))} (hx : x ∈ xs) (g : Staging) :
      Q (xs.foldl (touch s) g) := by
    induction xs generalizing g with
    | nil => cases hx
    | cons y ys ih =>
      rcases List.mem_cons.1 hx with rfl | hx
      · exact List.foldlRecOn (motive := Q) ys _ (hturn g) fun g hg y _ => hkeeps g y hg
      · exact ih hx _
  exact hwalk hx g

theorem exists_settled (hm : m ∈ s.models) {id : Int} {b : Bond} (hb : b ∈ g.bonds st held)
    (hrecord : b.record = .stored m.name id) :
    ∃ e ∈ (g.settled s st held).edits, e.model.name = m.name ∧ e.id = id := by
  refine settled_of_turn (x := (b.record, []))
    (Q := fun g => ∃ e ∈ g.edits, e.model.name = m.name ∧ e.id = id) (fun g x hg => ?_)
    (List.mem_append_right _ (List.mem_map.2 ⟨b, hb, rfl⟩)) fun g => ?_
  · rcases touch_cases s g x.1 x.2 with hsame | ⟨m', -, i, -, hedit⟩
    · rwa [hsame]
    · rw [hedit]
      exact exists_putEdit hg
  · rw [hrecord, touch_stored hm]
    exact mem_putEdit m id [] g.edits

theorem lookup?_settled_of_cleared (hm : m ∈ s.models) {id : Int} {column : String}
    (hc : (.stored m.name id, column) ∈ g.cleared s st held) :
    ∃ v, Value.lookup? column ((g.settled s st held).valuesOf m.name id) = some v := by
  refine Option.ne_none_iff_exists'.1 ?_
  refine settled_of_turn (x := (.stored m.name id, [(column, .null)]))
    (Q := fun g => Value.lookup? column (g.valuesOf m.name id) ≠ none) (fun g x hg => ?_)
    (List.mem_append_left _ (List.mem_map.2 ⟨_, hc, rfl⟩)) fun g => ?_
  · rcases touch_cases s g x.1 x.2 with hsame | ⟨m', -, i, -, hedit⟩
    · rwa [hsame]
    · rw [hedit]
      exact fun hnone => hg (lookup?_valuesOf_edit hnone)
  · rw [touch_stored hm]
    obtain ⟨v, -, hv⟩ := lookup?_valuesOf_edit_of_mem g id (List.mem_singleton_self (column, .null))
    rw [hv]
    exact nofun

section Written
variable {P : Ref → Prop} {row row' : Row} {now : Moment}
  (hdistinct : g.edits.Pairwise Edit.Apart) (hm : m ∈ s.models)
  (hstays : .stored m.name row.id ∉ g.removals s st held)
include hdistinct hm hstays

theorem Reaches.flush_rewrites (hs : s.Keyed) (hg : g.Reaches s st held P) (hrow : row ∈ st.rows m)
    {w : Written} (h : g.flush s now st held = .ok w) :
    ∃ row' ∈ w.store.rows m, (g.plan s st held).Rewrites now m row row' := by
  have hspares : (g.plan s st held).SparesIds :=
    ⟨fun e he => (hg.settledEdits e (List.mem_filter.1 he).1).2, fun b hb => (hg.bonds b hb).2⟩
  have happart : (g.plan s st held).edits.Pairwise Edit.Apart :=
    (pairwise_settled hdistinct).filter _
  exact Plan.write_rewrites hs hspares happart hm hrow hstays h

omit hdistinct hm in
theorem mem_plan_edits {e : Edit} (he : e ∈ (g.settled s st held).edits)
    (hname : e.model.name = m.name) (hid : e.id = row.id) : e ∈ (g.plan s st held).edits := by
  refine List.mem_filter.2 ⟨he, ?_⟩
  rw [hname, hid, Bool.not_eq_true']
  exact Bool.eq_false_iff.2 fun hin => hstays (List.contains_iff_mem.1 hin)

omit hm hstays in
/-- A row is written what is staged for its record, with the links over it. -/
theorem given_plan {e : Edit} (he : e ∈ (g.plan s st held).edits) (hname : e.model.name = m.name)
    (hid : e.id = row.id) (w : Written) : (g.plan s st held).given w m e =
      Value.merge ((g.settled s st held).valuesOf m.name row.id)
        (w.bondValues (g.bonds st held) (.stored m.name row.id)) := by
  have hvalues : (g.settled s st held).valuesOf e.model.name e.id = e.values :=
    valuesOf_of_mem (pairwise_settled hdistinct) (List.mem_filter.1 he).1
  unfold Plan.given
  rw [← hvalues, hname, hid]
  rfl

/-- A column of a row takes the value of a link, or else what was staged for it. -/
theorem takes_of_rewrites (h : (g.plan s st held).Rewrites now m row row')
    (hnames : (m.columns.map (·.name)).Nodup) {c : Column} (hc : c ∈ m.columns)
    (hkept : c.refreshed = false) (hid : c.name ≠ idColumn.name)
    (hcleared : (.stored m.name row.id, c.name) ∉ g.cleared s st held) :
    (∃ b ∈ g.bonds st held, b.record = .stored m.name row.id ∧ b.column = c.name ∧
        ∃ w, c.Takes row row' (some (b.value w))) ∨
      (∀ b ∈ g.bonds st held, b.record = .stored m.name row.id → b.column ≠ c.name) ∧
        c.Takes row row' (Value.lookup? c.name (g.valuesOf m.name row.id)) := by
  have hstaged : Value.lookup? c.name ((g.settled s st held).valuesOf m.name row.id) =
      Value.lookup? c.name (g.valuesOf m.name row.id) := lookup?_settled hcleared
  rcases h.takes hnames hc hkept hid with ⟨hnone, htakes⟩ | ⟨e, he, hname, hid', w, htakes⟩
  -- A row without an edit has no link either, since a link calls for an edit.
  · refine .inr ⟨fun b hb hrecord => ?_, ?_⟩
    · obtain ⟨e, he, hname, hid'⟩ := exists_settled hm hb hrecord
      exact absurd hid' (hnone e (mem_plan_edits hstays he hname hid') hname)
    · have hvalues : (g.settled s st held).valuesOf m.name row.id = [] :=
        valuesOf_eq_nil fun e he hname hid' =>
          hnone e (mem_plan_edits hstays he hname hid') hname hid'
      rw [← hstaged, hvalues]
      exact htakes
  · rw [given_plan hdistinct he hname hid'] at htakes
    -- The values of links go over those of the edit.
    by_cases hbonded : ∃ b ∈ g.bonds st held,
        b.record = .stored m.name row.id ∧ b.column = c.name
    · obtain ⟨b, hb, hrecord, hcolumn⟩ := hbonded
      have hin : (c.name, b.value w) ∈ w.bondValues (g.bonds st held) (.stored m.name row.id) :=
        Written.mem_bondValues.2 ⟨b, hb, hrecord, hcolumn, rfl⟩
      cases hv : Value.lookup? c.name (Value.merge ((g.settled s st held).valuesOf m.name row.id)
        (w.bondValues (g.bonds st held) (.stored m.name row.id))) with
      | none => exact absurd rfl ((Value.lookup?_merge_eq_none hv).1 _ hin)
      | some v =>
        rcases Value.lookup?_merge_cases hv with hv' | ⟨hnone, -⟩
        · obtain ⟨b', hb', hrecord', hcolumn', rfl⟩ := Written.mem_bondValues.1 hv'
          rw [hv] at htakes
          exact .inl ⟨b', hb', hrecord', hcolumn', w, htakes⟩
        · exact absurd rfl (hnone _ hin)
    · refine .inr ⟨fun b hb hrecord hcolumn => hbonded ⟨b, hb, hrecord, hcolumn⟩, ?_⟩
      rwa [Value.lookup?_merge_of_none, hstaged] at htakes
      refine Value.lookup?_eq_none fun e he hcolumn => hbonded ?_
      obtain ⟨b, hb, hrecord, hcolumn', -⟩ := Written.mem_bondValues.1 he
      exact ⟨b, hb, hrecord, hcolumn'.trans hcolumn⟩

end Written

end Staging

end Records
