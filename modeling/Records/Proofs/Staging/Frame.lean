import Mathlib.Data.List.SplitBy
import Records.Proofs.Store.Frame
import Records.Staging.Flush

/-!
What a write leaves alone: every row that no edit, no link and no removal is about. An edit never
reaches the id of its row, so rows are told apart by their ids throughout.
-/
namespace Records

open Records.Calendar (Moment)

section Names

theorem Value.mem_merge {es extra : List (String × Value)} {e : String × Value}
    (he : e ∈ Value.merge es extra) : e ∈ es ∨ e ∈ extra := by
  have hput {es : List (String × Value)} {key : String} {v : Value} (he : e ∈ Value.put key v es) :
      e = (key, v) ∨ e ∈ es := by
    induction es with
    | nil => exact .inl (List.mem_singleton.1 he)
    | cons f es ih =>
      unfold Value.put at he
      split at he
      · rcases List.mem_cons.1 he with rfl | he
        · exact .inl rfl
        · exact .inr (List.mem_cons_of_mem _ he)
      · rcases List.mem_cons.1 he with rfl | he
        · exact .inr (List.mem_cons_self ..)
        · exact (ih he).imp_right (List.mem_cons_of_mem _)
  induction extra generalizing es with
  | nil => exact .inl he
  | cons f extra ih =>
    rcases ih he with he | he
    · rcases hput he with rfl | he
      · exact .inr (List.mem_cons_self ..)
      · exact .inl he
    · exact .inr (List.mem_cons_of_mem _ he)

theorem SparesId.merge {es extra : List (String × Value)} (hes : SparesId es)
    (hextra : SparesId extra) : SparesId (Value.merge es extra) :=
  fun e he => (Value.mem_merge he).elim (hes e) (hextra e)

theorem SparesId.lookup? {es : List (String × Value)} (hes : SparesId es) :
    Value.lookup? idColumn.name es = none := by
  have hnone : es.find? (·.1 == idColumn.name) = none :=
    List.find?_eq_none.2 fun e he => by simpa using hes e he
  unfold Value.lookup?
  rw [hnone]
  rfl

namespace Assigned

/-- The columns that are assigned a value are not the id. -/
def Spares (as : Assigned) : Prop := ∀ a ∈ as, a.1.name ≠ idColumn.name

theorem Spares.encode {as forms : Assigned} (has : as.Spares) (h : as.encode = .ok forms) :
    forms.Spares := by
  obtain ⟨values, -, h⟩ := except_bind_ok.1 h
  cases h
  intro a ha
  obtain ⟨b, hb, hsame⟩ := List.mem_map.1 (List.of_mem_zip ha).1
  rw [← hsame]
  exact has b hb

theorem Spares.kept {forms : Assigned} (hforms : forms.Spares) (bound : List Cell) :
    SparesId (forms.kept bound) := by
  induction forms generalizing bound with
  | nil => exact fun e he => by cases he
  | cons a forms ih =>
    cases bound with
    | nil => exact fun e he => by cases he
    | cons c bound =>
      obtain ⟨hfirst, hrest⟩ := List.forall_mem_cons.1 hforms
      exact List.forall_mem_cons.2 ⟨hfirst, ih hrest bound⟩

theorem Spares.cells {forms : Assigned} (hforms : forms.Spares) {cells : List (String × Cell)}
    (h : forms.cells = .ok cells) : SparesId cells := by
  obtain ⟨bound, -, h⟩ := except_bind_ok.1 h
  cases h
  exact hforms.kept bound

end Assigned

theorem Model.spares_changedValues (m : Model) {values : List (String × Value)}
    (hvalues : SparesId values) (r : Row) : (m.changedValues r values).Spares := by
  intro a ha
  obtain ⟨c, -, hc⟩ := List.mem_filterMap.1 ha
  split at hc
  · rename_i v hv
    split at hc
    · cases hc
    · cases hc
      rintro hid
      dsimp only at hid
      rw [hid, hvalues.lookup?] at hv
      cases hv
  · cases hc

theorem Schema.Keyed.spares_updateValues {s : Schema} (hs : s.Keyed) {m : Model} (hm : m ∈ s.models)
    {changed : Assigned} (hchanged : changed.Spares) (now : Moment) :
    (m.updateValues now changed).Spares := by
  intro a ha
  obtain ⟨c, hc, ha⟩ := List.mem_filterMap.1 ha
  split at ha
  · cases ha
    rename_i hfound
    exact hchanged a (List.mem_of_find?_eq_some hfound)
  · split at ha
    · rename_i hrefreshed
      cases ha
      intro hid
      -- The id is not refreshed.
      rw [hs.id_only m hm c hc hid] at hrefreshed
      cases hrefreshed
    · cases ha

end Names

namespace Written

theorem sparesId_bondValues {bonds : List Bond} (hbonds : ∀ b ∈ bonds, b.column ≠ idColumn.name)
    (w : Written) (ref : Ref) : SparesId (w.bondValues bonds ref) := by
  intro e he
  obtain ⟨b, hb, rfl⟩ := List.mem_map.1 he
  exact hbonds b (List.mem_filter.1 hb).1

theorem update_keeps {s : Schema} {m other : Model} {row : Row} {group : List (Int × Assigned)}
    (hgroup : ∀ e ∈ group, e.2.Spares ∧ (other.table = m.table → row.id ≠ e.1)) {w w' : Written}
    (h : w.update s m group = .ok w') (hrow : row ∈ w.store.rows other) :
    row ∈ w'.store.rows other := by
  obtain ⟨encoded, hencoded, h⟩ := except_bind_ok.1 h
  refine foldlM_keeps (P := fun w => row ∈ w.store.rows other) ?_ h hrow
  rintro ⟨id, forms⟩ hmem w w' hstep hrow
  obtain ⟨⟨n, as⟩, hin, hpair⟩ := exists_of_mem_mapM hencoded hmem
  obtain ⟨values, hvalues, hpair⟩ := except_bind_ok.1 hpair
  cases hpair
  obtain ⟨hspares, hne⟩ := hgroup _ hin
  obtain ⟨cells, hcells, hstep⟩ := except_bind_ok.1 hstep
  split at hstep
  · rename_i old hold
    obtain ⟨st, hst, hstep⟩ := except_bind_ok.1 hstep
    cases hstep
    refine Store.change_keeps ((hspares.encode hvalues).cells hcells) (mapError_eq_ok.1 hst) hrow ?_
    intro htable r hr
    rw [List.mem_singleton.1 hr, (Table.mem_of_find? hold).2]
    exact hne htable
  · cases hstep
    exact hrow

theorem add_keeps {m other : Model} (hid : idColumn ∈ m.columns) {row : Row}
    {group : List (Nat × Assigned)} {w w' : Written} (h : w.add m group = .ok w')
    (hrow : row ∈ w.store.rows other) : row ∈ w'.store.rows other := by
  obtain ⟨encoded, -, h⟩ := except_bind_ok.1 h
  refine foldlM_keeps (P := fun w => row ∈ w.store.rows other) ?_ h hrow
  rintro ⟨n, forms⟩ - w w' hstep hrow
  obtain ⟨cells, -, hstep⟩ := except_bind_ok.1 hstep
  dsimp only at hstep
  obtain ⟨⟨st, id⟩, hadded, hstep⟩ := except_bind_ok.1 hstep
  cases hstep
  exact Store.addRow_keeps hid (mapError_eq_ok.1 hadded) hrow

theorem remove_keeps {s : Schema} {m : Model} (hm : m ∈ s.models) {row : Row} {ref : Ref}
    (hne : ref ≠ .stored m.name row.id) {w w' : Written} (h : w.remove s ref = .ok w')
    (hrow : row ∈ w.store.rows m) : row ∈ w'.store.rows m := by
  unfold remove at h
  split at h
  · rename_i owner name id howner
    obtain ⟨st, hst, h⟩ := except_bind_ok.1 h
    cases h
    refine Store.remove_keeps (mapError_eq_ok.1 hst) hrow fun htable hid => hne ?_
    have hm' : s.modelOf? (.stored name id) = some owner := howner
    rw [Schema.eq_of_table hm (Schema.mem_of_model? howner) htable, Schema.name_of_model? howner,
      hid]
  · cases h
    exact hrow

end Written

theorem mem_of_mem_splitBy {α : Type} {r : α → α → Bool} {xs group : List α}
    (hg : group ∈ xs.splitBy r) {x : α} (hx : x ∈ group) : x ∈ xs := by
  have hflat : x ∈ (xs.splitBy r).flatten := List.mem_flatten.2 ⟨group, hg, hx⟩
  rwa [List.flatten_splitBy] at hflat

/-- A plan that leaves ids alone: nothing is given to an id, and no link is one. -/
structure Plan.SparesIds (p : Plan) : Prop where
  edits : ∀ e ∈ p.edits, SparesId e.values
  bonds : ∀ b ∈ p.bonds, b.column ≠ idColumn.name

/-- A row of a model that a plan is about. -/
def Plan.Concerns (p : Plan) (m : Model) (row : Row) : Prop :=
  (∃ e ∈ p.edits, e.model.name = m.name ∧ e.id = row.id) ∨ .stored m.name row.id ∈ p.removals

namespace Plan
variable {s : Schema} {p : Plan} {m other : Model} {row : Row} {now : Moment}

theorem mem_editsAt {level : Nat} {e : Edit} (he : e ∈ p.editsAt m level) :
    e ∈ p.edits ∧ e.model.name = m.name := by
  obtain ⟨hin, hhere⟩ := List.mem_filter.1 (List.mem_mergeSort.1 he)
  exact ⟨hin, beq_iff_eq.1 (Bool.and_eq_true_iff.1 hhere).1⟩

/-- All that a row is given: by its edit, and by the links that are settled in the course of the
write. -/
def given (p : Plan) (w : Written) (m : Model) (e : Edit) : List (String × Value) :=
  Value.merge e.values (w.bondValues p.bonds (.stored m.name e.id))

/-- What an edit writes to its row: nothing where the row has it all. -/
def update? (p : Plan) (now : Moment) (m : Model) (w : Written) (e : Edit) :
    Option (Int × Assigned) :=
  match (w.store.table m.table).find? e.id with
  | some row =>
    let changed := m.changedValues row (p.given w m e)
    if changed.isEmpty then none else some (e.id, m.updateValues now changed)
  | none => none

theorem update?_eq_some {w : Written} {e : Edit} {a : Int × Assigned} :
    p.update? now m w e = some a ↔ ∃ row, (w.store.table m.table).find? e.id = some row ∧
      m.changedValues row (p.given w m e) ≠ [] ∧
        a = (e.id, m.updateValues now (m.changedValues row (p.given w m e))) := by
  unfold update?
  cases (w.store.table m.table).find? e.id with
  | none => simp only [reduceCtorEq, false_and, exists_false]
  | some row =>
    dsimp only
    constructor
    · intro h
      split at h
      · cases h
      · rename_i hsome
        cases h
        exact ⟨row, rfl, fun hnone => hsome (List.isEmpty_iff.2 hnone), rfl⟩
    · rintro ⟨row', hrow, hsome, rfl⟩
      cases hrow
      rw [if_neg fun hnone => hsome (List.isEmpty_iff.1 hnone)]

/-- A round writes its updates first, in groups, and then adds rows. -/
theorem writeLevel_ok {w w' : Written} {level : Nat} (h : p.writeLevel s now m w level = .ok w') :
    ∃ updated, (((p.editsAt m level).filterMap (p.update? now m w)).splitBy fun a b =>
      a.2.map (·.1.name) == b.2.map (·.1.name)).foldlM (Written.update s m) w = .ok updated ∧
        ∃ groups : List (List (List String × Nat × Assigned)),
          groups.foldlM (fun w group => w.add m (group.map (·.2))) updated = .ok w' := by
  obtain ⟨⟨⟩, -, h⟩ := except_bind_ok.1 h
  obtain ⟨updated, hupdated, h⟩ := except_bind_ok.1 h
  exact ⟨updated, hupdated, _, h⟩

theorem adds_keep (hid : idColumn ∈ m.columns) {groups : List (List (List String × Nat × Assigned))}
    {w w' : Written} (h : groups.foldlM (fun w group => w.add m (group.map (·.2))) w = .ok w')
    (hrow : row ∈ w.store.rows other) : row ∈ w'.store.rows other := by
  refine foldlM_keeps (P := fun w => row ∈ w.store.rows other) ?_ h hrow
  exact fun group _ before after hstep hbefore => Written.add_keeps hid hstep hbefore

theorem SparesIds.update? (hs : s.Keyed) (hp : p.SparesIds) (hm : m ∈ s.models) {w : Written}
    {e : Edit} (he : e ∈ p.edits) {a : Int × Assigned} (ha : p.update? now m w e = some a) :
    a.2.Spares := by
  obtain ⟨row, -, -, rfl⟩ := update?_eq_some.1 ha
  have hbonds := Written.sparesId_bondValues hp.bonds w (.stored m.name e.id)
  exact hs.spares_updateValues hm (m.spares_changedValues ((hp.edits e he).merge hbonds) row) now

/-- A row stays as it is while records are written that the row is none of. -/
theorem writeLevel_keeps (hs : s.Keyed) (hp : p.SparesIds) (hm : m ∈ s.models) {level : Nat}
    (hrow : other.table = m.table → ∀ e ∈ p.editsAt m level, e.id ≠ row.id) {w w' : Written}
    (h : p.writeLevel s now m w level = .ok w') (hmem : row ∈ w.store.rows other) :
    row ∈ w'.store.rows other := by
  obtain ⟨updated, hupdated, groups, hadded⟩ := writeLevel_ok h
  refine adds_keep (hs.id_mem m hm) hadded ?_
  refine foldlM_keeps (P := fun w => row ∈ w.store.rows other) ?_ hupdated hmem
  intro group hgroup before after hstep hbefore
  refine Written.update_keeps (fun a ha => ?_) hstep hbefore
  obtain ⟨e, he, ha⟩ := List.mem_filterMap.1 (mem_of_mem_splitBy hgroup ha)
  refine ⟨hp.update? hs hm (mem_editsAt he).1 ha, fun htable hid => hrow htable e he ?_⟩
  obtain ⟨old, -, -, rfl⟩ := update?_eq_some.1 ha
  exact hid.symm

/-- A plan writes to rows under the names of their models. -/
theorem not_edited_of_not_concerns (hm : m ∈ s.models) (hother : other ∈ s.models)
    (hrow : ¬p.Concerns other row) (level : Nat) (htable : other.table = m.table) :
    ∀ e ∈ p.editsAt m level, e.id ≠ row.id := by
  intro e he hid
  obtain ⟨hin, hname⟩ := mem_editsAt he
  refine hrow (.inl ⟨e, hin, ?_, hid⟩)
  rw [hname, Schema.eq_of_table hother hm htable]

theorem write_keeps (hs : s.Keyed) (hp : p.SparesIds) (hother : other ∈ s.models)
    (hrow : ¬p.Concerns other row) {st : Store} {w : Written} (h : p.write s now st = .ok w)
    (hmem : row ∈ st.rows other) : row ∈ w.store.rows other := by
  obtain ⟨written, hwritten, h⟩ := except_bind_ok.1 h
  have hkept : row ∈ written.store.rows other := by
    refine foldlM_keeps (P := fun w => row ∈ w.store.rows other) ?_ hwritten hmem
    intro m hm before after hmodel hbefore
    refine foldlM_keeps (P := fun w => row ∈ w.store.rows other) ?_ hmodel hbefore
    exact fun level _ w w' hlevel hw =>
      writeLevel_keeps hs hp hm (not_edited_of_not_concerns hm hother hrow level) hlevel hw
  refine foldlM_keeps (P := fun w => row ∈ w.store.rows other) ?_ h hkept
  intro ref href before after hstep hbefore
  refine Written.remove_keeps hother ?_ hstep hbefore
  rintro rfl
  exact hrow (.inr (List.mem_reverse.1 href))

end Plan

/-- Staged changes that are only about some records, and leave ids alone. -/
structure Staging.Reaches (s : Schema) (st : Store) (held : Graph) (P : Ref → Prop) (g : Staging) :
    Prop where
  edits : ∀ e ∈ g.edits, P (.stored e.model.name e.id) ∧ SparesId e.values
  bonds : ∀ b ∈ g.bonds st held, P b.record ∧ b.column ≠ idColumn.name
  cleared : ∀ c ∈ g.cleared s st held, P c.1 ∧ c.2 ≠ idColumn.name
  removals : ∀ ref ∈ g.removals s st held, P ref

namespace Staging
variable {s : Schema} {st : Store} {held : Graph} {P : Ref → Prop} {g : Staging}

theorem forall_putEdit {K : String → Int → Prop} {Q : String → Int → String × Value → Prop}
    {m : Model} {id : Int} {values : List (String × Value)} {es : List Edit}
    (hes : ∀ e ∈ es, K e.model.name e.id ∧ ∀ v ∈ e.values, Q e.model.name e.id v)
    (hid : K m.name id) (hvalues : ∀ v ∈ values, Q m.name id v) :
    ∀ e ∈ putEdit m id values es, K e.model.name e.id ∧ ∀ v ∈ e.values, Q e.model.name e.id v := by
  induction es with
  | nil => exact fun e he => List.mem_singleton.1 he ▸ ⟨hid, hvalues⟩
  | cons e es ih =>
    obtain ⟨hfirst, hrest⟩ := List.forall_mem_cons.1 hes
    unfold putEdit
    split
    · rename_i hsame
      refine List.forall_mem_cons.2 ⟨⟨hfirst.1, fun v hv => ?_⟩, hrest⟩
      rcases Value.mem_merge hv with hv | hv
      · exact hfirst.2 v hv
      · have hgiven := hvalues v hv
        rwa [← hsame.1, ← hsame.2] at hgiven
    · exact List.forall_mem_cons.2 ⟨hfirst, ih hrest⟩

theorem Reaches.settledEdits (hg : g.Reaches s st held P) :
    ∀ e ∈ g.settledEdits s st held, P (.stored e.model.name e.id) ∧ SparesId e.values := by
  unfold Staging.settledEdits
  refine List.foldlRecOn (motive := fun g : Staging =>
    ∀ e ∈ g.edits, P (.stored e.model.name e.id) ∧ SparesId e.values) _ _ hg.edits ?_
  rintro edited hedits ⟨ref, values⟩ htouched
  have hreached : P ref ∧ SparesId values := by
    rcases List.mem_append.1 htouched with htouched | htouched
    · obtain ⟨c, hc, hsame⟩ := List.mem_map.1 htouched
      obtain ⟨rfl, rfl⟩ := Prod.mk.inj hsame
      obtain ⟨hreached, hcolumn⟩ := hg.cleared c hc
      exact ⟨hreached, fun e he => List.mem_singleton.1 he ▸ hcolumn⟩
    · obtain ⟨b, hb, hsame⟩ := List.mem_map.1 htouched
      obtain ⟨rfl, rfl⟩ := Prod.mk.inj hsame
      exact ⟨(hg.bonds b hb).1, fun e he => by cases he⟩
  dsimp only
  split
  · rename_i m name id hm
    have hname : m.name = name := Schema.name_of_model? hm
    exact forall_putEdit (K := fun name id => P (.stored name id))
      (Q := fun _ _ v => v.1 ≠ idColumn.name) hedits (hname ▸ hreached.1) hreached.2
  · exact hedits

/-- Rows that staged changes are not about stay as they are when these are written. -/
theorem Reaches.flush_keeps (hs : s.Keyed) (hg : g.Reaches s st held P) {m : Model}
    (hm : m ∈ s.models) {row : Row} (hrow : ¬P (.stored m.name row.id)) {now : Moment} {w : Written}
    (h : g.flush s now st held = .ok w) (hmem : row ∈ st.rows m) : row ∈ w.store.rows m := by
  have hedits (e : Edit) (he : e ∈ (g.plan s st held).edits) :
      P (.stored e.model.name e.id) ∧ SparesId e.values :=
    hg.settledEdits e (List.mem_filter.1 he).1
  have hspares : (g.plan s st held).SparesIds :=
    ⟨fun e he => (hedits e he).2, fun b hb => (hg.bonds b hb).2⟩
  refine Plan.write_keeps hs hspares hm ?_ h hmem
  rintro (⟨e, he, hname, hid⟩ | hremoved)
  · have hreached := (hedits e he).1
    rw [hname, hid] at hreached
    exact hrow hreached
  · exact hrow (hg.removals _ hremoved)

end Staging

end Records
