import Records.Proofs.Staging.Family

/-!
The rows that new records are written as when they are staged together. A key between two of them is
the id of the one it leads to; every other column holds what it was given, or its default.
-/
namespace Records

open Records.Calendar (Moment)

section Initial
variable {m : Model} {now : Moment} {values : List (String × Value)} {row : Row} {c : Column}

theorem Column.initial_of_ne_null {v : Value} (hv : v ≠ .null) : c.initial now (some v) = v := by
  unfold initial
  split
  · exact absurd ‹_› hv
  · exact absurd ‹_› hv
  · rfl

theorem Column.initial_none (h : c.default = none) : c.initial now none = .null := by
  unfold initial
  rw [h]
  rfl

theorem Column.Keeps.of_null {cell : Cell} (h : c.Keeps .null cell) : cell = .null := by
  obtain ⟨bound, hbound, rfl⟩ := h
  have hnull : (Parameter.mk c.kind.codec .null).cell = .ok .null := by
    cases c.kind <;> rfl
  obtain rfl : bound = .null := Except.ok.inj (hbound.symm.trans hnull)
  unfold Cell.kept
  cases c.kind <;> rfl

theorem Assigned.MadeOf.keeps_initial (h : (m.initialValues now values).MadeOf row)
    (hc : c ∈ m.columns) (hne : c.name ≠ idColumn.name) :
    c.Keeps (c.initial now (Value.lookup? c.name values)) (row.cell c.name) :=
  h.keeps (c, _) (Model.mem_initialValues.2 ⟨hc, .inl hne, rfl⟩) hne

theorem Assigned.MadeOf.cell_of_int (h : (m.initialValues now values).MadeOf row)
    (hc : c ∈ m.columns) (hne : c.name ≠ idColumn.name) (hkind : c.kind = .int) {n : Int}
    (hgiven : Value.lookup? c.name values = some (.int n)) : row.cell c.name = .integer n := by
  have hkeeps := h.keeps_initial hc hne
  rw [hgiven, Column.initial_of_ne_null (v := .int n) nofun] at hkeeps
  exact hkeeps.of_int hkind

theorem Assigned.MadeOf.id_given (h : (m.initialValues now values).MadeOf row)
    (hid : idColumn ∈ m.columns) {v : Value} (hv : Value.lookup? idColumn.name values = some v)
    (hne : v ≠ .null) : v = .int row.id := by
  have hgiven : (idColumn, v) ∈ m.initialValues now values := by
    refine Model.mem_initialValues.2 ⟨hid, .inr ?_, ?_⟩
    · rw [hv]
      exact hne
    · rw [hv]
      exact (Column.initial_of_ne_null hne).symm
  exact h.id_eq _ hgiven rfl

end Initial

namespace Plan
variable {p : Plan} {w : Written} {e : Nat × Draft} {column : String}

theorem lookup?_newValues_of_free
    (h : ∀ b ∈ p.bonds, b.record = .draft e.1 → b.column ≠ column) :
    Value.lookup? column (p.newValues w e) = Value.lookup? column e.2.values := by
  refine Value.lookup?_merge_of_none (Value.lookup?_eq_none fun v hv => ?_) _
  obtain ⟨b, hb, rfl⟩ := List.mem_map.1 hv
  obtain ⟨hb, hrecord⟩ := List.mem_filter.1 hb
  exact h b hb (eq_of_beq hrecord)

/-- A key that leads to one record comes to the id of that. -/
theorem lookup?_newValues_of_bond {b : Bond} (hb : b ∈ p.bonds) (hrecord : b.record = .draft e.1)
    (hunique : ∀ b' ∈ p.bonds, b'.record = b.record → b'.column = b.column →
      b'.target = b.target) {id : Int} (hid : w.id? b.target = some id) :
    Value.lookup? b.column (p.newValues w e) = some (.int id) := by
  have hmem : (b.column, Value.int id) ∈ w.bondValues p.bonds (.draft e.1) :=
    List.mem_map.2 ⟨b, List.mem_filter.2 ⟨hb, beq_iff_eq.2 hrecord⟩, by rw [hid]; rfl⟩
  cases hfound : Value.lookup? b.column (p.newValues w e) with
  | none => exact absurd rfl ((Value.lookup?_merge_eq_none hfound).1 _ hmem)
  | some v =>
    rcases Value.lookup?_merge_cases hfound with hin | ⟨hnone, -⟩
    · obtain ⟨b', hb', hsame⟩ := List.mem_map.1 hin
      obtain ⟨hb', hrecord'⟩ := List.mem_filter.1 hb'
      obtain ⟨hcolumn, rfl⟩ := Prod.mk.inj hsame
      rw [hunique b' hb' ((eq_of_beq hrecord').trans hrecord.symm) hcolumn, hid]
      rfl
    · exact absurd rfl (hnone _ hmem)

end Plan

namespace Family
variable {f : Family} {s : Schema} {st : Store} {held : Graph} {d d' : Member} {now : Moment}

/-- A singular relation keeps one member. -/
theorem eq_of_kept (hd : d ∈ f.kept) (hd' : d' ∈ f.kept) (hhandle : d.handle = d'.handle)
    (hone : d.handle.relation.link.isMany = false) : d = d' := by
  have hlast {d : Member} (hd : d ∈ f.kept) (hone : d.handle.relation.link.isMany = false) :
      f.staging.lastMember? d.handle.relation.name (.draft 0) = some (.draft d.number) := by
    have hstands := (mem_kept.1 hd).2
    unfold Staging.isSuperseded at hstands
    simpa [Member.attachment, hone] using hstands
  have hsame := (hlast hd hone).symm.trans (hhandle ▸ hlast hd' (hhandle ▸ hone))
  exact eq_of_number (mem_kept.1 hd).1 (mem_kept.1 hd').1 (Ref.draft.inj (Option.some.inj hsame))

/-- What a family is written as: a row for the first record, and one for each member that keeps its
place. -/
structure WrittenAs (f : Family) (now : Moment) (row : Row) (placed : List (Member × Row)) :
    Prop where
  kept : placed.map (·.1) = f.kept
  holder_id : ∀ v, Value.lookup? idColumn.name f.holder.values = some v → v ≠ .null →
    v = .int row.id
  holder : ∀ c ∈ f.holder.model.columns, c.name ≠ idColumn.name →
    (∀ e ∈ placed, e.1.handle.relation.link ≠ .parent c.name) →
      c.Keeps (c.initial now (Value.lookup? c.name f.holder.values)) (row.cell c.name)
  parent : ∀ e ∈ placed, ∀ fk, e.1.handle.relation.link = .parent fk →
    row.cell fk = .integer e.2.id
  member : ∀ e ∈ placed, ∀ c ∈ e.1.handle.target.columns, c.name ≠ idColumn.name →
    (c.name = e.1.handle.relation.link.foreignKey → ∃ fk, e.1.handle.relation.link = .parent fk) →
      c.Keeps (c.initial now (Value.lookup? c.name e.1.values)) (e.2.cell c.name)
  child : ∀ e ∈ placed, (∀ fk, e.1.handle.relation.link ≠ .parent fk) →
    e.2.cell e.1.handle.relation.link.foreignKey = .integer row.id

/-- Each record of a family that keeps its place was made a row of the values that the plan gives
it. -/
structure Made (f : Family) (p : Plan) (now : Moment) (w : Written) (row : Row)
    (placed : List (Member × Row)) : Prop where
  kept : placed.map (·.1) = f.kept
  holder_id? : w.id? (.draft 0) = some row.id
  holder : (f.holder.model.initialValues now (p.newValues w (0, f.holder))).MadeOf row
  member_id? : ∀ e ∈ placed, w.id? (.draft e.1.number) = some e.2.id
  member : ∀ e ∈ placed, (e.1.handle.target.initialValues now
    (p.newValues w (e.1.number, e.1.draft))).MadeOf e.2

/-- The rows of a model among those that a family is written as. -/
def rowsOf (f : Family) (row : Row) (placed : List (Member × Row)) (m : Model) : List Row :=
  (if f.holder.model.table = m.table then [row] else []) ++
    (placed.filter (·.1.handle.target.table = m.table)).map (·.2)

section Values
variable {w : Written} {row : Row} {placed : List (Member × Row)}
  (hheld : ∀ n name, held.related? (.draft n) name = none)
include hheld

theorem holder_free {column : String}
    (h : ∀ d ∈ f.kept, d.handle.relation.link ≠ .parent column) :
    Value.lookup? column ((f.staging.plan s st held).newValues w (0, f.holder)) =
      Value.lookup? column f.holder.values := by
  refine Plan.lookup?_newValues_of_free fun b hb hrecord hcolumn => ?_
  obtain ⟨d, hd, rfl⟩ := (mem_bonds hheld).1 hb
  by_cases hup : ∃ fk, d.handle.relation.link = .parent fk
  · obtain ⟨fk, hlink⟩ := hup
    rw [Member.bond_of_parent hlink] at hcolumn
    exact h d hd (hcolumn ▸ hlink)
  · rw [Member.bond_of_child fun fk hl => hup ⟨fk, hl⟩] at hrecord
    exact number_ne_zero (mem_kept.1 hd).1 (Ref.draft.inj hrecord)

theorem member_free (hd : d ∈ f.kept) {column : String} (h : column =
    d.handle.relation.link.foreignKey → ∃ fk, d.handle.relation.link = .parent fk) :
    Value.lookup? column ((f.staging.plan s st held).newValues w (d.number, d.draft)) =
      Value.lookup? column d.values := by
  refine Plan.lookup?_newValues_of_free fun b hb hrecord hcolumn => ?_
  obtain ⟨d', hd', rfl⟩ := (mem_bonds hheld).1 hb
  by_cases hup : ∃ fk, d'.handle.relation.link = .parent fk
  · obtain ⟨fk, hlink⟩ := hup
    rw [Member.bond_of_parent hlink] at hrecord
    exact number_ne_zero (mem_kept.1 hd).1 (Ref.draft.inj hrecord).symm
  · rw [Member.bond_of_child fun fk hl => hup ⟨fk, hl⟩] at hrecord hcolumn
    obtain rfl := eq_of_number (mem_kept.1 hd').1 (mem_kept.1 hd).1 (Ref.draft.inj hrecord)
    exact hup (h hcolumn.symm)

theorem member_bond (hd : d ∈ f.kept) (hlink : ∀ fk, d.handle.relation.link ≠ .parent fk)
    {id : Int} (hid : w.id? (.draft 0) = some id) :
    Value.lookup? d.handle.relation.link.foreignKey
      ((f.staging.plan s st held).newValues w (d.number, d.draft)) = some (.int id) := by
  have hbond := Member.bond_of_child hlink
  have hin : d.bond ∈ f.staging.bonds st held := (mem_bonds hheld).2 ⟨d, hd, rfl⟩
  rw [hbond] at hin
  refine Plan.lookup?_newValues_of_bond
    (b := ⟨.draft d.number, d.handle.relation.link.foreignKey, .draft 0⟩) hin rfl
    (fun b hb hrecord _ => ?_) hid
  obtain ⟨d', hd', rfl⟩ := (mem_bonds hheld).1 hb
  by_cases hup : ∃ fk, d'.handle.relation.link = .parent fk
  · obtain ⟨fk, hlink'⟩ := hup
    rw [Member.bond_of_parent hlink'] at hrecord
    exact absurd (Ref.draft.inj hrecord).symm (number_ne_zero (mem_kept.1 hd).1)
  · rw [Member.bond_of_child fun fk hl => hup ⟨fk, hl⟩]

variable (hs : s.Regular) (hf : f.Fits s)
include hs hf

theorem holder_bond (hd : d ∈ f.kept) {fk : String} (hlink : d.handle.relation.link = .parent fk)
    {id : Int} (hid : w.id? (.draft d.number) = some id) :
    Value.lookup? fk ((f.staging.plan s st held).newValues w (0, f.holder)) =
      some (.int id) := by
  have hbond := Member.bond_of_parent hlink
  have hin : d.bond ∈ f.staging.bonds st held := (mem_bonds hheld).2 ⟨d, hd, rfl⟩
  rw [hbond] at hin
  refine Plan.lookup?_newValues_of_bond (b := ⟨.draft 0, fk, .draft d.number⟩) hin rfl
    (fun b hb hrecord hcolumn => ?_) hid
  obtain ⟨d', hd', rfl⟩ := (mem_bonds hheld).1 hb
  by_cases hup : ∃ fk', d'.handle.relation.link = .parent fk'
  · obtain ⟨fk', hlink'⟩ := hup
    rw [Member.bond_of_parent hlink'] at hcolumn ⊢
    obtain rfl : fk' = fk := hcolumn
    -- Two parents under one key are members of one relation, which is singular.
    have hdeclared := hf.declared d (mem_kept.1 hd).1
    have hdeclared' := hf.declared d' (mem_kept.1 hd').1
    have hhandle : d.handle = d'.handle := by
      refine hs.parents _ hf.holder_mem _ ?_ _ ?_ fk' hlink hlink'
      · rw [← hdeclared.2]
        exact hdeclared.1.mem_handles
      · rw [← hdeclared'.2]
        exact hdeclared'.1.mem_handles
    rw [eq_of_kept hd hd' hhandle (by rw [hlink]; rfl)]
  · rw [Member.bond_of_child fun fk hl => hup ⟨fk, hl⟩] at hrecord
    exact absurd (Ref.draft.inj hrecord) (number_ne_zero (mem_kept.1 hd').1)

omit hs hheld hf in
theorem Made.mem_kept (hmade : f.Made (f.staging.plan s st held) now w row placed)
    {e : Member × Row} (he : e ∈ placed) : e.1 ∈ f.kept := hmade.kept ▸ List.mem_map_of_mem he

theorem Made.holder_id_eq (hmade : f.Made (f.staging.plan s st held) now w row placed) {v : Value}
    (hv : Value.lookup? idColumn.name f.holder.values = some v) (hne : v ≠ .null) :
    v = .int row.id := by
  refine hmade.holder.id_given (hs.id_mem _ hf.holder_mem) ?_ hne
  rw [holder_free hheld fun d hd hlink => ?_, hv]
  refine Update.foreignKey_ne_id hs.toKeyed (hf.declared d (Family.mem_kept.1 hd).1).1 ?_
  rw [hlink]
  rfl

theorem Made.parent_key (hmade : f.Made (f.staging.plan s st held) now w row placed)
    {e : Member × Row} (he : e ∈ placed) {fk : String}
    (hlink : e.1.handle.relation.link = .parent fk) : row.cell fk = .integer e.2.id := by
  have hin := hmade.mem_kept he
  obtain ⟨hdeclared, hparent⟩ := hf.declared e.1 (Family.mem_kept.1 hin).1
  obtain ⟨c, hc, hname, hkind, -⟩ := hs.key hdeclared
  rw [Handle.referrer_of_parent hlink, hparent] at hc
  have hne : c.name ≠ idColumn.name := hname ▸ Update.foreignKey_ne_id hs.toKeyed hdeclared
  obtain rfl : c.name = fk := by rw [hname, hlink]; rfl
  exact hmade.holder.cell_of_int hc hne hkind
    (holder_bond hheld hs hf hin hlink (hmade.member_id? e he))

theorem Made.child_key (hmade : f.Made (f.staging.plan s st held) now w row placed)
    {e : Member × Row} (he : e ∈ placed) (hlink : ∀ fk, e.1.handle.relation.link ≠ .parent fk) :
    e.2.cell e.1.handle.relation.link.foreignKey = .integer row.id := by
  have hin := hmade.mem_kept he
  have hdeclared := (hf.declared e.1 (Family.mem_kept.1 hin).1).1
  obtain ⟨c, hc, hname, hkind, -⟩ := hs.key hdeclared
  rw [Handle.referrer_of_child hlink] at hc
  have hne : c.name ≠ idColumn.name := hname ▸ Update.foreignKey_ne_id hs.toKeyed hdeclared
  rw [← hname]
  refine (hmade.member e he).cell_of_int hc hne hkind ?_
  rw [hname]
  exact member_bond hheld hin hlink hmade.holder_id?

theorem Made.writtenAs (hmade : f.Made (f.staging.plan s st held) now w row placed) :
    f.WrittenAs now row placed where
  kept := hmade.kept
  holder_id _ hv hne := hmade.holder_id_eq hheld hs hf hv hne
  holder c hc hne hfree := by
    have hkeeps := hmade.holder.keeps_initial hc hne
    rwa [holder_free hheld fun d hd => ?_] at hkeeps
    rw [← hmade.kept] at hd
    obtain ⟨e, he, rfl⟩ := List.mem_map.1 hd
    exact hfree e he
  parent _ he _ hlink := hmade.parent_key hheld hs hf he hlink
  member e he c hc hne hfree := by
    have hkeeps := (hmade.member e he).keeps_initial hc hne
    rwa [member_free hheld (hmade.mem_kept he) hfree] at hkeeps
  child _ he hlink := hmade.child_key hheld hs hf he hlink

/-- Staged changes that are a family add a row for each of its records, and do nothing else. -/
theorem write_makes (h : (f.staging.plan s st held).write s now st = .ok w) :
    ∃ row placed, f.Made (f.staging.plan s st held) now w row placed ∧
      ∀ m : Model, (w.store.rows m).Perm (st.rows m ++ f.rowsOf row placed m) := by
  obtain ⟨added, hbecomes, hperm⟩ :=
    (adding hs hheld hf).write_inserts hs.toKeyed hs.names h
  rw [drafts_plan] at hbecomes
  obtain ⟨top, rest, htop, hrest, rfl⟩ := List.forall₂_cons_left_iff.1 hbecomes
  obtain ⟨hlength, hzip⟩ := List.forall₂_iff_zip.1 (List.forall₂_map_left_iff.1 hrest)
  let placed := (f.kept.zip rest).map fun x => (x.1, x.2.row)
  have hmembers (m : Model) : (rest.filter (·.model.table = m.table)).map (·.row) =
      (placed.filter (·.1.handle.target.table = m.table)).map (·.2) := by
    conv_lhs => rw [← List.map_snd_zip hlength.ge]
    rw [List.filter_map, List.map_map, List.filter_map, List.map_map]
    refine congrArg _ (List.filter_congr fun x hx => ?_)
    have hmodel : x.2.model = x.1.handle.target := (hzip hx).model_eq
    dsimp only [Function.comp]
    rw [hmodel]
  refine ⟨top.row, placed, ⟨?_, htop.id?_eq, htop.madeOf, fun e he => ?_, fun e he => ?_⟩,
    fun m => (hperm m).trans (List.Perm.append_left _ (.of_eq ?_))⟩
  · rw [List.map_map]
    exact List.map_fst_zip hlength.le
  · obtain ⟨x, hx, rfl⟩ := List.mem_map.1 he
    exact (hzip hx).id?_eq
  · obtain ⟨x, hx, rfl⟩ := List.mem_map.1 he
    exact (hzip hx).madeOf
  · unfold rowsOf
    have htable : top.model = f.holder.model := htop.model_eq
    rw [← hmembers, List.filter_cons, htable]
    by_cases hsame : f.holder.model.table = m.table <;> simp [hsame]

/-- Staged changes that are a family add the rows of the family, and do nothing else. -/
theorem write_rows (h : (f.staging.plan s st held).write s now st = .ok w) :
    ∃ row placed, f.WrittenAs now row placed ∧ w.id? (.draft 0) = some row.id ∧
      ∀ m : Model, (w.store.rows m).Perm (st.rows m ++ f.rowsOf row placed m) := by
  obtain ⟨row, placed, hmade, hperm⟩ := write_makes hheld hs hf h
  exact ⟨row, placed, hmade.writtenAs hheld hs hf, hmade.holder_id?, hperm⟩

end Values

end Family

end Records
