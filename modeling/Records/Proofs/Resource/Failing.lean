import Records.Proofs.Library
import Records.Proofs.Resource.Aftermath
import Records.Proofs.Resource.Committed

/-!
Changes without nested records, when they fail. Whatever they fail on, nothing is written and
nothing stays staged, with one exception: a new record that was given an id which is no number is
written under another id, and then looked for in vain.
-/
namespace Records

open Records.Action

/-- A session that a change left as it found it, but for what it holds, or rolled back. -/
def Session.Cleared (s : Schema) (se se' : Session) : Prop :=
  se.Unharmed s se' ∨ se' = se.rolledBack

namespace Session
variable {s : Schema} {se se' : Session}

theorem Unharmed.ready (h : se.Unharmed s se') (hactive : se.inactive = false) :
    se'.Ready se.store se.now :=
  ⟨h.kept.1.1, h.kept.1.2, h.staged, h.kept.2.trans hactive⟩

theorem Cleared.store_eq (h : se.Cleared s se') : se'.store = se.store := by
  rcases h with h | rfl
  · exact h.kept.1.1
  · rfl

theorem Cleared.isClean (h : se.Cleared s se') (hactive : se.inactive = false) :
    se'.isClean = true := by
  rcases h with h | rfl
  · exact (h.ready hactive).isClean
  · rfl

theorem Cleared.alike (h : se.Cleared s se') (hse : se.Settled s) :
    Session.Alike s .empty [] se se' := by
  rcases h with h | rfl
  · exact h.alike hse.inStep.sound
  · have hundone : se.Undone se.rolledBack := ⟨.inr rfl, rfl⟩
    exact hundone.alike hse

end Session

theorem Cell.ofDouble_ne_null (x : Number.Double) : ofDouble x ≠ .null := by
  rcases ofDouble_cases x with ⟨n, h⟩ | h <;> rw [h] <;> exact nofun

theorem Cell.eq_null_of_kept_integer {c : Cell} (h : c.kept .integer = .null) : c = .null := by
  cases c with
  | null => rfl
  | integer n => cases h
  | blob b => cases h
  | real x => exact absurd h (ofDouble_ne_null x)
  | text s =>
    cases hs : number? s with
    | none =>
      rw [kept_text hs] at h
      cases h
    | some c =>
      rw [kept_of_number? hs] at h
      rcases number?_cases hs with ⟨n, rfl⟩ | ⟨x, rfl⟩
      · cases h
      · exact absurd h (ofDouble_ne_null x)

/-- Only not-a-number is bound as a null without being one. -/
theorem eq_nan_of_keeps_null {v : Value} (hne : v ≠ .null) (h : idColumn.Keeps v .null) :
    v = .float .nan := by
  obtain ⟨bound, hbound, hnull⟩ := h
  rw [Cell.eq_null_of_kept_integer hnull.symm] at hbound
  obtain ⟨form, hform, hbind⟩ := Parameter.cell_ok.1 hbound
  cases hform
  have hbind : Cell.bind v = .ok .null := mapError_eq_ok.1 hbind
  unfold Cell.bind at hbind
  split at hbind
  case h_1 => exact absurd rfl hne
  case h_3 => split at hbind <;> cases hbind
  case h_4 => rfl
  all_goals cases hbind

/-- A new row that is not known by its id: the id that it was given is no number, and it has another
one. -/
structure Model.Misplaces (m : Model) (values : List (String × Value)) (st st' : Store) : Prop where
  given : Value.lookup? idColumn.name values = some (.float .nan)
  added : ∃ row : Row, st' = st.withRow m row ∧ ∀ old ∈ st.rows m, old.id ≠ row.id

/-- A new record that is not known by its number is misplaced. -/
theorem Written.place_misplaces {m : Model} {now : Calendar.Moment} {st : Store} {w : Written}
    {values : List (String × Value)} (hnames : (m.columns.map (·.name)).Nodup)
    (hid : idColumn ∈ m.columns) {n : Nat} {forms : Assigned}
    (hforms : (m.initialValues now values).encode = .ok forms)
    (h : Written.place m ⟨st, []⟩ (n, forms) = .ok w) (hunknown : w.id? (.draft n) = none) :
    m.Misplaces values st w.store := by
  obtain ⟨cells, given, id, hcells, hgiven, hadded, hids⟩ := place_ok h
  obtain ⟨hchecked, hstore⟩ := Store.addRow_ok hadded
  refine ⟨?_, _, hstore, fun old hold => Row.ne_of_check hid hchecked hold⟩
  -- The row would be known if its id had been bound to anything else.
  have hnull : given = some .null := by
    by_contra hne
    unfold id? at hunknown
    rw [hids, if_neg hne] at hunknown
    simp at hunknown
  rw [hnull] at hgiven
  obtain ⟨e, he, hcell⟩ := Option.map_eq_some_iff.1 hgiven
  have hkey : e.1 = idColumn.name := by simpa using List.find?_some he
  obtain ⟨⟨c, v⟩, ha, hname, hkeeps⟩ :=
    (Assigned.keeps_cells (except_bind_ok.2 ⟨forms, hforms, hcells⟩)).2 e
      (List.mem_of_find?_eq_some he)
  obtain ⟨hc, hassigned, hv⟩ := Model.mem_initialValues.1 ha
  obtain rfl : c = idColumn := Model.eq_of_column_name hnames hid hc (hname.symm.trans hkey)
  rw [hcell] at hkeeps
  have hvalue : (Value.lookup? idColumn.name values).getD .null ≠ .null :=
    hassigned.resolve_left fun hne => hne rfl
  cases hlookup : Value.lookup? idColumn.name values with
  | none =>
    rw [hlookup] at hvalue
    exact absurd rfl hvalue
  | some v' =>
    rw [hlookup] at hvalue hv
    have hinitial : idColumn.initial now (some v') = v' := by cases v' <;> rfl
    exact congrArg some (eq_nan_of_keeps_null hvalue ((hv.trans hinitial) ▸ hkeeps))

/-- A change without nested records. -/
def Operation.IsFlat : Operation → Prop
  | .read .. | .store _ | .update .. => False
  | _ => True

namespace Resource
variable {r : Resource} {se : Session}

/-- From a session with some property, a step that fails leaves one that is cleared. -/
def Clears {α : Type} (r : Resource) (se : Session) (P : Session → Prop) (x : Action α) : Prop :=
  Leaves P x (fun _ _ => True) fun _ => se.Cleared r.schema

/-- What an operation leaves when it fails: a session that is cleared, or the row of a new record
that was not found again. -/
def Breaks (r : Resource) (op : Operation) (se : Session) (e : Failure) (se' : Session) : Prop :=
  se.Cleared r.schema se' ∨
    e = .notRefreshed r.model.name ∧ se'.Settled r.schema ∧ ∃ attributes values es,
      (op = .firstOrCreate attributes values ∨ op = .updateOrCreate attributes values) ∧
        mergedEntries attributes values = .ok es ∧
          r.model.Misplaces (r.model.columnValues es) se.store se'.store

theorem Clears.breaks {α : Type} {P : Session → Prop} {x : Action α} (hx : r.Clears se P x)
    (op : Operation) : Leaves P x (fun _ _ => True) (r.Breaks op se) :=
  hx.mono_error fun _ _ h => .inl h

theorem clears_ofExcept {α : Type} (x : Except Failure α) :
    Leaves (se.Unharmed r.schema) (.ofExcept x) (fun a se' => se.Unharmed r.schema se' ∧ x = .ok a)
      fun _ => se.Cleared r.schema :=
  .ofExcept (fun _ hx _ h => ⟨h, hx⟩) fun _ _ _ h => .inl h

theorem clears_tell {P : Session → Prop} (message : String) (data : List (String × Value)) :
    r.Clears se P (r.tell message data) := fun _ _ => trivial

section Lookups
variable (hm : r.model ∈ r.schema.models) (hstaged : se.staged = .empty)
  (hactive : se.inactive = false)
include hm hstaged hactive

/-- A record that is found has a row. -/
theorem clears_findById (id : Value) (withTrashed : Bool) :
    Leaves (Eq se) (r.findById id [] withTrashed)
      (fun found se' => se.Unharmed r.schema se' ∧
        ∀ ref, found = some ref → ∃ row ∈ se.store.rows r.model, ref = r.refOf row)
      fun _ => se.Cleared r.schema :=
  (unharmed_findById hm hstaged hactive id withTrashed).mono_error fun _ _ h => .inl h

theorem clears_findOneBy (criteria : Value) :
    Leaves (Eq se) (r.findOneBy criteria [] false)
      (fun found se' => se.Unharmed r.schema se' ∧
        ∀ ref, found = some ref → ∃ row ∈ se.store.rows r.model, ref = r.refOf row)
      fun _ => se.Cleared r.schema := by
  unfold findOneBy
  refine Leaves.mono_error (E := fun _ => se.Unharmed r.schema) ?_ fun _ _ h => .inl h
  refine (Leaves.mono_error (leaves_conditions_same criteria) fun _ _ h =>
    h ▸ .refl hstaged hactive).bind fun ps => ?_
  exact (unharmed_fetch hm hstaged hactive rfl []).bind fun _ => .pure fun _ h =>
    ⟨h.1, fun ref href => h.2 ref (List.mem_of_head? href)⟩

end Lookups

section Commits

theorem clears_remove (ref : Ref) : r.Clears se (se.Unharmed r.schema) (do
    .stage (·.remove ref)
    let _ ← Action.commit r.schema) := by
  have hstage : Leaves (se.Unharmed r.schema) (.stage (·.remove ref)) (fun _ => se.Kept)
      fun _ => se.Cleared r.schema := (leaves_stage _).weaken fun _ h => h.kept
  refine hstage.bind fun _ => ?_
  refine Leaves.bind (Q := fun _ _ => True) ?_ fun _ => .pure fun _ _ => trivial
  intro se' h
  cases hr : (Action.flush r.schema se').result with
  | ok w =>
    rw [commit_apply_of_ok hr, hr]
    trivial
  | error e =>
    rw [commit_apply_of_error hr]
    have hkept : se.Kept (Action.flush r.schema se').session :=
      ((leaves_flush r.schema).error h hr).2
    exact .inr (Session.rolledBack_of_sameStore hkept.1)

variable (hs : r.schema.Stamped) (hm : r.model ∈ r.schema.models) (hactive : se.inactive = false)
include hs hm hactive

theorem clears_commitValues {row : Row} (hrow : row ∈ se.store.rows r.model)
    (es : List (String × Value)) :
    r.Clears se (se.Unharmed r.schema) (r.commitValues (r.refOf row) es) := by
  intro se' h
  have hready := h.ready hactive
  cases hrewritten : se.store.rewrite r.schema r.model se.now row (r.model.fillValues es) with
  | ok st =>
    rw [(commitValues_of_ok hready hm hrow hs hrewritten).1]
    trivial
  | error e =>
    obtain ⟨hresult, hsession⟩ := commitValues_of_error hready hm hrow hrewritten
    rw [hresult]
    exact .inr (hsession.trans (Session.rolledBack_of_sameStore h.kept.1))

/-- A new record that cannot be read back is there all the same. -/
theorem leaves_create_failing (es : List (String × Value)) :
    Leaves (se.Unharmed r.schema) (r.create es) (fun _ _ => True) fun e se' =>
      se.Cleared r.schema se' ∨ e = .notRefreshed r.model.name ∧ se'.Settled r.schema ∧
        r.model.Misplaces (r.model.columnValues es) se.store se'.store := by
  intro se' h
  rcases create_cases (h.ready hactive) hm es with ⟨e, hresult, hsession⟩ |
    ⟨w, forms, hforms, hplaced, hresult, hsession⟩
  · rw [hresult]
    exact .inl (.inr (hsession.trans (Session.rolledBack_of_sameStore h.kept.1)))
  · rw [hresult, hsession]
    cases hid : w.id? (.draft 0) with
    | some id =>
      obtain ⟨row, -, -, hread, -⟩ :=
        reload_placed (h.ready hactive) hs hm hforms hplaced hid
      rw [hread]
      trivial
    | none =>
      have hreload : r.reload w (.draft 0) (se'.committed w.store) =
          ⟨[], .error (.notRefreshed r.model.name), se'.committed w.store⟩ := by
        unfold reload
        rw [hid]
        rfl
      rw [hreload]
      refine .inr ⟨rfl, Session.settled_of_empty rfl rfl rfl, ?_⟩
      exact Written.place_misplaces (hs.names _ hm) (hs.id_mem _ hm) hforms hplaced hid

end Commits

section Operations
variable (hs : r.schema.Stamped) (hm : r.model ∈ r.schema.models) (hstaged : se.staged = .empty)
  (hactive : se.inactive = false)
include hs hm hstaged hactive

theorem clears_destroy (id : Value) : r.Clears se (Eq se) (r.destroy id) := by
  unfold destroy
  refine (clears_findById hm hstaged hactive id false).bind fun found => .given fun hfound => ?_
  cases found with
  | none => exact fun _ h => .inl h
  | some ref =>
    obtain ⟨row, hrow, rfl⟩ := hfound ref rfl
    refine Leaves.bind (Q := fun _ _ => True) ?_ fun _ => clears_tell _ _
    unfold delete
    split
    · refine Leaves.bind (Q := fun _ => se.Unharmed r.schema) (fun _ h => h) fun _ => ?_
      exact (clears_commitValues hs hm hactive hrow _).bind fun _ => .pure fun _ _ => trivial
    · exact clears_remove _

theorem clears_restore (id : Value) : r.Clears se (Eq se) (r.restore id) := by
  unfold restore
  refine (clears_findById hm hstaged hactive id true).bind fun found => .given fun hfound => ?_
  split
  · rename_i ref hsoft
    obtain ⟨row, hrow, rfl⟩ := hfound ref rfl
    refine Leaves.bind (Q := fun _ _ => True) ?_ fun _ => clears_tell _ _
    exact (clears_commitValues hs hm hactive hrow _).bind fun _ => .pure fun _ _ => trivial
  · exact fun _ h => .inl h

omit hstaged in
theorem breaks_create {attributes values : Value} {op : Operation}
    (hop : op = .firstOrCreate attributes values ∨ op = .updateOrCreate attributes values) :
    Leaves (se.Unharmed r.schema)
      (do return (← r.create (← .ofExcept (mergedEntries attributes values)), true))
      (fun _ _ => True) (r.Breaks op se) := by
  refine ((clears_ofExcept _).mono_error fun _ _ h => .inl h).bind fun es => .given fun hes => ?_
  refine Leaves.bind (Q := fun _ _ => True) ?_ fun _ => .pure fun _ _ => trivial
  refine (leaves_create_failing hs hm hactive es).mono_error fun e se' h => ?_
  exact h.imp_right fun ⟨he, hsettled, hmisplaced⟩ =>
    ⟨he, hsettled, attributes, values, es, hop, hes, hmisplaced⟩

theorem breaks_firstOrCreate (attributes values : Value) :
    Leaves (Eq se) (r.firstOrCreate attributes values) (fun _ _ => True)
      (r.Breaks (.firstOrCreate attributes values) se) := by
  unfold firstOrCreate
  refine ((clears_findOneBy hm hstaged hactive attributes).mono_error fun _ _ h => .inl h).bind
    fun found => .given fun _ => ?_
  cases found with
  | some ref => exact .pure fun _ _ => trivial
  | none => exact breaks_create hs hm hactive (.inl rfl)

theorem breaks_updateOrCreate (attributes values : Value) :
    Leaves (Eq se) (r.updateOrCreate attributes values) (fun _ _ => True)
      (r.Breaks (.updateOrCreate attributes values) se) := by
  unfold updateOrCreate
  refine ((clears_findOneBy hm hstaged hactive attributes).mono_error fun _ _ h => .inl h).bind
    fun found => .given fun hfound => ?_
  cases found with
  | some ref =>
    obtain ⟨row, hrow, rfl⟩ := hfound ref rfl
    refine Clears.breaks ?_ _
    refine (clears_ofExcept _).bind fun es => .given fun _ => ?_
    exact (clears_commitValues hs hm hactive hrow es).bind fun _ => .pure fun _ _ => trivial
  | none => exact breaks_create hs hm hactive (.inr rfl)

omit hs hm in
theorem clears_changeAll (ids : List Value) (es : List (String × Value)) :
    r.Clears se (Eq se) (r.changeAll ids es) := by
  have hsame : ∀ se', se = se' → se.Cleared r.schema se' := by
    rintro _ rfl
    exact .inl (.refl hstaged hactive)
  unfold changeAll
  refine Leaves.bind (Q := fun _ => Eq se) ?_ fun chosen => ?_
  · rintro se' rfl
    split
    · rfl
    · exact hsame _ rfl
  refine Leaves.bind (Q := fun _ => Eq se) (fun _ h => h) fun now => ?_
  dsimp only
  split
  · exact hsame
  refine (Leaves.mono_error (leaves_ofExcept_same _) fun _ => hsame).bind fun written => ?_
  refine Leaves.bind (Q := fun _ _ => True) ?_ fun _ => .pure fun _ _ => trivial
  rintro se' rfl
  unfold Action.commitOn
  cases hr : (Action.commit r.schema { se with store := written.1 }).result with
  | ok w =>
    simp only [hr]
  | error e =>
    simp only [hr]
    exact .inr rfl

omit hs hm in
theorem clears_multiUpdate (ids attributes : Value) :
    r.Clears se (Eq se) (r.multiUpdate ids attributes) := by
  have hsame : ∀ se', se = se' → se.Cleared r.schema se' := by
    rintro _ rfl
    exact .inl (.refl hstaged hactive)
  unfold multiUpdate
  refine (Leaves.mono_error (leaves_ofExcept_same _) fun _ => hsame).bind fun vs => ?_
  refine (Leaves.mono_error (leaves_ofExcept_same _) fun _ => hsame).bind fun es => ?_
  dsimp only
  split
  · exact hsame
  split
  · exact .pure fun _ _ => trivial
  refine (clears_changeAll hstaged hactive vs _).bind fun count => ?_
  exact Leaves.bind (clears_tell _ _) fun _ => .pure fun _ _ => trivial

theorem breaks_perform {op : Operation} (hop : op.IsFlat) :
    Leaves (Eq se) (r.perform op) (fun _ _ => True) (r.Breaks op se) := by
  cases op with
  | read withTrashed q => exact hop.elim
  | store payload => exact hop.elim
  | update id payload => exact hop.elim
  | destroy id =>
    exact ((clears_destroy hs hm hstaged hactive id).breaks _).bind fun _ => .pure fun _ h => h
  | restore id =>
    exact ((clears_restore hs hm hstaged hactive id).breaks _).bind fun _ => .pure fun _ h => h
  | firstOrCreate attributes values =>
    exact (breaks_firstOrCreate hs hm hstaged hactive attributes values).bind fun _ =>
      .pure fun _ h => h
  | updateOrCreate attributes values =>
    exact (breaks_updateOrCreate hs hm hstaged hactive attributes values).bind fun _ =>
      .pure fun _ h => h
  | multiUpdate ids attributes =>
    exact ((clears_multiUpdate hstaged hactive ids attributes).breaks _).bind fun _ =>
      .pure fun _ h => h

end Operations

section Idle
variable (hinactive : se.inactive = true)
include hinactive

/-- A session that has to be rolled back first fetches nothing. -/
theorem idle_fetch (q : Query) :
    Leaves (Eq se) (r.fetch q [] []) (fun _ _ => False) fun _ => Eq se := by
  unfold fetch
  refine Leaves.bind (Q := fun _ _ => False) ?_ fun _ _ h => h.elim
  rintro se' rfl
  unfold Action.query
  rw [hinactive]
  rfl

theorem idle_findById (id : Value) (withTrashed : Bool) :
    Leaves (Eq se) (r.findById id [] withTrashed) (fun _ _ => False) fun _ => Eq se :=
  (idle_fetch hinactive _).bind fun _ _ h => h.elim

theorem idle_findOneBy (criteria : Value) :
    Leaves (Eq se) (r.findOneBy criteria [] false) (fun _ _ => False) fun _ => Eq se := by
  unfold findOneBy
  exact (leaves_conditions_same criteria).bind fun ps =>
    (idle_fetch hinactive _).bind fun _ _ h => h.elim

theorem idle_multiUpdate (ids attributes : Value) :
    Leaves (Eq se) (r.multiUpdate ids attributes) (fun _ _ => True) fun _ => Eq se := by
  unfold multiUpdate
  refine (leaves_ofExcept_same _).bind fun vs => (leaves_ofExcept_same _).bind fun es => ?_
  dsimp only
  split
  · exact fun _ h => h
  split
  · exact .pure fun _ _ => trivial
  refine Leaves.bind (Q := fun _ _ => False) ?_ fun _ _ h => h.elim
  unfold changeAll
  refine Leaves.bind (Q := fun _ => Eq se) ?_ fun chosen => ?_
  · intro se' h
    split <;> exact h
  refine Leaves.bind (Q := fun now se' => se = se' ∧ now.inactive = true) ?_ fun now =>
    .given fun hnow => ?_
  · rintro se' rfl
    exact ⟨rfl, hinactive⟩
  dsimp only
  rw [if_pos hnow]
  exact fun _ h => h

theorem idle_perform {op : Operation} (hop : op.IsFlat) :
    Leaves (Eq se) (r.perform op) (fun _ _ => True) fun _ => Eq se := by
  cases op with
  | read withTrashed q => exact hop.elim
  | store payload => exact hop.elim
  | update id payload => exact hop.elim
  | destroy id =>
    refine Leaves.bind (Q := fun _ _ => False) ?_ fun _ _ h => h.elim
    exact (idle_findById hinactive id false).bind fun _ _ h => h.elim
  | restore id =>
    refine Leaves.bind (Q := fun _ _ => False) ?_ fun _ _ h => h.elim
    exact (idle_findById hinactive id true).bind fun _ _ h => h.elim
  | firstOrCreate attributes values =>
    refine Leaves.bind (Q := fun _ _ => False) ?_ fun _ _ h => h.elim
    exact (idle_findOneBy hinactive attributes).bind fun _ _ h => h.elim
  | updateOrCreate attributes values =>
    refine Leaves.bind (Q := fun _ _ => False) ?_ fun _ _ h => h.elim
    exact (idle_findOneBy hinactive attributes).bind fun _ _ h => h.elim
  | multiUpdate ids attributes =>
    exact (idle_multiUpdate hinactive ids attributes).bind fun _ => .pure fun _ h => h

end Idle

/-- A change without nested records that fails leaves the tables as they were and nothing staged.
What is done later in a settled session has the results, and leaves the tables, that it would have
had without the failed change; where a read has left trashed records out of what is held, it may
instead be as after a rollback, which lets go of all that is held. The exception is a new record
whose id is given as not-a-number: it is written under another id, which the failure comes too late
to prevent. -/
theorem failed_change_leaves_no_trace (hs : r.schema.Stamped) (hm : r.model ∈ r.schema.models)
    {op : Operation} (hop : op.IsFlat) (hstaged : se.staged = .empty) {e : Failure}
    (hfails : (r.perform op se).result = .error e) :
    let se' := (r.perform op se).session
    (se'.store = se.store ∧ se'.staged = .empty ∧ se'.inactive = se.inactive ∧
      ∀ calls : List Call,
        (∀ c ∈ calls, c.resource.schema = r.schema ∧ c.resource.model ∈ r.schema.models) →
        (se.Settled r.schema ∨ se.inactive = true → replay calls se' = replay calls se) ∧
        (se.records.Sound r.schema →
          replay calls se' = replay calls se ∨ replay calls se' = replay calls se.rolledBack)) ∨
    e = .notRefreshed r.model.name ∧ se'.Settled r.schema ∧ ∃ attributes values es,
      (op = .firstOrCreate attributes values ∨ op = .updateOrCreate attributes values) ∧
        mergedEntries attributes values = .ok es ∧
          r.model.Misplaces (r.model.columnValues es) se.store se'.store := by
  intro se'
  cases hactive : se.inactive with
  | true =>
    have hsame : se = se' := (idle_perform hactive hop).error rfl hfails
    rw [← hsame]
    exact .inl ⟨rfl, hstaged, hactive, fun _ _ => ⟨fun _ => rfl, fun _ => .inl rfl⟩⟩
  | false =>
    refine (Leaves.error (breaks_perform hs hm hstaged hactive hop) rfl hfails).imp_left
      fun hcleared => ?_
    obtain ⟨hempty, hstays⟩ := Bool.and_eq_true_iff.1 (hcleared.isClean hactive)
    refine ⟨hcleared.store_eq, eq_of_beq hempty, by simpa using hstays, fun calls hcalls => ?_⟩
    refine ⟨fun hse => replay_alike hcalls (hcleared.alike (hse.resolve_right nofun)), ?_⟩
    intro hsound
    rcases hcleared with hunharmed | hrolledBack
    · exact .inl (replay_alike hcalls (hunharmed.alike hsound))
    · exact .inr (congrArg _ hrolledBack)

/-- An author cannot go without a name, and nothing comes of giving one none. A new author with an
id that is no number is there after the call that failed to create it. -/
theorem failed_change_leaves_no_trace_nameless :
    let se := Library.visit Library.catalogue
    let authors := Library.resource Library.author
    let rename : Operation :=
      .updateOrCreate (.object [("id", .int 1)]) (.object [("name", .null)])
    let add : Operation :=
      .firstOrCreate (.object [("id", .float .nan), ("name", .text "x")]) .null
    let later : Call := ⟨authors, .store (.object [("name", .text "Jane")]), se.now⟩
    ((∃ e, (authors.perform rename se).result = .error e) ∧
      (authors.perform rename se).session.store = Library.catalogue ∧
      replay [later] (authors.perform rename se).session = replay [later] se) ∧
    (∃ e, (authors.perform add se).result = .error e) ∧
      ((authors.perform add se).session.store.rows Library.author).map (·.id) =
        [1, 2, 3, 4, 5, 6, 7, 8, 9] := by
  intro se authors rename add later
  have hfails (op : Operation) (h : (authors.perform op se).result.toOption.isNone = true) :
      ∃ e, (authors.perform op se).result = .error e := by
    cases hr : (authors.perform op se).result with
    | ok reply =>
      rw [hr] at h
      cases h
    | error e => exact ⟨e, rfl⟩
  obtain ⟨e, he⟩ := hfails rename (by decide +kernel)
  refine ⟨⟨⟨e, he⟩, ?_⟩, hfails add (by decide +kernel), by decide +kernel⟩
  have hop : rename.IsFlat := trivial
  rcases failed_change_leaves_no_trace (r := authors) Library.stamped (by decide) hop rfl he with
    ⟨hstore, -, -, hlater⟩ | ⟨-, -, attributes, values, es, hop, hes, hmisplaced⟩
  · refine ⟨hstore, (hlater [later] ?_).1 (.inl (Session.settled_of_empty rfl rfl rfl))⟩
    exact fun c hc => List.mem_singleton.1 hc ▸ ⟨rfl, by decide⟩
  · -- The given id is a number.
    obtain ⟨rfl, rfl⟩ := Operation.updateOrCreate.inj (hop.resolve_left nofun)
    cases hes
    exact absurd hmisplaced.given (by decide +kernel)

end Resource

end Records
