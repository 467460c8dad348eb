import Records.Library.Catalogue
import Records.Library.Resources
import Records.Proofs.Resource.Settled

/-!
Saving a record together with nested ones is all or nothing. Wherever it fails, what was staged
until then is forgotten before the failure is told, and the tables are not touched.
-/
namespace Records

open Records.Action
open Records.Filter (Predicate)

/-- The problem that was met. -/
def Outcome.problem? {α : Type} (o : Outcome α) : Option Problem :=
  match o.result with
  | .error (.problem p) => some p
  | _ => none

theorem Outcome.problem?_eq_some {α : Type} {o : Outcome α} {p : Problem} :
    o.problem? = some p ↔ o.result = .error (.problem p) := by
  unfold problem?
  constructor
  · intro h
    split at h
    · rename_i q hq
      rw [hq, Option.some.inj h]
    · cases h
  · intro h
    rw [h]

/-- A session on the same store, and as usable. -/
def Session.Kept (se se' : Session) : Prop := se.SameStore se' ∧ se'.inactive = se.inactive

theorem Session.Kept.refl (se : Session) : se.Kept se := ⟨⟨rfl, rfl⟩, rfl⟩

/-- A session in which a save was undone: it is as before the save, or has forgotten all it held. -/
def Session.Undone (se se' : Session) : Prop :=
  (se' = se ∨ se' = se.rolledBack) ∧ se'.inactive = false

/-- A failure that is a problem leaves a session in which the save was undone. -/
def Session.FailsUndone (se : Session) (e : Failure) (se' : Session) : Prop :=
  ∀ p, e = .problem p → se.Undone se'

namespace Session
variable {se se' : Session}

theorem rolledBack_of_sameStore (h : SameStore se se') : se'.rolledBack = se.rolledBack := by
  unfold rolledBack
  rw [h.1, h.2]

theorem undone_rolledBack (h : SameStore se se') : se.Undone se'.rolledBack :=
  ⟨.inr (rolledBack_of_sameStore h), rfl⟩

theorem Undone.store_eq (h : se.Undone se') : se'.store = se.store := by
  obtain ⟨rfl | rfl, -⟩ := h <;> rfl

theorem Undone.isClean (h : se.Undone se') (hstaged : se.staged = .empty) : se'.isClean = true := by
  have hempty : se'.staged = .empty := by
    obtain ⟨rfl | rfl, -⟩ := h
    · exact hstaged
    · rfl
  unfold Session.isClean
  rw [hempty, h.2]
  rfl

/-- Forgetting what a settled session holds changes nothing that is seen in it. -/
theorem Undone.alike {s : Schema} (h : se.Undone se') (hse : se.Settled s) :
    Session.Alike s .empty [] se se' := by
  obtain ⟨hstaged, hactive, hstep⟩ := hse
  obtain ⟨rfl | rfl, -⟩ := h
  · exact ⟨rfl, rfl, hstaged, hstaged, hactive, hactive, .refl hstep.sound, by simp⟩
  · exact ⟨rfl, rfl, hstaged, rfl, hactive, rfl, hstep, by simp⟩

theorem failsUndone_of_ne {e : Failure} (h : ∀ p, e ≠ .problem p) : se.FailsUndone e se' :=
  fun p hp => absurd hp (h p)

end Session

namespace Resource
variable {r : Resource} {m : Model} {se : Session}

section Staging
variable {E : Failure → Session → Prop}

theorem leaves_query (q : Query) {P : Session → Prop} :
    Leaves P (Action.query q) (fun _ se' => P se' ∧ se'.inactive = false) se.FailsUndone := by
  intro se' h
  unfold Action.query
  cases ha : se'.inactive with
  | true => exact Session.failsUndone_of_ne nofun
  | false =>
    cases q.run se'.store with
    | error e => exact Session.failsUndone_of_ne nofun
    | ok rows => exact ⟨h, ha⟩

theorem leaves_stage (f : Staging → Staging) :
    Leaves se.Kept (Action.stage f) (fun _ => se.Kept) E :=
  .modify fun _ h => h

theorem leaves_stageDraft (values : List (String × Value)) :
    Leaves se.Kept (Action.stageDraft m values) (fun _ => se.Kept) E :=
  fun _ h => h

theorem leaves_hold {s : Schema} (deferred : List String) (rows : List Row) :
    Leaves se.Kept (Action.hold s m deferred rows) (fun _ => se.Kept) E :=
  fun _ h => h

theorem leaves_toEntries (v : Value) {P : Session → Prop} :
    Leaves P (Action.ofExcept v.toEntries) (fun _ => P) se.FailsUndone := by
  refine .ofExcept (fun _ _ _ h => h) fun e he _ _ => Session.failsUndone_of_ne ?_
  rintro p rfl
  unfold Value.toEntries at he
  split at he <;> cases he

theorem leaves_pendingValue (ref : Ref) (column : String) :
    Leaves se.Kept (pendingValue ref column) (fun _ => se.Kept) E := by
  intro se' h
  cases ref <;> exact h

/-- A lookup that finds nothing leaves the session as it was. -/
theorem leaves_findById (id : Value) (withTrashed : Bool) :
    Leaves (Eq se) (r.findById id [] withTrashed)
      (fun found se' => se.Kept se' ∧ (found = none → se.Undone se')) se.FailsUndone := by
  unfold findById fetch
  refine Leaves.bind (Q := fun refs se' => se.Kept se' ∧ (refs = [] → se.Undone se')) ?_ ?_
  · refine (leaves_query _).bind fun rows => ?_
    refine Leaves.bind
      (Q := fun refs se' => se.Kept se' ∧ (refs = [] → se.Undone se')) ?_ fun refs => ?_
    -- Holding no rows leaves the records as they are.
    · rintro se' ⟨rfl, hactive⟩
      refine ⟨⟨⟨rfl, rfl⟩, rfl⟩, fun hrefs => ?_⟩
      obtain rfl : rows = [] := List.map_eq_nil_iff.1 hrefs
      exact ⟨.inl rfl, hactive⟩
    · exact Leaves.bind (.modify fun _ h => h) fun _ => .pure fun _ h => h
  · intro refs
    refine .pure fun se' h => ⟨h.1, fun hfound => h.2 ?_⟩
    exact List.head?_eq_none_iff.1 hfound

theorem leaves_fill (ref : Ref) (es : List (String × Value)) :
    Leaves se.Kept (fill m ref es) (fun _ => se.Kept) E := by
  cases ref with
  | stored name id => exact leaves_stage _
  | draft n => exact .pure fun _ h => h

theorem leaves_nested (es : List (String × Value)) :
    Leaves se.Kept (r.nested es) (fun _ => se.Kept) E := by
  induction es with
  | nil => exact .pure fun _ h => h
  | cons e es ih =>
    unfold nested
    split
    · split
      · exact ih.bind fun _ => .pure fun _ h => h
      · exact (Leaves.entry _).bind fun _ => ih
    · exact ih

theorem leaves_attachNew (holder : Ref) (h : Handle) (es : List (String × Value)) :
    Leaves se.Kept (attachNew holder h es) (fun _ => se.Kept) E :=
  (leaves_stageDraft _).bind fun _ => leaves_stage _

theorem leaves_belongs (h : Handle) (holder : Ref) :
    Leaves se.Kept (belongs h holder) (fun _ => se.Kept) E := by
  unfold belongs
  split
  · exact (leaves_pendingValue _ _).bind fun _ => .pure fun _ h => h
  · exact (leaves_pendingValue _ _).bind fun _ => .pure fun _ h => h

theorem leaves_findRelated (holder : Ref) (h : Handle) (id : Value) :
    Leaves se.Kept (r.findRelated holder h id) (fun _ => se.Kept) se.FailsUndone := by
  unfold findRelated
  refine (leaves_belongs h holder).bind fun ps => (leaves_query _).bind fun rows => ?_
  refine Leaves.bind (Q := fun _ => se.Kept) (fun se' hse => ?_) fun _ => .pure fun _ h => h
  exact leaves_hold (E := se.FailsUndone) [] rows hse.1

/-- A nested record that is not found is told only after what was staged is forgotten. -/
theorem leaves_attachNested (holder : Ref) (h : Handle) (es : List (String × Value)) :
    Leaves se.Kept (r.attachNested holder h es) (fun _ => se.Kept) se.FailsUndone := by
  unfold attachNested
  split
  · exact leaves_attachNew holder h es
  · refine (leaves_findRelated holder h _).bind fun found => ?_
    cases found with
    | some member => exact (leaves_fill member es).bind fun _ => leaves_stage _
    | none =>
      refine (leaves_pendingValue holder _).bind fun holderId => ?_
      refine Leaves.bind (Q := fun _ => se.Undone) ?_ fun _ se' hse _ _ => hse
      exact .modify fun se' hse' => Session.undone_rolledBack hse'.1

end Staging

section Saving

theorem leaves_flush (s : Schema) : Leaves se.Kept (Action.flush s) (fun _ _ => True)
    fun e se' => (∀ p, e ≠ .problem p) ∧ se.Kept se' := by
  intro se' h
  unfold Action.flush
  cases se'.inactive with
  | true => exact ⟨nofun, h⟩
  | false =>
    simp only [Bool.false_eq_true, if_false]
    cases se'.staged.flush s se'.now se'.store se'.records with
    | ok w => trivial
    | error e => exact ⟨nofun, h⟩

/-- A failed write is rolled back, and it is no problem. -/
theorem leaves_save (s : Schema) : Leaves se.Kept (Action.save s m)
    (fun saved se' => saved = none → se.Undone se') se.FailsUndone := by
  intro se' h
  have hflush := leaves_flush s h
  cases hr : (Action.flush s se').result with
  | ok w =>
    rw [save_apply_of_ok hr]
    exact nofun
  | error e =>
    rw [hr] at hflush
    rcases save_of_error (m := m) hr with ⟨hnone, hsession⟩ | ⟨-, hescaped⟩
    · rw [hnone, hsession]
      exact fun _ => Session.undone_rolledBack hflush.2.1
    · rw [hescaped]
      exact Session.failsUndone_of_ne hflush.1

theorem leaves_saveRecord (ref : Ref) (message : String) :
    Leaves se.Kept (r.saveRecord ref message) (fun saved se' => saved = none → se.Undone se')
      se.FailsUndone := by
  unfold saveRecord
  refine (leaves_save r.schema).bind fun saved => ?_
  cases saved with
  | none => exact .pure fun _ h _ => h rfl
  | some w =>
    -- The record was saved. Reading it back may fail, but that is no problem.
    have hreload : Leaves (fun se' => some w = none → se.Undone se') (r.reload w ref)
        (fun _ _ => True) se.FailsUndone := by
      unfold reload
      split
      · exact fun _ _ => trivial
      · exact fun _ _ => Session.failsUndone_of_ne nofun
    exact hreload.bind fun ref => Leaves.bind (Q := fun _ _ => True) (fun _ _ => trivial) fun _ =>
      .pure fun _ _ => nofun

theorem leaves_store (payload : Value) : Leaves se.Kept (r.store payload)
    (fun saved se' => saved = none → se.Undone se') se.FailsUndone := by
  unfold store
  refine (leaves_toEntries payload).bind fun es => ?_
  refine (leaves_stageDraft _).bind fun holder => ?_
  refine (leaves_nested es).bind fun ns => ?_
  refine (Leaves.forM fun n _ => .forM fun es _ => ?_).bind fun _ => leaves_saveRecord holder _
  exact leaves_attachNew holder n.handle es

theorem leaves_update (id payload : Value) : Leaves (Eq se) (r.update id payload)
    (fun saved se' => saved = none → se.Undone se') se.FailsUndone := by
  unfold update
  refine (leaves_findById id false).bind fun found => ?_
  cases found with
  | none => exact fun se' h _ _ => h.2 rfl
  | some holder =>
    refine Leaves.bind (Q := fun _ => se.Kept)
      (fun se' h => leaves_toEntries payload h.1) fun es => ?_
    refine (leaves_fill holder es).bind fun _ => ?_
    refine (leaves_nested es).bind fun ns => ?_
    refine (Leaves.forM fun n _ => .forM fun es _ => ?_).bind fun _ => leaves_saveRecord holder _
    exact leaves_attachNested holder n.handle es

end Saving

/-- A record is stored or updated, together with nested ones, and that does not go through: nothing
is saved, or a record that is looked up is not found. -/
inductive FailsSave (r : Resource) (se : Session) : Outcome (Option Ref) → Prop
  | store {payload : Value} (h : (r.store payload se).result = .ok none) :
    FailsSave r se (r.store payload se)
  | update {id payload : Value} (h : (r.update id payload se).result = .ok none) :
    FailsSave r se (r.update id payload se)
  | missing {id payload : Value} {p : Problem}
    (h : (r.update id payload se).result = .error (.problem p)) :
    FailsSave r se (r.update id payload se)

theorem FailsSave.undone {o : Outcome (Option Ref)} (h : r.FailsSave se o) :
    se.Undone o.session := by
  cases h with
  | store h => exact (leaves_store _).ok (.refl se) h rfl
  | update h => exact (leaves_update _ _).ok rfl h rfl
  | missing h => exact (leaves_update _ _).error rfl h _ rfl

end Resource

end Records
