import Records.Proofs.Filter.Liveness
import Records.Proofs.Record.Mirror
import Records.Proofs.Resource.Reads

/-!
Sessions on a store and on the store without its trashed rows. Reads that do not ask for trashed
records keep them in step.
-/
namespace Records

open Records.Action
open Records.Filter (Predicate)
open Records.Filter.Predicate (allHold)

/-- Sessions that have staged nothing and hold the same live records, on a store and on its live
part. -/
structure Session.Mirrored (s : Schema) (st : Store) (se se' : Session) : Prop where
  store_eq : se.store = st
  store_live : se'.store = st.live s
  now_eq : se'.now = se.now
  unstaged : se.staged = .empty
  unstaged_live : se'.staged = .empty
  active : se.inactive = false
  active_live : se'.inactive = false
  records : Graph.Mirrored s st se.records se'.records

/-- A query of the live rows of a model, with conditions that look at live rows only. -/
structure Query.IsLive (s : Schema) (st : Store) (q : Query) : Prop where
  model_mem : q.model ∈ s.models
  conditions : ∃ ps, q.conditions = notTrashed q.model ++ ps ∧
    ∀ row, allHold (st.live s) row ps = allHold st row ps

theorem allHold_notTrashed (st : Store) (m : Model) (row : Row) :
    allHold st row (notTrashed m) = m.isLive row := by
  unfold notTrashed Model.isLive
  cases m.softDeletes <;> simp [Predicate.allHold, Predicate.holds]

namespace Query.IsLive
variable {s : Schema} {st : Store} {q : Query}

theorem matching_eq (h : q.IsLive s st) : q.matching (st.live s) = q.matching st := by
  obtain ⟨ps, hps, hlive⟩ := h.conditions
  unfold Query.matching
  rw [Store.rows_live h.model_mem, List.filter_filter, hps]
  refine List.filter_congr fun row _ => ?_
  simp only [Predicate.allHold_append, allHold_notTrashed, hlive]
  cases q.model.isLive row <;> simp

theorem rows_eq (h : q.IsLive s st) : q.rows (st.live s) = q.rows st := by
  unfold Query.rows
  rw [h.matching_eq]

theorem mem_rows (h : q.IsLive s st) {row : Row} (hrow : row ∈ q.rows st) :
    row ∈ st.rows q.model ∧ q.model.isLive row := by
  obtain ⟨ps, hps, -⟩ := h.conditions
  obtain ⟨hmem, hall⟩ := Query.of_mem_rows hrow
  rw [hps, Predicate.allHold_append, allHold_notTrashed, Bool.and_eq_true] at hall
  exact ⟨hmem, hall.1⟩

theorem run_eq (h : q.IsLive s st) : q.run (st.live s) = q.run st := by
  unfold Query.run
  rw [h.rows_eq]

theorem count_eq (h : q.IsLive s st) : q.count (st.live s) = q.count st := by
  unfold Query.count
  rw [h.matching_eq]

end Query.IsLive

/-- Sessions whose relation does not matter, as after a failed read. -/
def Unrelated (_ _ : Session) : Prop := True

section Actions
variable {s : Schema} {st : Store} {m : Model}

/-- Sessions that stay mirrored, with a property of the result. -/
def Session.MirroredWith {α : Type} (s : Schema) (st : Store) (P : α → Prop) (a : α)
    (se se' : Session) : Prop :=
  Session.Mirrored s st se se' ∧ P a

theorem relates_query {q : Query} (hq : q.IsLive s st) :
    Relates (Session.Mirrored s st) (Action.query q) (Session.MirroredWith s st fun rows =>
      ∀ row ∈ rows, row ∈ st.rows q.model ∧ q.model.isLive row) Unrelated := by
  intro se se' h
  have hrun : q.run se'.store = q.run se.store := by rw [h.store_live, h.store_eq, hq.run_eq]
  unfold Action.query
  rw [h.active, h.active_live, hrun]
  refine ⟨rfl, rfl, ?_⟩
  cases hr : q.run se.store with
  | error e => trivial
  | ok rows =>
    obtain rfl := Query.run_ok hr
    exact ⟨h, fun row hrow => hq.mem_rows (h.store_eq ▸ hrow)⟩

theorem relates_count {q : Query} (hq : q.IsLive s st) :
    Relates (Session.Mirrored s st) (Action.count q)
      (fun _ => Session.Mirrored s st) Unrelated := by
  intro se se' h
  have hcount : q.count se'.store = q.count se.store := by
    rw [h.store_live, h.store_eq, hq.count_eq]
  unfold Action.count
  rw [h.active, h.active_live, hcount]
  refine ⟨rfl, rfl, ?_⟩
  cases hr : q.count se.store with
  | error e => trivial
  | ok n => exact h

theorem relates_hold (hm : m ∈ s.models) {rows : List Row}
    (hrows : ∀ row ∈ rows, row ∈ st.rows m ∧ m.isLive row) (deferred : List String) :
    Relates (Session.Mirrored s st) (Action.hold s m deferred rows)
      (Session.MirroredWith s st fun refs => ∀ ref ∈ refs, IsLiveRef st m ref) Unrelated := by
  intro se se' h
  refine ⟨rfl, rfl, ⟨h.store_eq, h.store_live, h.now_eq, h.unstaged, h.unstaged_live, h.active,
    h.active_live, ?_⟩, ?_⟩
  · rw [records_hold h.unstaged, records_hold h.unstaged_live, h.store_eq, h.store_live]
    exact h.records.holdAll hm hrows deferred
  · intro ref href
    obtain ⟨row, hrow, rfl⟩ := List.mem_map.1 href
    exact ⟨row, (hrows row hrow).1, (hrows row hrow).2, rfl⟩

theorem relates_load (hm : m ∈ s.models) {chains : List (List Handle)}
    (hchains : ∀ hs ∈ chains, IsChain s m hs) {refs : List Ref}
    (hrefs : ∀ ref ∈ refs, IsLiveRef st m ref) :
    Relates (Session.Mirrored s st) (Action.load s chains refs)
      (fun _ => Session.Mirrored s st) Unrelated := by
  intro se se' h
  refine ⟨rfl, rfl, ⟨h.store_eq, h.store_live, h.now_eq, h.unstaged, h.unstaged_live, h.active,
    h.active_live, ?_⟩⟩
  change Graph.Mirrored s st (se.records.loadChains s se.store chains refs)
    (se'.records.loadChains s se'.store chains refs)
  rw [h.store_eq, h.store_live]
  exact h.records.loadChains hm hchains hrefs

end Actions

/-- Conditions that hold for the same rows without the trashed ones. -/
def LooksAtLive (s : Schema) (st : Store) (ps : List Predicate) : Prop :=
  ∀ row, allHold (st.live s) row ps = allHold st row ps

theorem looksAtLive {s : Schema} {st : Store} {ps : List Predicate}
    (h : ∀ p ∈ ps, ∀ row, Predicate.holds (st.live s) row p = Predicate.holds st row p) :
    LooksAtLive s st ps := by
  intro row
  induction ps with
  | nil => rfl
  | cons p ps ih =>
    rw [allHold, allHold, h p (List.mem_cons_self ..) row,
      ih fun q hq => h q (List.mem_cons_of_mem _ hq)]

theorem holds_exactly (st st' : Store) (row : Row) (m : Model) (c : Column) (v : Value) :
    Predicate.holds st' row (exactly m c v) = Predicate.holds st row (exactly m c v) := by
  unfold exactly
  split <;> simp only [Predicate.holds]

theorem Resource.respects_mirrored {r : Resource} {st : Store} (hm : r.model ∈ r.schema.models)
    (hscope : LooksAtLive r.schema st r.scope) :
    r.Respects false (LooksAtLive r.schema st) (Session.Mirrored r.schema st) Unrelated where
  fetch := by
    intro q ps hmodel hlooks hconditions chains hchains deferred
    have hq : q.IsLive r.schema st := ⟨hmodel ▸ hm, ps, hmodel ▸ hconditions, hlooks⟩
    unfold fetch
    refine (relates_query hq).bind fun rows => .given fun hrows => ?_
    rw [hmodel] at hrows
    refine (relates_hold hm hrows deferred).bind fun refs => .given fun hrefs => ?_
    exact (relates_load hm hchains hrefs).bind fun _ => .pure fun _ _ h => h
  count := by
    intro q ps hmodel hlooks hconditions
    exact relates_count ⟨hmodel ▸ hm, ps, hmodel ▸ hconditions, hlooks⟩
  fails := fun _ _ _ => trivial
  looks_exactly := by
    intro es
    refine looksAtLive fun p hp row => ?_
    obtain ⟨e, -, rfl⟩ := List.mem_map.1 hp
    exact holds_exactly ..
  looks_filter := by
    intro es ps hps row
    rw [Predicate.allHold_append, Predicate.allHold_append, hscope,
      Filter.allHold_live hps st row]

end Records
