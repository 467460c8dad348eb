import Records.Proofs.Resource.Reads
import Records.Proofs.Staging.Alike
import Records.Session

/-!
Sessions that act alike: on one store, with the same staged, and with held records that show the
same of the store. Every step of an action tells and yields the same in both, and what is written is
the same.
-/
namespace Records

open Records.Action
open Records.Filter (Predicate)

/-- Sessions on one store that staged the same and hold alike records, some of which both hold. -/
structure Session.Alike (s : Schema) (c : Staging) (held : List (Model × Ref)) (se se' : Session) :
    Prop where
  store_eq : se'.store = se.store
  now_eq : se'.now = se.now
  staged : se.staged = c
  staged_other : se'.staged = c
  active : se.inactive = false
  active_other : se'.inactive = false
  records : Graph.Alike s se.store se.records se'.records
  holds : ∀ e ∈ held, Graph.BothHold e.1 se.records se'.records e.2

/-- Sessions that act alike, whatever they staged. -/
def Session.AlikeStaged (s : Schema) (held : List (Model × Ref)) (se se' : Session) : Prop :=
  ∃ c : Staging, c.Fits s ∧ Session.Alike s c held se se'

/-- Sessions on one store. -/
def Session.SameStore (se se' : Session) : Prop := se'.store = se.store ∧ se'.now = se.now

/-- One session, with nothing staged. -/
def Session.Same (s : Schema) (se se' : Session) : Prop :=
  se' = se ∧ se.staged = .empty ∧ se.inactive = false ∧ se.records.Sound s

section Actions
variable {s : Schema} {c : Staging} {held : List (Model × Ref)} {m : Model}

theorem Session.Alike.sameStore {se se' : Session} (h : Session.Alike s c held se se') :
    Session.SameStore se se' := ⟨h.store_eq, h.now_eq⟩

theorem Session.AlikeStaged.sameStore {se se' : Session} (h : Session.AlikeStaged s held se se') :
    Session.SameStore se se' := by
  obtain ⟨c, -, h⟩ := h
  exact h.sameStore

theorem Session.Alike.unstaged {se se' : Session} (h : Session.Alike s .empty held se se') :
    Session.AlikeStaged s held se se' := ⟨.empty, Staging.fits_empty s, h⟩

theorem Session.Alike.mono {held' : List (Model × Ref)} {se se' : Session}
    (h : Session.Alike s c held se se') (hsub : ∀ e ∈ held', e ∈ held) :
    Session.Alike s c held' se se' :=
  { h with holds := fun e he => h.holds e (hsub e he) }

theorem Session.Alike.head {refs : List Ref} {se se' : Session}
    (h : Session.Alike s c (refs.map (fun ref => (m, ref)) ++ held) se se') :
    Session.Alike s c (refs.head?.toList.map (fun ref => (m, ref)) ++ held) se se' := by
  refine h.mono fun e he => ?_
  rcases List.mem_append.1 he with he | he
  · obtain ⟨ref, href, rfl⟩ := List.mem_map.1 he
    exact List.mem_append_left _
      (List.mem_map_of_mem (List.mem_of_head? (Option.mem_toList.1 href)))
  · exact List.mem_append_right _ he

theorem Session.Same.alike {se se' : Session} (h : Session.Same s se se') :
    Session.Alike s .empty [] se se' := by
  obtain ⟨rfl, hstaged, hactive, hsound⟩ := h
  exact ⟨rfl, rfl, hstaged, hstaged, hactive, hactive, .refl hsound, by simp⟩

theorem Session.same_committed {se se' : Session} (h : Session.SameStore se se') (st : Store) :
    Session.Same s (se.committed st) (se'.committed st) := by
  refine ⟨?_, rfl, rfl, Graph.sound_empty⟩
  unfold Session.committed
  rw [h.2]

theorem Session.same_rolledBack {se se' : Session} (h : Session.SameStore se se') :
    Session.Same s se.rolledBack se'.rolledBack := by
  refine ⟨?_, rfl, rfl, Graph.sound_empty⟩
  unfold Session.rolledBack
  rw [h.1, h.2]

theorem alike_query (q : Query) : Relates (Session.Alike s c held) (Action.query q)
    (fun rows se se' => Session.Alike s c held se se' ∧ ∀ row ∈ rows, row ∈ se.store.rows q.model)
    Session.SameStore := by
  intro se se' h
  unfold Action.query
  rw [h.active, h.active_other, h.store_eq]
  refine ⟨rfl, rfl, ?_⟩
  cases hr : q.run se.store with
  | error e => exact h.sameStore
  | ok rows =>
    obtain rfl := Query.run_ok hr
    refine ⟨h, fun row hrow => ?_⟩
    exact (Query.of_mem_rows hrow).1

theorem alike_count (q : Query) : Relates (Session.Alike s c held) (Action.count q)
    (fun _ => Session.Alike s c held) Session.SameStore := by
  intro se se' h
  unfold Action.count
  rw [h.active, h.active_other, h.store_eq]
  refine ⟨rfl, rfl, ?_⟩
  cases hr : q.count se.store with
  | error e => exact h.sameStore
  | ok n => exact h

/-- The records after rows were held: the rows first, then what is staged for them. -/
theorem records_hold_revalue (se : Session) (rows : List Row) (deferred : List String) :
    (Action.hold s m deferred rows se).session.records =
      (rows.foldl (Graph.hold s se.store m deferred) se.records).revalueAll m
        (fun row => se.staged.valuesOf m.name row.id) rows := by
  unfold Action.hold
  dsimp only
  rw [List.foldl_map]
  rfl

/-- Rows of the store are held alike, and then held in both sessions. -/
theorem alike_hold (hm : m ∈ s.models) (rows : List Row) (deferred : List String) :
    Relates (fun se se' => Session.Alike s c held se se' ∧ ∀ row ∈ rows, row ∈ se.store.rows m)
      (Action.hold s m deferred rows)
      (fun refs => Session.Alike s c (refs.map (fun ref => (m, ref)) ++ held))
      Session.SameStore := by
  rintro se se' ⟨h, hrows⟩
  have hstaged : se'.staged = se.staged := by rw [h.staged, h.staged_other]
  have hheld (g : Graph) {row : Row} (hrow : row ∈ rows) : .stored m.name row.id ∈
      (rows.foldl (Graph.hold s se.store m deferred) g).refs :=
    (Graph.mem_refs_holdAll _).2 (.inr ⟨row, hrow, rfl⟩)
  refine ⟨rfl, rfl, ⟨h.store_eq, h.now_eq, h.staged, h.staged_other, h.active, h.active_other,
    ?_, ?_⟩⟩
  -- Both graphs gain the rows, and then the same values are staged for them in both.
  · rw [records_hold_revalue, records_hold_revalue, h.store_eq, hstaged]
    refine (h.records.holdAll hm hrows deferred).revalueAll fun row hrow => ?_
    exact ⟨hheld _ hrow, hheld _ hrow, row.id, rfl⟩
  · rw [records_hold_revalue, records_hold_revalue, h.store_eq]
    intro e he
    unfold Graph.BothHold
    rw [Graph.refs_revalueAll, Graph.refs_revalueAll]
    rcases List.mem_append.1 he with he | he
    · obtain ⟨ref, href, rfl⟩ := List.mem_map.1 he
      obtain ⟨row, hrow, rfl⟩ := List.mem_map.1 href
      exact ⟨hheld _ hrow, hheld _ hrow, row.id, rfl⟩
    · obtain ⟨hboth, hboth', hkind⟩ := h.holds e he
      exact ⟨(Graph.mem_refs_holdAll _).2 (.inl hboth),
        (Graph.mem_refs_holdAll _).2 (.inl hboth'), hkind⟩

theorem alike_load (hm : m ∈ s.models) {chains : List (List Handle)}
    (hchains : ∀ hs ∈ chains, IsChain s m hs) {refs : List Ref} :
    Relates (Session.Alike s c (refs.map (fun ref => (m, ref)) ++ held))
      (Action.load s chains refs)
      (fun _ => Session.Alike s c (refs.map (fun ref => (m, ref)) ++ held))
      Session.SameStore := by
  refine .modify fun se se' h => ?_
  have hrefs : ∀ ref ∈ refs, Graph.BothHold m se.records se'.records ref := fun ref href =>
    h.holds (m, ref) (List.mem_append_left _ (List.mem_map_of_mem href))
  refine ⟨h.store_eq, h.now_eq, h.staged, h.staged_other, h.active, h.active_other, ?_, ?_⟩
  · dsimp only
    rw [h.store_eq]
    exact h.records.loadChains hm hchains hrefs
  · intro e he
    obtain ⟨hboth, hboth', hkind⟩ := h.holds e he
    dsimp only
    exact ⟨Graph.mem_refs_loadChains hboth, Graph.mem_refs_loadChains hboth', hkind⟩

end Actions

end Records
