import Records.Proofs.Staging.Free

/-!
Removing rows one after another. It goes through if no row refers to one that is removed before it;
so the records that are reached from one by steps are removed in the reverse order, in which each
comes before those that lead to it.
-/
namespace Records

section Reach
variable {α : Type} [DecidableEq α] {next : α → List α} {remaining frontier : List α} {a b : α}

theorem mem_of_mem_reach (h : a ∈ reach next remaining frontier) : a ∈ remaining := by
  induction remaining, frontier using reach_induction next with
  | round remaining frontier hround ih =>
    rw [hround] at h
    rcases List.mem_append.1 h with h | h
    · exact (List.mem_filter.1 h).1
    · exact (List.mem_filter.1 (ih h)).1
  | done remaining frontier hdone =>
    rw [hdone] at h
    cases h

theorem mem_reach_of_frontier (ha : a ∈ remaining) (hfrontier : a ∈ frontier) :
    a ∈ reach next remaining frontier := by
  rw [reach, dif_pos ⟨a, ha, hfrontier⟩]
  exact List.mem_append_left _ (List.mem_filter.2 ⟨ha, by simpa using hfrontier⟩)

/-- What is reached is closed under steps. -/
theorem mem_reach_of_next (ha : a ∈ reach next remaining frontier) (hb : b ∈ next a)
    (hremains : b ∈ remaining) : b ∈ reach next remaining frontier := by
  induction remaining, frontier using reach_induction next with
  | round remaining frontier hround ih =>
    rw [hround] at ha ⊢
    by_cases hfresh : b ∈ frontier
    · exact List.mem_append_left _ (List.mem_filter.2 ⟨hremains, by simpa using hfresh⟩)
    · have hlater : b ∈ remaining.removeAll frontier :=
        List.mem_filter.2 ⟨hremains, by simpa using hfresh⟩
      refine List.mem_append_right _ ?_
      rcases List.mem_append.1 ha with ha | ha
      · exact mem_reach_of_frontier hlater (List.mem_flatMap.2 ⟨a, ha, hb⟩)
      · exact ih ha hlater
  | done remaining frontier hdone =>
    rw [hdone] at ha
    cases ha

theorem nodup_reach (h : remaining.Nodup) : (reach next remaining frontier).Nodup := by
  induction remaining, frontier using reach_induction next with
  | round remaining frontier hround ih =>
    rw [hround]
    refine List.nodup_append.2 ⟨h.filter _, ih (h.filter _), ?_⟩
    rintro a ha _ hb rfl
    have hin : a ∈ frontier := by simpa using (List.mem_filter.1 ha).2
    have hout := (List.mem_filter.1 (mem_of_mem_reach hb)).2
    exact absurd hin (by simpa using hout)
  | done remaining frontier hdone =>
    rw [hdone]
    exact .nil

/-- What is reached is on the frontier, or comes after something that leads to it. -/
theorem led_of_reach {l₁ l₂ : List α} (h : reach next remaining frontier = l₁ ++ b :: l₂) :
    b ∈ frontier ∨ ∃ a ∈ l₁, b ∈ next a := by
  induction remaining, frontier using reach_induction next generalizing l₁ with
  | round remaining frontier hround ih =>
    rw [hround] at h
    -- The item is found in a later round, or at the start of one, or in this round.
    rcases List.append_eq_append_iff.1 h with ⟨l, hbefore, hrest⟩ | ⟨l, hfresh, hrest⟩
    · rcases ih hrest with hled | ⟨a, ha, hb⟩
      · obtain ⟨a, ha, hb⟩ := List.mem_flatMap.1 hled
        exact .inr ⟨a, hbefore ▸ List.mem_append_left _ ha, hb⟩
      · exact .inr ⟨a, hbefore ▸ List.mem_append_right _ ha, hb⟩
    · cases l with
      | nil =>
        rcases ih (hrest.symm.trans (List.nil_append _).symm) with hled | ⟨a, ha, -⟩
        · rw [List.append_nil] at hfresh
          obtain ⟨a, ha, hb⟩ := List.mem_flatMap.1 hled
          exact .inr ⟨a, hfresh ▸ ha, hb⟩
        · cases ha
      | cons c l =>
        obtain ⟨rfl, -⟩ := List.cons.inj hrest
        have hb : b ∈ remaining.filter (· ∈ frontier) :=
          hfresh ▸ List.mem_append_right _ (List.mem_cons_self ..)
        exact .inl (by simpa using (List.mem_filter.1 hb).2)
  | done remaining frontier hdone =>
    rw [hdone] at h
    cases l₁ <;> cases h

end Reach

/-- A row has a key that leads to an id of a table. -/
def Row.Refers (m : Model) (row : Row) (table : String) (id : Int) : Prop :=
  ∃ c ∈ m.columns, c.references = some table ∧
    Cell.equals (row.cell c.name) (.integer id) = true

namespace Store
variable {s : Schema} {st : Store} {m m' : Model} {row : Row}

theorem isUnreferenced_iff {table : String} {id : Int} : st.isUnreferenced s table id = true ↔
    ∀ m ∈ s.models, ∀ row ∈ st.rows m, ¬row.Refers m table id := by
  unfold isUnreferenced Row.Refers
  simp only [List.all_eq_true, List.mem_filter, Bool.not_eq_true', beq_iff_eq]
  constructor
  · rintro h m hm row hrow ⟨c, hc, hreferences, hequals⟩
    rw [h m hm c ⟨hc, hreferences⟩ row hrow] at hequals
    cases hequals
  · rintro h m hm c ⟨hc, hreferences⟩ row hrow
    exact Bool.eq_false_iff.2 fun hequals => h m hm row hrow ⟨c, hc, hreferences, hequals⟩

theorem mem_rows_erased (hm : m ∈ s.models) (hm' : m' ∈ s.models) (id : Int) :
    row ∈ (st.setTable m.table ((st.table m.table).erase id)).rows m' ↔
      row ∈ st.rows m' ∧ Ref.stored m'.name row.id ≠ .stored m.name id := by
  by_cases htable : m'.table = m.table
  · obtain rfl := Schema.eq_of_table hm' hm htable
    unfold rows
    rw [table_setTable_self, Table.mem_erase]
    simp
  · have hname : m'.name ≠ m.name := fun h => htable (congrArg _ (Schema.eq_of_name hm' hm h))
    rw [rows_setTable_of_ne htable]
    simp [hname]

end Store

namespace Written
variable {s : Schema} {w : Written}

/-- A record goes if no other row refers to it. -/
theorem remove_runs (ref : Ref) (h : ∀ m ∈ s.models, ∀ id, ref = .stored m.name id →
      ∀ m' ∈ s.models, ∀ row ∈ w.store.rows m', row.Refers m' m.table id →
        .stored m'.name row.id = ref) :
    ∃ w', w.remove s ref = .ok w' ∧ ∀ m ∈ s.models, ∀ row,
      row ∈ w'.store.rows m ↔ row ∈ w.store.rows m ∧ .stored m.name row.id ≠ ref := by
  cases hmodel : s.modelOf? ref with
  | none =>
    refine ⟨w, by unfold remove; rw [hmodel]; rfl, fun m hm row =>
      ⟨fun hrow => ⟨hrow, ?_⟩, And.left⟩⟩
    rintro rfl
    have hsome : s.modelOf? (.stored m.name row.id) = some m := Schema.model?_of_mem hm
    rw [hmodel] at hsome
    cases hsome
  | some m =>
    cases ref with
    | draft n => cases hmodel
    | stored name id =>
      obtain rfl : m.name = name := Schema.name_of_model? hmodel
      have hm : m ∈ s.models := Schema.mem_of_model? hmodel
      have hrows {m' : Model} (hm' : m' ∈ s.models) {row : Row} :
          row ∈ (w.store.setTable m.table ((w.store.table m.table).erase id)).rows m' ↔
            row ∈ w.store.rows m' ∧ Ref.stored m'.name row.id ≠ .stored m.name id :=
        Store.mem_rows_erased hm hm' id
      have hfree : (w.store.setTable m.table ((w.store.table m.table).erase id)).isUnreferenced s
          m.table id = true := by
        refine Store.isUnreferenced_iff.2 fun m' hm' row hrow hrefers => ?_
        obtain ⟨hrow, hne⟩ := (hrows hm').1 hrow
        exact hne (h m hm id rfl m' hm' row hrow hrefers)
      have hremoved : w.store.remove s m id =
          .ok (w.store.setTable m.table ((w.store.table m.table).erase id)) := if_pos hfree
      refine ⟨{ w with store := _ }, ?_, fun m' hm' row => hrows hm'⟩
      unfold remove
      rw [hmodel]
      exact except_bind_ok.2 ⟨_, mapError_eq_ok.2 hremoved, rfl⟩

/-- Records go one after another if each is referred to only by those before it, and by itself. -/
theorem removals_run (refs : List Ref) (h : ∀ before ref after, refs = before ++ ref :: after →
      ∀ m ∈ s.models, ∀ id, ref = .stored m.name id → ∀ m' ∈ s.models, ∀ row ∈ w.store.rows m',
        row.Refers m' m.table id → .stored m'.name row.id ∈ before ∨ .stored m'.name row.id = ref) :
    ∃ w', refs.foldlM (Written.remove s) w = .ok w' ∧ ∀ m ∈ s.models, ∀ row,
      row ∈ w'.store.rows m ↔ row ∈ w.store.rows m ∧ .stored m.name row.id ∉ refs := by
  induction refs generalizing w with
  | nil => exact ⟨w, rfl, by simp⟩
  | cons ref refs ih =>
    obtain ⟨next, hnext, hrows⟩ := remove_runs (w := w) ref fun m hm id href m' hm' row hrow
      hrefers => (h [] ref refs rfl m hm id href m' hm' row hrow hrefers).resolve_left
        List.not_mem_nil
    obtain ⟨w', hw', hrest⟩ := ih (w := next) fun before x after hrefs m hm id hx m' hm' row hrow
      hrefers => by
        obtain ⟨hrow, hne⟩ := (hrows m' hm' row).1 hrow
        rcases h (ref :: before) x after (congrArg (ref :: ·) hrefs) m hm id hx m' hm' row hrow
          hrefers with hin | hself
        · exact .inl ((List.mem_cons.1 hin).resolve_left hne)
        · exact .inr hself
    refine ⟨w', ?_, fun m hm row => ?_⟩
    · rw [List.foldlM_cons]
      exact except_bind_ok.2 ⟨next, hnext, hw'⟩
    · rw [hrest m hm row, hrows m hm row, List.mem_cons, not_or, and_assoc]

end Written

end Records
