import Records.Proofs.Traversal
import Records.Query

/-!
Which parameters a statement can bind: all of them are taken if each of them is.
-/
namespace Records

/-- The value of a parameter has a cell. -/
def Parameter.Bindable (p : Parameter) : Prop := ∃ c, p.cell = .ok c

theorem Parameter.cell_ok {p : Parameter} {c : Cell} : p.cell = .ok c ↔
    ∃ form, (p.codec.encode p.value).mapError StoreError.codec = .ok form ∧
      (Cell.bind form).mapError StoreError.bind = .ok c := by
  unfold Parameter.cell
  exact except_bind_ok

theorem encodeBoolean_ok {v form : Value} (h : encodeBoolean v = .ok form) : form = v := by
  unfold encodeBoolean at h
  split at h
  case h_3 | h_4 =>
    split at h
    · exact (Except.ok.inj h).symm
    · cases h
  all_goals first
    | exact (Except.ok.inj h).symm
    | cases h

theorem encodeNumber_ok {v form : Value} (hv : v ≠ .null) (h : encodeNumber v = .ok form) :
    ∃ x, form = .float x := by
  unfold encodeNumber at h
  split at h
  case h_1 => exact absurd rfl hv
  case h_7 => cases h
  case h_4 =>
    split at h
    · cases h
    · exact ⟨_, (Except.ok.inj h).symm⟩
  case h_5 | h_6 =>
    split at h
    · exact ⟨_, (Except.ok.inj h).symm⟩
    · cases h
  all_goals exact ⟨_, (Except.ok.inj h).symm⟩

/-- Encoding all values before any is bound takes the same statements as taking them one by one. -/
theorem bindAll_runs {ps : List Parameter} :
    (∃ cells, bindAll ps = .ok cells) ↔ ∀ p ∈ ps, p.Bindable := by
  induction ps with
  | nil => exact ⟨fun _ p hp => (List.not_mem_nil hp).elim, fun _ => ⟨[], rfl⟩⟩
  | cons p ps ih =>
    rw [List.forall_mem_cons, ← ih]
    unfold bindAll encodeAll bindForms
    constructor
    · rintro ⟨cells, h⟩
      obtain ⟨forms, hforms, hcells⟩ := except_bind_ok.1 h
      obtain ⟨form, later, hform, hlater, rfl⟩ := mapM_cons_ok.1 hforms
      obtain ⟨c, rest, hc, hrest, rfl⟩ := mapM_cons_ok.1 hcells
      exact ⟨⟨c, Parameter.cell_ok.2 ⟨form, hform, hc⟩⟩,
        rest, except_bind_ok.2 ⟨later, hlater, hrest⟩⟩
    · rintro ⟨⟨c, h⟩, rest, hps⟩
      obtain ⟨form, hform, hc⟩ := Parameter.cell_ok.1 h
      obtain ⟨later, hlater, hrest⟩ := except_bind_ok.1 hps
      have hforms : encodeAll (p :: ps) = .ok (form :: later) :=
        mapM_cons_ok.2 ⟨form, later, hform, hlater, rfl⟩
      have hcells : bindForms (form :: later) = .ok (c :: rest) :=
        mapM_cons_ok.2 ⟨c, rest, hc, hrest, rfl⟩
      exact ⟨c :: rest, except_bind_ok.2 ⟨_, hforms, hcells⟩⟩

/-- A statement is bound part by part. -/
theorem bindAll_append_ok {ps qs : List Parameter} {cells : List Cell}
    (h : bindAll (ps ++ qs) = .ok cells) :
    ∃ front back, bindAll ps = .ok front ∧ bindAll qs = .ok back ∧ cells = front ++ back := by
  unfold bindAll encodeAll bindForms at h
  obtain ⟨forms, hforms, h⟩ := except_bind_ok.1 h
  rw [List.mapM_append] at hforms
  obtain ⟨xs, hxs, hforms⟩ := except_bind_ok.1 hforms
  obtain ⟨ys, hys, hforms⟩ := except_bind_ok.1 hforms
  cases hforms
  rw [List.mapM_append] at h
  obtain ⟨front, hfront, h⟩ := except_bind_ok.1 h
  obtain ⟨back, hback, h⟩ := except_bind_ok.1 h
  cases h
  exact ⟨front, back, except_bind_ok.2 ⟨xs, hxs, hfront⟩, except_bind_ok.2 ⟨ys, hys, hback⟩, rfl⟩

theorem Parameter.bindable_int {n : Int} :
    Parameter.Bindable ⟨.raw, .int n⟩ ↔ fitsInteger n = true := by
  unfold Parameter.Bindable
  constructor
  · rintro ⟨c, h⟩
    obtain ⟨form, hform, hc⟩ := Parameter.cell_ok.1 h
    cases hform
    by_contra hn
    simp [Cell.bind, hn, Except.mapError] at hc
  · intro hn
    refine ⟨.integer n, Parameter.cell_ok.2 ⟨.int n, rfl, ?_⟩⟩
    simp [Cell.bind, hn, Except.mapError]

namespace Query

theorem run_runs {q : Query} {s : Store} :
    q.run s = .ok (q.rows s) ↔ ∀ p ∈ q.parameters ++ windowParameters q.window, p.Bindable := by
  rw [run_eq_ok, ← bindAll_runs]
  exact and_iff_left rfl

theorem count_runs {q : Query} {s : Store} :
    q.count s = .ok (q.matching s).length ↔ ∀ p ∈ q.parameters, p.Bindable := by
  rw [← bindAll_runs]
  unfold count
  cases bindAll q.parameters <;> simp [bind, Except.bind, pure, Except.pure]

end Query

end Records
