import Records.Proofs.Traversal
import Records.Session

/-!
Reading the result and the session of an action off its parts, and comparing what an action does in
two sessions.
-/
namespace Records.Action

variable {α β : Type}

theorem result_bind_ok {x : Action α} {f : α → Action β} {se : Session} {b : β} :
    ((x >>= f) se).result = .ok b ↔
      ∃ a, (x se).result = .ok a ∧ (f a (x se).session).result = .ok b := by
  cases h : (x se).result with
  | ok a => rw [bind_apply_of_ok h]; simp
  | error e => rw [bind_apply_of_error h]; simp

theorem session_bind_of_ok {x : Action α} {f : α → Action β} {se : Session} {a : α}
    (h : (x se).result = .ok a) : ((x >>= f) se).session = (f a (x se).session).session := by
  rw [bind_apply_of_ok h]

theorem result_ofReported_ok {ε : Type} {f : ε → Failure} {x : Reported ε α} {se : Session}
    {a : α} : ((ofReported f x) se).result = .ok a ↔ x.outcome = .ok a := mapError_eq_ok

theorem result_ofReported_error {ε : Type} {f : ε → Failure} {x : Reported ε α} {se : Session}
    {e : ε} (h : x.outcome = .error e) : ((ofReported f x) se).result = .error (f e) := by
  change x.outcome.mapError f = .error (f e)
  rw [h]
  rfl

@[simp] theorem session_ofReported {ε : Type} (f : ε → Failure) (x : Reported ε α) (se : Session) :
    ((ofReported f x) se).session = se := rfl

theorem result_query_ok {q : Query} {se : Session} {rows : List Row} :
    ((query q) se).result = .ok rows ↔ se.inactive = false ∧ q.run se.store = .ok rows := by
  unfold query
  cases se.inactive with
  | true => simp
  | false => simp [mapError_eq_ok]

theorem result_count_ok {q : Query} {se : Session} {n : Nat} :
    ((count q) se).result = .ok n ↔ se.inactive = false ∧ q.count se.store = .ok n := by
  unfold count
  cases se.inactive with
  | true => simp
  | false => simp [mapError_eq_ok]

@[simp] theorem session_count (q : Query) (se : Session) : ((count q) se).session = se := by
  unfold count
  split <;> rfl

theorem result_flush_ok {s : Schema} {se : Session} {w : Written} :
    ((flush s) se).result = .ok w ↔ se.inactive = false ∧
      se.staged.flush s se.now se.store se.records = .ok w := by
  unfold flush
  cases se.inactive with
  | true => simp
  | false => cases se.staged.flush s se.now se.store se.records <;> simp

theorem commit_apply_of_ok {s : Schema} {se : Session} {w : Written}
    (h : (flush s se).result = .ok w) : commit s se = flush s se := by
  unfold commit
  simp only [h]

theorem commit_apply_of_error {s : Schema} {se : Session} {e : Failure}
    (h : (flush s se).result = .error e) :
    commit s se = ⟨(flush s se).log, .error e, (flush s se).session.rolledBack⟩ := by
  unfold commit
  simp only [h]

theorem save_apply_of_ok {s : Schema} {m : Model} {se : Session} {w : Written}
    (h : (flush s se).result = .ok w) :
    save s m se = ⟨(flush s se).log, .ok (some w), (flush s se).session⟩ := by
  unfold save
  simp only [h]

/-- A failed write is rolled back, unless the failure escapes. -/
theorem save_of_error {s : Schema} {m : Model} {se : Session} {e : Failure}
    (h : (flush s se).result = .error e) :
    (save s m se).result = .ok none ∧
        (save s m se).session = (flush s se).session.rolledBack ∨
      e.escapes = true ∧ (save s m se).result = .error e := by
  unfold save
  simp only [h]
  cases e.escapes with
  | true => exact .inr ⟨rfl, rfl⟩
  | false => exact .inl ⟨rfl, rfl⟩

theorem session_save_of_escapes {s : Schema} {m : Model} {se : Session} {e : Failure}
    (h : (flush s se).result = .error e) (he : e.escapes = true) :
    (save s m se).session = { (flush s se).session.rolledBack with inactive := true } := by
  unfold save
  simp only [h, he, if_true]

theorem modify_unchanged (g : Graph) (ref : Ref) :
    g.modify ref (fun n => { n with values := Value.merge n.values [] }) = g := by
  obtain ⟨nodes⟩ := g
  refine congrArg Graph.mk ?_
  conv_rhs => rw [← List.map_id nodes]
  exact List.map_congr_left fun e _ => by simp [Value.merge]

/-- Where nothing is staged, holding rows only adds their records. -/
theorem records_hold {s : Schema} {m : Model} {se : Session} (h : se.staged = .empty)
    (rows : List Row) (deferred : List String) :
    (Action.hold s m deferred rows se).session.records =
      rows.foldl (Graph.hold s se.store m deferred) se.records := by
  -- With no edits, giving the records their staged values changes none of them.
  refine List.foldl_fixed' (fun ref => ?_) _
  cases ref with
  | stored name id =>
    rw [h]
    exact modify_unchanged _ _
  | draft n => rfl

/-- From sessions that stand in one relation, an action tells and yields the same, and leaves
sessions that stand in another: one for each result, and one for failures. -/
def Relates (R : Session → Session → Prop) (x : Action α) (Q : α → Session → Session → Prop)
    (E : Session → Session → Prop) : Prop :=
  ∀ ⦃se se' : Session⦄, R se se' → (x se').log = (x se).log ∧ (x se').result = (x se).result ∧
    match (x se).result with
    | .ok a => Q a (x se).session (x se').session
    | .error _ => E (x se).session (x se').session

section Relates
variable {R : Session → Session → Prop} {Q Q' : α → Session → Session → Prop}
  {E : Session → Session → Prop}

theorem Relates.bind {x : Action α} {f : α → Action β} {S : β → Session → Session → Prop}
    (hx : Relates R x Q E) (hf : ∀ a, Relates (Q a) (f a) S E) : Relates R (x >>= f) S E := by
  intro se se' h
  obtain ⟨hlog, hresult, hsession⟩ := hx h
  cases hr : (x se).result with
  | error e =>
    rw [hr] at hresult hsession
    rw [bind_apply_of_error hr, bind_apply_of_error hresult]
    exact ⟨hlog, rfl, hsession⟩
  | ok a =>
    rw [hr] at hresult hsession
    obtain ⟨hlog', hresult', hsession'⟩ := hf a hsession
    rw [bind_apply_of_ok hr, bind_apply_of_ok hresult]
    exact ⟨by rw [hlog, hlog'], hresult', hsession'⟩

theorem Relates.pure {a : α} (h : ∀ se se', R se se' → Q a se se') :
    Relates R (Pure.pure a : Action α) Q E :=
  fun se se' hR => ⟨rfl, rfl, h se se' hR⟩

theorem Relates.mono {x : Action α} (hx : Relates R x Q E)
    (h : ∀ a se se', Q a se se' → Q' a se se') : Relates R x Q' E := by
  intro se se' hR
  obtain ⟨hlog, hresult, hsession⟩ := hx hR
  refine ⟨hlog, hresult, ?_⟩
  cases hr : (x se).result with
  | ok a =>
    rw [hr] at hsession
    exact h a _ _ hsession
  | error e =>
    rw [hr] at hsession
    exact hsession

theorem Relates.weaken {R' : Session → Session → Prop} {x : Action α} (hx : Relates R x Q E)
    (h : ∀ se se', R' se se' → R se se') : Relates R' x Q E :=
  fun se se' hR => hx (h se se' hR)

/-- What the relation implies may be used. -/
theorem Relates.using {P : Prop} {x : Action α} (h : ∀ se se', R se se' → P)
    (hx : P → Relates R x Q E) : Relates R x Q E :=
  fun se se' hR => hx (h se se' hR) hR

theorem Relates.given {P : Prop} {x : Action α} (h : P → Relates R x Q E) :
    Relates (fun se se' => R se se' ∧ P) x Q E :=
  fun _ _ hR => h hR.2 hR.1

theorem Relates.ofExcept {x : Except Failure α}
    (h : ∀ a, x = .ok a → ∀ se se', R se se' → Q a se se')
    (he : ∀ se se', R se se' → E se se') : Relates R (Action.ofExcept x) Q E := by
  intro se se' hR
  refine ⟨rfl, rfl, ?_⟩
  cases hx : x with
  | ok a => exact h a hx se se' hR
  | error e => exact he se se' hR

theorem Relates.ofReported {ε : Type} {f : ε → Failure} {x : Reported ε α}
    (h : ∀ a, x.outcome = .ok a → ∀ se se', R se se' → Q a se se')
    (he : ∀ se se', R se se' → E se se') : Relates R (Action.ofReported f x) Q E := by
  intro se se' hR
  refine ⟨rfl, rfl, ?_⟩
  cases hx : x.outcome with
  | ok a =>
    rw [result_ofReported_ok.2 hx]
    exact h a hx se se' hR
  | error e =>
    rw [result_ofReported_error hx]
    exact he se se' hR

theorem Relates.raise (p : Problem × LogEntry) (he : ∀ se se', R se se' → E se se') :
    Relates R (Action.raise p : Action α) Q E :=
  fun se se' hR => ⟨rfl, rfl, he se se' hR⟩

theorem Relates.anyOf {ι : Type} {P : ι → Prop} {K : ι → Session → Session → Prop} {x : Action α}
    (h : ∀ i, P i → Relates (K i) x Q E) : Relates (fun se se' => ∃ i, P i ∧ K i se se') x Q E := by
  rintro se se' ⟨i, hi, hK⟩
  exact h i hi hK

theorem Relates.entry (e : LogEntry) : Relates R (Action.entry e) (fun _ => R) E :=
  fun _ _ hR => ⟨rfl, rfl, hR⟩

theorem Relates.modify {f : Session → Session} {S : Session → Session → Prop}
    (h : ∀ se se', R se se' → S (f se) (f se')) : Relates R (Action.modify f) (fun _ => S) E :=
  fun se se' hR => ⟨rfl, rfl, h se se' hR⟩

/-- Looking at the session itself, where what follows does not depend on which of the two it is. -/
theorem Relates.current {f : Session → Action β} {S : β → Session → Session → Prop}
    (h : ∀ se se', R se se' → f se' = f se) (hf : ∀ se, Relates R (f se) S E) :
    Relates R (Action.current >>= f) S E := by
  intro se se' hR
  have hsame := hf se hR
  rw [bind_apply_of_ok (x := Action.current) rfl, bind_apply_of_ok (x := Action.current) rfl]
  change (f se' se').log = _ ∧ (f se' se').result = _ ∧ _
  rw [h se se' hR]
  exact hsame

theorem Relates.forM {γ : Type} {f : γ → Action PUnit} {xs : List γ}
    (h : ∀ x ∈ xs, Relates R (f x) (fun _ => R) E) : Relates R (xs.forM f) (fun _ => R) E := by
  induction xs with
  | nil => exact .pure fun _ _ hR => hR
  | cons x xs ih =>
    refine (h x (List.mem_cons_self ..)).bind fun _ => ?_
    exact ih fun y hy => h y (List.mem_cons_of_mem _ hy)

end Relates

/-- From a session with some property, an action leaves a session with another: one for each result,
and one for each failure. -/
def Leaves (P : Session → Prop) (x : Action α) (Q : α → Session → Prop)
    (E : Failure → Session → Prop) : Prop :=
  ∀ ⦃se : Session⦄, P se → match (x se).result with
    | .ok a => Q a (x se).session
    | .error e => E e (x se).session

section Leaves
variable {P : Session → Prop} {Q : α → Session → Prop} {E : Failure → Session → Prop}

theorem Leaves.ok {x : Action α} (hx : Leaves P x Q E) {se : Session} (hP : P se) {a : α}
    (ha : (x se).result = .ok a) : Q a (x se).session := by
  have h := hx hP
  rwa [ha] at h

theorem Leaves.error {x : Action α} (hx : Leaves P x Q E) {se : Session} (hP : P se) {e : Failure}
    (he : (x se).result = .error e) : E e (x se).session := by
  have h := hx hP
  rwa [he] at h

theorem Leaves.bind {x : Action α} {f : α → Action β} {S : β → Session → Prop}
    (hx : Leaves P x Q E) (hf : ∀ a, Leaves (Q a) (f a) S E) : Leaves P (x >>= f) S E := by
  intro se hP
  cases hr : (x se).result with
  | error e =>
    rw [bind_apply_of_error hr]
    exact hx.error hP hr
  | ok a =>
    rw [bind_apply_of_ok hr]
    exact hf a (hx.ok hP hr)

theorem Leaves.weaken {P' : Session → Prop} {x : Action α} (hx : Leaves P x Q E)
    (h : ∀ se, P' se → P se) : Leaves P' x Q E :=
  fun se hP => hx (h se hP)

theorem Leaves.mono_error {E' : Failure → Session → Prop} {x : Action α} (hx : Leaves P x Q E)
    (h : ∀ e se, E e se → E' e se) : Leaves P x Q E' := by
  intro se hP
  cases hr : (x se).result with
  | ok a => exact hx.ok hP hr
  | error e => exact h e _ (hx.error hP hr)

theorem Leaves.mono {Q' : α → Session → Prop} {x : Action α} (hx : Leaves P x Q E)
    (h : ∀ a se, Q a se → Q' a se) : Leaves P x Q' E := by
  intro se hP
  cases hr : (x se).result with
  | ok a => exact h a _ (hx.ok hP hr)
  | error e => exact hx.error hP hr

theorem Leaves.and {Q' : α → Session → Prop} {E' : Failure → Session → Prop} {x : Action α}
    (hx : Leaves P x Q E) (hx' : Leaves P x Q' E') :
    Leaves P x (fun a se => Q a se ∧ Q' a se) fun e se => E e se ∧ E' e se := by
  intro se hP
  cases hr : (x se).result with
  | ok a => exact ⟨hx.ok hP hr, hx'.ok hP hr⟩
  | error e => exact ⟨hx.error hP hr, hx'.error hP hr⟩

/-- What an action does from one session. -/
theorem leaves_of_eq {se : Session} (x : Action α) : Leaves (Eq se) x
    (fun a se' => (x se).result = .ok a ∧ se' = (x se).session)
    fun e se' => (x se).result = .error e ∧ se' = (x se).session := by
  rintro _ rfl
  split
  · rename_i hr
    exact ⟨hr, rfl⟩
  · rename_i hr
    exact ⟨hr, rfl⟩

theorem Leaves.pure {a : α} (h : ∀ se, P se → Q a se) : Leaves P (Pure.pure a : Action α) Q E :=
  fun se hP => h se hP

theorem Leaves.ofExcept {x : Except Failure α} (h : ∀ a, x = .ok a → ∀ se, P se → Q a se)
    (he : ∀ e, x = .error e → ∀ se, P se → E e se) : Leaves P (Action.ofExcept x) Q E := by
  intro se hP
  cases x with
  | ok a => exact h a rfl se hP
  | error e => exact he e rfl se hP

theorem leaves_ofExcept_same (x : Except Failure α) :
    Leaves P (.ofExcept x) (fun _ => P) fun _ => P :=
  .ofExcept (fun _ _ _ h => h) fun _ _ _ h => h

theorem Leaves.entry (e : LogEntry) : Leaves P (Action.entry e) (fun _ => P) E := fun _ hP => hP

theorem Leaves.modify {f : Session → Session} {S : Session → Prop} (h : ∀ se, P se → S (f se)) :
    Leaves P (Action.modify f) (fun _ => S) E := fun se hP => h se hP

theorem Leaves.given {A : Prop} {x : Action α} (h : A → Leaves P x Q E) :
    Leaves (fun se => P se ∧ A) x Q E :=
  fun _ hP => h hP.2 hP.1

theorem Leaves.forM {γ : Type} {f : γ → Action PUnit} {xs : List γ}
    (h : ∀ x ∈ xs, Leaves P (f x) (fun _ => P) E) : Leaves P (xs.forM f) (fun _ => P) E := by
  induction xs with
  | nil => exact .pure fun _ hP => hP
  | cons x xs ih =>
    refine (h x (List.mem_cons_self ..)).bind fun _ => ?_
    exact ih fun y hy => h y (List.mem_cons_of_mem _ hy)

end Leaves

end Records.Action
