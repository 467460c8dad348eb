import Mathlib.Data.List.Perm.Basic
import Records.Proofs.Staging.Added

/-!
The rows that come of a plan with new records only. Each is written in the round of its model and
rank; where the records that its links lead to are written before it, its foreign keys come to their
ids.
-/
namespace Records

open Records.Calendar (Moment)

section Lists
variable {α κ : Type}

/-- Items are sorted by their keys without loss. -/
theorem perm_flatMap_filter [DecidableEq κ] {keys : List κ} (hkeys : keys.Nodup) {key : α → κ}
    {xs : List α} (h : ∀ x ∈ xs, key x ∈ keys) :
    (keys.flatMap fun k => xs.filter (key · = k)).Perm xs := by
  induction keys generalizing xs with
  | nil => cases xs with
    | nil => exact .refl _
    | cons x xs => exact absurd (h x (List.mem_cons_self ..)) List.not_mem_nil
  | cons k keys ih =>
    obtain ⟨hk, hkeys⟩ := List.nodup_cons.1 hkeys
    -- The items under the other keys are those that are left when the first are taken out.
    have hothers : keys.flatMap (fun k' => xs.filter (key · = k')) =
        keys.flatMap fun k' => (xs.filter fun x => !decide (key x = k)).filter (key · = k') := by
      refine List.flatMap_congr fun k' hk' => ?_
      rw [List.filter_filter]
      refine List.filter_congr fun x _ => ?_
      by_cases hx : key x = k'
      · have hne : k' ≠ k := fun hsame => hk (hsame ▸ hk')
        simp [hx, hne]
      · simp [hx]
    rw [List.flatMap_cons, hothers]
    refine (List.Perm.append_left _ (ih hkeys fun x hx => ?_)).trans (List.filter_append_perm ..)
    obtain ⟨hx, hne⟩ := List.mem_filter.1 hx
    exact (List.mem_cons.1 (h x hx)).resolve_left (by simpa using hne)

/-- What comes before an item of a list stands in front of it wherever the list is cut at it. -/
theorem mem_of_pair_sublist {x y : α} {before after : List α} (hd : (before ++ x :: after).Nodup)
    (h : [y, x].Sublist (before ++ x :: after)) : y ∈ before := by
  obtain ⟨front, back, hsplit, hfront, hback⟩ := List.sublist_append_iff.1 h
  cases front with
  | cons z front =>
    obtain ⟨rfl, -⟩ := List.cons.inj hsplit
    exact hfront.subset (List.mem_cons_self ..)
  | nil =>
    rw [List.nil_append] at hsplit
    rw [← hsplit] at hback
    have hafter : x ∈ after := by
      cases hback with
      | cons _ hlater => exact hlater.subset (List.mem_cons_of_mem _ (List.mem_singleton_self x))
      | cons_cons _ hlater => exact hlater.subset (List.mem_singleton_self x)
    exact absurd hafter (List.nodup_cons.1 (List.nodup_append.1 hd).2.1).1

theorem forall₂_imp_of_mem {β : Type} {R S : α → β → Prop} {xs : List α} {ys : List β}
    (h : List.Forall₂ R xs ys) (hRS : ∀ x ∈ xs, ∀ y ∈ ys, R x y → S x y) :
    List.Forall₂ S xs ys := by
  obtain ⟨hlength, hzip⟩ := List.forall₂_iff_zip.1 h
  refine List.forall₂_iff_zip.2 ⟨hlength, fun {x y} hxy => ?_⟩
  obtain ⟨hx, hy⟩ := List.of_mem_zip hxy
  exact hRS x hx y hy (hzip hxy)

end Lists

/-- Under numbers of their own, the rows that are added are those of their numbers. -/
theorem Written.Gains.id?_of_mem {w w' : Written} {added : List Addition} (h : w.Gains w' added)
    (hd : (w'.ids.map (·.1)).Nodup) {a : Addition} (ha : a ∈ added) :
    w'.id? (.draft a.number) = some a.row.id := by
  have hin : (a.number, a.row.id) ∈ w'.ids := by
    rw [h.ids_eq]
    exact List.mem_append_right _ (List.mem_map.2 ⟨a, ha, rfl⟩)
  unfold Written.id?
  dsimp only
  rw [find?_of_nodup hd hin]
  rfl

theorem Written.exists_id? {w : Written} {n : Nat} (hn : n ∈ w.ids.map (·.1)) :
    ∃ id, w.id? (.draft n) = some id := by
  obtain ⟨e, he, rfl⟩ := List.mem_map.1 hn
  have hfound : (w.ids.find? (·.1 == e.1)).isSome :=
    List.find?_isSome.2 ⟨e, he, beq_self_eq_true _⟩
  obtain ⟨e', he'⟩ := Option.isSome_iff_exists.1 hfound
  unfold id?
  dsimp only
  rw [he']
  exact ⟨e'.2, rfl⟩

namespace Plan
variable {s : Schema} {p : Plan} {now : Moment} {w w' : Written}

/-- All that a new record is given: by itself, and by the links that are settled by then. -/
def newValues (p : Plan) (w : Written) (e : Nat × Draft) : List (String × Value) :=
  Value.merge e.2.values (w.bondValues p.bonds (.draft e.1))

/-- The rounds in the order in which they are written. -/
def steps (p : Plan) (s : Schema) : List (Model × Nat) :=
  s.models.flatMap fun m => (List.range p.rounds).map fun level => (m, level)

def writeStep (s : Schema) (now : Moment) (p : Plan) (w : Written) (step : Model × Nat) :
    Except WriteError Written :=
  p.writeLevel s now step.1 w step.2

theorem nodup_steps (p : Plan) (s : Schema) : (p.steps s).Nodup :=
  (s.distinctNames.of_map _).product List.nodup_range

theorem foldlM_steps (w : Written) :
    s.models.foldlM (p.writeModel s now) w = (p.steps s).foldlM (p.writeStep s now) w := by
  unfold steps
  induction s.models generalizing w with
  | nil => rfl
  | cons m models ih =>
    rw [List.foldlM_cons, List.flatMap_cons, List.foldlM_append, List.foldlM_map]
    exact bind_congr ih

/-- What a plan that only adds records needs: each has a number of its own and an integer for its
id, if any, and the records that its links lead to are new ones that are written before it. -/
structure Adding (s : Schema) (p : Plan) : Prop where
  edits : p.edits = []
  removals : p.removals = []
  numbers : (p.drafts.map (·.1)).Nodup
  models : ∀ e ∈ p.drafts, e.2.model ∈ s.models
  ids : ∀ e ∈ p.drafts, ∀ v, Value.lookup? idColumn.name e.2.values = some v → v ≠ .null →
    ∃ n, v = .int n
  keys : ∀ b ∈ p.bonds, b.column ≠ idColumn.name
  ready : ∀ e ∈ p.drafts, ∀ b ∈ p.bonds, b.record = .draft e.1 → ∃ e' ∈ p.drafts,
    b.target = .draft e'.1 ∧ [(e'.2.model, p.rank (.draft e'.1)),
      (e.2.model, p.rank (.draft e.1))].Sublist (p.steps s)

theorem mem_draftsAt {m : Model} {level : Nat} {e : Nat × Draft} :
    e ∈ p.draftsAt m level ↔ e ∈ p.drafts ∧ e.2.model.name = m.name ∧
      p.rank (.draft e.1) = level := by
  unfold draftsAt
  rw [List.mem_filter, Bool.and_eq_true, beq_iff_eq, beq_iff_eq]

theorem mem_steps {step : Model × Nat} : step ∈ p.steps s ↔ step.1 ∈ s.models ∧
    step.2 < p.rounds := by
  unfold steps
  constructor
  · intro hstep
    obtain ⟨m, hm, hstep⟩ := List.mem_flatMap.1 hstep
    obtain ⟨level, hlevel, rfl⟩ := List.mem_map.1 hstep
    exact ⟨hm, List.mem_range.1 hlevel⟩
  · rintro ⟨hm, hlevel⟩
    exact List.mem_flatMap.2 ⟨_, hm, List.mem_map.2 ⟨_, List.mem_range.2 hlevel, rfl⟩⟩

/-- The new records that some rounds write. -/
def draftsIn (p : Plan) (steps : List (Model × Nat)) : List (Nat × Draft) :=
  steps.flatMap fun step => p.draftsAt step.1 step.2

/-- The round in which a new record is written. -/
def stepOf (p : Plan) (e : Nat × Draft) : Model × Nat := (e.2.model, p.rank (.draft e.1))

/-- A new record has become a row, with all that it is given. -/
structure Becomes (p : Plan) (now : Moment) (w : Written) (e : Nat × Draft) (a : Addition) :
    Prop where
  model_eq : a.model = e.2.model
  id?_eq : w.id? (.draft e.1) = some a.row.id
  madeOf : (e.2.model.initialValues now (p.newValues w e)).MadeOf a.row

namespace Adding
variable (hs : s.Keyed) (hnames : ∀ m ∈ s.models, (m.columns.map (·.name)).Nodup)
  (hp : p.Adding s)
include hp

theorem draftsAt_eq {step : Model × Nat} (hstep : step ∈ p.steps s) :
    p.draftsAt step.1 step.2 = p.drafts.filter (p.stepOf · = step) := by
  obtain ⟨m, level⟩ := step
  refine List.filter_congr fun e he => Bool.eq_iff_iff.2 ?_
  rw [Bool.and_eq_true, beq_iff_eq, beq_iff_eq, decide_eq_true_iff]
  constructor
  · rintro ⟨hname, hlevel⟩
    exact Prod.ext (Schema.eq_of_name (hp.models e he) (mem_steps.1 hstep).1 hname) hlevel
  · intro hsame
    obtain ⟨hmodel, hlevel⟩ := Prod.mk.inj hsame
    exact ⟨congrArg Model.name hmodel, hlevel⟩

/-- Each new record is written in one round. -/
theorem draftsIn_steps : (p.draftsIn (p.steps s)).Perm p.drafts := by
  have hfilter : p.draftsIn (p.steps s) =
      (p.steps s).flatMap fun step => p.drafts.filter (p.stepOf · = step) :=
    List.flatMap_congr fun step hstep => hp.draftsAt_eq hstep
  rw [hfilter]
  refine perm_flatMap_filter (nodup_steps p s) fun e he => ?_
  exact mem_steps.2 ⟨hp.models e he, rank_lt_rounds p _⟩

/-- Once the records that the links of a new one lead to have ids, these stay what they are. -/
theorem newValues_eq {before after : List (Model × Nat)} {e : Nat × Draft} (he : e ∈ p.drafts)
    (hsteps : p.steps s = before ++ p.stepOf e :: after)
    (hids : w.ids.map (·.1) = (p.draftsIn before).map (·.1)) {added : List Addition}
    (hgains : w.Gains w' added) : p.newValues w' e = p.newValues w e := by
  refine congrArg (Value.merge e.2.values) (List.map_congr_left fun b hb => ?_)
  obtain ⟨hb, hrecord⟩ := List.mem_filter.1 hb
  obtain ⟨e', he', htarget, hbefore⟩ := hp.ready e he b hb (beq_iff_eq.1 hrecord)
  have hnodup := nodup_steps p s
  rw [hsteps] at hbefore hnodup
  have hearlier := mem_of_pair_sublist hnodup hbefore
  have hwritten : e' ∈ p.draftsIn before :=
    List.mem_flatMap.2 ⟨_, hearlier, mem_draftsAt.2 ⟨he', rfl, rfl⟩⟩
  obtain ⟨id, hid⟩ := Written.exists_id? (hids ▸ List.mem_map_of_mem hwritten)
  rw [htarget, hid, hgains.id?_eq hid]

include hs hnames

theorem proper_newValues {e : Nat × Draft} (he : e ∈ p.drafts) (w : Written) :
    (e.2.model.initialValues now (p.newValues w e)).Proper := by
  have hm := hp.models e he
  refine Model.proper_initialValues (hnames _ hm) (hs.id_only _ hm) fun v hv hne => ?_
  have hspares := (Written.sparesId_bondValues hp.keys w (.draft e.1)).lookup?
  unfold newValues at hv
  rw [Value.lookup?_merge_of_none hspares] at hv
  exact hp.ids e he v hv hne

/-- In a round, each new record of the model and rank is written as a row. -/
theorem writeStep_gains {step : Model × Nat} (hstep : step ∈ p.steps s)
    (h : p.writeStep s now w step = .ok w') : ∃ added, w.Gains w' added ∧
      List.Forall₂ (fun e a => Addition.Writes a e.2.model
        (e.1, e.2.model.initialValues now (p.newValues w e))) (p.draftsAt step.1 step.2) added := by
  obtain ⟨m, level⟩ := step
  have hm : m ∈ s.models := (mem_steps.1 hstep).1
  have hmodel {e : Nat × Draft} (he : e ∈ p.draftsAt m level) : e.2.model = m := by
    obtain ⟨hin, hname, -⟩ := mem_draftsAt.1 he
    exact Schema.eq_of_name (hp.models e hin) hm hname
  have hedits : p.editsAt m level = [] :=
    List.eq_nil_iff_forall_not_mem.2 fun e he => by
      have hin := (mem_editsAt he).1
      rw [hp.edits] at hin
      cases hin
  obtain ⟨⟨⟩, -, h⟩ := except_bind_ok.1 h
  obtain ⟨updated, hupdated, h⟩ := except_bind_ok.1 h
  rw [hedits] at hupdated
  cases hupdated
  have hproper : ∀ a ∈ (p.draftsAt m level).map fun e => (m.omitted (p.newValues w e), e.1,
      m.initialValues now (p.newValues w e)), a.2.2.Proper := by
    intro a ha
    obtain ⟨e, he, rfl⟩ := List.mem_map.1 ha
    have hinitial : (e.2.model.initialValues now (p.newValues w e)).Proper :=
      proper_newValues hs hnames hp (mem_draftsAt.1 he).1 w
    rwa [hmodel he] at hinitial
  obtain ⟨added, hgains, hadded⟩ := Written.adds_gains (hs.id_mem m hm)
    (by rw [List.flatten_splitBy]; exact hproper) h
  rw [List.flatten_splitBy] at hadded
  refine ⟨added, hgains, forall₂_imp_of_mem (List.forall₂_map_left_iff.1 hadded) ?_⟩
  intro e he a _ hwrites
  rw [hmodel he]
  exact hwrites

omit hs hnames hp in
theorem draftsIn_snoc (before : List (Model × Nat)) (step : Model × Nat) :
    p.draftsIn (before ++ [step]) = p.draftsIn before ++ p.draftsAt step.1 step.2 := by
  unfold draftsIn
  rw [List.flatMap_append, List.flatMap_singleton]

omit hs hnames in
theorem nodup_draftsIn {before rest : List (Model × Nat)} (hsteps : p.steps s = before ++ rest) :
    ((p.draftsIn before).map (·.1)).Nodup := by
  have hall := (hp.draftsIn_steps.map (·.1)).nodup_iff.2 hp.numbers
  rw [hsteps, draftsIn, List.flatMap_append, List.map_append] at hall
  exact (List.nodup_append.1 hall).1

/-- All rounds that are left write each of their new records as a row. -/
theorem steps_gain {before rest : List (Model × Nat)} (hsteps : p.steps s = before ++ rest)
    (hids : w.ids.map (·.1) = (p.draftsIn before).map (·.1))
    (h : rest.foldlM (p.writeStep s now) w = .ok w') : ∃ added, w.Gains w' added ∧
      List.Forall₂ (p.Becomes now w') (p.draftsIn rest) added := by
  induction rest generalizing before w with
  | nil =>
    cases h
    exact ⟨[], .refl _, .nil⟩
  | cons step rest ih =>
    rw [List.foldlM_cons] at h
    obtain ⟨next, hnext, h⟩ := except_bind_ok.1 h
    have hstep : step ∈ p.steps s := by
      rw [hsteps]
      exact List.mem_append_right _ (List.mem_cons_self ..)
    obtain ⟨here, hgains, hwrites⟩ := writeStep_gains hs hnames hp hstep hnext
    have hsteps' : p.steps s = (before ++ [step]) ++ rest := by
      rw [hsteps, List.append_assoc, List.singleton_append]
    have hids' : next.ids.map (·.1) = (p.draftsIn (before ++ [step])).map (·.1) := by
      have hnumbers : List.Forall₂ (· = ·) ((p.draftsAt step.1 step.2).map (·.1))
          (here.map (·.number)) :=
        List.forall₂_map_left_iff.2 (List.forall₂_map_right_iff.2
          (hwrites.imp fun _ _ hwritten => hwritten.number_eq.symm))
      rw [List.forall₂_eq_eq_eq] at hnumbers
      rw [hgains.ids_eq, List.map_append, hids, List.map_map, draftsIn_snoc, List.map_append,
        hnumbers]
      rfl
    obtain ⟨more, hmore, hlater⟩ := ih hsteps' hids' h
    have hnodup : (next.ids.map (·.1)).Nodup := hids' ▸ nodup_draftsIn hp hsteps'
    have hall := hgains.trans hmore
    refine ⟨here ++ more, hall, List.rel_append (forall₂_imp_of_mem hwrites ?_) hlater⟩
    intro e he a ha hwritten
    obtain ⟨hin, -, -⟩ := mem_draftsAt.1 he
    have hround : p.stepOf e = step := by
      rw [hp.draftsAt_eq hstep] at he
      exact of_decide_eq_true (List.mem_filter.1 he).2
    refine ⟨hwritten.model_eq, ?_, ?_⟩
    · have hid := hgains.id?_of_mem hnodup ha
      rw [hwritten.number_eq] at hid
      exact hmore.id?_eq hid
    · rw [hp.newValues_eq hin (hround ▸ hsteps) hids hall]
      exact hwritten.madeOf

/-- A plan that only adds records adds a row for each of them, and changes nothing else. -/
theorem write_inserts {st : Store} (h : p.write s now st = .ok w) : ∃ added : List Addition,
    List.Forall₂ (p.Becomes now w) p.drafts added ∧ ∀ m : Model, (w.store.rows m).Perm
      (st.rows m ++ (added.filter (·.model.table = m.table)).map (·.row)) := by
  obtain ⟨written, hwritten, h⟩ := except_bind_ok.1 h
  rw [hp.removals] at h
  cases h
  rw [foldlM_steps] at hwritten
  have hsteps : p.steps s = [] ++ p.steps s := rfl
  obtain ⟨added, hgains, hbecomes⟩ := steps_gain hs hnames hp hsteps rfl hwritten
  obtain ⟨added', hbecomes', hperm⟩ :=
    List.perm_comp_forall₂ hp.draftsIn_steps.symm hbecomes
  refine ⟨added', hbecomes', fun m => (hgains.rows_perm m).trans (List.Perm.append_left _ ?_)⟩
  exact ((hperm.symm.filter _).map _)

end Adding

end Plan

end Records
