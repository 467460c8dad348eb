import Records.Staging

/-!
What is removed along with records: everything they own, however deep. Records that a removed one
only links to stay and lose the link.
-/
namespace Records

theorem length_removeAll_lt {α : Type} [DecidableEq α] {remaining frontier : List α}
    (h : ∃ a ∈ remaining, a ∈ frontier) :
    (remaining.removeAll frontier).length < remaining.length := by
  obtain ⟨a, ha, hf⟩ := h
  exact List.length_filter_lt_length_iff_exists.2 ⟨a, ha, by simpa using hf⟩

/-- All items that some steps lead to from a frontier, among those that remain to be found. -/
def reach {α : Type} [DecidableEq α] (next : α → List α) (remaining frontier : List α) : List α :=
  if _h : ∃ a ∈ remaining, a ∈ frontier then
    let fresh := remaining.filter (· ∈ frontier)
    fresh ++ reach next (remaining.removeAll frontier) (fresh.flatMap next)
  else []
termination_by remaining.length
decreasing_by exact length_removeAll_lt _h

/-- Induction on the rounds of a search: those items of the frontier that remain are found, and what
they lead to is the next frontier. -/
@[elab_as_elim]
theorem reach_induction {α : Type} [DecidableEq α] (next : α → List α)
    {motive : List α → List α → Prop}
    (round : ∀ remaining frontier, reach next remaining frontier =
        remaining.filter (· ∈ frontier) ++ reach next (remaining.removeAll frontier)
          ((remaining.filter (· ∈ frontier)).flatMap next) →
      motive (remaining.removeAll frontier) ((remaining.filter (· ∈ frontier)).flatMap next) →
        motive remaining frontier)
    (done : ∀ remaining frontier, reach next remaining frontier = [] → motive remaining frontier)
    (remaining frontier : List α) : motive remaining frontier := by
  induction remaining, frontier using reach.induct next with
  | case1 remaining frontier hsome fresh ih =>
    have hdef : fresh = remaining.filter (· ∈ frontier) := by simp [fresh]
    rw [hdef] at ih
    exact round remaining frontier (by rw [reach, dif_pos hsome]) ih
  | case2 remaining frontier hnone => exact done remaining frontier (by rw [reach, dif_neg hnone])

/-- What holds of a frontier and goes along every step holds of all that is reached. -/
theorem forall_mem_reach {α : Type} [DecidableEq α] {next : α → List α} {P : α → Prop}
    (hnext : ∀ a, P a → ∀ b ∈ next a, P b) {remaining frontier : List α}
    (hfrontier : ∀ a ∈ frontier, P a) : ∀ a ∈ reach next remaining frontier, P a := by
  induction remaining, frontier using reach_induction next with
  | round remaining frontier hround ih =>
    have hfresh (a : α) (ha : a ∈ remaining.filter (· ∈ frontier)) : P a :=
      hfrontier a (by simpa using (List.mem_filter.1 ha).2)
    rw [hround]
    intro a ha
    rcases List.mem_append.1 ha with ha | ha
    · exact hfresh a ha
    · refine ih (fun b hb => ?_) a ha
      obtain ⟨c, hc, hb⟩ := List.mem_flatMap.1 hb
      exact hnext c (hfresh c hc) b hb
  | done remaining frontier hdone =>
    rw [hdone]
    exact fun a ha => absurd ha List.not_mem_nil

namespace Schema

/-- Every record of a store. -/
def allRecords (s : Schema) (st : Store) : List Ref :=
  s.models.flatMap fun m => (st.rows m).map fun r => .stored m.name r.id

def modelOf? (s : Schema) : Ref → Option Model
  | .stored name _ => s.model? name
  | .draft _ => none

/-- The relations of a record that lead to records with its id for a foreign key. -/
def downward (s : Schema) (ref : Ref) : List Handle :=
  match s.modelOf? ref with
  | some m => (s.handles m).filter fun h => match h.relation.link with
    | .parent _ => false
    | _ => true
  | none => []

/-- The records that a record owns. -/
def owned (s : Schema) (st : Store) (g : Graph) (ref : Ref) : List Ref :=
  ((s.downward ref).filter (·.relation.link.isOwned)).flatMap fun h => g.members st h ref

/-- The foreign keys through which other records belong to a record that does not own them. -/
def borrowed (s : Schema) (st : Store) (g : Graph) (ref : Ref) : List (Ref × String) :=
  ((s.downward ref).filter fun h => !h.relation.link.isOwned).flatMap fun h =>
    (g.members st h ref).map fun member => (member, h.relation.link.foreignKey)

/-- Records with all that they own. -/
def withOwned (s : Schema) (st : Store) (g : Graph) (refs : List Ref) : List Ref :=
  reach (s.owned st g) (s.allRecords st) refs

end Schema

end Records
