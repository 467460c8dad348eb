import Records.Proofs.Record.Alike
import Records.Staging.Flush

/-!
What is staged is written alike where the held records are alike: links between records are settled
by what relations hold, which is the same in both graphs.
-/
namespace Records

open Records.Calendar (Moment)

/-- A stored record of a model, or a new one. -/
def Ref.IsOf (m : Model) : Ref → Prop
  | .stored name _ => name = m.name
  | .draft _ => True

theorem Ref.isOf_draft (m : Model) (n : Nat) : (draft n).IsOf m := trivial

theorem Graph.BothHold.isOf {m : Model} {g g' : Graph} {ref : Ref} (h : BothHold m g g' ref) :
    ref.IsOf m := by
  obtain ⟨-, -, id, rfl⟩ := h
  rfl

/-- A record put under a declared relation, both records being of its models. -/
structure Attachment.Fits (s : Schema) (a : Attachment) : Prop where
  declared : s.Declares a.handle
  holder : a.holder.IsOf a.handle.parent
  member : a.member.IsOf a.handle.target

def Staging.Fits (s : Schema) (c : Staging) : Prop := ∀ a ∈ c.attachments, a.Fits s

theorem Staging.fits_empty (s : Schema) : Staging.empty.Fits s := fun _ ha => by cases ha

section Members
variable {s : Schema} {st : Store} {g g' : Graph}

theorem Graph.Alike.members (ha : Alike s st g g') {h : Handle} (hd : s.Declares h) {ref : Ref}
    (hr : ref.IsOf h.parent) : g'.members st h ref = g.members st h ref := by
  cases ref with
  | stored name id =>
    obtain rfl : name = h.parent.name := hr
    exact ha.members_eq h hd id
  | draft n => exact members_congr h _ (ha.drafts_eq n h.relation.name)

theorem Schema.mem_downward {ref : Ref} {h : Handle} (hh : h ∈ s.downward ref) :
    s.Declares h ∧ ref.IsOf h.parent := by
  unfold downward at hh
  cases hm : s.modelOf? ref with
  | none => simp [hm] at hh
  | some m =>
    rw [hm] at hh
    cases ref with
    | draft n => cases hm
    | stored name id =>
      obtain ⟨hd, hparent⟩ := declares_of_mem_handles (mem_of_model? hm) (List.mem_filter.1 hh).1
      exact ⟨hd, hparent ▸ (name_of_model? hm).symm⟩

theorem Graph.Alike.owned_eq (ha : Alike s st g g') : s.owned st g' = s.owned st g := by
  funext ref
  unfold Schema.owned
  refine List.flatMap_congr fun h hh => ?_
  obtain ⟨hd, hr⟩ := Schema.mem_downward (List.mem_filter.1 hh).1
  exact ha.members hd hr

theorem Graph.Alike.borrowed_eq (ha : Alike s st g g') : s.borrowed st g' = s.borrowed st g := by
  funext ref
  unfold Schema.borrowed
  refine List.flatMap_congr fun h hh => ?_
  obtain ⟨hd, hr⟩ := Schema.mem_downward (List.mem_filter.1 hh).1
  rw [ha.members hd hr]

end Members

namespace Staging
variable {s : Schema} {st : Store} {g g' : Graph} {c : Staging}

theorem fits_of_standing (hc : c.Fits s) {a : Attachment} (ha : a ∈ c.standing) : a.Fits s :=
  hc a (List.mem_filter.1 (List.mem_eraseDups.1 ha)).1

theorem bonds_alike (ha : g.Alike s st g') (hc : c.Fits s) : c.bonds st g' = c.bonds st g := by
  unfold bonds
  refine List.filterMap_congr fun a hmem => ?_
  have hfits := fits_of_standing hc hmem
  rw [ha.members hfits.declared hfits.holder]

/-- Either the relation itself is singular, or the one that leads back from the record is. -/
theorem displacing?_cases {a : Attachment} {h : Handle} {holder kept : Ref}
    (hd : a.displacing? = some (h, holder, kept)) :
    (∃ fk owned, a.handle.relation.link = .one fk owned ∧ h = a.handle ∧ holder = a.holder) ∨
      ∃ fk, a.handle.relation.link = .parent fk ∧ a.handle.back? = some h ∧
        h.relation.link.isMany = false ∧ holder = a.member := by
  unfold Attachment.displacing? at hd
  split at hd
  · rename_i fk owned hlink
    cases hd
    exact .inl ⟨fk, owned, hlink, rfl, rfl⟩
  · cases hd
  · rename_i fk hlink
    split at hd
    · rename_i back hback
      split at hd
      · cases hd
      · rename_i hsingle
        cases hd
        exact .inr ⟨fk, hlink, hback, by simpa using hsingle, rfl⟩
    · cases hd

theorem fits_displacing {a : Attachment} (hfits : a.Fits s) {h : Handle} {holder kept : Ref}
    (hd : a.displacing? = some (h, holder, kept)) : s.Declares h ∧ holder.IsOf h.parent := by
  rcases displacing?_cases hd with ⟨fk, owned, -, rfl, rfl⟩ | ⟨fk, -, hback, -, rfl⟩
  · exact ⟨hfits.declared, hfits.holder⟩
  · obtain ⟨hdeclared, hparent⟩ := Schema.declares_back hfits.declared hback
    exact ⟨hdeclared, hparent ▸ hfits.member⟩

theorem displaced_alike (ha : g.Alike s st g') (hc : c.Fits s) :
    c.displaced st g' = c.displaced st g := by
  unfold displaced
  refine List.flatMap_congr fun a hmem => ?_
  have hfits := fits_of_standing hc hmem
  rw [ha.members hfits.declared hfits.holder]
  split
  · rfl
  · cases hd : a.displacing? with
    | none => rfl
    | some e =>
      obtain ⟨hdeclared, hholder⟩ := fits_displacing hfits hd
      dsimp only
      rw [ha.members hdeclared hholder]

theorem removals_alike (ha : g.Alike s st g') (hc : c.Fits s) :
    c.removals s st g' = c.removals s st g := by
  unfold removals Schema.withOwned
  rw [displaced_alike ha hc, ha.owned_eq]

theorem cleared_alike (ha : g.Alike s st g') (hc : c.Fits s) :
    c.cleared s st g' = c.cleared s st g := by
  unfold cleared
  rw [displaced_alike ha hc, removals_alike ha hc, ha.borrowed_eq]

theorem plan_alike (ha : g.Alike s st g') (hc : c.Fits s) : c.plan s st g' = c.plan s st g := by
  unfold plan settledEdits
  rw [removals_alike ha hc, cleared_alike ha hc, bonds_alike ha hc]

theorem reach_nil {α : Type} [DecidableEq α] (next : α → List α) (remaining : List α) :
    reach next remaining [] = [] := by
  rw [reach, dif_neg (by simp)]

/-- With nothing staged, it does not matter what is held. -/
theorem flush_empty (now : Moment) (st : Store) (g g' : Graph) :
    Staging.empty.flush s now st g' = Staging.empty.flush s now st g := by
  have hremovals (g : Graph) : Staging.empty.removals s st g = [] := reach_nil ..
  unfold flush plan settledEdits cleared
  rw [hremovals, hremovals]
  rfl

theorem flush_alike (ha : g.Alike s st g') (hc : c.Fits s) (now : Moment) :
    c.flush s now st g' = c.flush s now st g := by
  unfold flush
  rw [plan_alike ha hc]

end Staging

end Records
