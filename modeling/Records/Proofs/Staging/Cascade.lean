import Records.Proofs.Staging.Alike
import Records.Proofs.Staging.Removed
import Records.Proofs.Store.Order

/-!
What goes along with a record that is removed, and what only loses its link to it. Schemas are
described in which such a removal can always be carried out.
-/
namespace Records

open Records.Filter (relatedRows)

theorem idxOf_lt_of_sublist {α : Type} [DecidableEq α] {xs : List α} {a b : α} (hxs : xs.Nodup)
    (h : [a, b].Sublist xs) : xs.idxOf a < xs.idxOf b := by
  induction xs with
  | nil => cases h
  | cons x xs ih =>
    obtain ⟨hx, hrest⟩ := List.nodup_cons.1 hxs
    cases h with
    | cons _ h =>
      have ha : x ≠ a := by rintro rfl; exact hx (h.subset (by simp))
      have hb : x ≠ b := by rintro rfl; exact hx (h.subset (by simp))
      rw [List.idxOf_cons_ne _ ha, List.idxOf_cons_ne _ hb]
      exact Nat.succ_lt_succ (ih hrest h)
    | cons_cons _ h =>
      have hb : a ≠ b := by rintro rfl; exact hx (List.singleton_sublist.1 h)
      rw [List.idxOf_cons_self, List.idxOf_cons_ne _ hb]
      exact Nat.succ_pos _

/-- The keys of the records that a link leads to are ids of those that have the link. -/
def Link.leadsDown : Link → Bool
  | .parent _ => false
  | _ => true

namespace Link
variable {l : Link}

theorem leadsDown_iff : l.leadsDown = true ↔ ∀ fk, l ≠ .parent fk := by
  cases l <;> simp [leadsDown]

theorem leadsDown_of_owned (h : l.isOwned = true) : l.leadsDown = true := by
  cases l <;> simp_all [isOwned, leadsDown]

end Link

/-- A schema in which rows can be removed with what they own. Every reference is the key of a
relation that leads to the rows with it; one that does not own them does not require the key, and
one that does is the only relation that leads to them, from another model. -/
structure Schema.Cascading (s : Schema) : Prop extends s.Stamped where
  covered : ∀ m ∈ s.models, ∀ c ∈ m.columns, ∀ table ∈ c.references, ∃ m' ∈ s.models,
    m'.table = table ∧ ∃ h ∈ s.handles m', h.relation.link.leadsDown = true ∧ h.target = m ∧
      h.relation.link.foreignKey = c.name
  optional : ∀ m ∈ s.models, ∀ h ∈ s.handles m, h.relation.link.leadsDown = true →
    h.relation.link.isOwned = false → ∀ c ∈ h.target.columns,
      c.name = h.relation.link.foreignKey → c.required = false
  sole : ∀ m ∈ s.models, ∀ h ∈ s.handles m, h.relation.link.isOwned = true →
    ∀ m' ∈ s.models, ∀ h' ∈ s.handles m', h'.relation.link.leadsDown = true →
      h'.target = h.target → h' = h
  deeper : ∀ m ∈ s.models, ∀ h ∈ s.handles m, h.relation.link.isOwned = true →
    h.parent ≠ h.target

namespace Schema
variable {s : Schema} {h h' : Handle} {m : Model}

theorem Cascading.eq_of_owned (hs : s.Cascading) (hd : s.Declares h)
    (howned : h.relation.link.isOwned = true) (hd' : s.Declares h')
    (hdown : h'.relation.link.leadsDown = true) (htarget : h'.target = h.target) : h' = h :=
  hs.sole _ hd.parent_mem h hd.mem_handles howned _ hd'.parent_mem h' hd'.mem_handles hdown htarget

/-- A relation that leads down leads to a later model, or to its own. -/
theorem Regular.place_lt (hs : s.Regular) (hd : s.Declares h)
    (hdown : h.relation.link.leadsDown = true) (hne : h.parent ≠ h.target) :
    s.models.idxOf h.parent < s.models.idxOf h.target := by
  have hlink := Link.leadsDown_iff.1 hdown
  have horder := hs.order _ hd.parent_mem h hd.mem_handles
  rw [Handle.referred_of_child hlink, Handle.referrer_of_child hlink] at horder
  exact idxOf_lt_of_sublist (s.distinctNames.of_map _) (horder.resolve_left hne)

theorem mem_downward_iff (hm : m ∈ s.models) (id : Int) : h ∈ s.downward (.stored m.name id) ↔
    s.Declares h ∧ h.parent = m ∧ h.relation.link.leadsDown = true := by
  have hmodel : s.modelOf? (.stored m.name id) = some m := model?_of_mem hm
  unfold downward
  rw [hmodel]
  dsimp only
  rw [List.mem_filter]
  change h ∈ s.handles m ∧ h.relation.link.leadsDown = true ↔ _
  constructor
  · rintro ⟨hh, hdown⟩
    obtain ⟨hd, hparent⟩ := declares_of_mem_handles hm hh
    exact ⟨hd, hparent, hdown⟩
  · rintro ⟨hd, rfl, hdown⟩
    exact ⟨hd.mem_handles, hdown⟩

theorem nodup_allRecords (s : Schema) (st : Store) : (s.allRecords st).Nodup := by
  refine List.nodup_flatMap.2 ⟨fun m _ => ?_, ?_⟩
  · have hids := List.pairwise_map.1 (st.table m.table).nodup_ids
    exact List.pairwise_map.2 (hids.imp fun hne hsame => hne (Ref.stored.inj hsame).2)
  · refine (List.pairwise_map.1 s.distinctNames).imp fun hne => ?_
    rintro ref ha hb
    obtain ⟨x, -, rfl⟩ := List.mem_map.1 ha
    obtain ⟨y, -, hsame⟩ := List.mem_map.1 hb
    exact hne (Ref.stored.inj hsame).1.symm

theorem mem_allRecords {st : Store} (hm : m ∈ s.models) {row : Row} (hrow : row ∈ st.rows m) :
    .stored m.name row.id ∈ s.allRecords st :=
  List.mem_flatMap.2 ⟨m, hm, List.mem_map_of_mem hrow⟩

end Schema

section Members
variable {st : Store} {h : Handle} {holder : Row}

theorem mem_memberRows_iff {t : Row} : t ∈ memberRows st h holder ↔ t ∈ relatedRows st h holder := by
  unfold memberRows
  cases h.relation.link with
  | many => exact Query.mem_sorted
  | one => exact Iff.rfl
  | parent => exact Iff.rfl

/-- A relation that is not loaded holds the rows that it leads to, a singular one if there is at
most one. -/
theorem Graph.mem_members_empty (hholder : holder ∈ st.rows h.parent)
    (hone : h.relation.link.isMany = false → (relatedRows st h holder).length ≤ 1) {ref : Ref} :
    ref ∈ empty.members st h (.stored h.parent.name holder.id) ↔
      ∃ row ∈ relatedRows st h holder, ref = .stored h.target.name row.id := by
  have hfound : (st.table h.parent.table).find? holder.id = some holder :=
    Table.find?_of_mem hholder
  have hmembers : empty.members st h (.stored h.parent.name holder.id) =
      (h.relatedOf (memberRows st h holder)).refs := by
    have hunloaded : empty.related? (.stored h.parent.name holder.id) h.relation.name = none := rfl
    unfold members
    simp only [hunloaded, hfound]
  have hall (row : Row) : row ∈ memberRows st h holder ↔ row ∈ relatedRows st h holder :=
    mem_memberRows_iff
  have hlength : (memberRows st h holder).length = (relatedRows st h holder).length := by
    unfold memberRows
    cases h.relation.link with
    | many => exact Query.length_sorted ..
    | one => rfl
    | parent => rfl
  rw [hmembers]
  simp only [← hall]
  cases hmany : h.relation.link.isMany with
  | true =>
    unfold Handle.relatedOf Related.ofRefs
    rw [hmany]
    change ref ∈ (memberRows st h holder).map _ ↔ _
    rw [List.mem_map]
    simp only [eq_comm]
  | false =>
    have hfew := hone hmany
    rw [← hlength] at hfew
    unfold Handle.relatedOf Related.ofRefs
    rw [hmany]
    cases hrows : memberRows st h holder with
    | nil => simp [Related.refs]
    | cons row rest =>
      obtain rfl : rest = [] := by simpa [hrows] using hfew
      simp [Related.refs, eq_comm]

end Members

/-- The records that go with one: the record itself, and what a record that goes owns. -/
inductive Schema.Goes (s : Schema) (st : Store) (m : Model) (root : Row) : Model → Row → Prop
  | root : Goes s st m root m root
  | owned {h : Handle} {holder row : Row} (hd : s.Declares h)
    (howned : h.relation.link.isOwned = true) (hholder : Goes s st m root h.parent holder)
    (hrow : row ∈ relatedRows st h holder) : Goes s st m root h.target row

/-- A row is linked by a key to a record that goes, and is not owned by that. -/
def Schema.Releases (s : Schema) (st : Store) (m : Model) (root : Row) (m' : Model) (row : Row)
    (column : String) : Prop :=
  ∃ h holder, s.Declares h ∧ h.relation.link.leadsDown = true ∧ h.relation.link.isOwned = false ∧
    s.Goes st m root h.parent holder ∧ h.target = m' ∧ row ∈ relatedRows st h holder ∧
      h.relation.link.foreignKey = column

/-- Singular relations that lead down from the records that go lead to one row each, if to any. -/
def Schema.LeadsSingly (s : Schema) (st : Store) (m : Model) (root : Row) : Prop :=
  ∀ h holder, s.Declares h → h.relation.link.leadsDown = true → s.Goes st m root h.parent holder →
    h.relation.link.isMany = false → (relatedRows st h holder).length ≤ 1

namespace Schema
variable {s : Schema} {st : Store} {m m' : Model} {root row : Row} {h : Handle}

theorem mem_rows_of_related (hdown : h.relation.link.leadsDown = true) {holder : Row}
    (hrow : row ∈ relatedRows st h holder) : row ∈ st.rows h.target :=
  ((mem_relatedRows_of_child (Link.leadsDown_iff.1 hdown)).1 hrow).1

theorem Goes.stored (hm : m ∈ s.models) (hroot : root ∈ st.rows m)
    (hgoes : s.Goes st m root m' row) : m' ∈ s.models ∧ row ∈ st.rows m' := by
  cases hgoes with
  | root => exact ⟨hm, hroot⟩
  | owned hd howned _ hrow =>
    exact ⟨hd.target_mem, mem_rows_of_related (Link.leadsDown_of_owned howned) hrow⟩

/-- Where no model that can be reached has a singular relation that leads down, the rows of a store
make no difference. -/
theorem leadsSingly_of_plural (P : Model → Prop) (hm : P m) (hnext : ∀ m' ∈ s.models, P m' →
    ∀ h ∈ s.handles m', h.relation.link.leadsDown = true →
      h.relation.link.isMany = true ∧ (h.relation.link.isOwned = true → P h.target)) :
    s.LeadsSingly st m root := by
  have hreached {m' : Model} {row : Row} (hgoes : s.Goes st m root m' row) : P m' := by
    induction hgoes with
    | root => exact hm
    | @owned h holder row hd howned _ _ ih =>
      exact (hnext _ hd.parent_mem ih h hd.mem_handles (Link.leadsDown_of_owned howned)).2 howned
  intro h holder hd hdown hgoes hone
  rw [(hnext _ hd.parent_mem (hreached hgoes) h hd.mem_handles hdown).1] at hone
  cases hone

/-- What goes with a record is of a later model than the record. -/
theorem Goes.place_lt (hs : s.Cascading) (hgoes : s.Goes st m root m' row) :
    m' = m ∧ row = root ∨ s.models.idxOf m < s.models.idxOf m' := by
  induction hgoes with
  | root => exact .inl ⟨rfl, rfl⟩
  | @owned h holder row hd howned _ _ ih =>
    have hlater := hs.place_lt hd (Link.leadsDown_of_owned howned)
      (hs.deeper _ hd.parent_mem h hd.mem_handles howned)
    rcases ih with ⟨hparent, -⟩ | hparent
    · exact .inr (hparent ▸ hlater)
    · exact .inr (hparent.trans hlater)

section Removals
variable (hm : m ∈ s.models) (hroot : root ∈ st.rows m) (hone : s.LeadsSingly st m root)
include hm hroot hone

theorem mem_owned {holder : Row} (hgoes : s.Goes st m root m' holder) {ref : Ref} :
    ref ∈ s.owned st .empty (.stored m'.name holder.id) ↔ ∃ h, s.Declares h ∧ h.parent = m' ∧
      h.relation.link.isOwned = true ∧
        ∃ row ∈ relatedRows st h holder, ref = .stored h.target.name row.id := by
  obtain ⟨hm', hholder⟩ := hgoes.stored hm hroot
  unfold owned
  rw [List.mem_flatMap]
  constructor
  · rintro ⟨h, hh, href⟩
    obtain ⟨hh, howned⟩ := List.mem_filter.1 hh
    obtain ⟨hd, rfl, hdown⟩ := (mem_downward_iff hm' _).1 hh
    exact ⟨h, hd, rfl, howned,
      (Graph.mem_members_empty hholder (hone h holder hd hdown hgoes)).1 href⟩
  · rintro ⟨h, hd, rfl, howned, href⟩
    have hdown := Link.leadsDown_of_owned howned
    refine ⟨h, List.mem_filter.2 ⟨(mem_downward_iff hm' _).2 ⟨hd, rfl, hdown⟩, howned⟩, ?_⟩
    exact (Graph.mem_members_empty hholder (hone h holder hd hdown hgoes)).2 href

theorem mem_borrowed {holder : Row} (hgoes : s.Goes st m root m' holder) {e : Ref × String} :
    e ∈ s.borrowed st .empty (.stored m'.name holder.id) ↔ ∃ h, s.Declares h ∧ h.parent = m' ∧
      h.relation.link.leadsDown = true ∧ h.relation.link.isOwned = false ∧
        ∃ row ∈ relatedRows st h holder,
          e = (.stored h.target.name row.id, h.relation.link.foreignKey) := by
  obtain ⟨hm', hholder⟩ := hgoes.stored hm hroot
  unfold borrowed
  rw [List.mem_flatMap]
  constructor
  · rintro ⟨h, hh, he⟩
    obtain ⟨hh, hplain⟩ := List.mem_filter.1 hh
    obtain ⟨hd, rfl, hdown⟩ := (mem_downward_iff hm' _).1 hh
    obtain ⟨ref, href, rfl⟩ := List.mem_map.1 he
    obtain ⟨row, hrow, rfl⟩ :=
      (Graph.mem_members_empty hholder (hone h holder hd hdown hgoes)).1 href
    exact ⟨h, hd, rfl, hdown, by simpa using hplain, row, hrow, rfl⟩
  · rintro ⟨h, hd, rfl, hdown, hplain, row, hrow, rfl⟩
    refine ⟨h, List.mem_filter.2 ⟨(mem_downward_iff hm' _).2 ⟨hd, rfl, hdown⟩, ?_⟩, ?_⟩
    · simpa using hplain
    · exact List.mem_map.2 ⟨_, (Graph.mem_members_empty hholder (hone h holder hd hdown hgoes)).2
        ⟨row, hrow, rfl⟩, rfl⟩

/-- What is removed along with a record is what goes with it. -/
theorem mem_withOwned {ref : Ref} : ref ∈ s.withOwned st .empty [.stored m.name root.id] ↔
    ∃ m' row, s.Goes st m root m' row ∧ ref = .stored m'.name row.id := by
  constructor
  · refine forall_mem_reach (P := fun ref => ∃ m' row, s.Goes st m root m' row ∧
      ref = .stored m'.name row.id) (fun ref href other hother => ?_) (fun ref href => ?_) ref
    · obtain ⟨m', holder, hgoes, rfl⟩ := href
      obtain ⟨h, hd, rfl, howned, row, hrow, rfl⟩ := (mem_owned hm hroot hone hgoes).1 hother
      exact ⟨_, row, .owned hd howned hgoes hrow, rfl⟩
    · rw [List.mem_singleton.1 href]
      exact ⟨m, root, .root, rfl⟩
  · rintro ⟨m', row, hgoes, rfl⟩
    induction hgoes with
    | root => exact mem_reach_of_frontier (mem_allRecords hm hroot) (List.mem_singleton_self _)
    | @owned h holder row hd howned hholder hrow ih =>
      refine mem_reach_of_next ih ((mem_owned hm hroot hone hholder).2 ?_) ?_
      · exact ⟨h, hd, rfl, howned, row, hrow, rfl⟩
      · exact mem_allRecords hd.target_mem
          (mem_rows_of_related (Link.leadsDown_of_owned howned) hrow)

theorem goes_iff_mem (hm' : m' ∈ s.models) (hrow : row ∈ st.rows m') :
    .stored m'.name row.id ∈ s.withOwned st .empty [.stored m.name root.id] ↔
      s.Goes st m root m' row := by
  rw [mem_withOwned hm hroot hone]
  constructor
  · rintro ⟨m'', row'', hgoes, hsame⟩
    obtain ⟨hm'', hrow''⟩ := hgoes.stored hm hroot
    obtain ⟨hname, hid⟩ := Ref.stored.inj hsame
    obtain rfl := eq_of_name hm' hm'' hname
    rwa [Store.eq_of_id hrow'' hrow hid]
  · exact fun hgoes => ⟨m', row, hgoes, rfl⟩

end Removals

end Schema

end Records
