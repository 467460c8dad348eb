import Records.Proofs.Staging.Cascade
import Records.Proofs.Store.Kept

/-!
Removing a record with all that goes with it. First the keys that lead to records that go are
cleared in the rows that stay; then the rows that go are removed, each before those that own it, so
that nothing refers to a row by the time it is removed.
-/
namespace Records

open Records.Calendar (Moment)
open Records.Filter (relatedRows)

theorem Column.keeps_null (c : Column) : c.Keeps .null .null := by
  refine ⟨.null, ?_, ?_⟩
  · cases c.kind <;> rfl
  · cases c.kind.affinity <;> rfl

/-- What becomes of a row when a record is removed that it does not go with: the keys that lead to
records that go are null. If there is none, it stays as it is. -/
structure Schema.Outlives (s : Schema) (st : Store) (m : Model) (root : Row) (m' : Model)
    (row row' : Row) : Prop where
  id_eq : row'.id = row.id
  released : ∀ column, s.Releases st m root m' row column → row'.cell column = .null
  frame : ∀ c ∈ m'.columns, ¬s.Releases st m root m' row c.name → c ≠ updatedAt →
    row'.cell c.name = row.cell c.name
  untouched : (∀ column, ¬s.Releases st m root m' row column) → row' = row

/-- A store without a record and all that goes with it, and otherwise with the rows that were
there. -/
structure Schema.Deletes (s : Schema) (st : Store) (m : Model) (root : Row) (st' : Store) :
    Prop where
  kept : ∀ m' ∈ s.models, ∀ row ∈ st.rows m', ¬s.Goes st m root m' row →
    ∃ row' ∈ st'.rows m', s.Outlives st m root m' row row'
  only : ∀ m' ∈ s.models, ∀ row' ∈ st'.rows m',
    ∃ row ∈ st.rows m', ¬s.Goes st m root m' row ∧ s.Outlives st m root m' row row'

namespace Staging

/-- What is staged to remove a record. -/
def removing (m : Model) (root : Row) : Staging := empty.remove (.stored m.name root.id)

variable {s : Schema} {st : Store} {m m' : Model} {root row row' : Row} {now : Moment}

theorem cleared_removing : (removing m root).cleared s st .empty =
    (s.withOwned st .empty [.stored m.name root.id]).flatMap (s.borrowed st .empty) := rfl

section Cleared
variable (hm : m ∈ s.models) (hroot : root ∈ st.rows m) (hone : s.LeadsSingly st m root)
include hm hroot hone

theorem mem_cleared {e : Ref × String} : e ∈ (removing m root).cleared s st .empty ↔
    ∃ m' row, m' ∈ s.models ∧ row ∈ st.rows m' ∧ s.Releases st m root m' row e.2 ∧
      e.1 = .stored m'.name row.id := by
  rw [cleared_removing, List.mem_flatMap]
  constructor
  · rintro ⟨ref, href, he⟩
    obtain ⟨m', holder, hgoes, rfl⟩ := (Schema.mem_withOwned hm hroot hone).1 href
    obtain ⟨h, hd, rfl, hdown, hplain, row, hrow, rfl⟩ :=
      (Schema.mem_borrowed hm hroot hone hgoes).1 he
    exact ⟨h.target, row, hd.target_mem, Schema.mem_rows_of_related hdown hrow,
      ⟨h, holder, hd, hdown, hplain, hgoes, rfl, hrow, rfl⟩, rfl⟩
  · rintro ⟨-, row, -, -, ⟨h, holder, hd, hdown, hplain, hgoes, rfl, hrow, hcolumn⟩, href⟩
    refine ⟨_, (Schema.mem_withOwned hm hroot hone).2 ⟨_, holder, hgoes, rfl⟩, ?_⟩
    exact (Schema.mem_borrowed hm hroot hone hgoes).2
      ⟨h, hd, rfl, hdown, hplain, row, hrow, Prod.ext href hcolumn.symm⟩

/-- The keys that are cleared in a row are those that lead to records that go. -/
theorem cleared_iff (hm' : m' ∈ s.models) (hrow : row ∈ st.rows m') {column : String} :
    (.stored m'.name row.id, column) ∈ (removing m root).cleared s st .empty ↔
      s.Releases st m root m' row column := by
  rw [mem_cleared hm hroot hone]
  constructor
  · rintro ⟨m'', row'', hm'', hrow'', hreleases, hsame⟩
    obtain ⟨hname, hid⟩ := Ref.stored.inj hsame
    obtain rfl := Schema.eq_of_name hm' hm'' hname
    obtain rfl : row = row'' := Store.eq_of_id hrow'' hrow hid
    exact hreleases
  · exact fun hreleases => ⟨m', row, hm', hrow, hreleases, rfl⟩

end Cleared

/-- An edit of the rows that stay gives nulls to the keys that are cleared, and nothing else. -/
theorem settled_removing : ∀ e ∈ ((removing m root).settled s st .empty).edits,
    (∃ column, (.stored e.model.name e.id, column) ∈ (removing m root).cleared s st .empty) ∧
      ∀ v ∈ e.values, (.stored e.model.name e.id, v.1) ∈ (removing m root).cleared s st .empty ∧
        v.2 = .null := by
  refine settled_induction (M := fun g => ∀ e ∈ g.edits,
    (∃ column, (.stored e.model.name e.id, column) ∈ (removing m root).cleared s st .empty) ∧
      ∀ v ∈ e.values, (.stored e.model.name e.id, v.1) ∈ (removing m root).cleared s st .empty ∧
        v.2 = .null) ?_ ?_ ?_
  · exact fun e he => absurd he List.not_mem_nil
  · intro g m' id column hg _ hc
    refine forall_putEdit (K := fun name i =>
      ∃ column, (.stored name i, column) ∈ (removing m root).cleared s st .empty)
      (Q := fun name i v => (.stored name i, v.1) ∈ (removing m root).cleared s st .empty ∧
        v.2 = .null) hg ⟨column, hc⟩ fun v hv => ?_
    rw [List.mem_singleton.1 hv]
    exact ⟨hc, rfl⟩
  · rintro g m' id - - ⟨b, hb, -⟩
    cases hb

section Plan
variable (hs : s.Cascading) (hm : m ∈ s.models) (hroot : root ∈ st.rows m)
  (hone : s.LeadsSingly st m root)

/-- The values of an edit of the plan. -/
theorem lookup?_given {e : Edit} (he : e ∈ ((removing m root).plan s st .empty).edits)
    (hname : m'.name = e.model.name) {w : Written} {column : String} {v : Value}
    (hv : Value.lookup? column (((removing m root).plan s st .empty).given w m' e) = some v) :
    v = .null ∧ (.stored m'.name e.id, column) ∈ (removing m root).cleared s st .empty := by
  obtain ⟨-, hvalues⟩ := settled_removing e (List.mem_filter.1 he).1
  rcases Value.lookup?_merge_cases hv with hv | ⟨-, hv⟩
  · cases hv
  · obtain ⟨hc, hnull⟩ := hvalues _ (Value.mem_of_lookup? hv)
    exact ⟨hnull, hname ▸ hc⟩

include hs hm hroot hone

theorem spares_removing : ((removing m root).plan s st .empty).SparesIds := by
  refine ⟨fun e he v hv => ?_, fun b hb => by cases hb⟩
  obtain ⟨-, hvalues⟩ := settled_removing e (List.mem_filter.1 he).1
  obtain ⟨m', row, -, -, ⟨h, -, hd, -, -, -, -, -, hcolumn⟩, -⟩ :=
    (mem_cleared hm hroot hone).1 (hvalues v hv).1
  obtain ⟨hrelation, -⟩ := Schema.handle?_eq_some.1 hd.handle?
  have hkey : h.relation.link.foreignKey = v.1 := hcolumn
  rw [← hkey]
  exact hs.links _ hd.parent_mem _ (List.mem_of_find?_eq_some hrelation)

theorem free_removing : ((removing m root).plan s st .empty).Free s := by
  refine ⟨rfl, fun e he m' hm' hname w c hc v hv => ?_⟩
  obtain ⟨rfl, hcleared⟩ := lookup?_given he hname hv
  obtain ⟨m'', row, hm'', -, ⟨h, -, hd, hdown, hplain, -, rfl, -, hcolumn⟩, hsame⟩ :=
    (mem_cleared hm hroot hone).1 hcleared
  obtain rfl := Schema.eq_of_name hm' hm'' (Ref.stored.inj hsame).1
  have hoptional := hs.optional _ hd.parent_mem h hd.mem_handles hdown hplain c hc hcolumn.symm
  exact ⟨.null, c.keeps_null, by rw [hoptional]; exact nofun, .inl rfl⟩

omit hs in
/-- Rows that go are not edited before they are removed. -/
theorem eq_of_goes (hgoes : s.Goes st m root m' row)
    (h : ((removing m root).plan s st .empty).Rewrites now m' row row') : row' = row := by
  have hin : .stored m'.name row.id ∈ (removing m root).removals s st .empty :=
    (Schema.mem_withOwned hm hroot hone).2 ⟨m', row, hgoes, rfl⟩
  have hunedited {e : Edit} (he : e ∈ ((removing m root).plan s st .empty).edits)
      (hname : e.model.name = m'.name) (hid : e.id = row.id) : False := by
    have hout := (List.mem_filter.1 he).2
    rw [hname, hid, List.contains_iff_mem.2 hin] at hout
    cases hout
  cases h with
  | spared => rfl
  | same => rfl
  | changed he hname hid => exact (hunedited he hname hid).elim

/-- A key that leads to a record that goes is null once the edits are written. -/
theorem cell_of_released (hst : st.Complete s) (hm' : m' ∈ s.models) (hrow : row ∈ st.rows m')
    (hout : .stored m'.name row.id ∉ (removing m root).removals s st .empty)
    (h : ((removing m root).plan s st .empty).Rewrites now m' row row') {column : String}
    (hreleases : s.Releases st m root m' row column) : row'.cell column = .null := by
  have hcleared := (cleared_iff hm hroot hone hm' hrow).2 hreleases
  obtain ⟨v, hv⟩ := lookup?_settled_of_cleared hm' hcleared
  obtain ⟨handle, holder, hd, hdown, -, -, rfl, -, rfl⟩ := hreleases
  obtain ⟨c, hc, hname, -, hrefreshed⟩ := hs.key hd
  rw [Handle.referrer_of_child (Link.leadsDown_iff.1 hdown)] at hc
  have hid : c.name ≠ idColumn.name :=
    hname ▸ hs.links _ hd.parent_mem _ (List.mem_of_find?_eq_some (Schema.handle?_eq_some.1 hd.handle?).1)
  rw [← hname] at hv ⊢
  rcases h.takes (hs.names _ hm') hc hrefreshed hid with ⟨hnone, -⟩ | ⟨e, he, hmodel, hid', w, htakes⟩
  · rw [valuesOf_eq_nil fun e he hmodel hid' =>
      hnone e (mem_plan_edits hout he hmodel hid') hmodel hid'] at hv
    cases hv
  · have hgiven : Value.lookup? c.name
        (((removing m root).plan s st .empty).given w handle.target e) = some v := by
      rw [given_plan .nil he hmodel hid']
      exact (Value.lookup?_merge_of_none rfl _).trans hv
    obtain ⟨rfl, -⟩ := lookup?_given he hmodel.symm hgiven
    rw [hgiven] at htakes
    rcases htakes with hkeeps | ⟨hsame, hnull | hmissing⟩
    · exact hkeeps.eq c.keeps_null
    · rw [Value.same_null, Row.value, Cell.decode_eq_null] at hnull
      rw [hsame, hnull]
    · exact absurd (hst _ hm' row hrow c hc hid) hmissing

/-- The rows that stay are edited as those that a record is removed from. -/
theorem outlives (hst : st.Complete s) (hm' : m' ∈ s.models) (hrow : row ∈ st.rows m')
    (hstays : ¬s.Goes st m root m' row)
    (h : ((removing m root).plan s st .empty).Rewrites now m' row row') :
    s.Outlives st m root m' row row' := by
  have hout : .stored m'.name row.id ∉ (removing m root).removals s st .empty :=
    fun hin => hstays ((Schema.goes_iff_mem hm hroot hone hm' hrow).1 hin)
  have hcleared {column : String} :
      (.stored m'.name row.id, column) ∈ (removing m root).cleared s st .empty ↔
        s.Releases st m root m' row column := cleared_iff hm hroot hone hm' hrow
  refine ⟨h.id_eq, fun column hreleases => ?_, fun c hc hspared hstamp => ?_, fun hspared => ?_⟩
  · exact cell_of_released hs hm hroot hone hst hm' hrow hout h hreleases
  · by_cases hid : c.name = idColumn.name
    · rw [hid, Row.cell_id, Row.cell_id, h.id_eq]
    · have hrefreshed : c.refreshed = false := by
        by_contra hstamped
        exact hstamp (hs.stamps m' hm' c hc (by simpa using hstamped))
      rcases takes_of_rewrites .nil hm' hout h (hs.names m' hm') hc hrefreshed hid
        (fun hin => hspared (hcleared.1 hin)) with ⟨b, hb, -⟩ | ⟨-, htakes⟩
      · cases hb
      · exact htakes
  · have hunedited {e : Edit} (he : e ∈ ((removing m root).plan s st .empty).edits)
        (hname : e.model.name = m'.name) (hid : e.id = row.id) : False := by
      obtain ⟨⟨column, hc⟩, -⟩ := settled_removing e (List.mem_filter.1 he).1
      rw [hname, hid] at hc
      exact hspared column (hcleared.1 hc)
    cases h with
    | spared => rfl
    | same => rfl
    | changed he hname hid => exact (hunedited he hname hid).elim

/-- Of two records that go, one of which has a key that leads to the other, the one with the key was
reached later. -/
theorem led_by {h : Handle} {x : Row} (hd : s.Declares h)
    (hdown : h.relation.link.leadsDown = true) (hgoes : s.Goes st m root h.parent x)
    (hrelated : row ∈ relatedRows st h x) {l₁ l₂ : List Ref}
    (hsplit : s.withOwned st .empty [.stored m.name root.id] =
      l₁ ++ .stored h.target.name row.id :: l₂) :
    .stored h.parent.name x.id ∈ l₁ ∨
      Ref.stored h.parent.name x.id = .stored h.target.name row.id := by
  have hrow := Schema.mem_rows_of_related hdown hrelated
  -- The first record reached is the root, of the earliest model; any other one is led to by its
  -- owner, and that relation is the only one that leads to it.
  rcases led_of_reach hsplit with hfirst | ⟨a, ha, hnext⟩
  · obtain ⟨hname, hid⟩ := Ref.stored.inj (List.mem_singleton.1 hfirst)
    obtain rfl := Schema.eq_of_name hd.target_mem hm hname
    obtain rfl := Store.eq_of_id hroot hrow hid
    rcases hgoes.place_lt hs with ⟨hparent, rfl⟩ | hlater
    · exact .inr (by rw [hparent])
    · by_cases hself : h.parent = h.target
      · rw [hself] at hlater
        omega
      · have hbefore := hs.place_lt hd hdown hself
        omega
  · have hin : a ∈ s.withOwned st .empty [.stored m.name root.id] :=
      hsplit ▸ List.mem_append_left _ ha
    obtain ⟨ma, arow, hagoes, rfl⟩ := (Schema.mem_withOwned hm hroot hone).1 hin
    obtain ⟨h', hd', rfl, howned, row', hrow', hsame⟩ :=
      (Schema.mem_owned hm hroot hone hagoes).1 hnext
    obtain ⟨hname, hid⟩ := Ref.stored.inj hsame
    have htarget := Schema.eq_of_name hd.target_mem hd'.target_mem hname
    obtain rfl := hs.eq_of_owned hd' howned hd hdown htarget
    obtain ⟨hstored, hequals⟩ := (mem_relatedRows_of_child (Link.leadsDown_iff.1 hdown)).1 hrow'
    obtain rfl := Store.eq_of_id hstored hrow hid
    have hx := ((mem_relatedRows_of_child (Link.leadsDown_iff.1 hdown)).1 hrelated).2
    exact .inl (Cell.equals_unique hequals hx ▸ ha)

/-- What refers to a record that goes, once the edits are written, goes along with it. -/
theorem goes_of_refers (hst : st.Complete s) {st' : Store}
    (hedits : ((removing m root).plan s st .empty).Edits s now st st') {mx : Model} {x : Row}
    (hgoes : s.Goes st m root mx x) (hm' : m' ∈ s.models) (hrow' : row' ∈ st'.rows m')
    (hrefers : row'.Refers m' mx.table x.id) : ∃ row, row.id = row'.id ∧
      s.Goes st m root m' row ∧ ∃ h, s.Declares h ∧ h.relation.link.leadsDown = true ∧
        h.parent = mx ∧ h.target = m' ∧ row ∈ relatedRows st h x := by
  obtain ⟨row, hrow, hrewrites⟩ := hedits.exists_row hm' hrow'
  obtain ⟨c, hc, hreferences, hequals⟩ := hrefers
  obtain ⟨m'', hm'', htable, h, hh, hdown, rfl, hkey⟩ := hs.covered m' hm' c hc _ hreferences
  obtain ⟨hd, hparent⟩ := Schema.declares_of_mem_handles hm'' hh
  obtain ⟨hmx, -⟩ := hgoes.stored hm hroot
  obtain rfl := Schema.eq_of_table hm'' hmx htable
  have hrelated (hcell : row'.cell c.name = row.cell c.name) : row ∈ relatedRows st h x := by
    refine (mem_relatedRows_of_child (Link.leadsDown_iff.1 hdown)).2 ⟨hrow, ?_⟩
    rw [hkey, ← hcell, Cell.equals_integer_comm]
    exact hequals
  -- A row that stays has no such key any more: the relation owns the row, or the key is cleared.
  have hgone : s.Goes st m root h.target row := by
    by_contra hstays
    have houtlives := outlives hs hm hroot hone hst hm' hrow hstays hrewrites
    have hspared : ¬s.Releases st m root h.target row c.name := by
      intro hreleases
      rw [houtlives.released c.name hreleases, Cell.null_equals] at hequals
      cases hequals
    have hstamp : c ≠ updatedAt := by
      rintro rfl
      cases hreferences
    have hlinked := hrelated (houtlives.frame c hc hspared hstamp)
    cases howned : h.relation.link.isOwned with
    | true => exact hstays (.owned hd howned (hparent ▸ hgoes) hlinked)
    | false => exact hspared ⟨h, x, hd, hdown, howned, hparent ▸ hgoes, rfl, hlinked, hkey⟩
  refine ⟨row, hrewrites.id_eq.symm, hgone, h, hd, hdown, hparent, rfl, hrelated ?_⟩
  rw [eq_of_goes hm hroot hone hgone hrewrites]

/-- The edits leave a store from which the records that go can be removed in reverse order. -/
theorem removals_follow (hst : st.Complete s) {st' : Store}
    (hedits : ((removing m root).plan s st .empty).Edits s now st st') {before after : List Ref}
    {ref : Ref} (hsplit : (s.withOwned st .empty [.stored m.name root.id]).reverse =
      before ++ ref :: after) {mx : Model} (hmx : mx ∈ s.models) {id : Int}
    (href : ref = .stored mx.name id) (hm' : m' ∈ s.models) (hrow' : row' ∈ st'.rows m')
    (hrefers : row'.Refers m' mx.table id) :
    .stored m'.name row'.id ∈ before ∨ .stored m'.name row'.id = ref := by
  -- What was reached after the record is removed before it.
  have hall : s.withOwned st .empty [.stored m.name root.id] =
      after.reverse ++ ref :: before.reverse := by
    rw [← List.reverse_reverse (s.withOwned st .empty _), hsplit, List.reverse_append,
      List.reverse_cons, List.append_assoc, List.singleton_append]
  have hnodup : (after.reverse ++ ref :: before.reverse).Nodup :=
    hall ▸ nodup_reach (s.nodup_allRecords st)
  have hin : ref ∈ s.withOwned st .empty [.stored m.name root.id] :=
    hall ▸ List.mem_append_right _ (List.mem_cons_self ..)
  obtain ⟨mx', x, hgoes, hx⟩ := (Schema.mem_withOwned hm hroot hone).1 hin
  obtain ⟨hname, rfl⟩ := Ref.stored.inj (href.symm.trans hx)
  obtain rfl := Schema.eq_of_name hmx (hgoes.stored hm hroot).1 hname
  obtain ⟨row, hid, hgone, h, hd, hdown, rfl, rfl, hrelated⟩ :=
    goes_of_refers hs hm hroot hone hst hedits hgoes hm' hrow' hrefers
  rw [← hid]
  have hmem : .stored h.target.name row.id ∈ after.reverse ++ ref :: before.reverse :=
    hall ▸ (Schema.mem_withOwned hm hroot hone).2 ⟨h.target, row, hgone, rfl⟩
  rcases List.mem_append.1 hmem with hlater | hmem
  · obtain ⟨l₁, l₂, hl⟩ := List.append_of_mem hlater
    rw [hl, List.append_assoc, List.cons_append] at hall
    rcases led_by hs hm hroot hone hd hdown hgoes hrelated hall with hbefore | hself
    · have hagain : ref ∈ after.reverse := hl ▸ href ▸ List.mem_append_left _ hbefore
      exact absurd rfl ((List.nodup_append.1 hnodup).2.2 ref hagain ref (List.mem_cons_self ..))
    · exact .inr (href ▸ hself.symm)
  · rcases List.mem_cons.1 hmem with hself | hearlier
    · exact .inr hself
    · exact .inl (List.mem_reverse.1 hearlier)

/-- A record is removed, with all that goes with it. -/
theorem flush_removing (hst : st.Lawful s) (now : Moment) :
    ∃ w, (removing m root).flush s now st .empty = .ok w ∧ s.Deletes st m root w.store := by
  obtain ⟨w, hw, hedits⟩ := Plan.edits_run now hs.toStamped
    (free_removing hs hm hroot hone) (spares_removing hs hm hroot hone)
    ((pairwise_settled .nil).filter _) hst
  obtain ⟨w', hw', hrows⟩ := Written.removals_run (s := s) (w := w)
    (s.withOwned st .empty [.stored m.name root.id]).reverse
    fun before ref after hsplit mx hmx id href m' hm' row' hrow' hrefers =>
      removals_follow hs hm hroot hone hst.complete hedits hsplit hmx href hm' hrow' hrefers
  have hstays {m' : Model} (hm' : m' ∈ s.models) {row : Row} (hrow : row ∈ st.rows m') :
      .stored m'.name row.id ∉ (s.withOwned st .empty [.stored m.name root.id]).reverse ↔
        ¬s.Goes st m root m' row := by
    rw [List.mem_reverse, Schema.goes_iff_mem hm hroot hone hm' hrow]
  refine ⟨w', except_bind_ok.2 ⟨w, hw, hw'⟩, fun m' hm' row hrow hgoes => ?_,
    fun m' hm' row' hrow' => ?_⟩
  · obtain ⟨row', hrow', hrewrites⟩ := hedits.rewrites m' hm' row hrow
    refine ⟨row', (hrows m' hm' row').2 ⟨hrow', ?_⟩, ?_⟩
    · rw [hrewrites.id_eq]
      exact (hstays hm' hrow).2 hgoes
    · exact outlives hs hm hroot hone hst.complete hm' hrow hgoes hrewrites
  · obtain ⟨hin, hout⟩ := (hrows m' hm' row').1 hrow'
    obtain ⟨row, hrow, hrewrites⟩ := hedits.exists_row hm' hin
    rw [hrewrites.id_eq, hstays hm' hrow] at hout
    exact ⟨row, hrow, hout, outlives hs hm hroot hone hst.complete hm' hrow hout hrewrites⟩

end Plan

end Staging

end Records
