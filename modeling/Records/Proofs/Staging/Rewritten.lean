import Mathlib.Data.List.Nodup
import Records.Proofs.Staging.Edits
import Records.Proofs.Staging.Frame

/-!
What a write makes of a row that is not removed. The row has one turn, in the round of its rank:
then its edit, completed by the links that are settled by that time, gives it new cells, unless it
holds all the values already. Every other step leaves the row as it is, before its turn and after
it.
-/
namespace Records

open Records.Calendar (Moment)

section Changes

theorem Store.mem_change {s : Schema} {m : Model} {cells : List (String × Cell)}
    (hcells : SparesId cells) {st st' : Store} {row : Row}
    (h : st.change s m [row] cells = .ok st') : row.withCells row.id cells ∈ st'.rows m := by
  have hnone : cells.find? (·.1 == idColumn.name) = none := by
    rw [List.find?_eq_none]
    exact fun e he => by simpa using hcells e he
  unfold change at h
  obtain ⟨⟨t, pairs⟩, hchanged, h⟩ := except_bind_ok.1 h
  obtain ⟨⟨t₁, new⟩, hfirst, hrest⟩ := except_bind_ok.1 hchanged
  cases hrest
  unfold changeRow at hfirst
  rw [hnone] at hfirst
  obtain ⟨id, hid, hfirst⟩ := except_bind_ok.1 hfirst
  cases hid
  obtain ⟨⟨⟩, -, hfirst⟩ := except_bind_ok.1 hfirst
  cases hfirst
  dsimp only at h
  split at h
  · cases h
    unfold rows
    rw [table_setTable_self]
    exact Table.mem_insert_self _ _
  · cases h

end Changes

/-- Items for different records. -/
def Distinct {α : Type} (es : List (Int × α)) : Prop := es.Pairwise fun a b => a.1 ≠ b.1

namespace Written
variable {s : Schema} {m : Model} {row : Row} {as : Assigned} {w w' : Written}

/-- Writes encoded values to one row, if it is there. -/
def put (s : Schema) (m : Model) (w : Written) (e : Int × Assigned) :
    Except WriteError Written := do
  let cells ← e.2.cells
  match (w.store.table m.table).find? e.1 with
  | some row => return { w with store := ← (w.store.change s m [row] cells).mapError .constraint }
  | none => return w

theorem update_ok {group : List (Int × Assigned)} (h : w.update s m group = .ok w') :
    ∃ encoded : List (Int × Assigned),
      group.mapM (fun e => do return (e.1, ← e.2.encode)) = .ok encoded ∧
        encoded.foldlM (put s m) w = .ok w' := except_bind_ok.1 h

theorem encode_pair_ok {κ : Type} {e e' : κ × Assigned}
    (h : (do return (e.1, ← e.2.encode) : Except WriteError (κ × Assigned)) = .ok e') :
    e'.1 = e.1 ∧ e.2.encode = .ok e'.2 := by
  obtain ⟨forms, hforms, h⟩ := except_bind_ok.1 h
  cases h
  exact ⟨rfl, hforms⟩

theorem put_keeps {e : Int × Assigned} (hspares : e.2.Spares) (hne : row.id ≠ e.1)
    (h : w.put s m e = .ok w') (hrow : row ∈ w.store.rows m) : row ∈ w'.store.rows m := by
  obtain ⟨cells, hcells, h⟩ := except_bind_ok.1 h
  split at h
  · rename_i old hold
    obtain ⟨st, hst, h⟩ := except_bind_ok.1 h
    cases h
    refine Store.change_keeps (hspares.cells hcells) (mapError_eq_ok.1 hst) hrow fun _ r hr => ?_
    rw [List.mem_singleton.1 hr, (Table.mem_of_find? hold).2]
    exact hne
  · cases h
    exact hrow

theorem mem_put {forms : Assigned} (hspares : forms.Spares) (h : w.put s m (row.id, forms) = .ok w')
    (hrow : row ∈ w.store.rows m) :
    ∃ cells, forms.cells = .ok cells ∧ row.withCells row.id cells ∈ w'.store.rows m := by
  obtain ⟨cells, hcells, h⟩ := except_bind_ok.1 h
  have hfound : (w.store.table m.table).find? row.id = some row := Table.find?_of_mem hrow
  dsimp only at h
  rw [hfound] at h
  obtain ⟨st, hst, h⟩ := except_bind_ok.1 h
  cases h
  exact ⟨cells, hcells, Store.mem_change (hspares.cells hcells) (mapError_eq_ok.1 hst)⟩

/-- An update that a row is among gives it the cells of its values. -/
theorem mem_update {group : List (Int × Assigned)} (hdistinct : Distinct group)
    (hspares : ∀ e ∈ group, e.2.Spares) (hin : (row.id, as) ∈ group)
    (h : w.update s m group = .ok w') (hrow : row ∈ w.store.rows m) :
    ∃ cells, as.encode.bind Assigned.cells = .ok cells ∧
      row.withCells row.id cells ∈ w'.store.rows m := by
  obtain ⟨encoded, hencoded, h⟩ := update_ok h
  have hspared (e : Int × Assigned) (he : e ∈ encoded) : e.2.Spares := by
    obtain ⟨a, ha, hpair⟩ := exists_of_mem_mapM hencoded he
    exact (hspares a ha).encode (encode_pair_ok hpair).2
  have hapart : encoded.Pairwise fun a b => a.1 ≠ b.1 := by
    refine pairwise_mapM hencoded hdistinct fun a a' e e' he he' hne => ?_
    rwa [(encode_pair_ok he).1, (encode_pair_ok he').1]
  obtain ⟨⟨id, forms⟩, hmem, hpair⟩ := exists_mem_mapM hencoded hin
  obtain ⟨rfl, hforms⟩ := encode_pair_ok hpair
  refine foldlM_turns (P := fun w => row ∈ w.store.rows m) (Q := fun w => ∃ cells,
    as.encode.bind Assigned.cells = .ok cells ∧ row.withCells row.id cells ∈ w.store.rows m)
    hapart hmem ?_ ?_ ?_ h hrow
  · exact fun e he hne b b' hstep hb => put_keeps (hspared e he) hne.symm hstep hb
  · intro b b' hstep hb
    obtain ⟨cells, hcells, hnew⟩ := mem_put (hspared _ hmem) hstep hb
    exact ⟨cells, except_bind_ok.2 ⟨forms, hforms, hcells⟩, hnew⟩
  · rintro e he hne b b' hstep ⟨cells, hcells, hb⟩
    refine ⟨cells, hcells, put_keeps (hspared e he) ?_ hstep hb⟩
    rw [Row.id_withCells]
    exact hne.symm

theorem mem_updates {groups : List (List (Int × Assigned))} (hdistinct : Distinct groups.flatten)
    (hspares : ∀ e ∈ groups.flatten, e.2.Spares) (hin : (row.id, as) ∈ groups.flatten)
    (h : groups.foldlM (update s m) w = .ok w') (hrow : row ∈ w.store.rows m) :
    ∃ cells, as.encode.bind Assigned.cells = .ok cells ∧
      row.withCells row.id cells ∈ w'.store.rows m := by
  induction groups generalizing w with
  | nil => cases hin
  | cons group groups ih =>
    rw [List.flatten_cons] at hdistinct hspares hin
    obtain ⟨hfirst, hrest, hacross⟩ := List.pairwise_append.1 hdistinct
    obtain ⟨hspared, hlater⟩ := List.forall_mem_append.1 hspares
    rw [List.foldlM_cons] at h
    obtain ⟨next, hnext, h⟩ := except_bind_ok.1 h
    rcases List.mem_append.1 hin with hhere | hthere
    · obtain ⟨cells, hcells, hnew⟩ := mem_update hfirst hspared hhere hnext hrow
      refine ⟨cells, hcells, foldlM_keeps (P := fun w => row.withCells row.id cells ∈
        w.store.rows m) ?_ h hnew⟩
      intro group hgroup b b' hstep hb
      refine update_keeps (fun e he => ?_) hstep hb
      have hmem : e ∈ groups.flatten := List.mem_flatten.2 ⟨group, hgroup, he⟩
      rw [Row.id_withCells]
      exact ⟨hlater e hmem, fun _ => hacross _ hhere e hmem⟩
    · refine ih hrest hlater hthere h (update_keeps (fun e he => ?_) hnext hrow)
      exact ⟨hspared e he, fun _ => (hacross e he _ hthere).symm⟩

end Written

theorem le_foldl_max {n start : Nat} {ns : List Nat} (h : n ∈ ns ∨ n ≤ start) :
    n ≤ ns.foldl max start := by
  induction ns generalizing start with
  | nil => exact h.elim (fun hn => by cases hn) id
  | cons k ns ih =>
    refine ih ?_
    rcases h with hn | hn
    · rcases List.mem_cons.1 hn with rfl | hn
      · exact .inr (Nat.le_max_right ..)
      · exact .inl hn
    · exact .inr (Nat.le_trans hn (Nat.le_max_left ..))

namespace Plan
variable {s : Schema} {p : Plan} {m : Model} {row : Row} {now : Moment}

/-- What a plan makes of a row. -/
inductive Rewrites (p : Plan) (now : Moment) (m : Model) (row : Row) : Row → Prop
  | spared (hnone : ∀ e ∈ p.edits, e.model.name = m.name → e.id ≠ row.id) :
    Rewrites p now m row row
  | same {e : Edit} {w : Written} (he : e ∈ p.edits) (hname : e.model.name = m.name)
    (hid : e.id = row.id) (hsame : m.changedValues row (p.given w m e) = []) :
    Rewrites p now m row row
  | changed {e : Edit} {w : Written} {cells : List (String × Cell)} (he : e ∈ p.edits)
    (hname : e.model.name = m.name) (hid : e.id = row.id)
    (hcells : (m.updateValues now (m.changedValues row (p.given w m e))).encode.bind
      Assigned.cells = .ok cells) : Rewrites p now m row (row.withCells row.id cells)

theorem Rewrites.id_eq {row' : Row} (h : p.Rewrites now m row row') : row'.id = row.id := by
  cases h with
  | spared _ => rfl
  | same _ _ _ _ => rfl
  | changed _ _ _ _ => exact Row.id_withCells ..

theorem rank_lt_rounds (p : Plan) (ref : Ref) : p.rank ref < p.rounds := by
  refine Nat.lt_succ_of_le ?_
  by_cases hfollows : ∃ a ∈ p.attachments, a.follower = ref
  · obtain ⟨a, ha, rfl⟩ := hfollows
    exact le_foldl_max (.inl (List.mem_map_of_mem ha))
  · have hnone : p.attachments.filter (fun a => a.follower == ref) = [] := by
      refine List.filter_eq_nil_iff.2 fun a ha hsame => hfollows ⟨a, ha, eq_of_beq hsame⟩
    have hzero : p.rank ref = 0 := by
      unfold rank
      cases hfuel : p.attachments.length with
      | zero => rfl
      | succ fuel =>
        unfold Attachment.rank
        rw [hnone]
        rfl
    rw [hzero]
    exact Nat.zero_le _

theorem rank_of_mem_editsAt {level : Nat} {e : Edit} (he : e ∈ p.editsAt m level) :
    p.rank (.stored m.name e.id) = level := by
  obtain ⟨-, hhere⟩ := List.mem_filter.1 (List.mem_mergeSort.1 he)
  exact beq_iff_eq.1 (Bool.and_eq_true_iff.1 hhere).2

theorem mem_editsAt_rank {e : Edit} (he : e ∈ p.edits) (hname : e.model.name = m.name) :
    e ∈ p.editsAt m (p.rank (.stored m.name e.id)) := by
  refine List.mem_mergeSort.2 (List.mem_filter.2 ⟨he, ?_⟩)
  rw [hname, beq_self_eq_true, beq_self_eq_true]
  rfl

theorem distinct_editsAt (hp : p.edits.Pairwise Edit.Apart) (m : Model) (level : Nat) :
    (p.editsAt m level).Pairwise fun a b => a.id ≠ b.id := by
  have happart : (p.edits.filter fun e => e.model.name == m.name &&
      p.rank (.stored m.name e.id) == level).Pairwise fun a b => a.id ≠ b.id := by
    refine (hp.filter _).imp_of_mem fun ha hb hne hid => hne ⟨?_, hid⟩
    have hname {e : Edit} (he : e ∈ p.edits.filter fun e => e.model.name == m.name &&
        p.rank (.stored m.name e.id) == level) : e.model.name = m.name :=
      beq_iff_eq.1 (Bool.and_eq_true_iff.1 (List.mem_filter.1 he).2).1
    rw [hname ha, hname hb]
  exact happart.perm (List.mergeSort_perm ..).symm fun hne => hne.symm

theorem distinct_updates (hp : p.edits.Pairwise Edit.Apart) (m : Model) (level : Nat)
    (w : Written) : Distinct ((p.editsAt m level).filterMap (p.update? now m w)) := by
  refine (distinct_editsAt hp m level).filterMap _ fun b c hne x hx y hy => ?_
  obtain ⟨-, -, -, rfl⟩ := update?_eq_some.1 hx
  obtain ⟨-, -, -, rfl⟩ := update?_eq_some.1 hy
  exact hne

theorem SparesIds.updates (hp : p.SparesIds) (hs : s.Keyed) (hm : m ∈ s.models) {level : Nat}
    {w : Written} {a : Int × Assigned}
    (ha : a ∈ (p.editsAt m level).filterMap (p.update? now m w)) : a.2.Spares := by
  obtain ⟨e, he, ha⟩ := List.mem_filterMap.1 ha
  exact hp.update? hs hm (mem_editsAt he).1 ha

section Turns
variable (hs : s.Keyed) (hp : p.SparesIds) (hdistinct : p.edits.Pairwise Edit.Apart)
  (hm : m ∈ s.models)
include hs hp hdistinct hm

/-- In the round of its rank, a row is given its new cells. -/
theorem writeLevel_rewrites {e : Edit} (he : e ∈ p.edits) (hname : e.model.name = m.name)
    (hid : e.id = row.id) {w w' : Written}
    (h : p.writeLevel s now m w (p.rank (.stored m.name row.id)) = .ok w')
    (hrow : row ∈ w.store.rows m) : ∃ row' ∈ w'.store.rows m, p.Rewrites now m row row' := by
  have hhere : e ∈ p.editsAt m (p.rank (.stored m.name row.id)) := hid ▸ mem_editsAt_rank he hname
  have hfound : (w.store.table m.table).find? e.id = some row := hid ▸ Table.find?_of_mem hrow
  obtain ⟨updated, hupdated, groups, hadded⟩ := writeLevel_ok h
  cases hchanged : m.changedValues row (p.given w m e) with
  | nil =>
    refine ⟨row, adds_keep (hs.id_mem m hm) hadded ?_, .same he hname hid hchanged⟩
    refine foldlM_keeps (P := fun w => row ∈ w.store.rows m) ?_ hupdated hrow
    intro group hgroup before after hstep hbefore
    refine Written.update_keeps (fun a ha => ?_) hstep hbefore
    replace ha := mem_of_mem_splitBy hgroup ha
    refine ⟨hp.updates hs hm ha, fun _ hsame => ?_⟩
    -- The one edit of the row changes nothing.
    obtain ⟨e', he', ha⟩ := List.mem_filterMap.1 ha
    obtain ⟨old, hold, hsome, rfl⟩ := update?_eq_some.1 ha
    have hapart := List.pairwise_map.2
      (distinct_editsAt hdistinct m (p.rank (.stored m.name row.id)))
    obtain rfl : e' = e := List.inj_on_of_nodup_map hapart he' hhere (hsame.symm.trans hid.symm)
    rw [hfound] at hold
    cases hold
    exact hsome hchanged
  | cons a as =>
    have hin : (row.id, m.updateValues now (m.changedValues row (p.given w m e))) ∈
        (p.editsAt m (p.rank (.stored m.name row.id))).filterMap (p.update? now m w) := by
      refine List.mem_filterMap.2 ⟨e, hhere, update?_eq_some.2 ⟨row, hfound, ?_, hid ▸ rfl⟩⟩
      rw [hchanged]
      exact List.cons_ne_nil a as
    have hupdates : Distinct
        ((p.editsAt m (p.rank (.stored m.name row.id))).filterMap (p.update? now m w)) :=
      distinct_updates hdistinct m _ w
    have hspares (a : Int × Assigned) (ha : a ∈
        (p.editsAt m (p.rank (.stored m.name row.id))).filterMap (p.update? now m w)) :
        a.2.Spares :=
      hp.updates hs hm ha
    rw [← List.flatten_splitBy (r := fun a b : Int × Assigned =>
      a.2.map (·.1.name) == b.2.map (·.1.name)) (l := List.filterMap _ _)] at hin hupdates hspares
    obtain ⟨cells, hcells, hnew⟩ := Written.mem_updates hupdates hspares hin hupdated hrow
    exact ⟨_, adds_keep (hs.id_mem m hm) hadded hnew, .changed he hname hid hcells⟩

theorem writeModel_rewrites {e : Edit} (he : e ∈ p.edits) (hname : e.model.name = m.name)
    (hid : e.id = row.id) {w w' : Written} (h : p.writeModel s now w m = .ok w')
    (hrow : row ∈ w.store.rows m) : ∃ row' ∈ w'.store.rows m, p.Rewrites now m row row' := by
  have hothers {row' : Row} (hid' : row'.id = row.id) (level : Nat)
      (hne : level ≠ p.rank (.stored m.name row.id)) (b b' : Written)
      (hstep : p.writeLevel s now m b level = .ok b') (hb : row' ∈ b.store.rows m) :
      row' ∈ b'.store.rows m := by
    refine writeLevel_keeps hs hp hm (fun _ e' he' hsame => hne ?_) hstep hb
    rw [← rank_of_mem_editsAt he', hsame, hid']
  refine foldlM_turns (k := id) (P := fun w => row ∈ w.store.rows m)
    (Q := fun w => ∃ row' ∈ w.store.rows m, p.Rewrites now m row row') List.nodup_range
    (List.mem_range.2 (rank_lt_rounds p (.stored m.name row.id))) ?_ ?_ ?_ h hrow
  · exact fun level _ hne b b' hstep hb => hothers rfl level hne b b' hstep hb
  · exact fun b b' hstep hb => writeLevel_rewrites hs hp hdistinct hm he hname hid hstep hb
  · rintro level - hne b b' hstep ⟨row', hb, hnew⟩
    exact ⟨row', hothers hnew.id_eq level hne b b' hstep hb, hnew⟩

/-- A row that is not removed is in the store afterwards, with the cells that its edit gives it. -/
theorem write_rewrites {st : Store} (hrow : row ∈ st.rows m)
    (hstays : .stored m.name row.id ∉ p.removals) {w : Written} (h : p.write s now st = .ok w) :
    ∃ row' ∈ w.store.rows m, p.Rewrites now m row row' := by
  by_cases hedited : ∃ e ∈ p.edits, e.model.name = m.name ∧ e.id = row.id
  · obtain ⟨e, he, hname, hid⟩ := hedited
    obtain ⟨written, hwritten, h⟩ := except_bind_ok.1 h
    have hothers {row' : Row} (m' : Model) (hm' : m' ∈ s.models) (hne : m'.name ≠ m.name)
        (b b' : Written) (hstep : p.writeModel s now b m' = .ok b') (hb : row' ∈ b.store.rows m) :
        row' ∈ b'.store.rows m := by
      refine foldlM_keeps (P := fun w => row' ∈ w.store.rows m) ?_ hstep hb
      intro level _ w w' hlevel hw
      refine writeLevel_keeps hs hp hm' (fun htable => absurd ?_ hne) hlevel hw
      rw [Schema.eq_of_table hm hm' htable]
    obtain ⟨row', hrow', hnew⟩ := foldlM_turns (k := Model.name)
      (P := fun w => row ∈ w.store.rows m)
      (Q := fun w => ∃ row' ∈ w.store.rows m, p.Rewrites now m row row')
      (List.pairwise_map.1 s.distinctNames) hm (fun m' hm' hne => hothers m' hm' hne)
      (fun b b' hstep hb => writeModel_rewrites hs hp hdistinct hm he hname hid hstep hb)
      (fun m' hm' hne b b' hstep hb => by
        obtain ⟨row', hb, hnew⟩ := hb
        exact ⟨row', hothers m' hm' hne b b' hstep hb, hnew⟩) hwritten hrow
    refine ⟨row', ?_, hnew⟩
    refine foldlM_keeps (P := fun w => row' ∈ w.store.rows m) ?_ h hrow'
    intro ref href before after hstep hbefore
    refine Written.remove_keeps hm ?_ hstep hbefore
    rintro rfl
    rw [hnew.id_eq] at href
    exact hstays (List.mem_reverse.1 href)
  · refine ⟨row, write_keeps hs hp hm ?_ h hrow, .spared fun e he hname hid => ?_⟩
    · exact fun hconcerns => hconcerns.elim hedited hstays
    · exact hedited ⟨e, he, hname, hid⟩

end Turns

end Plan

end Records
