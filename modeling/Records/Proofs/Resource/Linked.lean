import Records.Proofs.Resource.Inserted

/-!
What the relations of a new record lead to. No row that was there before refers to it, and of those
that came with it each refers to it, or is referred to, along the relation that it was given for.
-/
namespace Records

open Records.Filter (relatedRows)

theorem Link.opposite_of_children {l l' : Link} (hl : ∀ fk, l ≠ .parent fk)
    (hl' : ∀ fk, l' ≠ .parent fk) : l.opposite l' = false := by
  cases l with
  | parent fk => exact absurd rfl (hl fk)
  | many fk orderedBy owned =>
    cases l' with
    | parent fk => exact absurd rfl (hl' fk)
    | many fk orderedBy owned => rfl
    | one fk owned => rfl
  | one fk owned =>
    cases l' with
    | parent fk => exact absurd rfl (hl' fk)
    | many fk orderedBy owned => rfl
    | one fk owned => rfl

/-- Every key in a store leads to a row. -/
def Store.Intact (s : Schema) (st : Store) : Prop :=
  ∀ m ∈ s.models, ∀ row ∈ st.rows m, ∀ c ∈ m.columns, st.resolves c (row.cell c.name) = true

/-- No row refers to an id that is not there. -/
theorem Store.Intact.not_refers {s : Schema} {st : Store} (hst : st.Intact s) {m referred : Model}
    (hm : m ∈ s.models) {t : Row} (ht : t ∈ st.rows m) {c : Column} (hc : c ∈ m.columns)
    (hrefers : c.references = some referred.table) {n : Int}
    (hnew : ∀ row ∈ st.rows referred, row.id ≠ n) :
    Cell.equals (.integer n) (t.cell c.name) = false := by
  have hresolves := hst m hm t ht c hc
  unfold resolves at hresolves
  rw [hrefers] at hresolves
  by_contra hequals
  replace hequals : Cell.equals (.integer n) (t.cell c.name) = true := by simpa using hequals
  rcases Bool.or_eq_true_iff.1 hresolves with hnull | hfound
  · rw [eq_of_beq hnull] at hequals
    cases hequals
  · obtain ⟨row, hrow, hleads⟩ := List.any_eq_true.1 hfound
    rw [← Cell.equals_integer_comm] at hleads
    exact hnew row hrow (Cell.equals_unique hleads hequals)

theorem memberRows_perm (st : Store) (h : Handle) (row : Row) :
    (memberRows st h row).Perm (relatedRows st h row) := by
  unfold memberRows
  dsimp only
  split
  · unfold Query.sorted
    split
    · exact .refl _
    · exact List.mergeSort_perm ..
  · exact .refl _

/-- The rows of the members under a relation. -/
def rowsUnder (placed : List (Member × Row)) (h : Handle) : List Row :=
  (placed.filter (·.1.handle = h)).map (·.2)

theorem mem_rowsUnder {placed : List (Member × Row)} {h : Handle} {t : Row} :
    t ∈ rowsUnder placed h ↔ ∃ e ∈ placed, e.1.handle = h ∧ e.2 = t := by
  unfold rowsUnder
  simp only [List.mem_map, List.mem_filter, decide_eq_true_iff, and_assoc]

namespace Resource
variable {r : Resource} {es : List (String × Value)} {now : Calendar.Moment} {row t : Row}
  {placed : List (Member × Row)} {e : Member × Row} {h : Handle} {st st' : Store}

/-- A store has the rows of another one, and those that a payload is stored as. -/
structure Inserted (r : Resource) (es : List (String × Value)) (now : Calendar.Moment)
    (st st' : Store) (row : Row) (placed : List (Member × Row)) : Prop where
  written : (r.family es).WrittenAs now row placed
  rows_perm : ∀ m : Model, (st'.rows m).Perm (st.rows m ++ (r.family es).rowsOf row placed m)

theorem rowsOf_model : (r.family es).rowsOf row placed r.model =
    row :: (placed.filter (·.1.handle.target.table = r.model.table)).map (·.2) := by
  unfold Family.rowsOf
  rw [holder_family, if_pos rfl]
  rfl

/-- A store that goes through inserts the rows of the payload. -/
theorem store_inserts (hs : r.schema.Regular) (hm : r.model ∈ r.schema.models) {payload : Value}
    (hp : r.Accepts payload.entries) {se : Session} (hse : se.Idle) {n : Int}
    (h : (r.store payload se).result = .ok (some (.stored r.model.name n))) :
    ∃ row placed, row.id = n ∧ r.Inserted payload.entries se.now se.store
      (r.store payload se).session.store row placed := by
  obtain ⟨w, hwrite, hstore, saved, -, hid, hsaved⟩ := store_writes hse h
  obtain ⟨row, placed, hwritten, hrow, hperm⟩ :=
    Family.write_rows hse.unloaded hs (fits_family hs hm hp) hwrite
  rw [hid] at hrow
  rw [hstore]
  exact ⟨row, placed, (Option.some.inj hrow).symm.trans (Ref.stored.inj hsaved).2.symm,
    hwritten, hperm⟩

namespace Inserted
variable (hi : r.Inserted es now st st' row placed)
include hi

theorem mem_rows {m : Model} : t ∈ st'.rows m ↔ t ∈ st.rows m ∨
    r.model.table = m.table ∧ t = row ∨
      ∃ e ∈ placed, e.1.handle.target.table = m.table ∧ e.2 = t := by
  rw [(hi.rows_perm m).mem_iff, List.mem_append]
  unfold Family.rowsOf
  rw [List.mem_append, holder_family]
  refine or_congr_right (or_congr ?_ ?_)
  · by_cases htable : r.model.table = m.table <;> simp [htable]
  · simp only [List.mem_map, List.mem_filter, decide_eq_true_iff, and_assoc]

theorem row_mem : row ∈ st'.rows r.model := hi.mem_rows.2 (.inr (.inl ⟨rfl, rfl⟩))

theorem member_mem (he : e ∈ placed) : e.2 ∈ st'.rows e.1.handle.target :=
  hi.mem_rows.2 (.inr (.inr ⟨e, he, rfl, rfl⟩))

theorem nodup_ids (m : Model) :
    ((st.rows m).map (·.id) ++ ((r.family es).rowsOf row placed m).map (·.id)).Nodup := by
  rw [← List.map_append]
  exact ((hi.rows_perm m).map (·.id)).nodup_iff.1 (st'.table m.table).nodup_ids

theorem nodup_rowsUnder (h : Handle) : (rowsUnder placed h).Nodup := by
  have hids := (List.nodup_append.1 (hi.nodup_ids h.target)).2.1
  unfold Family.rowsOf at hids
  rw [List.map_append] at hids
  refine ((List.nodup_append.1 hids).2.1.of_map _).sublist (List.Sublist.map _ ?_)
  refine List.monotone_filter_right _ fun e he => ?_
  exact decide_eq_true (congrArg (·.target.table) (of_decide_eq_true he))

/-- The new record has an id of its own. -/
theorem id_ne_old : ∀ t ∈ st.rows r.model, t.id ≠ row.id := by
  intro t ht
  refine (List.nodup_append.1 (hi.nodup_ids r.model)).2.2 _ (List.mem_map_of_mem ht) _ ?_
  rw [rowsOf_model]
  exact List.mem_cons_self ..

theorem id_ne_member (he : e ∈ placed) (htarget : e.1.handle.target = r.model) :
    e.2.id ≠ row.id := by
  have hids := (List.nodup_append.1 (hi.nodup_ids r.model)).2.1
  rw [rowsOf_model, List.map_cons] at hids
  rintro hsame
  refine (List.nodup_cons.1 hids).1 (List.mem_map.2 ⟨e.2, List.mem_map.2 ⟨e, ?_, rfl⟩, hsame⟩)
  exact List.mem_filter.2 ⟨he, decide_eq_true (congrArg Model.table htarget)⟩

section Links
variable (hs : r.schema.Regular) (hp : r.Accepts es) (hd : r.schema.Declares h)
  (hnests : r.NestsUnder es h)
include hs hp hd hnests

variable (hm : r.model ∈ r.schema.models) (hparent : h.parent = r.model)
include hparent

/-- A key of the new record that a relation of the payload goes along is that of a member, or holds
nothing. -/
theorem holder_key (hreferrer : h.referrer = r.model) :
    row.cell h.relation.link.foreignKey = .null ∨
      ∃ e ∈ placed, e.1.handle.relation.link = .parent h.relation.link.foreignKey := by
  refine or_iff_not_imp_right.2 fun hnone => ?_
  obtain ⟨c, hc, hname, -, -⟩ := hs.key hd
  have hdefault := (hs.refers _ hd.parent_mem _ hd.mem_handles c hc hname).2
  rw [← hname] at hnone ⊢
  refine holder_blank hi.written (hreferrer ▸ hc) ?_ hdefault ?_ fun e he hlink =>
    hnone ⟨e, he, hlink⟩
  · rw [hname]
    exact Update.foreignKey_ne_id hs.toKeyed hd
  · rw [hname]
    exact hp.keys h (hparent ▸ hd.mem_handles) hnests hreferrer

include hm

theorem mem_relatedRows_parent {fk : String} (hlink : h.relation.link = .parent fk) :
    t ∈ relatedRows st' h row ↔ t ∈ rowsUnder placed h := by
  rw [mem_relatedRows_of_parent hlink, mem_rowsUnder]
  constructor
  · rintro ⟨ht, hequals⟩
    have hreferrer : h.referrer = r.model := (Handle.referrer_of_parent hlink).trans hparent
    have hkey := hi.holder_key hs hp hd hnests hparent hreferrer
    rw [hlink] at hkey
    change row.cell fk = .null ∨ ∃ e ∈ placed, e.1.handle.relation.link = .parent fk at hkey
    rcases hkey with hnull | ⟨e, he, hlink'⟩
    · rw [hnull] at hequals
      cases hequals
    · obtain ⟨hdeclared, hparent'⟩ := declares_of_mem hi.written hm he
      obtain rfl : e.1.handle = h := by
        refine hs.parents _ hm _ ?_ _ ?_ fk hlink' hlink
        · exact hparent' ▸ hdeclared.mem_handles
        · exact hparent ▸ hd.mem_handles
      rw [hi.written.parent e he fk hlink] at hequals
      exact ⟨e, he, rfl, Store.eq_of_id ht (hi.member_mem he) (Cell.equals_integers.1 hequals)⟩
  · rintro ⟨e, he, rfl, rfl⟩
    refine ⟨hi.member_mem he, ?_⟩
    rw [hi.written.parent e he fk hlink]
    exact Cell.equals_integer _

omit hnests in
/-- A member under another relation does not refer to the new record along this one. -/
theorem not_refers_of_ne (hlink : ∀ fk, h.relation.link ≠ .parent fk) (he : e ∈ placed)
    (htarget : e.1.handle.target = h.target) (hne : e.1.handle ≠ h) :
    e.2.cell h.relation.link.foreignKey = .null := by
  obtain ⟨hdeclared, hparent'⟩ := declares_of_mem hi.written hm he
  obtain ⟨c, hc, hname, -, -⟩ := hs.key hd
  obtain ⟨hrefers, hdefault⟩ := hs.refers _ hd.parent_mem _ hd.mem_handles c hc hname
  rw [Handle.referrer_of_child hlink, ← htarget] at hc
  rw [← hname]
  refine member_blank hi.written he hc ?_ hdefault (fun m hmapping => ?_) fun hkey => ?_
  · rw [hname]
    exact Update.foreignKey_ne_id hs.toKeyed hd
  · exact (hp.nested _ (mem_handles_of_member hm (mem_members hi.written he)) m hmapping).2 c hc
      (.inr (by rw [hrefers]; rfl))
  · by_contra hup
    -- Two relations to the same records do not go along one key.
    rcases hs.apart _ hm h (hparent ▸ hd.mem_handles) e.1.handle (hparent' ▸ hdeclared.mem_handles)
      htarget.symm (hname.symm.trans hkey) with hsame | hopposite
    · exact hne hsame.symm
    · rw [Link.opposite_of_children hlink fun fk hl => hup ⟨fk, hl⟩] at hopposite
      cases hopposite

/-- The new record does not refer to itself. -/
theorem not_refers_holder (hlink : ∀ fk, h.relation.link ≠ .parent fk)
    (htarget : h.target = r.model) :
    Cell.equals (.integer row.id) (row.cell h.relation.link.foreignKey) = false := by
  have hreferrer : h.referrer = r.model := (Handle.referrer_of_child hlink).trans htarget
  rcases hi.holder_key hs hp hd hnests hparent hreferrer with hnull | ⟨e, he, hlink'⟩
  · rw [hnull]
    rfl
  -- Its key leads to a member, which has an id of its own.
  · obtain ⟨hdeclared, hparent'⟩ := declares_of_mem hi.written hm he
    obtain ⟨c, hc, hname, -, -⟩ := hs.key hd
    have hc' : c ∈ e.1.handle.referrer.columns := by
      rw [Handle.referrer_of_parent hlink', hparent', ← hreferrer]
      exact hc
    have hrefers := (hs.refers _ hd.parent_mem _ hd.mem_handles c hc hname).1
    have hrefers' := (hs.refers _ hdeclared.parent_mem _ hdeclared.mem_handles c hc' (by
      rw [hlink', hname]
      rfl)).1
    rw [Handle.referred_of_child hlink, hparent] at hrefers
    rw [Handle.referred_of_parent hlink', hrefers] at hrefers'
    have hself := Schema.eq_of_table hdeclared.target_mem hm (Option.some.inj hrefers').symm
    rw [hi.written.parent e he _ hlink', Bool.eq_false_iff]
    exact fun hequals => hi.id_ne_member he hself (Cell.equals_integers.1 hequals).symm

theorem mem_relatedRows_child (hst : st.Intact r.schema)
    (hlink : ∀ fk, h.relation.link ≠ .parent fk) :
    t ∈ relatedRows st' h row ↔ t ∈ rowsUnder placed h := by
  obtain ⟨c, hc, hname, -, -⟩ := hs.key hd
  have hrefers := (hs.refers _ hd.parent_mem _ hd.mem_handles c hc hname).1
  rw [Handle.referrer_of_child hlink] at hc
  rw [Handle.referred_of_child hlink, hparent] at hrefers
  rw [mem_relatedRows_of_child hlink, mem_rowsUnder, hi.mem_rows]
  constructor
  · rintro ⟨hold | ⟨htable, rfl⟩ | ⟨e, he, htable, rfl⟩, hequals⟩
    · have hnone := hst.not_refers hd.target_mem hold hc hrefers hi.id_ne_old
      rw [hname, hequals] at hnone
      cases hnone
    · have htarget : h.target = r.model := (Schema.eq_of_table hm hd.target_mem htable).symm
      rw [hi.not_refers_holder hs hp hd hnests hm hparent hlink htarget] at hequals
      cases hequals
    · have htarget := Schema.eq_of_table (declares_of_mem hi.written hm he).1.target_mem
        hd.target_mem htable
      by_cases hsame : e.1.handle = h
      · exact ⟨e, he, hsame, rfl⟩
      · rw [hi.not_refers_of_ne hs hp hd hm hparent hlink he htarget hsame] at hequals
        cases hequals
  · rintro ⟨e, he, rfl, rfl⟩
    refine ⟨.inr (.inr ⟨e, he, rfl, rfl⟩), ?_⟩
    rw [hi.written.child e he hlink]
    exact Cell.equals_integer _

theorem mem_relatedRows (hst : st.Intact r.schema) :
    t ∈ relatedRows st' h row ↔ t ∈ rowsUnder placed h := by
  by_cases hup : ∃ fk, h.relation.link = .parent fk
  · obtain ⟨fk, hlink⟩ := hup
    exact hi.mem_relatedRows_parent hs hp hd hnests hm hparent hlink
  · exact hi.mem_relatedRows_child hs hp hd hnests hm hparent hst fun fk hl => hup ⟨fk, hl⟩

/-- A relation of the new record loads the rows that the payload gives for it. -/
theorem loadedRows_perm (hst : st.Intact r.schema) :
    (loadedRows st' h row).Perm (rowsUnder placed h) := by
  have hmembers : (memberRows st' h row).Perm (rowsUnder placed h) := by
    refine (memberRows_perm st' h row).trans ((List.perm_ext_iff_of_nodup ?_ ?_).2 fun t => ?_)
    · have hrows : (st'.rows h.target).Nodup := (st'.table h.target.table).nodup_ids.of_map _
      unfold relatedRows
      cases h.relation.link <;> exact hrows.filter _
    · exact hi.nodup_rowsUnder h
    · exact hi.mem_relatedRows hs hp hd hnests hm hparent hst
  have hlive : loadedRows st' h row = memberRows st' h row := by
    refine List.filter_eq_self.2 fun t ht => ?_
    obtain ⟨e, he, rfl, rfl⟩ := mem_rowsUnder.1 (hmembers.mem_iff.1 ht)
    exact member_live hi.written hs hm hp he
  rw [hlive]
  exact hmembers

end Links

end Inserted

end Resource

end Records
