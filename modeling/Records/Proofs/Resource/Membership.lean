import Records.Proofs.Library
import Records.Proofs.Record.Reference
import Records.Proofs.Resource.Saved

/-!
Whether the records that a payload names stay with the record that it names them for. A key that the
relation itself sets leads back to the record; a key that is set already is left to the payload,
which may give it any value.
-/
namespace Records

open Records.Action
open Records.Filter (Predicate relatedRows)

namespace Update
variable {u : Update} {g : Staging} {item : Handle × List (String × Value)} {row : Row}

/-- The payload gives the record itself a value for a key, or nests a parent that the key leads
to. -/
def Repoints (u : Update) (fk : String) : Prop :=
  (∃ v, (fk, v) ∈ u.payload.entries) ∨ ∃ item ∈ u.items, item.1.relation.link = .parent fk

/-- The record is nested in itself by its id, and gets a key in this way: its nested payload gives
it, or the relation that it is nested under sets it. -/
def NestsItself (u : Update) (fk : String) : Prop :=
  ∃ item ∈ u.items, ∃ row, u.Denotes item row ∧ .stored item.1.target.name row.id = u.holder ∧
    ((∃ v, (fk, v) ∈ item.2) ∨
      (∀ k, item.1.relation.link ≠ .parent k) ∧ item.1.relation.link.foreignKey = fk)

/-- A record goes, or loses a key because another record takes its place or its parent goes. -/
def Loses (u : Update) (g : Staging) (ref : Ref) (fk : String) : Prop :=
  ref ∈ g.removals u.resource.schema u.store .empty ∨
    (ref, fk) ∈ g.cleared u.resource.schema u.store .empty

/-- The payload of a nested record gives the key of the row that its id names a value, and this is
what the key comes to. -/
def Moves (u : Update) (st : Store) (h : Handle) (row : Row) : Prop :=
  ∃ item ∈ u.items, item.1.target = h.target ∧ u.Denotes item row ∧
    ∃ v, (h.relation.link.foreignKey, v) ∈ item.2 ∧ ∃ row' ∈ st.rows h.target, row'.id = row.id ∧
      ∃ c ∈ h.target.columns, c.name = h.relation.link.foreignKey ∧ c.Keeps v (row'.cell c.name)

theorem Brings.ne_holder {member : Ref} {fk : String} (hself : ¬u.NestsItself fk)
    (hitem : item ∈ u.items) (h : u.Brings item member)
    (hlink : ∀ k, item.1.relation.link ≠ .parent k) (hkey : item.1.relation.link.foreignKey = fk) :
    member ≠ u.holder := by
  cases h with
  | draft n => exact nofun
  | stored hnamed _ => exact fun hsame => hself ⟨item, hitem, _, hnamed, hsame, .inr ⟨hlink, hkey⟩⟩

/-- A link leads from the record to one that is nested in it, or the other way. -/
theorem Staged.bond_cases (hg : u.Staged g) {st : Store} {held : Graph} {b : Bond}
    (hb : b ∈ g.bonds st held) : ∃ item ∈ u.items, ∃ member, u.Brings item member ∧
      (item.1.relation.link = .parent b.column ∧ b.record = u.holder ∧ b.target = member ∧
          ⟨member, u.holder, item.1⟩ ∈ g.standing ∨
        (∀ k, item.1.relation.link ≠ .parent k) ∧ item.1.relation.link.foreignKey = b.column ∧
          b.record = member ∧ b.target = u.holder) := by
  obtain ⟨a, ha, hb⟩ := List.mem_filterMap.1 hb
  obtain ⟨member, holder, h⟩ := a
  obtain ⟨hholder, item, hitem, hhandle, hbrings⟩ :=
    hg.attached _ (List.mem_filter.1 (List.mem_eraseDups.1 ha)).1
  dsimp only at hholder hhandle hbrings
  subst hholder hhandle
  refine ⟨item, hitem, member, hbrings, ?_⟩
  unfold Attachment.bond? at hb
  split at hb
  · cases hb
  · split at hb
    · rename_i fk hlink
      cases hb
      exact .inl ⟨hlink, rfl, rfl, ha⟩
    · rename_i hlink
      cases hb
      exact .inr ⟨hlink, rfl, rfl, rfl⟩

theorem equals_of_links {h : Handle} (hlink : ∀ fk, h.relation.link ≠ .parent fk)
    {column : String → Value} (hlinks : u.Links column h row) {c : Column}
    (hc : h.target.column? h.relation.link.foreignKey = some c) (hkind : c.kind = .int) :
    Cell.equals (row.cell c.name) (.integer u.id) = true := by
  unfold Links at hlinks
  split at hlinks
  · rename_i fk hparent
    exact absurd hparent (hlink fk)
  · exact ((holds_compare_int hkind).1 (hlinks c hc)).2

section Walk
variable {done : List (Handle × List (String × Value))}
  (hdone : ∀ item ∈ done, item ∈ u.items)
include hdone

theorem lookup?_holder {fk : String} (hself : ¬u.NestsItself fk)
    (h : done.foldlM u.stage u.started = .ok g) :
    Value.lookup? fk (g.valuesOf u.resource.model.name u.id) =
      Value.lookup? fk (u.started.valuesOf u.resource.model.name u.id) := by
  refine foldlM_keeps (P := fun g : Staging => Value.lookup? fk (g.valuesOf _ u.id) =
    Value.lookup? fk (u.started.valuesOf u.resource.model.name u.id)) ?_ h rfl
  intro item hitem g₁ g₂ hstage hsame
  rcases stage_ok hstage with ⟨-, rfl⟩ | ⟨-, row, hnamed, -, rfl⟩
  · exact hsame
  · change Value.lookup? fk ((g₁.edit item.1.target row.id _).valuesOf _ _) = _
    rw [Staging.lookup?_valuesOf_edit_of_none, hsame]
    intro hname hid
    refine Value.lookup?_eq_none ?_
    rintro v hv rfl
    have hholder : .stored item.1.target.name row.id = u.holder := by
      rw [hname, hid]
      rfl
    exact hself ⟨item, hdone item hitem, row, hnamed, hholder,
      .inl ⟨v.2, (Model.mem_fillValues _ hv).1⟩⟩

/-- The record that a relation was given last keeps its place until the relation is given
another. -/
theorem isLast_of_walk (hmodel : u.resource.model ∈ u.resource.schema.models) {a : Attachment}
    (hdeclared : u.resource.schema.Declares a.handle) (hparent : a.handle.parent = u.resource.model)
    (hlater : ∀ item ∈ done, item.1 ≠ a.handle) {g' : Staging}
    (hwalk : done.foldlM u.stage g = .ok g') (hlast : g.IsLast a) : g'.IsLast a := by
  refine foldlM_keeps (P := fun g : Staging => g.IsLast a) ?_ hwalk hlast
  intro item hitem g₁ g₂ hstage hlast
  have hother : item.1.relation.name ≠ a.handle.relation.name := by
    -- Relations of one model are told apart by their names.
    intro hname
    obtain ⟨hdeclared', hparent'⟩ := declares_of_mem_items hmodel (hdone item hitem)
    have hfound := hdeclared'.handle?
    rw [hparent', ← hparent, hname, hdeclared.handle?] at hfound
    exact hlater item hitem (Option.some.inj hfound).symm
  rcases stage_ok hstage with ⟨-, rfl⟩ | ⟨-, row, -, -, rfl⟩
  · have hdraft : (g₁.addDraft item.1.target (item.1.target.columnValues item.2)).1.IsLast a :=
      ⟨hlast.attached, hlast.last⟩
    exact hdraft.attach_of_ne hother ..
  · have hedit : (g₁.edit item.1.target row.id (item.1.target.fillValues item.2)).IsLast a :=
      ⟨hlast.attached, hlast.last⟩
    exact hedit.attach_of_ne hother ..

end Walk

theorem named_of_staging {done rest : List (Handle × List (String × Value))}
    (hitems : u.items = done ++ item :: rest) (hid : givenId item.2 ≠ .null)
    (h : u.staging = .ok g) : ∃ g₁ row, done.foldlM u.stage u.started = .ok g₁ ∧
      u.Denotes item row ∧ u.Links (u.pending g₁) item.1 row ∧
        rest.foldlM u.stage ((g₁.edit item.1.target row.id
          (item.1.target.fillValues item.2)).attach item.1 u.holder
            (.stored item.1.target.name row.id)) = .ok g := by
  obtain ⟨g₁, g₂, hdone, hstage, hrest⟩ := staging_split hitems h
  rcases stage_ok hstage with ⟨hnull, -⟩ | ⟨-, row, hnamed, hlinks, rfl⟩
  · exact absurd hnull hid
  · exact ⟨g₁, row, hdone, hnamed, hlinks, hrest⟩

section Written
variable (hs : u.resource.schema.Referential)
  (hmodel : u.resource.model ∈ u.resource.schema.models) (hg : u.Staged g)
  {now : Calendar.Moment} {w : Written}
include hs hmodel hg

/-- A record that is named under a relation stays there, or moves to where its payload says; the
record that is updated may be moved by its own payload, if it is named under itself. -/
theorem child_stays (hflush : g.flush u.resource.schema now u.store .empty = .ok w)
    (hitem : item ∈ u.items) (hlink : ∀ fk, item.1.relation.link ≠ .parent fk)
    (hnamed : u.Denotes item row) {column : String → Value} (hlinks : u.Links column item.1 row)
    (hstands : ¬u.Loses g (.stored item.1.target.name row.id) item.1.relation.link.foreignKey)
    {holder : Row} (hholder : holder ∈ w.store.rows u.resource.model) (hid : holder.id = u.id) :
    item.1.Connects w.store u.id row.id ∨ u.Moves w.store item.1 row ∨
      .stored item.1.target.name row.id = u.holder ∧
        u.Repoints item.1.relation.link.foreignKey := by
  obtain ⟨hdeclared, hparent⟩ := declares_of_mem_items hmodel hitem
  have htarget := hdeclared.target_mem
  obtain ⟨hstays, hkept⟩ := not_or.1 hstands
  obtain ⟨c, hc, hname, hkind, hrefreshed⟩ := hs.key hdeclared
  rw [Handle.referrer_of_child hlink] at hc
  rw [← hname] at hkept
  have hne : c.name ≠ idColumn.name := hname ▸ foreignKey_ne_id hs.toKeyed hdeclared
  obtain ⟨row', hrow', hnew⟩ :=
    (hg.sparesIds hmodel).rewrites hs.toKeyed htarget hstays hnamed.1 hflush
  have hconnects (hequals : Cell.equals (row'.cell c.name) (.integer u.id) = true) :
      item.1.Connects w.store u.id row.id := by
    rw [hname, ← hid] at hequals
    rw [← hid, ← hnew.id_eq]
    exact Handle.connects_of_child hlink (hparent ▸ hholder) hrow' hequals
  have hbefore : Cell.equals (row.cell c.name) (.integer u.id) = true :=
    equals_of_links hlink hlinks (hname ▸ hs.column? htarget hc) hkind
  -- The key comes from a link that is settled on it, or from what is staged for the row.
  rcases Staging.takes_of_rewrites hg.apart htarget hstays hnew (hs.names _ htarget) hc hrefreshed
    hne hkept with ⟨b, hb, hrecord, hcolumn, w', htakes⟩ | ⟨-, htakes⟩
  · obtain ⟨item', hitem', member, hbrings, ⟨hlink', hrecord', -⟩ | ⟨-, -, -, htarget'⟩⟩ :=
      hg.bond_cases hb
    · rw [hcolumn, hname] at hlink'
      exact .inr (.inr ⟨hrecord.symm.trans hrecord', .inr ⟨item', hitem', hlink'⟩⟩)
    have hvalue : b.value w' = .int u.id := by
      unfold Bond.value
      rw [htarget']
      rfl
    rw [hvalue] at htakes
    rcases htakes with hkeeps | ⟨hsame, -⟩
    · rw [hkeeps.of_int hkind] at hconnects
      exact .inl (hconnects (Cell.equals_integers.2 rfl))
    · exact .inl (hconnects (hsame ▸ hbefore))
  · cases hv : Value.lookup? c.name (g.valuesOf item.1.target.name row.id) with
    | none =>
      rw [hv] at htakes
      exact .inl (hconnects (htakes ▸ hbefore))
    | some v =>
      rw [hv] at htakes
      rcases htakes with hkeeps | ⟨hsame, -⟩
      · rcases (hg.supplies_of_lookup? hv).cases with ⟨hself, hgiven⟩ |
          ⟨item', hitem', named, hnamed', hname', hid', hgiven⟩
        · exact .inr (.inr ⟨hself, .inl ⟨v, hname ▸ hgiven⟩⟩)
        have hsame : item'.1.target = item.1.target := Schema.eq_of_name
          (declares_of_mem_items hmodel hitem').1.target_mem htarget hname'
        obtain rfl : named = row := Store.eq_of_id hnamed.1 (hsame ▸ hnamed'.1) hid'
        exact .inr (.inl ⟨item', hitem', hsame, hnamed', v, hname ▸ hgiven, row', hrow', hnew.id_eq,
          c, hc, hname, hkeeps⟩)
      · exact .inl (hconnects (hsame ▸ hbefore))

/-- A link that sets a key of the record leads to the last parent that is named. -/
theorem value_of_bond {fk : String} (hself : ¬u.NestsItself fk) (hitem : item ∈ u.items)
    (hlink : item.1.relation.link = .parent fk)
    (hlast : g.IsLast ⟨.stored item.1.target.name row.id, u.holder, item.1⟩) {b : Bond}
    (hb : b ∈ g.bonds u.store .empty) (hrecord : b.record = u.holder) (hcolumn : b.column = fk)
    (w : Written) : b.value w = .int row.id := by
  obtain ⟨hdeclared, hparent⟩ := declares_of_mem_items hmodel hitem
  obtain ⟨item', hitem', member, hbrings,
    ⟨hlink', -, htarget, hstanding⟩ | ⟨hchild, hkey, hmember, -⟩⟩ := hg.bond_cases hb
  · -- A key of the record belongs to one relation, and that holds its last member.
    obtain ⟨hdeclared', hparent'⟩ := declares_of_mem_items hmodel hitem'
    have hsame : item'.1 = item.1 := hs.parents _ hmodel _ (hparent' ▸ hdeclared'.mem_handles) _
      (hparent ▸ hdeclared.mem_handles) _ (hcolumn ▸ hlink') hlink
    rw [hsame] at hstanding
    have hlast' := (Staging.isLast_of_standing hstanding (by rw [hlink]; rfl)).last
    have hmembers : member = .stored item.1.target.name row.id :=
      Option.some.inj (hlast'.symm.trans hlast.last)
    unfold Bond.value
    rw [htarget, hmembers]
    rfl
  · exact absurd (hmember.symm.trans hrecord)
      (hbrings.ne_holder hself hitem' hchild (hkey.trans hcolumn))

omit hs hg in
/-- If no link sets the key, the last parent that is named is the parent in the store. -/
theorem equals_of_unbonded {fk : String} (hitem : item ∈ u.items)
    (hlink : item.1.relation.link = .parent fk)
    (hlast : g.IsLast ⟨.stored item.1.target.name row.id, u.holder, item.1⟩)
    (hnone : ∀ b ∈ g.bonds u.store .empty, b.record = u.holder → b.column ≠ fk) {holder : Row}
    (hholder : holder ∈ u.store.rows u.resource.model) (hid : holder.id = u.id) :
    Cell.equals (holder.cell fk) (.integer row.id) = true := by
  obtain ⟨-, hparent⟩ := declares_of_mem_items hmodel hitem
  by_cases hin : .stored item.1.target.name row.id ∈ Graph.empty.members u.store item.1 u.holder
  · refine Handle.equals_of_member hlink (hparent ▸ hholder) ?_
    rw [hparent, hid]
    exact hin
  · refine absurd rfl (hnone ⟨u.holder, fk, .stored item.1.target.name row.id⟩ ?_ rfl)
    refine List.mem_filterMap.2 ⟨_, hlast.standing, ?_⟩
    unfold Attachment.bond?
    rw [if_neg (by rwa [List.contains_iff_mem]), hlink]

/-- The key to the last parent that is named comes to its id. -/
theorem key_of_parent {fk : String} (hself : ¬u.NestsItself fk)
    (hcomplete : u.store.Complete u.resource.schema) (hitem : item ∈ u.items)
    (hlink : item.1.relation.link = .parent fk)
    (hlast : g.IsLast ⟨.stored item.1.target.name row.id, u.holder, item.1⟩)
    (hgiven : ∀ v, Value.lookup? fk (g.valuesOf u.resource.model.name u.id) = some v →
      Predicate.holds u.store row (.compare ⟨item.1.target.table, idColumn⟩ .eq v) = true)
    {holder holder' : Row} (hholder : holder ∈ u.store.rows u.resource.model)
    (hid : holder.id = u.id) (hstands : ¬u.Loses g u.holder fk)
    (hnew : (g.plan u.resource.schema u.store .empty).Rewrites now u.resource.model holder
      holder') : Cell.equals (holder'.cell fk) (.integer row.id) = true := by
  obtain ⟨hdeclared, hparent⟩ := declares_of_mem_items hmodel hitem
  have href : u.holder = .stored u.resource.model.name holder.id := by
    rw [hid]
    rfl
  obtain ⟨hstays, hkept⟩ := not_or.1 hstands
  obtain ⟨c, hc, hname, hkind, hrefreshed⟩ := hs.key hdeclared
  obtain rfl : c.name = fk := by
    rw [hname, hlink]
    rfl
  rw [Handle.referrer_of_parent hlink, hparent] at hc
  rw [href] at hstays hkept
  have hne : c.name ≠ idColumn.name := hname ▸ foreignKey_ne_id hs.toKeyed hdeclared
  rcases Staging.takes_of_rewrites hg.apart hmodel hstays hnew (hs.names _ hmodel) hc hrefreshed hne
    hkept with ⟨b, hb, hrecord, hcolumn, w', htakes⟩ | ⟨hnone, htakes⟩
  · rw [value_of_bond hs hmodel hg hself hitem hlink hlast hb (hrecord.trans href.symm) hcolumn]
      at htakes
    exact htakes.equals_of_int hkind (hcomplete _ hmodel _ hholder c hc hne)
  · have hbefore := equals_of_unbonded hmodel hitem hlink hlast (href ▸ hnone) hholder hid
    rw [← hid] at hgiven
    cases hv : Value.lookup? c.name (g.valuesOf u.resource.model.name holder.id) with
    | none =>
      rw [hv] at htakes
      exact htakes ▸ hbefore
    | some v =>
      rw [hv] at htakes
      rcases htakes with hkeeps | ⟨hsame, -⟩
      · exact hkeeps.equals_of_holds hkind (hgiven v hv)
      · exact hsame ▸ hbefore

/-- A parent that is named is the parent from then on, unless another one is named later. -/
theorem parent_stays {fk : String} (hself : ¬u.NestsItself fk)
    (hcomplete : u.store.Complete u.resource.schema)
    (hflush : g.flush u.resource.schema now u.store .empty = .ok w) (hitem : item ∈ u.items)
    (hlink : item.1.relation.link = .parent fk) (hnamed : u.Denotes item row)
    (hlast : g.IsLast ⟨.stored item.1.target.name row.id, u.holder, item.1⟩)
    (hgiven : ∀ v, Value.lookup? fk (g.valuesOf u.resource.model.name u.id) = some v →
      Predicate.holds u.store row (.compare ⟨item.1.target.table, idColumn⟩ .eq v) = true)
    (hstays : .stored item.1.target.name row.id ∉ g.removals u.resource.schema u.store .empty)
    {holder : Row} (hholder : holder ∈ u.store.rows u.resource.model) (hid : holder.id = u.id)
    (hstands : ¬u.Loses g u.holder fk) : item.1.Connects w.store u.id row.id := by
  obtain ⟨hdeclared, hparent⟩ := declares_of_mem_items hmodel hitem
  have hspares := hg.sparesIds hmodel
  have hremains : .stored u.resource.model.name holder.id ∉
      g.removals u.resource.schema u.store .empty := by
    rw [hid]
    exact (not_or.1 hstands).1
  obtain ⟨holder', hholder', hnew⟩ :=
    hspares.rewrites hs.toKeyed hmodel hremains hholder hflush
  obtain ⟨row', hrow', hmoved⟩ :=
    hspares.rewrites hs.toKeyed hdeclared.target_mem hstays hnamed.1 hflush
  have hequals := key_of_parent hs hmodel hg hself hcomplete hitem hlink hlast hgiven hholder hid
    hstands hnew
  rw [← hmoved.id_eq] at hequals
  rw [← hid, ← hnew.id_eq, ← hmoved.id_eq]
  exact Handle.connects_of_parent hlink (hparent ▸ hholder') hrow' hequals

end Written

end Update

namespace Resource
variable {r : Resource} {se : Session}

/-- An update that goes through has named, by every id in its payload, a row that is linked to the
record from then on, unless the link is given up for another record that the payload places. A row
that has the key of the relation itself and is linked already is the exception: its own payload may
give the key a value, and then the row is linked to where that leads. A record that is named under
itself is updated twice, and either of its payloads may give the key. -/
theorem named_records_stay_linked (hs : r.schema.Referential) (hmodel : r.model ∈ r.schema.models)
    (hfresh : se.IsFresh se.store) (hactive : se.inactive = false)
    (hcomplete : se.store.Complete r.schema) {id payload : Value} {ref : Ref}
    (hsaved : (r.update id payload se).result = .ok (some ref)) :
    ∃ n g, r.Finds se id n ∧ ref = .stored r.model.name n ∧
      let u : Update := ⟨r, se.store, n, payload⟩
      let st := (r.update id payload se).session.store
      u.staging = .ok g ∧ ∀ done item rest, u.items = done ++ item :: rest →
        Update.givenId item.2 ≠ .null → ∃ row, u.Denotes item row ∧
          let member : Ref := .stored item.1.target.name row.id
          ((∀ fk, item.1.relation.link ≠ .parent fk) →
            u.Loses g member item.1.relation.link.foreignKey ∨
              item.1.Connects st n row.id ∨ u.Moves st item.1 row ∨
                member = u.holder ∧ u.Repoints item.1.relation.link.foreignKey) ∧
          ∀ fk, item.1.relation.link = .parent fk → (∀ later ∈ rest, later.1 ≠ item.1) →
            u.Loses g u.holder fk ∨ member ∈ g.removals r.schema se.store .empty ∨
              item.1.Connects st n row.id ∨ u.NestsItself fk := by
  obtain ⟨n, g, w, hfinds, hid, href, hstaging, hflush, hstore, holder', hholder', hid'⟩ :=
    update_saved hs.toKeyed hmodel hfresh hactive hsaved
  refine ⟨n, g, hfinds, href, hstaging, fun done item rest hitems hgiven => ?_⟩
  have hg := Update.staged_of_staging hstaging
  rw [hstore]
  obtain ⟨holder, hholder, hholderid, -⟩ := hid
  obtain ⟨g₁, row, hdone, hnamed, hlinks, hrest⟩ :=
    Update.named_of_staging hitems hgiven hstaging
  have hmem : item ∈ done ++ item :: rest := List.mem_append_right _ (List.mem_cons_self ..)
  rw [← hitems] at hmem
  refine ⟨row, hnamed, fun hlink => ?_, fun fk hlink hlast => ?_⟩
  · rw [or_iff_not_imp_left]
    exact fun hkept =>
      Update.child_stays hs hmodel hg hflush hmem hlink hnamed hlinks hkept hholder' hid'
  · have hearlier : ∀ i ∈ done, i ∈ Update.items ⟨r, se.store, n, payload⟩ :=
      fun i hi => hitems ▸ List.mem_append_left _ hi
    have hlater : ∀ i ∈ rest, i ∈ Update.items ⟨r, se.store, n, payload⟩ :=
      fun i hi => hitems ▸ List.mem_append_right _ (List.mem_cons_of_mem _ hi)
    obtain ⟨hdeclared, hparent⟩ := Update.declares_of_mem_items hmodel hmem
    have hplaced := Update.isLast_of_walk hlater hmodel hdeclared hparent hlast hrest
      (Staging.isLast_attach ..)
    rw [or_iff_not_imp_left, or_iff_not_imp_left, or_iff_not_imp_right]
    intro hkept hstays hself
    refine Update.parent_stays hs hmodel hg hself hcomplete hflush hmem hlink hnamed hplaced
      (fun v hv => ?_) hstays hholder hholderid hkept
    -- The key by which the parent was looked up is the one that is staged in the end.
    have hsame := (Update.lookup?_holder (fun _ hi => hi) hself hstaging).trans
      (Update.lookup?_holder hearlier hself hdone).symm
    replace hv := hsame.symm.trans hv
    have hpending : Update.pending ⟨r, se.store, n, payload⟩ g₁ fk = v := by
      unfold Update.pending
      rw [hv]
      rfl
    unfold Update.Links at hlinks
    rw [hlink] at hlinks
    exact hpending ▸ hlinks

/-- The only book of an author is named under him, and its own payload gives it to Bob. -/
theorem named_records_stay_linked_stolen :
    let se := Library.visit Library.catalogue
    let payload : Value :=
      .object [("books", .list [.object [("id", .int 14), ("author_id", .int 2)]])]
    let u : Update := ⟨Library.resource Library.author, Library.catalogue, 5, payload⟩
    let o := (Library.resource Library.author).update (.int 5) payload se
    o.result = .ok (some (.stored "Author" 5)) ∧ ∃ item ∈ u.items, ∃ row, u.Denotes item row ∧
      ¬item.1.Connects o.session.store 5 row.id ∧ u.Moves o.session.store item.1 row := by
  intro se payload u o
  have hsaved : o.result = .ok (some (.stored "Author" 5)) :=
    except_of_toOption (by decide +kernel)
  have hcomplete : se.store.Complete Library.schema := by
    unfold Store.Complete
    decide +kernel
  obtain ⟨n, g, -, href, hstaging, hnamed⟩ := named_records_stay_linked Library.referential
    (by decide) ⟨rfl, rfl, rfl⟩ rfl hcomplete hsaved
  obtain rfl : n = 5 := (Ref.stored.inj href).2.symm
  let h : Handle := ⟨⟨"books", "Book", .many "author_id" "id" true⟩, Library.author, Library.book⟩
  let item : Handle × List (String × Value) := (h, [("id", .int 14), ("author_id", .int 2)])
  have hitems : u.items = [] ++ item :: [] := by decide +kernel
  obtain ⟨row, hdenotes, hchild, -⟩ := hnamed [] item [] hitems nofun
  have hid : row.id = 14 := by
    have hfound : ∀ row ∈ Library.catalogue.rows Library.book,
        Predicate.holds Library.catalogue row (exactly Library.book idColumn (.int 14)) →
          row.id = 14 := by
      decide +kernel
    exact hfound row hdenotes.1 hdenotes.2
  refine ⟨hsaved, item, hitems ▸ List.mem_singleton_self _, row, hdenotes, ?_⟩
  have hapart : ¬item.1.Connects o.session.store 5 row.id := by
    rw [hid]
    rintro ⟨holder, hholder, hfive, book, hbook, hfourteen⟩
    have hmoved : ∀ holder ∈ o.session.store.rows Library.author, holder.id = 5 →
        ∀ book ∈ relatedRows o.session.store h holder, book.id ≠ 14 := by
      decide +kernel
    exact hmoved holder hholder hfive book hbook hfourteen
  refine ⟨hapart, ?_⟩
  have hkept : ¬u.Loses g (.stored item.1.target.name row.id) item.1.relation.link.foreignKey := by
    have hnone : u.staging.toOption.all fun g =>
        (g.removals Library.schema Library.catalogue .empty).isEmpty &&
          (g.cleared Library.schema Library.catalogue .empty).isEmpty := by
      decide +kernel
    have hstaged : u.staging = .ok g := hstaging
    rw [hstaged] at hnone
    obtain ⟨hremovals, hcleared⟩ := Bool.and_eq_true_iff.1 hnone
    rintro (hgone | hlost)
    · exact List.ne_nil_of_mem hgone (List.isEmpty_iff.1 hremovals)
    · exact List.ne_nil_of_mem hlost (List.isEmpty_iff.1 hcleared)
  have hother : Ref.stored item.1.target.name row.id ≠ u.holder :=
    fun hsame => absurd (Ref.stored.inj hsame).1 (by decide)
  rcases ((hchild nofun).resolve_left hkept).resolve_left hapart with hmoves | ⟨hsame, -⟩
  · exact hmoves
  · exact absurd hsame hother

end Resource

end Records
