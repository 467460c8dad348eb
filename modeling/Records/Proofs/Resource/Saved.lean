import Records.Proofs.Resource.Merging
import Records.Proofs.Staging.Taken

/-!
What an update that goes through has written: all that it staged, as the links between the records
of the store settle it. Nothing that the session holds plays a part.
-/
namespace Records

open Records.Action
open Records.Filter (Predicate)

/-- The column is the foreign key of a relation. -/
def Schema.IsKey (s : Schema) (column : String) : Prop :=
  ∃ h, s.Declares h ∧ h.relation.link.foreignKey = column

theorem Schema.IsKey.ne_id {s : Schema} (hs : s.Keyed) {column : String} (h : s.IsKey column) :
    column ≠ idColumn.name := by
  obtain ⟨h, hdeclared, rfl⟩ := h
  exact Update.foreignKey_ne_id hs hdeclared

theorem Graph.members_of_unloaded {held : Graph}
    (hheld : ∀ ref name, held.related? ref name = none) : held.members = Graph.empty.members := by
  funext st h ref
  exact members_congr h ref (hheld ref h.relation.name)

namespace Staging
variable {s : Schema} {st : Store} {held : Graph} {g : Staging}

theorem Fits.isKey_of_bond (hfits : g.Fits s) {b : Bond} (hb : b ∈ g.bonds st held) :
    s.IsKey b.column := by
  obtain ⟨a, ha, hb⟩ := List.mem_filterMap.1 hb
  refine ⟨a.handle, (fits_of_standing hfits ha).declared, ?_⟩
  unfold Attachment.bond? at hb
  split at hb
  · cases hb
  · split at hb
    · rename_i fk hlink
      cases hb
      rw [hlink]
      rfl
    · cases hb
      rfl

theorem Fits.isKey_of_cleared (hfits : g.Fits s) {c : Ref × String}
    (hc : c ∈ g.cleared s st held) : s.IsKey c.2 := by
  rcases List.mem_append.1 hc with hc | hc
  · obtain ⟨e, he, rfl⟩ := List.mem_map.1 hc
    obtain ⟨a, ha, he⟩ := List.mem_flatMap.1 (List.mem_filter.1 he).1
    split at he
    · cases he
    · split at he
      · rename_i h holder kept hdisplacing
        obtain ⟨ref, -, rfl⟩ := List.mem_map.1 he
        exact ⟨h, (fits_displacing (fits_of_standing hfits ha) hdisplacing).1, rfl⟩
      · cases he
  · obtain ⟨owner, -, hc⟩ := List.mem_flatMap.1 hc
    obtain ⟨h, hh, hc⟩ := List.mem_flatMap.1 hc
    obtain ⟨member, -, rfl⟩ := List.mem_map.1 hc
    exact ⟨h, (Schema.mem_downward (List.mem_filter.1 hh).1).1, rfl⟩

/-- Staged changes that leave ids alone: one edit for a record, with no value for its id. -/
structure SparesIds (s : Schema) (g : Staging) : Prop where
  edits : ∀ e ∈ g.edits, SparesId e.values
  apart : g.edits.Pairwise Edit.Apart
  fits : g.Fits s

theorem SparesIds.reaches (hs : s.Keyed) (hg : g.SparesIds s) :
    g.Reaches s st held fun _ => True where
  edits e he := ⟨trivial, hg.edits e he⟩
  bonds _ hb := ⟨trivial, (hg.fits.isKey_of_bond hb).ne_id hs⟩
  cleared _ hc := ⟨trivial, (hg.fits.isKey_of_cleared hc).ne_id hs⟩
  removals _ _ := trivial

/-- A row that is not removed is there when the changes are written, under its id. -/
theorem SparesIds.rewrites (hs : s.Keyed) (hg : g.SparesIds s) {m : Model} (hm : m ∈ s.models)
    {row : Row} (hstays : .stored m.name row.id ∉ g.removals s st held) (hrow : row ∈ st.rows m)
    {now : Calendar.Moment} {w : Written} (h : g.flush s now st held = .ok w) :
    ∃ row' ∈ w.store.rows m, (g.plan s st held).Rewrites now m row row' :=
  (hg.reaches hs).flush_rewrites hg.apart hm hstays hs hrow h

section Unloaded
variable (hheld : ∀ ref name, held.related? ref name = none)
include hheld

theorem flush_of_unloaded (now : Calendar.Moment) :
    g.flush s now st held = g.flush s now st .empty := by
  unfold flush plan settledEdits cleared removals Schema.withOwned Schema.owned Schema.borrowed
    displaced bonds
  rw [Graph.members_of_unloaded hheld]

theorem removals_of_unloaded : g.removals s st held = g.removals s st .empty := by
  unfold removals Schema.withOwned Schema.owned displaced
  rw [Graph.members_of_unloaded hheld]

end Unloaded

end Staging

namespace Update
variable {u : Update} {g g' : Staging} {item : Handle × List (String × Value)}

/-- The record that a nested one comes to: a new one, or one of the relation that its id names. -/
inductive Brings (u : Update) (item : Handle × List (String × Value)) : Ref → Prop
  | draft (n : Nat) : Brings u item (.draft n)
  | stored {row : Row} (hnamed : u.Denotes item row) (hleads : u.LeadsTo item.1 row) :
    Brings u item (.stored item.1.target.name row.id)

theorem Brings.isOf {member : Ref} (h : u.Brings item member) : member.IsOf item.1.target := by
  cases h with
  | draft n => exact trivial
  | stored _ _ => exact rfl

/-- The payload gives a record a value: the record that is updated, or one that a nested id
names. -/
inductive Supplies (u : Update) : String → Int → String × Value → Prop
  | top {v : String × Value} (hv : v ∈ u.payload.entries) :
    Supplies u u.resource.model.name u.id v
  | nested {item : Handle × List (String × Value)} {row : Row} {v : String × Value}
    (hitem : item ∈ u.items) (hnamed : u.Denotes item row) (hv : v ∈ item.2) :
    Supplies u item.1.target.name row.id v

theorem Supplies.cases {name : String} {id : Int} {v : String × Value} (h : u.Supplies name id v) :
    .stored name id = u.holder ∧ v ∈ u.payload.entries ∨ ∃ item ∈ u.items, ∃ row,
      u.Denotes item row ∧ item.1.target.name = name ∧ row.id = id ∧ v ∈ item.2 := by
  cases h with
  | top hv => exact .inl ⟨rfl, hv⟩
  | nested hitem hnamed hv => exact .inr ⟨_, hitem, _, hnamed, rfl, rfl, hv⟩

/-- What is staged while nested records are: one edit for a record, with values that the payload
gives it and none for its id, and records put under relations of the record that is updated. -/
structure Staged (u : Update) (g : Staging) : Prop where
  edits : ∀ e ∈ g.edits, SparesId e.values
  supplied : ∀ e ∈ g.edits, ∀ v ∈ e.values, u.Supplies e.model.name e.id v
  apart : g.edits.Pairwise Edit.Apart
  removed : g.removed = []
  attached : ∀ a ∈ g.attachments, a.holder = u.holder ∧ ∃ item ∈ u.items, a.handle = item.1 ∧
    u.Brings item a.member

theorem Staged.edit (hg : u.Staged g) {m : Model} {id : Int} {es : List (String × Value)}
    (hes : ∀ v ∈ es, u.Supplies m.name id v) : u.Staged (g.edit m id (m.fillValues es)) := by
  have hedits : ∀ e ∈ (g.edit m id (m.fillValues es)).edits, True ∧
      ∀ v ∈ e.values, v.1 ≠ idColumn.name ∧ u.Supplies e.model.name e.id v :=
    Staging.forall_putEdit (K := fun _ _ => True)
      (Q := fun name i v => v.1 ≠ idColumn.name ∧ u.Supplies name i v)
      (fun e he => ⟨trivial, fun v hv => ⟨hg.edits e he v hv, hg.supplied e he v hv⟩⟩) trivial
      fun v hv => ⟨m.spares_fillValues es v hv, hes v (m.mem_fillValues hv).1⟩
  exact ⟨fun e he v hv => ((hedits e he).2 v hv).1, fun e he v hv => ((hedits e he).2 v hv).2,
    Staging.pairwise_putEdit hg.apart, hg.removed, hg.attached⟩

theorem Staged.attach (hg : u.Staged g) (hitem : item ∈ u.items) {member : Ref}
    (hmember : u.Brings item member) : u.Staged (g.attach item.1 u.holder member) where
  edits := hg.edits
  supplied := hg.supplied
  apart := hg.apart
  removed := hg.removed
  attached a ha := by
    rcases List.mem_append.1 ha with ha | ha
    · exact hg.attached a ha
    · obtain rfl := List.mem_singleton.1 ha
      exact ⟨rfl, item, hitem, rfl, hmember⟩

theorem Staged.supplies_of_lookup? (hg : u.Staged g) {name column : String} {id : Int} {v : Value}
    (h : Value.lookup? column (g.valuesOf name id) = some v) : u.Supplies name id (column, v) := by
  unfold Staging.valuesOf at h
  cases hfound : g.edits.find? fun e => e.model.name = name ∧ e.id = id with
  | none =>
    rw [hfound] at h
    cases h
  | some e =>
    rw [hfound] at h
    obtain ⟨rfl, rfl⟩ : e.model.name = name ∧ e.id = id := by simpa using List.find?_some hfound
    exact hg.supplied e (List.mem_of_find?_eq_some hfound) _ (Value.mem_of_lookup? h)

theorem staged_started (u : Update) : u.Staged u.started := by
  have hempty : u.Staged .empty :=
    ⟨fun _ he => absurd he List.not_mem_nil, fun _ he => absurd he List.not_mem_nil, .nil, rfl,
      fun _ ha => absurd ha List.not_mem_nil⟩
  exact hempty.edit fun _ hv => .top hv

/-- What a column of the record is going to hold is in the store, or the payload gives it. -/
theorem Staged.mayHave_pending (hg : u.Staged g) (column : String) :
    u.pending g column = .null ∨ u.MayHave column (u.pending g column) := by
  unfold pending
  cases hv : Value.lookup? column (g.valuesOf u.resource.model.name u.id) with
  | some v =>
    have hid : column ≠ idColumn.name := by
      rintro rfl
      rw [lookup?_id_valuesOf hg.edits] at hv
      cases hv
    refine .inr ?_
    change u.MayHave column v
    generalize hname : u.resource.model.name = name at hv
    generalize hself : u.id = self at hv
    cases hg.supplies_of_lookup? hv with
    | top hv => exact .given hv hid
    | nested hitem _ hv =>
      exact .nested (Resource.nests_of_mem_nestedItems (fun _ he => he) hitem) hname.symm hv hid
  | none =>
    change u.stored column = .null ∨ u.MayHave column (u.stored column)
    unfold stored
    split
    · rename_i row hrow
      obtain ⟨hmem, hid⟩ := Table.mem_of_find? hrow
      rw [Node.value_ofRow]
      cases hc : u.resource.model.column? column with
      | none => exact .inl rfl
      | some c =>
        have hname : c.name = column := by simpa using List.find?_some hc
        exact .inr (hname ▸ .stored hmem hid (List.mem_of_find?_eq_some hc))
    · exact .inl rfl

theorem Staged.leadsTo (hg : u.Staged g) {h : Handle} {row : Row}
    (hlinks : u.Links (u.pending g) h row) : u.LeadsTo h row := by
  cases hlink : h.relation.link with
  | parent fk =>
    simp only [Links, hlink] at hlinks
    simp only [LeadsTo, hlink]
    rcases hg.mayHave_pending fk with hnull | hhas
    · rw [hnull] at hlinks
      exact absurd hlinks not_holds_compare_null
    · exact ⟨_, hhas, hlinks⟩
  | many fk orderedBy owned => simpa only [Links, LeadsTo, hlink] using hlinks
  | one fk owned => simpa only [Links, LeadsTo, hlink] using hlinks

theorem Staged.stage (hg : u.Staged g) (hitem : item ∈ u.items) (h : u.stage g item = .ok g') :
    u.Staged g' := by
  rcases stage_ok h with ⟨-, rfl⟩ | ⟨-, row, hnamed, hlinks, rfl⟩
  · have hdraft : u.Staged (g.addDraft item.1.target (item.1.target.columnValues item.2)).1 :=
      ⟨hg.edits, hg.supplied, hg.apart, hg.removed, hg.attached⟩
    exact hdraft.attach hitem (.draft _)
  · exact (hg.edit fun _ hv => .nested hitem hnamed hv).attach hitem
      (.stored hnamed (hg.leadsTo hlinks))

theorem staged_of_walk {done : List (Handle × List (String × Value))}
    (hdone : ∀ item ∈ done, item ∈ u.items) (hg : u.Staged g)
    (h : done.foldlM u.stage g = .ok g') : u.Staged g' :=
  foldlM_keeps (P := u.Staged) (fun item hitem _ _ hstage hg => hg.stage (hdone item hitem) hstage)
    h hg

theorem staged_of_staging (h : u.staging = .ok g) : u.Staged g :=
  staged_of_walk (fun _ hitem => hitem) u.staged_started h

theorem declares_of_mem_items (hmodel : u.resource.model ∈ u.resource.schema.models)
    (hitem : item ∈ u.items) :
    u.resource.schema.Declares item.1 ∧ item.1.parent = u.resource.model := by
  have hn : u.Nests item.1 item.2 := Resource.nests_of_mem_nestedItems (fun _ he => he) hitem
  obtain ⟨key, v, records, -, -, hrelation, -, -⟩ := hn
  exact Schema.declares_of_resolve? hmodel hrelation

theorem Staged.fits (hg : u.Staged g) (hmodel : u.resource.model ∈ u.resource.schema.models) :
    g.Fits u.resource.schema := by
  intro a ha
  obtain ⟨hholder, item, hitem, hhandle, hmember⟩ := hg.attached a ha
  obtain ⟨hdeclared, hparent⟩ := declares_of_mem_items hmodel hitem
  rw [← hhandle] at hdeclared hparent
  refine ⟨hdeclared, ?_, ?_⟩
  · rw [hholder, hparent]
    exact rfl
  · rw [hhandle]
    exact hmember.isOf

theorem Staged.sparesIds (hg : u.Staged g)
    (hmodel : u.resource.model ∈ u.resource.schema.models) : g.SparesIds u.resource.schema :=
  ⟨hg.edits, hg.apart, hg.fits hmodel⟩

/-- What goes when all this is written are records that lose their places, and what they own. -/
theorem Staged.removes (hs : u.resource.schema.Keyed)
    (hmodel : u.resource.model ∈ u.resource.schema.models) (hg : u.Staged g)
    (now : Calendar.Moment) {ref : Ref}
    (href : ref ∈ g.removals u.resource.schema u.store .empty) : u.Removes ref := by
  -- Edits take nothing away, so they can be left out here.
  have hu : u.Underway { store := u.store, now := now, staged := { g with edits := [] } } := by
    refine ⟨rfl, fun _ _ => rfl, nofun, nofun, fun a ha => ?_, hg.removed⟩
    obtain ⟨hholder, item, hitem, hhandle, hbrings⟩ := hg.attached a ha
    have hn : u.Nests item.1 item.2 := Resource.nests_of_mem_nestedItems (fun _ he => he) hitem
    refine ⟨hholder, ⟨item.2, hhandle ▸ hn⟩, ?_⟩
    rw [hhandle]
    generalize hmember : a.member = member at hbrings
    cases hbrings with
    | draft n => exact .inl ⟨n, rfl⟩
    | stored hnamed hleads => exact .inr (.intro hn hnamed.1 hnamed.2 hleads)
  exact hu.removals hs hmodel href

end Update

namespace Resource
variable {r : Resource} {se : Session}

theorem saveRecord_saved {holder ref : Ref} {message : String}
    (h : (r.saveRecord holder message se).result = .ok (some ref)) :
    ∃ w, (Action.flush r.schema se).result = .ok w ∧
      (r.saveRecord holder message se).session.store = w.store ∧
        ∃ row ∈ w.store.rows r.model, w.id? holder = some row.id ∧
          ref = .stored r.model.name row.id := by
  suffices hleaves : Leaves (Eq se) (r.saveRecord holder message) (fun saved se' =>
      ∀ ref, saved = some ref → ∃ w, (Action.flush r.schema se).result = .ok w ∧
        se'.store = w.store ∧ ∃ row ∈ w.store.rows r.model, w.id? holder = some row.id ∧
          ref = .stored r.model.name row.id)
      fun _ _ => True from hleaves.ok rfl h ref rfl
  unfold saveRecord
  refine Leaves.bind (Q := fun saved se' => ∀ w, saved = some w →
    (Action.flush r.schema se).result = .ok w ∧ se'.store = w.store) ?_ fun saved => ?_
  · rintro se' rfl
    cases hr : (Action.flush r.schema se).result with
    | ok w =>
      rw [save_apply_of_ok hr]
      intro w' hw
      obtain rfl := Option.some.inj hw
      exact ⟨rfl, ((settles_flush (P := Eq se) r.schema).ok rfl hr).2⟩
    | error e =>
      rcases save_of_error (m := r.model) hr with ⟨hnone, -⟩ | ⟨-, herror⟩
      · rw [hnone]
        exact nofun
      · rw [herror]
        trivial
  · cases saved with
    | none => exact .pure fun se _ => nofun
    | some w =>
      refine Leaves.bind (Q := fun ref se' => (Action.flush r.schema se).result = .ok w ∧
        se'.store = w.store ∧ ∃ row ∈ w.store.rows r.model, w.id? holder = some row.id ∧
          ref = .stored r.model.name row.id) ?_ ?_
      · unfold reload
        split
        · rename_i row hrow
          obtain ⟨id, hid, hfound⟩ := Option.bind_eq_some_iff.1 hrow
          obtain ⟨hmem, rfl⟩ := Table.mem_of_find? hfound
          exact fun se' hw => ⟨(hw w rfl).1, (hw w rfl).2, row, hmem, hid, rfl⟩
        · exact fun se _ => trivial
      · refine fun ref => Leaves.bind (.entry _) fun _ => .pure fun se' hsaved ref' hsome => ?_
        obtain rfl := Option.some.inj hsome
        exact ⟨w, hsaved⟩

/-- An update that goes through has staged all that its payload asks for, and written that. -/
theorem update_saved (hs : r.schema.Keyed) (hmodel : r.model ∈ r.schema.models)
    (hfresh : se.IsFresh se.store) (hactive : se.inactive = false) {id payload : Value} {ref : Ref}
    (h : (r.update id payload se).result = .ok (some ref)) :
    ∃ n g w, r.Finds se id n ∧ r.IdOf se.store id n ∧ ref = .stored r.model.name n ∧
      Update.staging ⟨r, se.store, n, payload⟩ = .ok g ∧
        g.flush r.schema se.now se.store .empty = .ok w ∧
          (r.update id payload se).session.store = w.store ∧
            ∃ row ∈ w.store.rows r.model, row.id = n := by
  -- Of the ways in which an update may end, only one has a record for its result.
  have hends := update_ends hs hmodel hfresh hactive id payload
  rw [h] at hends
  cases hends with
  | unfound _ hresult _ => cases hresult
  | unread _ hresult _ => cases hresult
  | broken _ _ hresult _ => cases hresult
  | @saved n g se₁ hfound hid hstaging hat hresult hsession =>
    obtain ⟨w, hflush, hstore, row, hrow, hrowid, rfl⟩ := saveRecord_saved hresult.symm
    obtain rfl : n = row.id := Option.some.inj hrowid
    obtain ⟨-, hwritten⟩ := result_flush_ok.1 hflush
    rw [hat.staged, hat.kept.1.1, hat.kept.1.2,
      Staging.flush_of_unloaded hat.loads_nothing] at hwritten
    exact ⟨row.id, g, w, hfound, hid, rfl, hstaging, hwritten, by rw [hsession, hstore], row, hrow,
      rfl⟩

end Resource

end Records
