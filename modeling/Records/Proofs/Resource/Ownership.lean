import Records.Proofs.Resource.Merging

/-!
Which records a payload may name by their ids. Each is looked up among those that the relation leads
to, by the keys that the record is about to have: these are the keys of the store unless the payload
itself gives the record other ones.
-/
namespace Records

open Records.Action
open Records.Filter (Predicate)

namespace Update
variable {u : Update} {g : Staging} {item : Handle × List (String × Value)}

/-- A nested record comes to its turn, and this is staged by then. -/
def Meets (u : Update) (g : Staging) (item : Handle × List (String × Value)) : Prop :=
  ∃ done rest, u.items = done ++ item :: rest ∧ done.foldlM u.stage u.started = .ok g

/-- The id of a nested record names a row that its relation leads to, if the columns of the record
have these values. -/
def Reaches (u : Update) (column : String → Value) (item : Handle × List (String × Value)) : Prop :=
  ∃ row, u.Denotes item row ∧ u.Links column item.1 row

/-- The payload gives a column of the record a value: by itself, or where it nests the record in
itself. -/
inductive Gives (u : Update) (column : String) : Prop
  | top {v : Value} (he : (column, v) ∈ u.payload.entries)
  | nested {item : Handle × List (String × Value)} {v : Value} (hitem : item ∈ u.items)
    (hself : item.1.target.name = u.resource.model.name) (he : (column, v) ∈ item.2)

/-- The payload gives the key by which a relation leads to its parent. -/
def Rekeys (u : Update) (h : Handle) : Prop := ∃ fk, h.relation.link = .parent fk ∧ u.Gives fk

theorem Meets.mem (h : u.Meets g item) : item ∈ u.items := by
  obtain ⟨done, rest, hitems, -⟩ := h
  rw [hitems]
  exact List.mem_append_right _ (List.mem_cons_self ..)

theorem Meets.payload_read (h : u.Meets g item) : ∃ es, u.payload.toEntries = .ok es := by
  cases hes : u.payload.toEntries with
  | ok es => exact ⟨es, rfl⟩
  | error e =>
    have hmem := h.mem
    rw [items_of_unread hes] at hmem
    cases hmem

theorem meets_of_staged (h : u.staging = .ok g) (hitem : item ∈ u.items) :
    ∃ g₁ g₂, u.Meets g₁ item ∧ u.stage g₁ item = .ok g₂ := by
  obtain ⟨done, rest, hitems⟩ := List.append_of_mem hitem
  obtain ⟨g₁, g₂, hdone, hstage, -⟩ := staging_split hitems h
  exact ⟨g₁, g₂, ⟨done, rest, hitems, hdone⟩, hstage⟩

theorem Meets.staging_error (h : u.Meets g item) {e : Failure}
    (he : u.stage g item = .error e) : u.staging = .error e := by
  obtain ⟨done, rest, hitems, hdone⟩ := h
  rw [staging, hitems, List.foldlM_append, hdone]
  change (item :: rest).foldlM u.stage g = .error e
  rw [List.foldlM_cons, he]
  rfl

theorem reaches_of_staged {g' : Staging} (hid : givenId item.2 ≠ .null)
    (h : u.stage g item = .ok g') : u.Reaches (u.pending g) item := by
  rcases stage_ok h with ⟨hnull, -⟩ | ⟨-, row, hnamed, hlinks, -⟩
  · exact absurd hnull hid
  · exact ⟨row, hnamed, hlinks⟩

/-- A nested record cannot be staged if its lookup fails or yields nothing. -/
theorem stage_error {e : Failure} (h : u.stage g item = .error e) :
    e = .problem (u.stray item.1 (givenId item.2)) ∨
      ∃ x, (u.lookup g item.1 (givenId item.2)).run u.store = .error x ∧ e = .store x := by
  have hid : givenId item.2 ≠ .null := by
    intro hnull
    rw [stage_of_null hnull] at h
    cases h
  cases hrun : (u.lookup g item.1 (givenId item.2)).run u.store with
  | error x =>
    rw [stage_of_refused hid hrun] at h
    exact .inr ⟨x, rfl, (Except.error.inj h).symm⟩
  | ok rows =>
    cases hhead : rows.head? with
    | some row =>
      rw [stage_of_found hid hrun hhead] at h
      cases h
    | none =>
      rw [stage_of_missing hid hrun hhead] at h
      exact .inl (Except.error.inj h).symm

section Keys
variable {fk : String} (hgives : ¬u.Gives fk)
include hgives

theorem lookup?_stage_of_spared (hitem : item ∈ u.items) {g' : Staging}
    (h : u.stage g item = .ok g') :
    Value.lookup? fk (g'.valuesOf u.resource.model.name u.id) =
      Value.lookup? fk (g.valuesOf u.resource.model.name u.id) := by
  rcases stage_ok h with ⟨-, rfl⟩ | ⟨-, row, -, -, rfl⟩
  · rfl
  · refine Staging.lookup?_valuesOf_edit_of_none fun hself _ => Value.lookup?_eq_none ?_
    rintro e he rfl
    exact hgives (.nested hitem hself (Model.mem_fillValues _ he).1)

theorem Meets.pending_eq_stored (h : u.Meets g item) : u.pending g fk = u.stored fk := by
  obtain ⟨done, rest, hitems, hdone⟩ := h
  -- No value is staged for the key to begin with, and no nested record before this one adds any.
  have hstarted : Value.lookup? fk
      (u.started.valuesOf u.resource.model.name u.id) = none := by
    have hempty : Value.lookup? fk (Staging.empty.valuesOf u.resource.model.name u.id) = none := rfl
    rw [started, Staging.lookup?_valuesOf_edit_of_none fun _ _ => Value.lookup?_eq_none ?_, hempty]
    rintro e he rfl
    exact hgives (.top (Model.mem_fillValues _ he).1)
  have hkept : Value.lookup? fk (g.valuesOf u.resource.model.name u.id) = none := by
    refine foldlM_keeps (P := fun g : Staging =>
      Value.lookup? fk (g.valuesOf u.resource.model.name u.id) = none) ?_ hdone hstarted
    intro item hitem g₁ g₂ hstage hnone
    rw [lookup?_stage_of_spared hgives (hitems ▸ List.mem_append_left _ hitem) hstage, hnone]
  unfold pending
  rw [hkept]
  rfl

end Keys

/-- A relation whose key the payload spares leads where it led in the store. -/
theorem Meets.links_iff_stored (h : u.Meets g item) (hspared : ¬u.Rekeys item.1) (row : Row) :
    u.Links (u.pending g) item.1 row ↔ u.Links u.stored item.1 row := by
  cases hlink : item.1.relation.link with
  | parent fk =>
    have hgives : ¬u.Gives fk := fun hg => hspared ⟨fk, hlink, hg⟩
    simp only [Links, hlink, h.pending_eq_stored hgives]
  | many fk orderedBy owned => simp only [Links, hlink]
  | one fk owned => simp only [Links, hlink]

end Update

namespace Resource
variable {r : Resource} {se : Session}

/-- An update that goes through has reached, by every id that its payload names, a row that the
relation of the record led to at that time. A nested id that reaches none ends the update with a
problem, and nothing is changed or staged; only where the id, or the key of the record, cannot be
looked up at all does it end in another way. What a relation leads to is judged by the store alone,
unless the payload itself gives the record a value for the key of this relation. -/
theorem nested_ids_reach_linked (hs : r.schema.Keyed) (hmodel : r.model ∈ r.schema.models)
    (hfresh : se.IsFresh se.store) (hactive : se.inactive = false) {id : Value} {n : Int}
    (hfound : r.Finds se id n) (payload : Value) :
    let u : Update := ⟨r, se.store, n, payload⟩
    let o := r.update id payload se
    (∀ saved, o.result = .ok saved → ∀ item ∈ u.items, Update.givenId item.2 ≠ .null →
      ∃ g, u.Meets g item ∧ u.Reaches (u.pending g) item) ∧
    (∀ g item, u.Meets g item → Update.givenId item.2 ≠ .null →
      ¬u.Reaches (u.pending g) item → o.session.store = se.store ∧
        (o.result = .error (.problem (u.stray item.1 (Update.givenId item.2))) ∧
            se.Undone o.session ∨
          ∃ x, (u.lookup g item.1 (Update.givenId item.2)).run se.store = .error x ∧
            o.result = .error (.store x))) ∧
    ∀ g item, u.Meets g item → ¬u.Rekeys item.1 → ∀ row,
      u.Links (u.pending g) item.1 row ↔ u.Links u.stored item.1 row := by
  intro u o
  have hends : r.UpdateEnds se id payload o.result o.session :=
    update_ends hs hmodel hfresh hactive id payload
  refine ⟨?_, ?_, fun g item hmeets hspared row => hmeets.links_iff_stored hspared row⟩
  · intro saved hsaved item hitem hid
    cases hends with
    | unfound hnone _ _ => exact absurd hfound (hnone n)
    | unread _ hresult _ => rw [hsaved] at hresult; cases hresult
    | broken _ _ hresult _ => rw [hsaved] at hresult; cases hresult
    | saved hfound' _ hstaging _ _ _ =>
      obtain rfl := hfound.unique hfound'
      obtain ⟨g₁, g₂, hmeets, hstage⟩ := Update.meets_of_staged hstaging hitem
      exact ⟨g₁, hmeets, Update.reaches_of_staged hid hstage⟩
  · intro g item hmeets hid hstray
    -- A nested record that could be staged would have been reached.
    cases hstage : u.stage g item with
    | ok g' => exact absurd (Update.reaches_of_staged hid hstage) hstray
    | error e =>
      have hstaging : u.staging = .error e := hmeets.staging_error hstage
      cases hends with
      | unfound hnone _ _ => exact absurd hfound (hnone n)
      | unread he _ _ =>
        obtain ⟨es, hes⟩ := hmeets.payload_read
        change payload.toEntries = .ok es at hes
        rw [hes] at he
        cases he
      | saved hfound' _ hok _ _ _ =>
        obtain rfl := hfound.unique hfound'
        rw [hstaging] at hok
        cases hok
      | broken hfound' hbroken hresult hhalts =>
        obtain rfl := hfound.unique hfound'
        obtain rfl : e = _ := Except.error.inj (hstaging.symm.trans hbroken)
        refine ⟨hhalts.1, ?_⟩
        rcases Update.stage_error hstage with rfl | ⟨x, hx, rfl⟩
        · exact .inl ⟨hresult, hhalts.2 _ rfl⟩
        · exact .inr ⟨x, hx, hresult⟩

/-- A profile names an author who is not its own, and gives no key: nothing changes. -/
theorem nested_ids_reach_linked_stranger :
    let se := Library.visit Library.catalogue
    let payload : Value := .object [("author", .object [("id", .int 1)])]
    let o := (Library.resource Library.profile).update (.int 51) payload se
    let p := Problem.relatedNotFound "Author" (.int 1) "author" "Profile" (.int 51)
    o.result = .error (.problem p.1) ∧ o.session.store = Library.catalogue := by
  intro se payload o p
  let u : Update := ⟨Library.resource Library.profile, Library.catalogue, 51, payload⟩
  let h : Handle := ⟨⟨"author", "Author", .parent "author_id"⟩, Library.profile, Library.author⟩
  let item : Handle × List (String × Value) := (h, [("id", .int 1)])
  have hfound : (Library.resource Library.profile).Finds se (.int 51) 51 :=
    except_of_toOption (by decide +kernel)
  obtain ⟨-, hstray, -⟩ := nested_ids_reach_linked Library.keyed (by decide) ⟨rfl, rfl, rfl⟩ rfl
    hfound payload
  have hmeets : u.Meets u.started item := ⟨[], [], by decide +kernel, rfl⟩
  have hnone : ¬u.Reaches (u.pending u.started) item := by
    rintro ⟨row, ⟨hrow, hnamed⟩, hlinks⟩
    have hapart : ∀ row ∈ Library.catalogue.rows Library.author,
        ¬(Predicate.holds Library.catalogue row (exactly Library.author idColumn (.int 1)) ∧
          Predicate.holds Library.catalogue row
            (.compare ⟨"author", idColumn⟩ .eq (u.pending u.started "author_id"))) := by
      decide +kernel
    exact hapart row hrow ⟨hnamed, hlinks⟩
  have hrun : (u.lookup u.started h (.int 1)).run se.store = .ok [] :=
    except_of_toOption (by decide +kernel)
  obtain ⟨hstore, ⟨hresult, -⟩ | ⟨x, hx, -⟩⟩ := hstray u.started item hmeets nofun hnone
  · exact ⟨hresult, hstore⟩
  · exact nomatch hrun.symm.trans hx

/-- With the key in the payload the same author is reached, and is the profile's from then on. -/
example :
    let payload : Value := .object [("author_id", .int 1), ("author", .object [("id", .int 1)])]
    let o := (Library.resource Library.profile).update (.int 51) payload
      (Library.visit Library.catalogue)
    o.result.toOption = some (some (.stored "Profile" 51)) := by
  decide +kernel

end Resource

end Records
