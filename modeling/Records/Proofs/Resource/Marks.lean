import Mathlib.Data.List.Forall2
import Records.Proofs.Resource.Membership

/-!
Whether the records that a payload names are trashed. A nested id is looked up among all that the
relation leads to, so marks decide nothing, and a trashed record takes what its payload gives it as
any other does.
-/
namespace Records

open Records.Action
open Records.Filter (Predicate)

/-- Two rows that differ at most in whether they are trashed. -/
structure Model.SameButMark (m : Model) (row row' : Row) : Prop where
  id_eq : row'.id = row.id
  cell_eq : ∀ c ∈ m.columns, c ≠ deletedAt → row'.cell c.name = row.cell c.name

/-- Two stores that differ at most in which records are trashed. -/
def Store.SameButMarks (s : Schema) (st st' : Store) : Prop :=
  ∀ m ∈ s.models, List.Forall₂ m.SameButMark (st.rows m) (st'.rows m)

theorem Column.ne_deletedAt {c : Column} (hkind : c.kind = .int) : c ≠ deletedAt := by
  rintro rfl
  cases hkind

theorem foldlM_congr {α β ε : Type} {f g : β → α → Except ε β} {xs : List α}
    (h : ∀ x ∈ xs, ∀ b, f b x = g b x) (b : β) : xs.foldlM f b = xs.foldlM g b := by
  induction xs generalizing b with
  | nil => rfl
  | cons x xs ih =>
    rw [List.foldlM_cons, List.foldlM_cons, h x (List.mem_cons_self ..)]
    exact bind_congr fun b' => ih (fun y hy => h y (List.mem_cons_of_mem _ hy)) b'

theorem find?_forall₂ {m : Model} {rows rows' : List Row}
    (h : List.Forall₂ m.SameButMark rows rows') (id : Int) :
    Option.Rel m.SameButMark (rows.find? (·.id == id)) (rows'.find? (·.id == id)) := by
  induction h with
  | nil => exact .none
  | cons hrow _ ih =>
    rw [List.find?_cons, List.find?_cons, hrow.id_eq]
    split
    · exact .some hrow
    · exact ih

theorem filter_forall₂ {m : Model} {rows rows' : List Row}
    (h : List.Forall₂ m.SameButMark rows rows') {f f' : Row → Bool}
    (hf : ∀ row row', m.SameButMark row row' → f' row' = f row) :
    List.Forall₂ m.SameButMark (rows.filter f) (rows'.filter f') := by
  induction h with
  | nil => exact .nil
  | cons hrow _ ih =>
    rw [List.filter_cons, List.filter_cons, hf _ _ hrow]
    split
    · exact .cons hrow ih
    · exact ih

namespace Update
variable {u : Update} {g : Staging} {item : Handle × List (String × Value)} {row : Row} {st : Store}

theorem stored_congr (hs : u.resource.schema.Referential)
    (hmodel : u.resource.model ∈ u.resource.schema.models)
    (hmarks : u.store.SameButMarks u.resource.schema st) {c : Column}
    (hc : c ∈ u.resource.model.columns) (hkind : c.kind = .int) :
    Update.stored { u with store := st } c.name = u.stored c.name := by
  have hrow : Option.Rel u.resource.model.SameButMark
      ((u.store.table u.resource.model.table).find? u.id)
      ((st.table u.resource.model.table).find? u.id) := find?_forall₂ (hmarks _ hmodel) u.id
  unfold stored
  dsimp only
  generalize (u.store.table u.resource.model.table).find? u.id = found at hrow ⊢
  generalize (st.table u.resource.model.table).find? u.id = found' at hrow ⊢
  cases hrow with
  | none => rfl
  | some hsame =>
    dsimp only
    rw [Node.value_ofRow, Node.value_ofRow, hs.column? hmodel hc]
    dsimp only [Option.map_some, Option.getD_some, Row.value]
    rw [hsame.cell_eq c hc (Column.ne_deletedAt hkind)]

section Marks
variable (hs : u.resource.schema.Referential)
  (hmodel : u.resource.model ∈ u.resource.schema.models) (hitem : item ∈ u.items)
include hs hmodel hitem

theorem holds_lookup_congr {row row' : Row} (hrow : item.1.target.SameButMark row row')
    {id : Value} {p : Predicate} (hp : p ∈ (u.lookup g item.1 id).conditions) :
    Predicate.holds st row' p = Predicate.holds u.store row p := by
  have hcompare {c : Column} (hcell : row'.cell c.name = row.cell c.name) (v : Value) :
      Predicate.holds st row' (.compare ⟨item.1.target.table, c⟩ .eq v) =
        Predicate.holds u.store row (.compare ⟨item.1.target.table, c⟩ .eq v) := by
    rw [Predicate.holds, Predicate.holds, Predicate.compareHolds, Predicate.compareHolds, hcell]
  have hid : row'.cell idColumn.name = row.cell idColumn.name := by
    rw [Row.cell_id, Row.cell_id, hrow.id_eq]
  rcases List.mem_cons.1 hp with rfl | hp
  · unfold exactly
    split
    · rw [Predicate.holds, Predicate.holds, hid]
    · exact hcompare hid id
  · unfold conditions at hp
    split at hp
    · rw [List.mem_singleton.1 hp]
      exact hcompare hid _
    · rename_i hchild
      obtain ⟨c, hc, rfl⟩ := List.mem_map.1 hp
      have hcolumn := Option.mem_toList.1 hc
      obtain ⟨hdeclared, -⟩ := declares_of_mem_items hmodel hitem
      obtain ⟨key, hkey, hname, hkind, -⟩ := hs.key hdeclared
      rw [Handle.referrer_of_child hchild] at hkey
      obtain rfl : key = c := Option.some.inj <|
        (hs.column? hdeclared.target_mem hkey).symm.trans (hname ▸ hcolumn)
      exact hcompare (hrow.cell_eq key hkey (Column.ne_deletedAt hkind)) _

variable (hmarks : u.store.SameButMarks u.resource.schema st)
include hmarks

theorem lookup_congr (id : Value) :
    Update.lookup { u with store := st } g item.1 id = u.lookup g item.1 id := by
  obtain ⟨hdeclared, hparent⟩ := declares_of_mem_items hmodel hitem
  obtain ⟨c, hc, hname, hkind, -⟩ := hs.key hdeclared
  unfold lookup conditions
  cases hlink : item.1.relation.link with
  | parent fk =>
    rw [Handle.referrer_of_parent hlink, hparent] at hc
    obtain rfl : c.name = fk := by
      rw [hname, hlink]
      rfl
    dsimp only
    unfold pending
    rw [stored_congr hs hmodel hmarks hc hkind]
  | many fk orderedBy owned => rfl
  | one fk owned => rfl

/-- A lookup yields the same rows, except for their marks, or fails in the same way. -/
theorem run_lookup_congr (id : Value) :
    (∃ x, (u.lookup g item.1 id).run u.store = .error x ∧
      (u.lookup g item.1 id).run st = .error x) ∨
    ∃ rows rows', (u.lookup g item.1 id).run u.store = .ok rows ∧
      (u.lookup g item.1 id).run st = .ok rows' ∧
        List.Forall₂ item.1.target.SameButMark rows rows' := by
  obtain ⟨hdeclared, -⟩ := declares_of_mem_items hmodel hitem
  unfold Query.run
  cases bindAll ((u.lookup g item.1 id).parameters ++
      Query.windowParameters (u.lookup g item.1 id).window) with
  | error x => exact .inl ⟨x, rfl, rfl⟩
  | ok cells =>
    refine .inr ⟨_, _, rfl, rfl, filter_forall₂ (hmarks _ hdeclared.target_mem) ?_⟩
    intro row row' hrow
    rw [Predicate.allHold_eq_all, Predicate.allHold_eq_all]
    rw [Bool.eq_iff_iff, List.all_eq_true, List.all_eq_true]
    exact forall₂_congr fun p hp => by rw [holds_lookup_congr hs hmodel hitem hrow hp]

theorem stage_congr : Update.stage { u with store := st } g item = u.stage g item := by
  by_cases hid : givenId item.2 = .null
  · rw [stage_of_null hid, stage_of_null hid]
    rfl
  · have hlookup := lookup_congr (g := g) hs hmodel hitem hmarks (givenId item.2)
    rcases run_lookup_congr (g := g) hs hmodel hitem hmarks (givenId item.2) with
      ⟨x, hrun, hrun'⟩ | ⟨rows, rows', hrun, hrun', hsame⟩
    · rw [stage_of_refused hid hrun, stage_of_refused hid (by rw [hlookup]; exact hrun')]
    · cases hsame with
      | nil =>
        rw [stage_of_missing hid hrun rfl, stage_of_missing hid (by rw [hlookup]; exact hrun') rfl]
        rfl
      | cons hrow _ =>
        rw [stage_of_found hid hrun rfl, stage_of_found hid (by rw [hlookup]; exact hrun') rfl,
          hrow.id_eq]
        rfl

end Marks

/-- An update stages the same whichever records are trashed. -/
theorem staging_congr (hs : u.resource.schema.Referential)
    (hmodel : u.resource.model ∈ u.resource.schema.models)
    (hmarks : u.store.SameButMarks u.resource.schema st) :
    Update.staging { u with store := st } = u.staging :=
  foldlM_congr (fun _ hitem _ => stage_congr hs hmodel hitem hmarks) _

theorem Denotes.unique {row' : Row} (h : u.Denotes item row) (h' : u.Denotes item row') :
    row' = row := by
  refine Store.eq_of_id h.1 h'.1 ?_
  obtain ⟨-, hid⟩ := h
  obtain ⟨-, hid'⟩ := h'
  unfold exactly at hid hid'
  split at hid
  · rw [Predicate.holds, Row.cell_id] at hid
    cases hid
  · rename_i hnull
    rw [if_neg hnull] at hid'
    exact id_unique_of_holds hid' hid

theorem Denotes.givenId_ne_null (h : u.Denotes item row) : givenId item.2 ≠ .null := by
  intro hnull
  obtain ⟨-, hid⟩ := h
  rw [hnull, exactly, if_pos rfl, Predicate.holds, Row.cell_id] at hid
  cases hid

/-- What is staged for a named row is what the last payload that names it gives. -/
theorem given_by_last (hmodel : u.resource.model ∈ u.resource.schema.models)
    {done rest : List (Handle × List (String × Value))} (hitems : u.items = done ++ item :: rest)
    (hnamed : u.Denotes item row)
    (hlast : ∀ later ∈ rest, later.1.target = item.1.target → ¬u.Denotes later row)
    (h : u.staging = .ok g) {column : String} (hcolumn : item.1.target.hasColumn column)
    (hid : column ≠ idColumn.name) (hgiven : ∃ v, (column, v) ∈ item.2) :
    ∃ v, (column, v) ∈ item.2 ∧
      Value.lookup? column (g.valuesOf item.1.target.name row.id) = some v := by
  -- The payload is staged in its turn, and what is nested later goes to other rows.
  obtain ⟨g₁, row', -, hnamed', -, hrest⟩ :=
    named_of_staging hitems hnamed.givenId_ne_null h
  obtain rfl := hnamed'.unique hnamed
  refine foldlM_keeps (P := fun g : Staging => ∃ v, (column, v) ∈ item.2 ∧
    Value.lookup? column (g.valuesOf item.1.target.name row.id) = some v) ?_ hrest ?_
  · rintro later hlater g₁ g₂ hstage ⟨v, hv, hstaged⟩
    refine ⟨v, hv, ?_⟩
    rcases stage_ok hstage with ⟨-, rfl⟩ | ⟨-, row', hnamed', -, rfl⟩
    · exact hstaged
    · change Value.lookup? column ((g₁.edit later.1.target row'.id _).valuesOf _ _) = _
      rw [Staging.valuesOf_edit, if_neg, hstaged]
      rintro ⟨hname, hid⟩
      have hmem : later ∈ u.items :=
        hitems ▸ List.mem_append_right _ (List.mem_cons_of_mem _ hlater)
      have hitem : item ∈ u.items := hitems ▸ List.mem_append_right _ (List.mem_cons_self ..)
      have hsame : later.1.target = item.1.target := Schema.eq_of_name
        (declares_of_mem_items hmodel hmem).1.target_mem
        (declares_of_mem_items hmodel hitem).1.target_mem hname
      have hrow : row' = row := Store.eq_of_id hnamed.1 (hsame ▸ hnamed'.1) hid
      exact hlast later hlater hsame (hrow ▸ hnamed')
  · obtain ⟨v, hv⟩ := hgiven
    have hfilled : (column, v) ∈ item.1.target.fillValues item.2 := by
      refine List.mem_filter.2 ⟨List.mem_filter.2 ⟨hv, hcolumn⟩, ?_⟩
      simpa using hid
    obtain ⟨v', hin, hstaged⟩ := Staging.lookup?_valuesOf_edit_of_mem g₁ row.id hfilled
    exact ⟨v', (Model.mem_fillValues _ hin).1, hstaged⟩

end Update

namespace Resource
variable {r : Resource} {se : Session}

theorem saveRecord_ne_problem {se₁ : Session} (hkept : se.Kept se₁) (ref : Ref) (message : String)
    (p : Problem) : (r.saveRecord ref message se₁).result ≠ .error (.problem p) := by
  have hleaves : Leaves se.Kept (r.saveRecord ref message) (fun _ _ => True)
      fun e _ => ∀ p, e ≠ .problem p := by
    unfold saveRecord
    refine Leaves.bind (Q := fun _ _ => True) ?_ fun saved => ?_
    · intro se' hse'
      cases hr : (Action.flush r.schema se').result with
      | ok w =>
        rw [save_apply_of_ok hr]
        trivial
      | error e =>
        rcases save_of_error (m := r.model) hr with ⟨hnone, -⟩ | ⟨-, herror⟩
        · rw [hnone]
          trivial
        · rw [herror]
          exact ((leaves_flush r.schema).error hse' hr).1
    · cases saved with
      | none => exact .pure fun _ _ => trivial
      | some w =>
        refine Leaves.bind (Q := fun _ _ => True) ?_ fun ref => ?_
        · unfold reload
          split
          · exact fun _ _ => trivial
          · exact fun _ _ => nofun
        · exact Leaves.bind (.entry _) fun _ => .pure fun _ _ => trivial
  intro hproblem
  exact hleaves.error hkept hproblem p rfl

/-- The problems of an update are those of what it stages. -/
theorem update_problem_iff (hs : r.schema.Keyed) (hmodel : r.model ∈ r.schema.models)
    (hfresh : se.IsFresh se.store) (hactive : se.inactive = false) {id payload : Value} {n : Int}
    (hfound : r.Finds se id n) (p : Problem) :
    (r.update id payload se).result = .error (.problem p) ↔
      Update.staging ⟨r, se.store, n, payload⟩ = .error (.problem p) := by
  have hends := update_ends hs hmodel hfresh hactive id payload
  cases hends with
  | unfound hnone _ _ => exact absurd hfound (hnone n)
  | unread he hresult _ =>
    have hstaging : Update.staging ⟨r, se.store, n, payload⟩ =
        .ok (Update.started ⟨r, se.store, n, payload⟩) := by
      unfold Update.staging
      rw [Update.items_of_unread he]
      rfl
    rw [hresult, hstaging]
    refine ⟨fun hproblem => ?_, fun hproblem => by cases hproblem⟩
    rw [Except.error.inj hproblem] at he
    unfold Value.toEntries at he
    split at he <;> cases he
  | broken hfound' hbroken hresult _ =>
    obtain rfl := hfound.unique hfound'
    rw [hresult, hbroken]
    exact ⟨fun h => congrArg _ (Except.error.inj h), fun h => congrArg _ (Except.error.inj h)⟩
  | saved hfound' _ hok hat hresult _ =>
    obtain rfl := hfound.unique hfound'
    rw [hok, hresult]
    refine ⟨fun hproblem => ?_, fun hproblem => by cases hproblem⟩
    exact absurd hproblem (saveRecord_ne_problem hat.kept _ _ p)

/-- A nested id names a trashed record as it names any other. Whichever records are trashed, the
same update ends with the same problem or with none, as long as the record itself is found; and a
row that is named, trashed or not, has taken what its payload gives it, unless it is removed. -/
theorem trashed_named_as_live (hs : r.schema.Referential) (hmodel : r.model ∈ r.schema.models)
    (hfresh : se.IsFresh se.store) (hactive : se.inactive = false) {id : Value} {n : Int}
    (hfound : r.Finds se id n) (payload : Value) :
    let u : Update := ⟨r, se.store, n, payload⟩
    let o := r.update id payload se
    (∀ se' : Session, se'.IsFresh se'.store → se'.inactive = false → r.Finds se' id n →
      se.store.SameButMarks r.schema se'.store → ∀ p,
        o.result = .error (.problem p) ↔ (r.update id payload se').result = .error (.problem p)) ∧
    ∀ ref, o.result = .ok (some ref) → ∃ g, u.staging = .ok g ∧
      ∀ done item rest row, u.items = done ++ item :: rest → u.Denotes item row →
        (∀ later ∈ rest, later.1.target = item.1.target → ¬u.Denotes later row) →
          .stored item.1.target.name row.id ∈ g.removals r.schema se.store .empty ∨
            ∃ row' ∈ o.session.store.rows item.1.target, row'.id = row.id ∧
              ∀ c ∈ item.1.target.columns, c.name ≠ idColumn.name → ¬r.schema.IsKey c.name →
                c.refreshed = false → (∃ v, (c.name, v) ∈ item.2) →
                  ∃ v, (c.name, v) ∈ item.2 ∧ c.Takes row row' (some v) := by
  intro u o
  constructor
  · intro se' hfresh' hactive' hfound' hmarks p
    rw [update_problem_iff hs.toKeyed hmodel hfresh hactive hfound,
      update_problem_iff hs.toKeyed hmodel hfresh' hactive' hfound',
      ← Update.staging_congr (u := u) hs hmodel hmarks]
  · intro ref hsaved
    obtain ⟨n', g, w, hfound', -, -, hstaging, hflush, hstore, -⟩ :=
      update_saved hs.toKeyed hmodel hfresh hactive hsaved
    obtain rfl := hfound.unique hfound'
    refine ⟨g, hstaging, fun done item rest row hitems hnamed hlast => ?_⟩
    rw [or_iff_not_imp_left]
    intro hstays
    have hitem : item ∈ u.items := hitems ▸ List.mem_append_right _ (List.mem_cons_self ..)
    have hg := Update.staged_of_staging hstaging
    have hfits := hg.fits hmodel
    have htarget := (Update.declares_of_mem_items hmodel hitem).1.target_mem
    obtain ⟨row', hrow', hnew⟩ :=
      (hg.sparesIds hmodel).rewrites hs.toKeyed htarget hstays hnamed.1 hflush
    refine ⟨row', hstore ▸ hrow', hnew.id_eq, fun c hc hne hplain hkept hgiven => ?_⟩
    have hhas : item.1.target.hasColumn c.name := by
      rw [Model.hasColumn, hs.column? htarget hc]
      rfl
    obtain ⟨v, hv, hstaged⟩ :=
      Update.given_by_last hmodel hitems hnamed hlast hstaging hhas hne hgiven
    refine ⟨v, hv, ?_⟩
    have hcleared : (.stored item.1.target.name row.id, c.name) ∉
        g.cleared r.schema se.store .empty := fun hc => hplain (hfits.isKey_of_cleared hc)
    rcases Staging.takes_of_rewrites hg.apart htarget hstays hnew (hs.names _ htarget) hc hkept hne
      hcleared with ⟨b, hb, -, hcolumn, -⟩ | ⟨-, htakes⟩
    · exact absurd (hcolumn ▸ hfits.isKey_of_bond hb) hplain
    · rwa [hstaged] at htakes

/-- The author of a book is in the trash, and is renamed along with the book. -/
theorem trashed_named_as_live_ghost :
    let se := Library.visit Library.catalogue
    let payload : Value := .object [("author", .object [("id", .int 7), ("name", .text "Anna")])]
    let o := (Library.resource Library.book).update (.int 16) payload se
    o.result = .ok (some (.stored "Book" 16)) ∧ ∃ row ∈ Library.catalogue.rows Library.author,
      row.cell deletedAt.name ≠ .null ∧ row.cell "name" = .text "ann" ∧
        ∃ row' ∈ o.session.store.rows Library.author, row'.id = row.id ∧
          row'.cell "name" = .text "Anna" := by
  intro se payload o
  have hsaved : o.result = .ok (some (.stored "Book" 16)) :=
    except_of_toOption (by decide +kernel)
  have hfound : (Library.resource Library.book).Finds se (.int 16) 16 :=
    except_of_toOption (by decide +kernel)
  obtain ⟨-, hwritten⟩ := trashed_named_as_live Library.referential (by decide) ⟨rfl, rfl, rfl⟩ rfl
    hfound payload
  obtain ⟨g, hstaging, hnamed⟩ := hwritten _ hsaved
  let u : Update := ⟨Library.resource Library.book, Library.catalogue, 16, payload⟩
  let h : Handle := ⟨⟨"author", "Author", .parent "author_id"⟩, Library.book, Library.author⟩
  let item : Handle × List (String × Value) := (h, [("id", .int 7), ("name", .text "Anna")])
  have hitems : u.items = [] ++ item :: [] := by decide +kernel
  let c : Column := Library.textColumn "name" true
  have hghost : ∃ row ∈ Library.catalogue.rows Library.author,
      Predicate.holds Library.catalogue row (exactly Library.author idColumn (.int 7)) ∧
        row.cell deletedAt.name ≠ .null ∧ row.cell "name" = .text "ann" ∧
          (row.value c).same (.text "Anna") = false ∧ c.name ∈ row.cells.map (·.1) := by
    decide +kernel
  obtain ⟨row, hrow, hid, htrashed, hname, hdiffers, hhas⟩ := hghost
  refine ⟨hsaved, row, hrow, htrashed, hname, ?_⟩
  rcases hnamed [] item [] row hitems ⟨hrow, hid⟩ (fun _ hlater => by cases hlater) with
    hgone | ⟨row', hrow', hsame, htakes⟩
  · have hnone : u.staging.toOption.all fun g =>
        (g.removals Library.schema Library.catalogue .empty).isEmpty := by
      decide +kernel
    have hstaged : u.staging = .ok g := hstaging
    rw [hstaged] at hnone
    exact absurd (List.isEmpty_iff.1 hnone) (List.ne_nil_of_mem hgone)
  · have hplain : ¬Library.schema.IsKey c.name := by
      rintro ⟨h, hdeclared, hkey⟩
      have hkeys : ∀ m ∈ Library.schema.models, ∀ h ∈ Library.schema.handles m,
          h.relation.link.foreignKey ≠ c.name := by
        decide +kernel
      exact hkeys _ hdeclared.parent_mem _ hdeclared.mem_handles hkey
    obtain ⟨v, hv, htaken⟩ := htakes c (by decide) (by decide) hplain rfl
      ⟨.text "Anna", List.mem_cons_of_mem _ (List.mem_singleton_self _)⟩
    obtain rfl : v = .text "Anna" := by simpa [item, c, Library.textColumn] using hv
    refine ⟨row', hrow', hsame, ?_⟩
    rcases htaken with ⟨bound, hbound, hcell⟩ | ⟨-, hsame | hlacks⟩
    · cases hbound
      exact hcell
    · exact absurd hsame (by rw [hdiffers]; exact Bool.false_ne_true)
    · exact absurd hhas hlacks

end Resource

end Records
