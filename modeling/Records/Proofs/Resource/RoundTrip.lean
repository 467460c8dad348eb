import Records.Proofs.Library
import Records.Proofs.Resource.Linked
import Records.Proofs.Resource.Membership
import Records.Proofs.Resource.Viewed

/-!
A payload that is stored reads back. Its rows are added to the store and no other is changed, and a
view of the new record, asked for with the relations of the payload, shows what the payload gives.
-/
namespace Records

theorem Schema.nodup_handles {s : Schema} {m : Model} (hm : m ∈ s.models) :
    (s.handles m).Nodup := by
  have hnames : s.handles m = (m.relations.map (·.name)).filterMap (s.handle? m) := by
    rw [List.filterMap_map]
    rfl
  rw [hnames]
  refine (s.distinctRelations m hm).filterMap fun name name' h hh hh' => ?_
  rw [← relation_name_of_handle? hh, ← relation_name_of_handle? hh']

theorem Related.refs_ofRefs {isMany : Bool} {refs : List Ref}
    (h : isMany = false → refs.length ≤ 1) : (ofRefs isMany refs).refs = refs := by
  cases isMany with
  | true => rfl
  | false => match refs, h rfl with
    | [], _ => rfl
    | [ref], _ => rfl

/-- A record is shown with the values that a model takes of a payload. -/
def Graph.Shows (g : Graph) (m : Model) (es : List (String × Value)) (ref : Ref) : Prop :=
  ∃ node, g.node? ref = some node ∧
    ∀ c ∈ m.columns, ∀ v, Value.lookup? c.name es = some v → v.ReadsAs (node.value c.name)

theorem Graph.Holds.shows {g : Graph} {m : Model} {row : Row} {es : List (String × Value)}
    (h : g.Holds m row) (hcarries : m.Carries es row) : g.Shows m es (.stored m.name row.id) := by
  obtain ⟨node, hnode, hvalues⟩ := h
  refine ⟨node, hnode, fun c hc v hv => ?_⟩
  rw [hvalues c hc]
  exact hcarries c hc v hv

namespace Resource
variable {r : Resource} {es : List (String × Value)} {now : Calendar.Moment} {row : Row}
  {placed : List (Member × Row)} {h : Handle} {st st' : Store}

/-- The names under which a payload gives relations their records. -/
def nestedNames (r : Resource) (es : List (String × Value)) : List String :=
  (es.filter fun e => !r.model.hasColumn e.1 && (r.schema.resolve? r.model e.1).isSome &&
    e.2.nestedRecords?.isSome).map (·.1)

/-- The rows of a model among those of a new record and of the records under its relations. -/
def newRows (r : Resource) (row : Row) (rows : Handle → List Row) (m : Model) : List Row :=
  (if r.model = m then [row] else []) ++
    ((r.schema.handles r.model).filter (·.target = m)).flatMap rows

/-- A store has the rows of another one as they were, and those that a payload is stored as: one for
the record, and under each relation one for each mapping that the relation is given. -/
structure Adds (r : Resource) (es : List (String × Value)) (st st' : Store) (row : Row)
    (rows : Handle → List Row) : Prop where
  carries : r.model.Carries es row
  members : ∀ h ∈ r.schema.handles r.model,
    List.Forall₂ h.target.Carries (r.placed es h) (rows h)
  rows_perm : ∀ m ∈ r.schema.models, (st'.rows m).Perm (st.rows m ++ r.newRows row rows m)

/-- A record is shown as a payload gives it: with its values, and under each of its relations with
one record for each mapping that the relation is given. -/
structure Displays (r : Resource) (es : List (String × Value)) (g : Graph) (ref : Ref) : Prop where
  own : g.Shows r.model es ref
  nested : ∀ h, r.NestsUnder es h → ∃ refs children,
    g.related? ref h.relation.name = some (.ofRefs h.relation.link.isMany refs) ∧
      refs.Perm children ∧ List.Forall₂ (g.Shows h.target) (r.placed es h) children

theorem mem_mappings_of_placed {m : List (String × Value)} (hm : m ∈ r.placed es h) :
    m ∈ r.mappings es h := by
  unfold placed at hm
  split at hm
  · exact hm
  · exact List.mem_of_getLast? (Option.mem_toList.1 hm)

theorem length_placed_le (hone : h.relation.link.isMany = false) :
    (r.placed es h).length ≤ 1 := by
  unfold placed
  rw [hone]
  exact Option.length_toList_le

theorem mem_nestedNames {e : String × Value} (he : e ∈ es) (hkey : r.model.hasColumn e.1 = false)
    (hr : r.schema.resolve? r.model e.1 = some h) (hsome : e.2.nestedRecords?.isSome) :
    e.1 ∈ r.nestedNames es := by
  refine List.mem_map.2 ⟨e, List.mem_filter.2 ⟨he, ?_⟩, rfl⟩
  rw [hkey, hr, hsome]
  rfl

theorem resolves_of_mem_nestedNames {name : String} (hname : name ∈ r.nestedNames es) :
    ∃ h, r.schema.resolve? r.model name = some h := by
  obtain ⟨e, he, rfl⟩ := List.mem_map.1 hname
  simp only [List.mem_filter, Bool.and_eq_true] at he
  exact Option.isSome_iff_exists.1 he.2.1.2

namespace Inserted
variable (hi : r.Inserted es now st st' row placed) (hs : r.schema.Regular)
  (hm : r.model ∈ r.schema.models) (hp : r.Accepts es)
include hi hm

theorem newRows_perm {m : Model} (hmodel : m ∈ r.schema.models) :
    ((r.family es).rowsOf row placed m).Perm (r.newRows row (rowsUnder placed) m) := by
  have htables {m' : Model} (hm' : m' ∈ r.schema.models) : m'.table = m.table ↔ m' = m :=
    ⟨Schema.eq_of_table hm' hmodel, fun hsame => hsame ▸ rfl⟩
  unfold Family.rowsOf newRows
  rw [holder_family]
  refine List.Perm.append (by simp only [htables hm]; exact .refl _) ?_
  -- The members are sorted by their relations.
  let keys := (r.schema.handles r.model).filter (·.target = m)
  have hsorted : (keys.flatMap fun h => (placed.filter (·.1.handle.target.table = m.table)).filter
      (·.1.handle = h)).Perm (placed.filter (·.1.handle.target.table = m.table)) := by
    refine perm_flatMap_filter ((Schema.nodup_handles hm).filter _) fun e he => ?_
    obtain ⟨he, htable⟩ := List.mem_filter.1 he
    have hhandle := mem_handles_of_member hm (mem_members hi.written he)
    have hdeclared := (declares_of_mem hi.written hm he).1
    exact List.mem_filter.2 ⟨hhandle,
      decide_eq_true ((htables hdeclared.target_mem).1 (of_decide_eq_true htable))⟩
  refine (hsorted.symm.map _).trans (.of_eq ?_)
  rw [List.map_flatMap]
  refine List.flatMap_congr fun h hh => congrArg (List.map _) ?_
  rw [List.filter_filter]
  refine List.filter_congr fun e _ => ?_
  have htarget : h.target = m := of_decide_eq_true (List.mem_filter.1 hh).2
  by_cases hhandle : e.1.handle = h
  · simp [hhandle, htarget]
  · simp [hhandle]

include hs hp

theorem members_carry (hd : r.schema.Declares h) (hparent : h.parent = r.model) :
    List.Forall₂ h.target.Carries (r.placed es h) (rowsUnder placed h) := by
  have hvalues : (r.placed es h).map h.target.columnValues =
      (placed.filter (·.1.handle = h)).map (·.1.values) := by
    rw [← kept_under hm hd hparent, ← hi.written.kept, List.filter_map, List.map_map]
    rfl
  have hpairs : List.Forall₂ (fun m e => h.target.columnValues m = e.1.values) (r.placed es h)
      (placed.filter (·.1.handle = h)) := by
    refine List.forall₂_map_left_iff.1 (List.forall₂_map_right_iff.1 ?_)
    rw [List.forall₂_eq_eq_eq]
    exact hvalues
  refine List.forall₂_map_right_iff.2 (forall₂_imp_of_mem hpairs fun m hplaced e hin hsame => ?_)
  obtain ⟨he, hhandle⟩ := List.mem_filter.1 hin
  obtain rfl : e.1.handle = h := of_decide_eq_true hhandle
  exact member_carries hi.written hs hm hp he (mem_mappings_of_placed hplaced) hsame.symm

theorem adds : r.Adds es st st' row (rowsUnder placed) where
  carries := holder_carries hi.written hs hm hp
  members h hh := by
    obtain ⟨hd, hparent⟩ := Schema.declares_of_mem_handles hm hh
    exact hi.members_carry hs hm hp hd hparent
  rows_perm m hmodel :=
    (hi.rows_perm m).trans (List.Perm.append_left _ (hi.newRows_perm hm hmodel))

/-- Where the record of the new row and the rows of its relations are held, they are shown as the
payload gives them. -/
theorem displays (hst : st.Intact r.schema) {g : Graph} (hheld : g.Holds r.model row)
    (hunder : ∀ name ∈ r.nestedNames es, ∀ h, r.schema.resolve? r.model name = some h →
      g.HoldsUnder st' h row) : r.Displays es g (.stored r.model.name row.id) := by
  refine ⟨hheld.shows (holder_carries hi.written hs hm hp), fun h hnests => ?_⟩
  obtain ⟨e, he, hkey, hresolve, hsome⟩ := hnests
  obtain ⟨hd, hparent⟩ := Schema.declares_of_resolve? hm hresolve
  have hloaded := hunder e.1 (mem_nestedNames he hkey hresolve hsome) h hresolve
  have hperm := hi.loadedRows_perm hs hp hd ⟨e, he, hkey, hresolve, hsome⟩ hm hparent hst
  have hcarry := hi.members_carry hs hm hp hd hparent
  have hrefs : (h.relatedOf (loadedRows st' h row)).refs =
      (loadedRows st' h row).map fun t => .stored h.target.name t.id := by
    refine Related.refs_ofRefs fun hone => ?_
    rw [List.length_map, hperm.length_eq, ← hcarry.length_eq]
    exact length_placed_le hone
  refine ⟨_, _, hparent ▸ hloaded.related, hperm.map _, List.forall₂_map_right_iff.2 ?_⟩
  refine forall₂_imp_of_mem hcarry fun m _ t ht hcarries => Graph.Holds.shows ?_ hcarries
  have hin := hperm.mem_iff.2 ht
  refine hloaded.members t hin ?_
  rw [hrefs]
  exact List.mem_map_of_mem hin

end Inserted

/-- A payload that is stored under an id adds its rows to the store and changes no other one, and a
view of that id in a new session, asked for with the relations of the payload, shows the record as
the payload gives it. Every value is given in the kind of its column, and no key between the
records; the store has no key that leads nowhere, nor has the session anything staged. -/
theorem stored_reads_back (hs : r.schema.Regular) (hm : r.model ∈ r.schema.models) {payload : Value}
    (hp : r.Accepts payload.entries) {se : Session} (hse : se.Idle)
    (hst : se.store.Intact r.schema) {n : Int} (hfits : fitsInteger n = true)
    (hstored : (r.store payload se).result = .ok (some (.stored r.model.name n))) :
    let st' := (r.store payload se).session.store
    (∃ row rows, row.id = n ∧ r.Adds payload.entries se.store st' row rows) ∧
      ∀ se' : Session, se'.IsFresh st' → se'.inactive = false →
        let names := r.nestedNames payload.entries
        let viewed := r.view (.int n) (.list (names.map .text)) .null (.list []) false se'
        viewed.result = .ok ⟨.stored r.model.name n, {}⟩ ∧
          r.Displays payload.entries viewed.session.records (.stored r.model.name n) := by
  obtain ⟨row, placed, rfl, hi⟩ := store_inserts hs hm hp hse hstored
  refine ⟨⟨row, rowsUnder placed, rfl, hi.adds hs hm hp⟩, fun se' hfresh hactive => ?_⟩
  have hlive := holder_live hi.written hs hm hp
  obtain ⟨hresult, hheld, hunder⟩ := view_shows hfresh hactive hi.row_mem hlive hfits hs hm
    fun name hname => resolves_of_mem_nestedNames hname
  exact ⟨hresult, hi.displays hs hm hp hst hheld hunder⟩

end Resource

theorem Library.isFresh_visit (st : Store) : (visit st).IsFresh st := ⟨rfl, rfl, rfl⟩

/-- An author is stored with two books and a profile that is given twice. -/
theorem Resource.stored_reads_back_author :
    let authors := Library.resource Library.author
    let se := Library.visit Library.catalogue
    let payload : Value := .object [("name", .text "Eva"), ("shelf", .int 3),
      ("books", .list [.object [("title", .text "Momo")], .object [], .object [("pages", .int 9),
        ("title", .text "Emil")]]),
      ("profile", .list [.object [("bio", .text "new")], .object [("bio", .text "newer")]])]
    let st' := (authors.store payload se).session.store
    let viewed := authors.view (.int 9) (.list [.text "books", .text "profile"]) .null (.list [])
      false (Library.visit st')
    (authors.store payload se).result = .ok (some (.stored "Author" 9)) ∧
      (∃ row rows, row.id = 9 ∧ authors.Adds payload.entries Library.catalogue st' row rows) ∧
      viewed.result = .ok ⟨.stored "Author" 9, {}⟩ ∧
      authors.Displays payload.entries viewed.session.records (.stored "Author" 9) := by
  intro authors se payload st' viewed
  have hstored : (authors.store payload se).result = .ok (some (.stored "Author" 9)) :=
    except_of_toOption (by decide +kernel)
  have hintact : Library.catalogue.Intact Library.schema := by
    unfold Store.Intact
    decide +kernel
  have haccepts : authors.Accepts payload.entries := by decide +kernel
  have hnames : (authors.nestedNames payload.entries).map Value.text =
      [.text "books", .text "profile"] := by decide +kernel
  have hidle : se.Idle := ⟨rfl, fun _ _ => rfl⟩
  obtain ⟨hadds, hview⟩ := stored_reads_back Library.regular (by decide) haccepts hidle hintact
    (by decide) hstored
  dsimp only at hview
  rw [hnames] at hview
  exact ⟨hstored, hadds, hview (Library.visit st') (Library.isFresh_visit st') rfl⟩

end Records
