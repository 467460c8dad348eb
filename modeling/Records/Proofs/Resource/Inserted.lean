import Records.Proofs.Resource.Nesting
import Records.Proofs.Store.Kept

/-!
The rows that a payload is stored as. They hold what the payload gives, and the keys between them
lead from one to the other; where nothing is given and no key leads, they hold nothing.
-/
namespace Records

open Records.Filter (relatedRows)

namespace Model
variable {m : Model} {es : List (String × Value)} {c : Column}

/-- A row holds the values that a model takes of a payload. -/
def Carries (m : Model) (es : List (String × Value)) (row : Row) : Prop :=
  ∀ c ∈ m.columns, ∀ v, Value.lookup? c.name es = some v → v.ReadsAs (row.value c)

/-- Each column is given a value of its kind, if any, and no record is given as a trashed one. -/
structure Admits (m : Model) (es : List (String × Value)) : Prop where
  kinds : ∀ c ∈ m.columns, ∀ v ∈ Value.lookup? c.name es, c.kind.admits v = true
  unmarked : Value.lookup? deletedAt.name es = none

instance : Decidable (m.Admits es) :=
  decidable_of_iff ((∀ c ∈ m.columns, ∀ v ∈ Value.lookup? c.name es, c.kind.admits v = true) ∧
    Value.lookup? deletedAt.name es = none) ⟨fun h => ⟨h.1, h.2⟩, fun h => ⟨h.1, h.2⟩⟩

theorem lookup?_columnValues (hc : c ∈ m.columns) :
    Value.lookup? c.name (m.columnValues es) = Value.lookup? c.name es := by
  have hcolumn : m.hasColumn c.name = true := by
    unfold hasColumn column?
    exact List.find?_isSome.2 ⟨c, hc, beq_self_eq_true _⟩
  unfold Value.lookup? columnValues
  rw [List.find?_filter]
  refine congrArg (fun p => (es.find? p).map _) (funext fun e => ?_)
  by_cases hname : e.1 = c.name
  · simp [hname, hcolumn]
  · simp [hname]

end Model

/-- A payload gives a collection under a name of a relation, be it empty. -/
def Resource.NestsUnder (r : Resource) (es : List (String × Value)) (h : Handle) : Prop :=
  ∃ e ∈ es, r.model.hasColumn e.1 = false ∧ r.schema.resolve? r.model e.1 = some h ∧
    e.2.nestedRecords?.isSome

instance (r : Resource) (es : List (String × Value)) (h : Handle) :
    Decidable (r.NestsUnder es h) := inferInstanceAs (Decidable (∃ e ∈ es, _))

/-- A payload of values that their columns take as they are. The keys between the records are not
given, nor is any key or id with a nested record. -/
structure Resource.Accepts (r : Resource) (es : List (String × Value)) : Prop where
  own : r.model.Admits es
  keys : ∀ h ∈ r.schema.handles r.model, r.NestsUnder es h → h.referrer = r.model →
    Value.lookup? h.relation.link.foreignKey es = none
  nested : ∀ h ∈ r.schema.handles r.model, ∀ m ∈ r.mappings es h, h.target.Admits m ∧
    ∀ c ∈ h.target.columns, c.name = idColumn.name ∨ c.references.isSome = true →
      Value.lookup? c.name m = none

instance (r : Resource) (es : List (String × Value)) : Decidable (r.Accepts es) :=
  decidable_of_iff (r.model.Admits es ∧
    (∀ h ∈ r.schema.handles r.model, r.NestsUnder es h → h.referrer = r.model →
      Value.lookup? h.relation.link.foreignKey es = none) ∧
    ∀ h ∈ r.schema.handles r.model, ∀ m ∈ r.mappings es h, h.target.Admits m ∧
      ∀ c ∈ h.target.columns, c.name = idColumn.name ∨ c.references.isSome = true →
        Value.lookup? c.name m = none)
    ⟨fun h => ⟨h.1, h.2.1, h.2.2⟩, fun h => ⟨h.own, h.keys, h.nested⟩⟩

namespace Resource
variable {r : Resource} {es : List (String × Value)} {now : Calendar.Moment} {row t : Row}
  {placed : List (Member × Row)} {e : Member × Row} {h : Handle} {c : Column}

theorem nestsUnder_of_mappings {m : List (String × Value)} (hm : m ∈ r.mappings es h) :
    r.NestsUnder es h := by
  obtain ⟨e, he, hm⟩ := List.mem_flatMap.1 hm
  unfold mappingsOf at hm
  split at hm
  · rename_i hnames
    refine ⟨e, he, hnames.1, hnames.2, ?_⟩
    cases hrecords : e.2.nestedRecords? with
    | some records => rfl
    | none =>
      rw [hrecords] at hm
      cases hm
  · cases hm

theorem mem_handles_of_member (hm : r.model ∈ r.schema.models) {d : Member}
    (hd : d ∈ (r.family es).members) : d.handle ∈ r.schema.handles r.model := by
  obtain ⟨hdeclared, hparent⟩ := declares_member hm hd
  exact hparent ▸ hdeclared.mem_handles

theorem fits_family (hs : r.schema.Regular) (hm : r.model ∈ r.schema.models) (hp : r.Accepts es) :
    (r.family es).Fits r.schema where
  holder_mem := by
    rw [holder_family]
    exact hm
  declared d hd := by
    rw [holder_family]
    exact declares_member hm hd
  holder_id v hv hne := by
    have hid := hs.id_mem _ hm
    rw [holder_family] at hv
    change Value.lookup? idColumn.name (r.model.columnValues es) = some v at hv
    rw [Model.lookup?_columnValues hid] at hv
    have hkind : Kind.admits .int v = true := hp.own.kinds idColumn hid v hv
    unfold Kind.admits at hkind
    split at hkind <;> first | exact ⟨_, rfl⟩ | contradiction
  member_id d hd := by
    have hid := hs.id_mem _ (declares_member hm hd).1.target_mem
    obtain ⟨-, m, hmapping, hvalues⟩ := exists_mapping hd
    rw [hvalues, Model.lookup?_columnValues hid]
    exact (hp.nested _ (mem_handles_of_member hm hd) m hmapping).2 idColumn hid (.inl rfl)

section Rows
variable (hw : (r.family es).WrittenAs now row placed)
include hw

theorem mem_members (he : e ∈ placed) : e.1 ∈ (r.family es).members := by
  have hin : e.1 ∈ (r.family es).kept := hw.kept ▸ List.mem_map_of_mem he
  exact (Family.mem_kept.1 hin).1

theorem nestsUnder_of_mem (he : e ∈ placed) : r.NestsUnder es e.1.handle := by
  obtain ⟨-, m, hmapping, -⟩ := exists_mapping (mem_members hw he)
  exact nestsUnder_of_mappings hmapping

/-- A column of the new record that is given nothing, and is no key to a member, holds nothing. -/
theorem holder_blank (hc : c ∈ r.model.columns) (hne : c.name ≠ idColumn.name)
    (hdefault : c.default = none) (hnone : Value.lookup? c.name es = none)
    (hfree : ∀ e ∈ placed, e.1.handle.relation.link ≠ .parent c.name) :
    row.cell c.name = .null := by
  have hkeeps := hw.holder c (by rwa [holder_family]) hne hfree
  rw [holder_family] at hkeeps
  change c.Keeps (c.initial now (Value.lookup? c.name (r.model.columnValues es))) _ at hkeeps
  rw [Model.lookup?_columnValues hc, hnone, Column.initial_none hdefault] at hkeeps
  exact hkeeps.of_null

/-- A column of a member that is given nothing, and is no key to the new record, holds nothing. -/
theorem member_blank (he : e ∈ placed) (hc : c ∈ e.1.handle.target.columns)
    (hne : c.name ≠ idColumn.name) (hdefault : c.default = none)
    (hnone : ∀ m ∈ r.mappings es e.1.handle, Value.lookup? c.name m = none)
    (hfree : c.name = e.1.handle.relation.link.foreignKey →
      ∃ fk, e.1.handle.relation.link = .parent fk) : e.2.cell c.name = .null := by
  obtain ⟨-, m, hmapping, hvalues⟩ := exists_mapping (mem_members hw he)
  have hkeeps := hw.member e he c hc hne hfree
  rw [hvalues, Model.lookup?_columnValues hc, hnone m hmapping, Column.initial_none hdefault]
    at hkeeps
  exact hkeeps.of_null

variable (hs : r.schema.Regular) (hm : r.model ∈ r.schema.models)
include hm

theorem declares_of_mem (he : e ∈ placed) :
    r.schema.Declares e.1.handle ∧ e.1.handle.parent = r.model :=
  declares_member hm (mem_members hw he)

variable (hp : r.Accepts es)
include hs hp

theorem holder_carries : r.model.Carries es row := by
  intro c hc v hv
  have hkind := hp.own.kinds c hc v hv
  have hstaged : Value.lookup? c.name (r.family es).holder.values = some v := by
    rw [holder_family, ← hv]
    exact Model.lookup?_columnValues hc
  by_cases hid : c.name = idColumn.name
  · obtain rfl := hs.id_only _ hm c hc hid
    obtain rfl := hw.holder_id v hstaged (Kind.ne_null_of_admits hkind)
    exact Kind.readsAs hkind rfl
  · have hkeeps := hw.holder c (by rwa [holder_family]) hid fun e he hlink => ?_
    · rw [hstaged, Column.initial_of_ne_null (Kind.ne_null_of_admits hkind)] at hkeeps
      exact hkeeps.readsAs hkind
    -- A key to a member is not given.
    · have hkey := hp.keys e.1.handle (mem_handles_of_member hm (mem_members hw he))
        (nestsUnder_of_mem hw he) (by
          rw [Handle.referrer_of_parent hlink]
          exact (declares_of_mem hw hm he).2)
      rw [hlink] at hkey
      rw [show Value.lookup? c.name es = none from hkey] at hv
      cases hv

theorem member_carries (he : e ∈ placed) {m : List (String × Value)}
    (hmapping : m ∈ r.mappings es e.1.handle)
    (hvalues : e.1.values = e.1.handle.target.columnValues m) :
    e.1.handle.target.Carries m e.2 := by
  have hdeclared := (declares_of_mem hw hm he).1
  obtain ⟨hadmits, hungiven⟩ :=
    hp.nested _ (mem_handles_of_member hm (mem_members hw he)) m hmapping
  intro c hc v hv
  have hkind := hadmits.kinds c hc v hv
  have hid : c.name ≠ idColumn.name := fun hid => by
    rw [hungiven c hc (.inl hid)] at hv
    cases hv
  have hkeeps := hw.member e he c hc hid fun hkey => ?_
  · rw [hvalues, Model.lookup?_columnValues hc, hv,
      Column.initial_of_ne_null (Kind.ne_null_of_admits hkind)] at hkeeps
    exact hkeeps.readsAs hkind
  · by_contra hup
    have hlink (fk : String) : e.1.handle.relation.link ≠ .parent fk := fun hl => hup ⟨fk, hl⟩
    have hrefers := hs.refers _ hdeclared.parent_mem _ hdeclared.mem_handles c (by
      rwa [Handle.referrer_of_child hlink]) hkey
    rw [hungiven c hc (.inr (by rw [hrefers.1]; rfl))] at hv
    cases hv

theorem holder_live : r.model.isLive row = true := by
  unfold Model.isLive
  cases hsoft : r.model.softDeletes with
  | false => rfl
  | true =>
    have hblank := holder_blank hw (hs.marks _ hm hsoft) (by decide) rfl hp.own.unmarked
      fun e he hlink => ?_
    · rw [hblank]
      rfl
    · obtain ⟨hdeclared, hparent⟩ := declares_of_mem hw hm he
      refine hs.key_ne_mark hdeclared ?_ (by rw [hlink]; rfl)
      rwa [Handle.referrer_of_parent hlink, hparent]

theorem member_live (he : e ∈ placed) : e.1.handle.target.isLive e.2 = true := by
  have hdeclared := (declares_of_mem hw hm he).1
  have hhandle := mem_handles_of_member hm (mem_members hw he)
  unfold Model.isLive
  cases hsoft : e.1.handle.target.softDeletes with
  | false => rfl
  | true =>
    have hblank := member_blank hw he (hs.marks _ hdeclared.target_mem hsoft) (by decide) rfl
      (fun m hmapping => (hp.nested _ hhandle m hmapping).1.unmarked) fun hkey => ?_
    · rw [hblank]
      rfl
    · by_contra hup
      refine hs.key_ne_mark hdeclared ?_ hkey.symm
      rwa [Handle.referrer_of_child fun fk hl => hup ⟨fk, hl⟩]

end Rows

end Resource

end Records
