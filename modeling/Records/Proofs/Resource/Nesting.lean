import Records.Proofs.Resource.Saved
import Records.Proofs.Staging.FamilyRows

/-!
What a new record is stored with. Under each of its relations these are the mappings that the
payload gives for it, by whatever names; of a singular relation, the last of them.
-/
namespace Records

open Records.Action

section Last
variable {α β κ : Type}

theorem getLast?_flatMap_last (f : α → List β) (xs : List α) :
    (xs.flatMap fun x => (f x).getLast?.toList).getLast? = (xs.flatMap f).getLast? := by
  induction xs with
  | nil => rfl
  | cons x xs ih =>
    rw [List.flatMap_cons, List.flatMap_cons, List.getLast?_append, List.getLast?_append, ih]
    cases (f x).getLast? <;> rfl

/-- The last item is the only one with its key. -/
theorem filter_last [DecidableEq κ] {key : α → κ} {xs : List α} (hd : (xs.map key).Nodup) :
    xs.filter (fun x => xs.getLast?.map key = some (key x)) = xs.getLast?.toList := by
  rcases xs.eq_nil_or_concat with rfl | ⟨front, last, rfl⟩
  · rfl
  · rw [List.concat_eq_append] at hd ⊢
    rw [List.map_append, List.nodup_append] at hd
    have hfront : front.filter (fun x => some (key last) = some (key x)) = [] := by
      refine List.filter_eq_nil_iff.2 fun x hx hsame => ?_
      have hkey : key last = key x := by simpa using hsame
      exact hd.2.2 _ (List.mem_map_of_mem hx) _ (List.mem_singleton_self _) hkey.symm
    rw [List.getLast?_concat, List.filter_append]
    simp only [Option.map_some, hfront, List.nil_append, List.filter_cons, List.filter_nil]
    simp

end Last

namespace Resource
variable {r : Resource} {h : Handle} {es : List (String × Value)}

/-- The mappings that an entry of a payload gives for a relation. -/
def mappingsOf (r : Resource) (h : Handle) (e : String × Value) : List (List (String × Value)) :=
  if r.model.hasColumn e.1 = false ∧ r.schema.resolve? r.model e.1 = some h then
    e.2.nestedRecords?.getD []
  else []

/-- The mappings that a payload gives for a relation, in their order. -/
def mappings (r : Resource) (es : List (String × Value)) (h : Handle) :
    List (List (String × Value)) :=
  es.flatMap (r.mappingsOf h)

/-- The mappings that a relation of a new record is stored with. -/
def placed (r : Resource) (es : List (String × Value)) (h : Handle) : List (List (String × Value)) :=
  if h.relation.link.isMany then r.mappings es h else (r.mappings es h).getLast?.toList

theorem nestedItems_under : ((r.nestedItems es).filter (·.1 = h)).map (·.2) =
    es.flatMap fun e => if h.relation.link.isMany then r.mappingsOf h e
      else (r.mappingsOf h e).getLast?.toList := by
  induction es with
  | nil => rfl
  | cons e es ih =>
    obtain ⟨key, v⟩ := e
    rw [List.flatMap_cons, ← ih]
    cases hkey : r.model.hasColumn key with
    | true => simp [nestedItems, mappingsOf, hkey]
    | false =>
      cases hrecords : v.nestedRecords? with
      | none => simp [nestedItems, mappingsOf, hkey, hrecords]
      | some records =>
        cases hrelation : r.schema.resolve? r.model key with
        | none => simp [nestedItems, mappingsOf, hkey, hrecords, hrelation]
        | some h' =>
          simp only [nestedItems, mappingsOf, hkey, hrecords, hrelation]
          rw [List.filter_append, List.map_append]
          refine congrArg (· ++ _) ?_
          by_cases hsame : h' = h
          · subst hsame
            simp [List.filter_map, Function.comp_def]
          · simp [hsame, List.filter_map, Function.comp_def]

/-- The new records that a payload is to be stored as. -/
def family (r : Resource) (es : List (String × Value)) : Family :=
  (r.nestedItems es).foldl (fun f i => f.add i.1 (i.1.target.columnValues i.2))
    ⟨⟨r.model, r.model.columnValues es⟩, [], rfl⟩

theorem members_addAll (items : List (Handle × List (String × Value))) (f : Family) :
    let g := items.foldl (fun f i => f.add i.1 (i.1.target.columnValues i.2)) f
    g.holder = f.holder ∧ g.members.map (fun d => (d.handle, d.values)) =
      f.members.map (fun d => (d.handle, d.values)) ++
        items.map fun i => (i.1, i.1.target.columnValues i.2) := by
  induction items generalizing f with
  | nil => exact ⟨rfl, (List.append_nil _).symm⟩
  | cons i items ih =>
    obtain ⟨hholder, hmembers⟩ := ih (f.add i.1 (i.1.target.columnValues i.2))
    refine ⟨hholder, hmembers.trans ?_⟩
    unfold Family.add
    dsimp only
    rw [List.map_append, List.append_assoc]
    rfl

theorem holder_family (r : Resource) (es : List (String × Value)) :
    (r.family es).holder = ⟨r.model, r.model.columnValues es⟩ := (members_addAll ..).1

theorem members_family (r : Resource) (es : List (String × Value)) :
    (r.family es).members.map (fun d => (d.handle, d.values)) =
      (r.nestedItems es).map fun i => (i.1, i.1.target.columnValues i.2) := (members_addAll ..).2

/-- A member comes from a mapping that the payload gives for its relation. -/
theorem exists_mapping {d : Member} (hd : d ∈ (r.family es).members) :
    (∃ name, r.schema.resolve? r.model name = some d.handle) ∧
      ∃ m ∈ r.mappings es d.handle, d.values = d.handle.target.columnValues m := by
  have hin : (d.handle, d.values) ∈ (r.nestedItems es).map fun i =>
      (i.1, i.1.target.columnValues i.2) :=
    r.members_family es ▸ List.mem_map_of_mem hd
  obtain ⟨i, hi, hsame⟩ := List.mem_map.1 hin
  obtain ⟨hhandle, hvalues⟩ := Prod.mk.inj hsame
  have hentries : ∀ e ∈ es, e ∈ (Value.object es).entries := fun _ he => he
  obtain ⟨key, v, records, hentry, hkey, hrelation, hrecords, hrecord⟩ :=
    nests_of_mem_nestedItems hentries hi
  rw [← hvalues, ← hhandle]
  refine ⟨⟨key, hrelation⟩, i.2, List.mem_flatMap.2 ⟨(key, v), hentry, ?_⟩, rfl⟩
  unfold mappingsOf
  rw [if_pos ⟨hkey, hrelation⟩, hrecords]
  exact hrecord

theorem members_under (r : Resource) (es : List (String × Value)) (h : Handle) :
    ((r.family es).members.filter (·.handle = h)).map (·.values) =
    (es.flatMap fun e => if h.relation.link.isMany then r.mappingsOf h e
      else (r.mappingsOf h e).getLast?.toList).map h.target.columnValues := by
  have hpairs : ((r.family es).members.filter (·.handle = h)).map (·.values) =
      (((r.family es).members.map fun d => (d.handle, d.values)).filter (·.1 = h)).map (·.2) := by
    rw [List.filter_map, List.map_map]
    rfl
  rw [hpairs, members_family, List.filter_map, List.map_map, ← nestedItems_under, List.map_map]
  refine List.map_congr_left fun i hi => ?_
  have hhandle : i.1 = h := of_decide_eq_true (List.mem_filter.1 hi).2
  exact congrArg (fun k : Handle => k.target.columnValues i.2) hhandle

section Declared
variable (hm : r.model ∈ r.schema.models)
include hm

theorem declares_member {d : Member} (hd : d ∈ (r.family es).members) :
    r.schema.Declares d.handle ∧ d.handle.parent = r.model := by
  obtain ⟨⟨name, hname⟩, -⟩ := exists_mapping hd
  exact Schema.declares_of_resolve? hm hname

theorem isSuperseded_iff (hd : r.schema.Declares h) (hparent : h.parent = r.model) {d : Member}
    (hin : d ∈ (r.family es).members.filter (·.handle = h))
    (hone : h.relation.link.isMany = false) :
    (r.family es).staging.isSuperseded d.attachment = false ↔
      ((r.family es).members.filter (·.handle = h)).getLast?.map (·.number) = some d.number := by
  have hhandle : d.handle = h := of_decide_eq_true (List.mem_filter.1 hin).2
  have hlast : (r.family es).staging.lastMember? h.relation.name (.draft 0) =
      (((r.family es).members.filter (·.handle = h)).getLast?.map (·.number)).map .draft := by
    unfold Staging.lastMember? Family.staging
    dsimp only
    rw [List.filter_map, List.getLast?_map, Option.map_map, Option.map_map]
    refine congrArg (fun ds : List Member => ds.getLast?.map _) (List.filter_congr fun d hd' => ?_)
    obtain ⟨hd', hparent'⟩ := declares_member hm hd'
    -- Among the relations of a model, each has a name of its own.
    refine decide_eq_decide.2 ⟨fun hname => ?_, fun hsame => ⟨congrArg (·.relation.name) hsame, rfl⟩⟩
    exact hd.eq_of_names hd' (by rw [hparent', hparent]) hname.1
  unfold Staging.isSuperseded
  dsimp only [Member.attachment]
  rw [hhandle, hone, hlast]
  cases ((r.family es).members.filter (·.handle = h)).getLast? <;> simp

/-- The members that keep their places are what the payload gives for their relations. -/
theorem kept_under (hd : r.schema.Declares h) (hparent : h.parent = r.model) :
    ((r.family es).kept.filter (·.handle = h)).map (·.values) =
      (r.placed es h).map h.target.columnValues := by
  have hcomm : (r.family es).kept.filter (·.handle = h) =
      ((r.family es).members.filter (·.handle = h)).filter fun d =>
        !(r.family es).staging.isSuperseded d.attachment := by
    unfold Family.kept
    rw [List.filter_filter, List.filter_filter]
    exact List.filter_congr fun d _ => Bool.and_comm ..
  unfold placed mappings
  rw [hcomm]
  cases hmany : h.relation.link.isMany with
  | true =>
    have hall : ((r.family es).members.filter (·.handle = h)).filter (fun d =>
        !(r.family es).staging.isSuperseded d.attachment) =
          (r.family es).members.filter (·.handle = h) := by
      refine List.filter_eq_self.2 fun d hd => ?_
      have hhandle : d.handle = h := of_decide_eq_true (List.mem_filter.1 hd).2
      unfold Staging.isSuperseded
      dsimp only [Member.attachment]
      rw [hhandle, hmany]
      rfl
    rw [hall, members_under, hmany]
    rfl
  | false =>
    have hlast : ((r.family es).members.filter (·.handle = h)).filter (fun d =>
        !(r.family es).staging.isSuperseded d.attachment) =
          ((r.family es).members.filter (·.handle = h)).getLast?.toList := by
      rw [← filter_last ((r.family es).nodup_numbers.sublist (List.filter_sublist.map _))]
      refine List.filter_congr fun d hin => Bool.eq_iff_iff.2 ?_
      rw [Bool.not_eq_true', isSuperseded_iff hm hd hparent hin hmany, decide_eq_true_iff]
    have hvalues := congrArg List.getLast? (members_under r es h)
    simp only [hmany, Bool.false_eq_true, if_false, List.getLast?_map, getLast?_flatMap_last]
      at hvalues
    rw [hlast, ← Option.toList_map, hvalues, Option.toList_map]
    rfl

end Declared

end Resource

/-- A loop whose steps do what a function does ends where that function ends. -/
theorem Action.Leaves.foldl {γ G : Type} {I : G → Session → Prop} {f : γ → Action PUnit}
    {step : G → γ → G} {E : Failure → Session → Prop}
    (hstep : ∀ g x, Leaves (I g) (f x) (fun _ => I (step g x)) E) (xs : List γ) (g : G) :
    Leaves (I g) (xs.forM f) (fun _ => I (xs.foldl step g)) E := by
  induction xs generalizing g with
  | nil => exact .pure fun _ hI => hI
  | cons x xs ih => exact (hstep g x).bind fun _ => ih (step g x)

/-- Nothing is staged, and nothing is known of what is not stored. -/
structure Session.Idle (se : Session) : Prop where
  staged : se.staged = .empty
  unloaded : ∀ n name, se.records.related? (.draft n) name = none

/-- The session with new records staged. -/
def Session.drafting (se : Session) (f : Family) : Session := { se with staged := f.staging }

namespace Resource
variable {r : Resource} {se : Session}

theorem leaves_attachNew_add (se : Session) (f : Family) (h : Handle) (es : List (String × Value)) :
    Leaves (Eq (se.drafting f)) (attachNew (.draft 0) h es)
      (fun _ => Eq (se.drafting (f.add h (h.target.columnValues es)))) fun _ _ => True := by
  rintro _ rfl
  exact congrArg (fun g => { se with staged := g }) (f.staging_add ..).symm

/-- The record, and then each nested one under it: together these are the family of the payload. -/
theorem leaves_attachAll (se : Session) {es : List (String × Value)} {ns : List Nested}
    (hns : ns.flatMap (fun n => n.records.map fun es => (n.handle, es)) = r.nestedItems es) :
    Leaves (Eq (se.drafting ⟨⟨r.model, r.model.columnValues es⟩, [], rfl⟩))
      (ns.forM fun n => n.records.forM (attachNew (.draft 0) n.handle))
      (fun _ => Eq (se.drafting (r.family es))) fun _ _ => True := by
  have hall : ns.foldl (fun f n => n.records.foldl (fun f es =>
      f.add n.handle (n.handle.target.columnValues es)) f)
        ⟨⟨r.model, r.model.columnValues es⟩, [], rfl⟩ = r.family es := by
    unfold family
    rw [← hns, List.foldl_flatMap]
    simp only [List.foldl_map]
  rw [← hall]
  exact Leaves.foldl (fun (f : Family) (n : Nested) =>
    Leaves.foldl (fun f es => leaves_attachNew_add se f n.handle es) n.records f) ns _

/-- A store that goes through writes the new records of the payload. -/
theorem store_writes (hse : se.Idle) {payload : Value} {ref : Ref}
    (h : (r.store payload se).result = .ok (some ref)) :
    ∃ w, ((r.family payload.entries).staging.plan r.schema se.store se.records).write r.schema
        se.now se.store = .ok w ∧ (r.store payload se).session.store = w.store ∧
      ∃ row ∈ w.store.rows r.model, w.id? (.draft 0) = some row.id ∧
        ref = .stored r.model.name row.id := by
  suffices hleaves : Leaves (Eq se) (r.store payload) (fun saved se' => ∀ ref, saved = some ref →
      ∃ w, (Action.flush r.schema (se.drafting (r.family payload.entries))).result = .ok w ∧
        se'.store = w.store ∧ ∃ row ∈ w.store.rows r.model, w.id? (.draft 0) = some row.id ∧
          ref = .stored r.model.name row.id) fun _ _ => True by
    obtain ⟨w, hflush, hw⟩ := hleaves.ok rfl h ref rfl
    exact ⟨w, (result_flush_ok.1 hflush).2, hw⟩
  unfold store
  refine Leaves.bind (Q := fun es se' => se = se' ∧ es = payload.entries) (.ofExcept
    (fun _ hes _ hse => ⟨hse, Value.entries_of_toEntries hes⟩) fun _ _ _ _ => trivial) fun es => ?_
  refine Leaves.given ?_
  rintro rfl
  refine Leaves.bind (Q := fun holder se' => se.drafting ⟨⟨r.model,
    r.model.columnValues payload.entries⟩, [], rfl⟩ = se' ∧ holder = .draft 0) ?_ fun holder => ?_
  · rintro _ rfl
    obtain ⟨st, now, records, staged, inactive⟩ := se
    obtain rfl : staged = .empty := hse.staged
    exact ⟨rfl, rfl⟩
  refine Leaves.given ?_
  rintro rfl
  refine (leaves_nestedItems _).bind fun ns => .given fun hns => ?_
  refine (leaves_attachAll se hns).bind fun _ => ?_
  rintro _ rfl
  split
  · rename_i saved hsaved
    rintro ref rfl
    exact saveRecord_saved hsaved
  · trivial

end Resource

end Records
