import Records.Library.Models
import Records.Proofs.Filter.Selection
import Records.Proofs.Record.Chain
import Records.Proofs.Value.Written

/-!
The conditions of a compiled filter are well scoped: they name mapped columns of the model whose
rows they are about, look through declared relations only, at live records, and carry values that a
comparison can use. No group is empty.
-/
namespace Records

/-- A model that soft-deletes has the column that marks trashed rows. -/
def Schema.Marked (s : Schema) : Prop :=
  ∀ m ∈ s.models, m.softDeletes → deletedAt ∈ m.columns

theorem Library.marked : Library.schema.Marked := by
  unfold Schema.Marked
  decide

namespace Filter

/-- What a comparison with a column may carry: something present, and no text where the column
holds moments, dates or booleans. -/
structure Comparand (c : Column) (v : Value) : Prop where
  present : v.isPresent
  read : c.kind = .moment ∨ c.kind = .date ∨ c.kind = .bool → ∀ s, v ≠ .text s

/-- A condition on the rows of a model. -/
inductive Scoped (s : Schema) : Model → Predicate → Prop
  | compare {m c op v} (mapped : c ∈ m.columns) (carried : Comparand c v) :
      Scoped s m (.compare ⟨m.table, c⟩ op v)
  | like {m c pattern} (mapped : c ∈ m.columns) (narrows : pattern ≠ "%%") :
      Scoped s m (.like ⟨m.table, c⟩ pattern)
  | between {m c low high} (mapped : c ∈ m.columns)
      (timestamp : c.name = "created_at" ∨ c.name = "updated_at" ∨ c.name = "deleted_at")
      (low_carried : Comparand c low) (high_carried : Comparand c high) :
      Scoped s m (.between ⟨m.table, c⟩ low high)
  | among {m c vs} (mapped : c ∈ m.columns) : Scoped s m (.among ⟨m.table, c⟩ vs)
  | isNull {m c} (mapped : c ∈ m.columns) : Scoped s m (.isNull ⟨m.table, c⟩)
  | all {m ps} (nonempty : ps ≠ []) (members : ∀ p ∈ ps, Scoped s m p) : Scoped s m (.all ps)
  | any {m ps} (nonempty : ps ≠ []) (members : ∀ p ∈ ps, Scoped s m p) : Scoped s m (.any ps)
  | related {m h p} (declared : s.handle? m h.relation.name = some h)
      (inner : Scoped s h.target p)
      (live : h.target.softDeletes → .isNull ⟨h.target.table, deletedAt⟩ ∈ p.conjuncts) :
      Scoped s m (.related h p)

section Groups
variable {s : Schema} {m : Model} {ps : List Predicate}

theorem Scoped.group_all (hne : ps ≠ []) (h : ∀ p ∈ ps, Scoped s m p) :
    Scoped s m (Predicate.group .all ps) := by
  unfold Predicate.group
  split
  · exact h _ (List.mem_singleton_self _)
  · exact .all hne h

theorem Scoped.group_any (hne : ps ≠ []) (h : ∀ p ∈ ps, Scoped s m p) :
    Scoped s m (Predicate.group .any ps) := by
  unfold Predicate.group
  split
  · exact h _ (List.mem_singleton_self _)
  · exact .any hne h

theorem scoped_alternatives (h : ∀ p ∈ ps, Scoped s m p) :
    ∀ p ∈ alternatives ps, Scoped s m p := by
  cases ps with
  | nil => exact h
  | cons q qs => exact List.forall_mem_singleton.2 (.group_any (List.cons_ne_nil q qs) h)

theorem scoped_conjunction (h : ∀ p ∈ ps, Scoped s m p) :
    ∀ p ∈ Predicate.conjunction? ps, Scoped s m p := by
  cases ps with
  | nil => exact nofun
  | cons q qs =>
    intro p hp
    cases hp
    exact .group_all (List.cons_ne_nil q qs) h

/-- A conjunction of several has them all as its conjuncts. -/
theorem mem_conjuncts_group {p : Predicate} (hp : p ∈ ps) (hleaf : p.conjuncts = [p]) :
    p ∈ (Predicate.group .all ps).conjuncts := by
  unfold Predicate.group
  split
  · rw [← List.mem_singleton.1 hp, hleaf]
    exact List.mem_singleton_self p
  · exact hp

theorem scoped_related (hs : s.Marked) {h : Handle} {name : String}
    (hh : s.resolve? m name = some h) (hps : ∀ p ∈ ps, Scoped s h.target p) :
    ∀ p ∈ relatedPredicate h ps, Scoped s m p := by
  have hdeclared : s.handle? m h.relation.name = some h := by
    obtain ⟨declared, hd⟩ := Schema.exists_handle?_of_resolve? hh
    rw [Schema.relation_name_of_handle? hd, hd]
  cases ps with
  | nil => exact nofun
  | cons q qs =>
    refine List.forall_mem_singleton.2 (.related hdeclared (.group_all ?_ ?_) fun hsoft => ?_)
    · exact fun h => nomatch h
    · refine List.forall_mem_append.2 ⟨hps, ?_⟩
      split
      · rename_i hsoft
        exact List.forall_mem_singleton.2
          (.isNull (hs _ (Schema.target_mem_of_resolve? hh) hsoft))
      · exact nofun
    · rw [if_pos hsoft]
      exact mem_conjuncts_group (by simp) rfl

end Groups

/-- Whatever conditions there are have a property. -/
def Yields (P : Predicate → Prop) (x : Except CompileError (List Predicate)) : Prop :=
  ∀ ps, x = .ok ps → ∀ p ∈ ps, P p

section Yields
variable {P Q : Predicate → Prop}

theorem yields_ok {ps : List Predicate} (h : ∀ p ∈ ps, P p) : Yields P (.ok ps) := by
  intro qs hqs
  cases hqs
  exact h

theorem yields_nil : Yields P (.ok []) := yields_ok nofun

theorem yields_error {e : CompileError} : Yields P (.error e) := nofun

theorem Yields.map {f : List Predicate → List Predicate}
    (hf : ∀ ps, (∀ p ∈ ps, P p) → ∀ p ∈ f ps, Q p) {x : Except CompileError (List Predicate)}
    (hx : Yields P x) : Yields Q (x.map f) := by
  intro ps hps
  obtain ⟨qs, hqs, rfl⟩ := map_ok.1 hps
  exact hf qs (hx qs hqs)

theorem yields_collect {α : Type} {f : α → Except CompileError (List Predicate)} {xs : List α}
    (h : ∀ x ∈ xs, Yields P (f x)) : Yields P (collect f xs) := by
  induction xs with
  | nil => exact yields_nil
  | cons x xs ih =>
    intro ps hps
    obtain ⟨here, later, hhere, hlater, rfl⟩ := collect_cons_ok.1 hps
    refine List.forall_mem_append.2 ⟨h x (List.mem_cons_self ..) here hhere, ?_⟩
    exact ih (fun y hy => h y (List.mem_cons_of_mem x hy)) later hlater

end Yields

section Leaves
variable {s : Schema} {m : Model} {field : String} {v : Value}

theorem mem_columns_of_column? {c : Column} (h : m.column? field = some c) : c ∈ m.columns :=
  List.mem_of_find?_eq_some h

theorem name_of_column? {c : Column} (h : m.column? field = some c) : c.name = field := by
  simpa using List.find?_some h

/-- What is read from a present value can be compared with the column. -/
theorem comparand_coerce {c : Column} {w : Value} (hv : v.isPresent)
    (hw : coerceValue? c.kind v = some w) : Comparand c w := by
  cases v with
  | text t =>
    simp only [coerceValue?] at hw
    unfold coerceText? at hw
    split at hw
    · obtain ⟨x, -, rfl⟩ := Option.map_eq_some_iff.1 hw
      exact ⟨rfl, fun _ _ => by simp⟩
    · obtain ⟨x, -, rfl⟩ := Option.map_eq_some_iff.1 hw
      exact ⟨rfl, fun _ _ => by simp⟩
    · obtain ⟨x, -, rfl⟩ := Option.map_eq_some_iff.1 hw
      exact ⟨rfl, fun _ _ => by simp⟩
    · rename_i hmoment hdate hbool
      obtain rfl := Option.some.inj hw
      refine ⟨hv, ?_⟩
      rintro (h | h | h)
      · exact (hmoment h).elim
      · exact (hdate h).elim
      · exact (hbool h).elim
  | _ =>
    obtain rfl := Option.some.inj hw
    exact ⟨hv, fun _ _ => by simp⟩

theorem scoped_membership {vs : List Value} :
    Yields (Scoped s m) (membership m (.text field) vs).outcome := by
  rw [membership, Reported.outcome_bind, outcome_fieldColumn]
  cases hc : m.column? field with
  | none => exact yields_nil
  | some c =>
    change Yields _ (membershipPredicate ⟨m.table, c⟩ vs).outcome
    unfold membershipPredicate
    split
    · exact yields_error
    · exact yields_ok (List.forall_mem_singleton.2 (.among (mem_columns_of_column? hc)))

theorem scoped_anyOf {vs : List Value} :
    Yields (Scoped s m) (anyOf m (.text field) vs).outcome := by
  unfold anyOf
  split
  · exact yields_nil
  · exact scoped_membership

theorem scoped_listed {vs : List Value} :
    Yields (Scoped s m)
      (if Operator.ofKey? field = none then (anyOf m (.text field) vs).outcome else .ok []) := by
  split
  · exact scoped_anyOf
  · exact yields_nil

theorem scoped_comparison {op : Comparison} :
    Yields (Scoped s m) (comparison op m (.text field) v).outcome := by
  unfold comparison
  split
  · exact yields_nil
  · rename_i hv
    have hv : v.isPresent = true := by simpa using hv
    rw [Reported.outcome_bind, outcome_fieldColumn]
    cases hc : m.column? field with
    | none => exact yields_nil
    | some c =>
      simp only [Except.bind, Reported.outcome_bind, outcome_coerce]
      cases hw : coerceValue? c.kind v with
      | none => exact yields_nil
      | some w =>
        dsimp only
        split
        · exact yields_error
        · refine yields_ok (List.forall_mem_singleton.2 ?_)
          exact .compare (mem_columns_of_column? hc) (comparand_coerce hv hw)

theorem scoped_containing : Yields (Scoped s m) (containing m (.text field) v).outcome := by
  unfold containing
  split
  · exact yields_nil
  · rename_i hv
    have hv : v.isPresent = true := by simpa using hv
    rw [Reported.outcome_bind, outcome_fieldColumn]
    cases hc : m.column? field with
    | none => exact yields_nil
    | some c =>
      refine yields_ok (List.forall_mem_singleton.2 (.like (mem_columns_of_column? hc) ?_))
      intro hbare
      refine Value.display_ne_empty hv (String.toList_eq_nil_iff.1 ?_)
      have := congrArg String.toList hbare
      simpa [String.toList_append] using this

theorem scoped_range : Yields (Scoped s m) (range m (.text field) v).outcome := by
  unfold range
  split
  · exact yields_nil
  · cases hb : bounds? (.text field) v with
    | none => exact yields_nil
    | some b =>
      obtain ⟨low, high⟩ := b
      dsimp only
      split
      · exact yields_nil
      · rename_i hpresent
        obtain ⟨hlow, hhigh⟩ : low.isPresent = true ∧ high.isPresent = true := by
          simpa using hpresent
        have hfield : field ∈ timestampFields := by
          unfold bounds? at hb
          split at hb
          · rename_i h _
            simpa [isTimestampField] using h
          · cases hb
        rw [Reported.outcome_bind, outcome_fieldColumn]
        cases hc : m.column? field with
        | none => exact yields_nil
        | some c =>
          simp only [Except.bind, Reported.outcome_bind, outcome_coerce]
          cases hw : coerceValue? c.kind low with
          | none => exact yields_nil
          | some w =>
            cases hw' : coerceValue? c.kind high with
            | none => exact yields_nil
            | some w' =>
              refine yields_ok (List.forall_mem_singleton.2 ?_)
              refine .between (mem_columns_of_column? hc) ?_ (comparand_coerce hlow hw)
                (comparand_coerce hhigh hw')
              rw [name_of_column? hc]
              simpa [timestampFields] using hfield

theorem scoped_leaf {op : Operator} : Yields (Scoped s m) (leaf m op (.text field) v).outcome := by
  cases op with
  | equal => exact scoped_comparison
  | notEqual => exact scoped_comparison
  | less => exact scoped_comparison
  | greater => exact scoped_comparison
  | like => exact scoped_containing
  | range => exact scoped_range
  | within =>
    change Yields _ (within m (.text field) v).outcome
    unfold within
    split
    · exact scoped_membership
    · exact yields_nil
  | or => exact yields_nil
  | relation => exact yields_nil

end Leaves

-- The model in scope changes only where a relation is resolved, to the target it is resolved to.
mutual

theorem scoped_entry {s : Schema} (hs : s.Marked) (m : Model) (key : String) (v : Value) :
    Yields (Scoped s m) (entryConditions s m key v) := by
  match v with
  | .object es =>
    cases hk : Operator.ofKey? key with
    | none =>
      rw [entryConditions_none_object s m hk]
      exact scoped_anyOf
    | some op =>
      by_cases ho : op = .or
      · subst ho
        rw [entryConditions_or s m hk]
        refine Yields.map (fun _ => scoped_alternatives) (yields_collect fun a ha => ?_)
        exact scoped_alternative hs m a
      · rw [entryConditions_object s m hk ho]
        exact yields_collect fun e he => scoped_applied hs m op e.1 e.2
  | .list vs =>
    rw [entryConditions_list s m rfl]
    exact scoped_listed
  | .tuple vs =>
    rw [entryConditions_list s m rfl]
    exact scoped_listed
  | .null | .bool _ | .int _ | .float _ | .text _ | .bytes _ | .date _ | .moment _ =>
    rw [entryConditions_plain s m key rfl rfl]
    exact scoped_containing
termination_by (sizeOf v, 0)
decreasing_by
  · have := sizeOf_value_lt_of_mem_groupAlternatives ha
    exact .left _ _ (by simp only [Value.object.sizeOf_spec]; omega)
  · have := sizeOf_snd_lt_of_mem he
    exact .left _ _ (by simp only [Value.object.sizeOf_spec]; omega)

theorem scoped_applied {s : Schema} (hs : s.Marked) (m : Model) (op : Operator) (field : String)
    (v : Value) : Yields (Scoped s m) (appliedConditions s m op field v) := by
  by_cases ho : op = .or
  · subst ho
    rw [appliedConditions_or]
    refine Yields.map (fun _ => scoped_alternatives) (yields_collect fun a ha => ?_)
    exact scoped_alternative hs m a
  by_cases hr : op = .relation
  · subst hr
    match v with
    | .object es =>
      rw [appliedConditions_relation]
      cases hh : s.resolve? m field with
      | none => exact yields_nil
      | some h =>
        refine yields_collect fun e he => ?_
        split
        · exact Yields.map (fun _ => scoped_related hs hh) (scoped_entry hs h.target e.1 e.2)
        · exact yields_nil
    | .list _ | .tuple _ | .null | .bool _ | .int _ | .float _ | .text _ | .bytes _ | .date _
    | .moment _ =>
      rw [appliedConditions_relation_nil s m field rfl]
      exact yields_nil
  · rw [appliedConditions_plain s m field v ho hr]
    exact scoped_leaf
termination_by (sizeOf v, 0)
decreasing_by
  · exact .left _ _ (sizeOf_value_lt_of_mem_alternativesUnder ha)
  · have := sizeOf_snd_lt_of_mem he
    exact .left _ _ (by simp only [Value.object.sizeOf_spec]; omega)

theorem scoped_alternative {s : Schema} (hs : s.Marked) (m : Model) (a : Alternative) :
    Yields (Scoped s m) (alternativeConditions s m a) := by
  have hoption {ps : List Predicate} (hps : ∀ p ∈ ps, Scoped s m p) :
      ∀ p ∈ (Predicate.conjunction? ps).toList, Scoped s m p :=
    fun p hp => scoped_conjunction hps p (Option.mem_toList.1 hp)
  match a with
  | .applied op field v =>
    rw [alternativeConditions_applied]
    exact Yields.map (fun _ => hoption) (scoped_applied hs m op field v)
  | .listed field v =>
    rw [alternativeConditions_listed]
    exact Yields.map (fun _ => hoption) scoped_anyOf
termination_by (sizeOf a.value, 1)

end

section Flat
variable {s : Schema} {m : Model}

theorem flats_eq_map (ps : List Predicate) : Predicate.flats ps = ps.map Predicate.flat := by
  induction ps with
  | nil => rfl
  | cons p ps ih => simp only [Predicate.flats, List.map_cons, ih]

theorem Scoped.conjuncts {p : Predicate} (h : Scoped s m p) :
    p.conjuncts ≠ [] ∧ ∀ q ∈ p.conjuncts, Scoped s m q := by
  cases h with
  | all nonempty members => exact ⟨nonempty, members⟩
  | _ => exact ⟨List.cons_ne_nil _ _, List.forall_mem_singleton.2 (by constructor <;> assumption)⟩

theorem Scoped.disjuncts {p : Predicate} (h : Scoped s m p) :
    p.disjuncts ≠ [] ∧ ∀ q ∈ p.disjuncts, Scoped s m q := by
  cases h with
  | any nonempty members => exact ⟨nonempty, members⟩
  | _ => exact ⟨List.cons_ne_nil _ _, List.forall_mem_singleton.2 (by constructor <;> assumption)⟩

/-- The members of joined groups, none of them empty. -/
theorem scoped_flatMap {parts : Predicate → List Predicate} {ps : List Predicate} (hne : ps ≠ [])
    (h : ∀ p ∈ ps, parts p.flat ≠ [] ∧ ∀ q ∈ parts p.flat, Scoped s m q) :
    (Predicate.flats ps).flatMap parts ≠ [] ∧
      ∀ q ∈ (Predicate.flats ps).flatMap parts, Scoped s m q := by
  rw [flats_eq_map]
  constructor
  · obtain ⟨p, hp⟩ := List.exists_mem_of_ne_nil ps hne
    obtain ⟨q, hq⟩ := List.exists_mem_of_ne_nil _ (h p hp).1
    exact List.ne_nil_of_mem (List.mem_flatMap.2 ⟨_, List.mem_map_of_mem hp, hq⟩)
  · intro q hq
    obtain ⟨_, hmap, hq⟩ := List.mem_flatMap.1 hq
    obtain ⟨p, hp, rfl⟩ := List.mem_map.1 hmap
    exact (h p hp).2 q hq

/-- A conjunct that is no group is one still when nested groups are joined. -/
theorem mem_conjuncts_flat {f : Field} {p : Predicate} (h : .isNull f ∈ p.conjuncts) :
    .isNull f ∈ p.flat.conjuncts := by
  cases p with
  | all ps =>
    rw [Predicate.flat, flats_eq_map]
    refine mem_conjuncts_group (List.mem_flatMap.2 ⟨_, List.mem_map_of_mem h, ?_⟩) rfl
    exact List.mem_singleton_self _
  | isNull g =>
    rw [Predicate.flat]
    · exact h
    all_goals exact nofun
  | _ => simp [Predicate.conjuncts] at h

/-- Joining nested groups keeps conditions well scoped. -/
theorem Scoped.flat {p : Predicate} (h : Scoped s m p) : Scoped s m p.flat := by
  induction h with
  | all nonempty _ ih =>
    obtain ⟨hne, hall⟩ := scoped_flatMap nonempty fun p hp => (ih p hp).conjuncts
    rw [Predicate.flat]
    exact .group_all hne hall
  | any nonempty _ ih =>
    obtain ⟨hne, hall⟩ := scoped_flatMap nonempty fun p hp => (ih p hp).disjuncts
    rw [Predicate.flat]
    exact .group_any hne hall
  | related declared _ live ih =>
    rw [Predicate.flat]
    exact .related declared ih fun hsoft => mem_conjuncts_flat (live hsoft)
  | compare mapped carried => exact .compare mapped carried
  | like mapped narrows => exact .like mapped narrows
  | between mapped timestamp low high => exact .between mapped timestamp low high
  | among mapped => exact .among mapped
  | isNull mapped => exact .isNull mapped

end Flat

/-- Whatever is asked for, the conditions of a filter are well scoped: each of them, their
conjunction, and the conjunction with its nested groups joined. -/
theorem scoped_compileAll {s : Schema} (hs : s.Marked) {m : Model} {es : List (String × Value)}
    {ps : List Predicate} (h : (compileAll s m es).outcome = .ok ps) :
    (∀ p ∈ ps, Scoped s m p) ∧
      ∀ p ∈ Predicate.conjunction? ps, Scoped s m p ∧ Scoped s m p.flat := by
  rw [outcome_compileAll] at h
  have hps := yields_collect (fun e _ => scoped_entry hs m e.1 e.2) ps h
  exact ⟨hps, fun p hp => ⟨scoped_conjunction hps p hp, (scoped_conjunction hps p hp).flat⟩⟩

/-- Active authors created in a span of days, or with a book whose title holds a text; an empty name
and an unknown column are asked for beside. -/
def activeSinceOrWrote (title : String) : List (String × Value) :=
  [("equal", .object [("active", .text "yes"), ("name", .text ""), ("nope", .int 1)]),
    ("or", .object [
      ("created_at", .object [("range", .list [.text "2024-01-01", .text "2024-06-30"])]),
      ("relation", .object [("books", .object [("like", .object [("title", .text title)])])])])]

/-- The text for a boolean is read, the absent and the unknown are left out, the books are live. -/
theorem scoped_compileAll_active : ∃ (ps : List Predicate) (v low high : Value) (books : Handle),
    (compileAll Library.schema Library.author (activeSinceOrWrote "Solaris")).outcome = .ok ps ∧
    ps = [.compare ⟨"author", Library.activeColumn⟩ .eq v,
      .any [.between ⟨"author", createdAt⟩ low high,
        .related books (.all [.like ⟨"book", Library.textColumn "title" true⟩ "%Solaris%",
          .isNull ⟨"book", deletedAt⟩])]] ∧
    v = .bool true ∧ (∀ p ∈ ps, Scoped Library.schema Library.author p) ∧
    ∀ p ∈ Predicate.conjunction? ps,
      Scoped Library.schema Library.author p ∧ Scoped Library.schema Library.author p.flat :=
  ⟨_, _, _, _, _, rfl, rfl, rfl,
    @scoped_compileAll _ Library.marked Library.author (activeSinceOrWrote "Solaris") _ rfl⟩

end Filter

end Records
