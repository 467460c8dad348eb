import Records.Proofs.Filter.Alternative

/-!
What compiling a filter yields, with the log entries left out. Fields are texts here: a pair that is
keyed by its place in a list never names a column or a relation.
-/
namespace Records

/-- The lists that a function gives for some items, one after another. -/
def collect {ε α β : Type} (f : α → Except ε (List β)) : List α → Except ε (List β)
  | [] => .ok []
  | x :: xs => do return (← f x) ++ (← collect f xs)

section Collect
variable {ε α β γ : Type}

theorem collect_append (f : α → Except ε (List β)) (xs ys : List α) :
    collect f (xs ++ ys) = do return (← collect f xs) ++ (← collect f ys) := by
  induction xs with
  | nil => cases h : collect f ys <;> simp [collect, h, bind, Except.bind, pure, Except.pure]
  | cons x xs ih =>
    simp only [List.cons_append, collect, ih]
    cases f x <;> cases collect f xs <;> cases collect f ys <;>
      simp [bind, Except.bind, pure, Except.pure]

theorem collect_map (f : β → Except ε (List γ)) (g : α → β) (xs : List α) :
    collect f (xs.map g) = collect (fun x => f (g x)) xs := by
  induction xs with
  | nil => rfl
  | cons x xs ih => simp only [List.map_cons, collect, ih]

theorem collect_cons_ok {f : α → Except ε (List β)} {x : α} {xs : List α} {ys : List β} :
    collect f (x :: xs) = .ok ys ↔
      ∃ here later, f x = .ok here ∧ collect f xs = .ok later ∧ ys = here ++ later := by
  rw [collect]
  cases f x <;> cases collect f xs <;> simp [bind, Except.bind, pure, Except.pure, eq_comm]

theorem collect_singleton (f : α → Except ε (List β)) (x : α) :
    collect f [x] = f x := by
  rw [collect, collect]
  cases f x with
  | error e => rfl
  | ok ys => exact congrArg Except.ok (List.append_nil ys)

theorem collect_attach (f : α → Except ε (List β)) (xs : List α) :
    collect (fun x : { x // x ∈ xs } => f x.1) xs.attach = collect f xs := by
  rw [← collect_map f Subtype.val, List.attach_map_subtype_val]

theorem collect_congr {f g : α → Except ε (List β)} {xs : List α} (h : ∀ x ∈ xs, f x = g x) :
    collect f xs = collect g xs := by
  induction xs with
  | nil => rfl
  | cons x xs ih =>
    rw [collect, collect, h x (List.mem_cons_self ..),
      ih fun y hy => h y (List.mem_cons_of_mem _ hy)]

end Collect

section Outcome
variable {ε α β : Type}

theorem outcome_bind_pure (x : Reported ε α) (f : α → β) :
    (x >>= fun a => pure (f a)).outcome = x.outcome.map f := by
  rw [Reported.outcome_bind]
  cases x.outcome <;> rfl

theorem outcome_bind_append (x : Reported ε α) (f : α → List β) (y : Reported ε (List β)) :
    (x >>= fun a => y >>= fun bs => pure (f a ++ bs)).outcome =
      (do return (← x.outcome.map f) ++ (← y.outcome)) := by
  simp only [Reported.outcome_bind, Reported.outcome_pure]
  cases x.outcome <;> cases y.outcome <;> rfl

end Outcome

namespace Filter

mutual

def entryConditions (s : Schema) (m : Model) (key : String) (v : Value) :
    Except CompileError (List Predicate) :=
  match Operator.ofKey? key, v with
  | none, .object es => (anyOf m (.text key) (es.map (·.2))).outcome
  | none, .list vs => (anyOf m (.text key) vs).outcome
  | none, .tuple vs => (anyOf m (.text key) vs).outcome
  | some .or, .object es => do
    return alternatives (← collect (fun a => alternativeConditions s m a.1)
      (groupAlternatives es).attach)
  | some op, .object es => collect (fun e => appliedConditions s m op e.1.1 e.1.2) es.attach
  | some _, .list _ => .ok []
  | some _, .tuple _ => .ok []
  | _, v => (containing m (.text key) v).outcome
termination_by (sizeOf v, 0)
decreasing_by
  · have := sizeOf_value_lt_of_mem_groupAlternatives a.2
    exact .left _ _ (by simp only [Value.object.sizeOf_spec]; omega)
  · have := sizeOf_snd_lt_of_mem e.2
    exact .left _ _ (by simp only [Value.object.sizeOf_spec]; omega)

def appliedConditions (s : Schema) (m : Model) (op : Operator) (field : String) (v : Value) :
    Except CompileError (List Predicate) :=
  match op, v with
  | .or, v => do
    return alternatives (← collect (fun a => alternativeConditions s m a.1)
      (alternativesUnder field v).attach)
  | .relation, .object es =>
    match s.resolve? m field with
    | some h => collect (fun e =>
        if e.1.2.isPresent && e.1.2.hasLeaf then do
          return relatedPredicate h (← entryConditions s h.target e.1.1 e.1.2)
        else .ok []) es.attach
    | none => .ok []
  | op, v => (leaf m op (.text field) v).outcome
termination_by (sizeOf v, 0)
decreasing_by
  · exact .left _ _ (sizeOf_value_lt_of_mem_alternativesUnder a.2)
  · have := sizeOf_snd_lt_of_mem e.2
    exact .left _ _ (by simp only [Value.object.sizeOf_spec]; omega)

/-- The condition of an alternative, if it has one. -/
def alternativeConditions (s : Schema) (m : Model) (a : Alternative) :
    Except CompileError (List Predicate) :=
  match a with
  | .applied op field v => do
    return (Predicate.conjunction? (← appliedConditions s m op field v)).toList
  | .listed field v => do
    return (Predicate.conjunction? (← (membership m (.text field) [v]).outcome)).toList
termination_by (sizeOf a.value, 1)

end

theorem entryConditions_none_object (s : Schema) (m : Model) {key : String}
    (hk : Operator.ofKey? key = none) (es : List (String × Value)) :
    entryConditions s m key (.object es) = (anyOf m (.text key) (es.map (·.2))).outcome := by
  rw [entryConditions.eq_def, hk]

theorem entryConditions_list (s : Schema) (m : Model) {key : String} {v : Value} {vs : List Value}
    (hi : v.items? = some vs) : entryConditions s m key v =
      if Operator.ofKey? key = none then (anyOf m (.text key) vs).outcome else .ok [] := by
  rw [entryConditions.eq_def]
  cases v <;> simp_all [Value.items?]
  all_goals
    cases Operator.ofKey? key with
    | none => rfl
    | some op => cases op <;> rfl

theorem entryConditions_or (s : Schema) (m : Model) {key : String}
    (hk : Operator.ofKey? key = some .or) (es : List (String × Value)) :
    entryConditions s m key (.object es) =
      (collect (alternativeConditions s m) (groupAlternatives es)).map alternatives := by
  rw [entryConditions.eq_def, hk]
  simp only [collect_attach]
  rfl

theorem entryConditions_object (s : Schema) (m : Model) {key : String} {op : Operator}
    (hk : Operator.ofKey? key = some op) (ho : op ≠ .or) (es : List (String × Value)) :
    entryConditions s m key (.object es) =
      collect (fun e => appliedConditions s m op e.1 e.2) es := by
  rw [entryConditions.eq_def, hk]
  cases op with
  | or => exact absurd rfl ho
  | _ => exact collect_attach (fun e => appliedConditions s m _ e.1 e.2) es

theorem entryConditions_plain (s : Schema) (m : Model) (key : String) {v : Value}
    (hi : v.items? = none) (he : v.entries? = none) :
    entryConditions s m key v = (containing m (.text key) v).outcome := by
  rw [entryConditions.eq_def]
  cases v <;> simp_all [Value.items?, Value.entries?]

theorem appliedConditions_or (s : Schema) (m : Model) (field : String) (v : Value) :
    appliedConditions s m .or field v =
      (collect (alternativeConditions s m) (alternativesUnder field v)).map alternatives := by
  rw [appliedConditions]
  simp only [collect_attach]
  rfl

theorem appliedConditions_relation (s : Schema) (m : Model) (field : String)
    (es : List (String × Value)) :
    appliedConditions s m .relation field (.object es) =
      match s.resolve? m field with
      | some h => collect (fun e => if e.2.isPresent && e.2.hasLeaf then
          (entryConditions s h.target e.1 e.2).map (relatedPredicate h) else .ok []) es
      | none => .ok [] := by
  rw [appliedConditions]
  split
  · rw [← collect_attach _ es]
    rfl
  · rfl

theorem appliedConditions_relation_nil (s : Schema) (m : Model) (field : String) {v : Value}
    (he : v.entries? = none) : appliedConditions s m .relation field v = .ok [] := by
  rw [appliedConditions.eq_def]
  cases v <;> first | rfl | simp [Value.entries?] at he

theorem appliedConditions_plain (s : Schema) (m : Model) {op : Operator} (field : String)
    (v : Value) (ho : op ≠ .or) (hr : op ≠ .relation) :
    appliedConditions s m op field v = (leaf m op (.text field) v).outcome := by
  rw [appliedConditions.eq_def]
  cases op <;> first | exact absurd rfl ho | exact absurd rfl hr | rfl

theorem alternativeConditions_applied (s : Schema) (m : Model) (op : Operator) (field : String)
    (v : Value) : alternativeConditions s m (.applied op field v) =
      (appliedConditions s m op field v).map fun ps => (Predicate.conjunction? ps).toList := by
  rw [alternativeConditions]
  rfl

theorem alternativeConditions_listed (s : Schema) (m : Model) (field : String) (v : Value) :
    alternativeConditions s m (.listed field v) =
      (anyOf m (.text field) [v]).outcome.map fun ps => (Predicate.conjunction? ps).toList := by
  rw [alternativeConditions]
  rfl

theorem outcome_anyOf_int (m : Model) (n : Int) (vs : List Value) :
    (anyOf m (.int n) vs).outcome = .ok [] := by
  unfold anyOf
  split <;> rfl

theorem outcome_comparison_int (m : Model) (op : Comparison) (n : Int) (v : Value) :
    (comparison op m (.int n) v).outcome = .ok [] := by
  unfold comparison
  split <;> rfl

theorem outcome_containing_int (m : Model) (n : Int) (v : Value) :
    (containing m (.int n) v).outcome = .ok [] := by
  unfold containing
  split <;> rfl

theorem outcome_leaf_int (m : Model) (op : Operator) (n : Int) (v : Value) :
    (leaf m op (.int n) v).outcome = .ok [] := by
  cases op with
  | equal => exact outcome_comparison_int ..
  | notEqual => exact outcome_comparison_int ..
  | less => exact outcome_comparison_int ..
  | greater => exact outcome_comparison_int ..
  | like => exact outcome_containing_int ..
  | range =>
    change (range m (.int n) v).outcome = _
    unfold range
    split <;> rfl
  | within =>
    change (within m (.int n) v).outcome = _
    unfold within
    split <;> rfl
  | or => rfl
  | relation => rfl

-- A place in a list is no field: nothing is found under it, however deep the payload goes.
mutual

theorem outcome_entry_int (s : Schema) (m : Model) (op : Operator) (n : Int) (v : Value) :
    (entry s m op (.int n) v).outcome = .ok [] := by
  match v with
  | .object es =>
    cases op with
    | or => simp [entry, outcome_branchEntries_int s m n es, Except.bind, alternatives]
    | relation => simp only [entry, throughRelation]; split <;> rfl
    | _ => exact outcome_leaf_int m _ n _
  | .list vs =>
    cases op with
    | or => simp [entry, outcome_branchItems_int s m n 0 vs, Except.bind, alternatives]
    | _ => exact outcome_leaf_int m _ n _
  | .tuple vs =>
    cases op with
    | or => simp [entry, outcome_branchItems_int s m n 0 vs, Except.bind, alternatives]
    | _ => exact outcome_leaf_int m _ n _
  | .null | .bool _ | .int _ | .float _ | .text _ | .bytes _ | .date _ | .moment _ =>
    exact outcome_leaf_int m op n _

theorem outcome_branchEntries_int (s : Schema) (m : Model) (n : Int) (es : List (String × Value)) :
    (branchEntries s m (.int n) es).outcome = .ok [] := by
  match es with
  | [] => rfl
  | (key, v) :: es =>
    have hv (op : Operator) := outcome_entry_int s m op n v
    have hes := outcome_branchEntries_int s m n es
    simp only [branchEntries, branchTarget, Operator.ofValue?]
    split
    · cases Operator.ofKey? key with
      | some op => simp [hv, hes, Except.bind, Predicate.conjunction?]
      | none => simp [outcome_anyOf_int, hes, Except.bind, Predicate.conjunction?]
    · simp [hes, Except.bind, Predicate.conjunction?]

theorem outcome_branchItems_int (s : Schema) (m : Model) (n : Int) (place : Nat)
    (vs : List Value) : (branchItems s m (.int n) place vs).outcome = .ok [] := by
  match vs with
  | [] => rfl
  | v :: vs =>
    have hvs := outcome_branchItems_int s m n (place + 1) vs
    simp only [branchItems, branchTarget, Operator.ofValue?]
    split <;> simp [outcome_anyOf_int, hvs, Except.bind, Predicate.conjunction?]

end

theorem outcome_leafEntries (m : Model) (op : Operator) (es : List (String × Value)) :
    (leafEntries m op es).outcome =
      collect (fun e => (leaf m op (.text e.1) e.2).outcome) es := by
  induction es with
  | nil => rfl
  | cons e es ih =>
    simp only [leafEntries, collect, Reported.outcome_bind, Reported.outcome_pure, ih]
    rfl

theorem outcome_throughRelation (s : Schema) (m : Model) (name : String) (isEmpty : Bool)
    (f : Handle → Compiled) :
    (throughRelation s m (.text name) isEmpty f).outcome =
      if isEmpty then .ok [] else match s.resolve? m name with
      | some h => (f h).outcome
      | none => .ok [] := by
  unfold throughRelation fieldRelation
  cases isEmpty with
  | true => rfl
  | false =>
    dsimp only [Schema.resolveValue?]
    cases s.resolve? m name with
    | none => rfl
    | some h => exact Reported.outcome_bind ..

-- Compiling and its conditions recurse on the same payloads, one lemma for each shape that a
-- payload has while it is walked.
mutual

theorem outcome_compile (s : Schema) (m : Model) (key : String) (v : Value) :
    (compile s m (.text key) v).outcome = entryConditions s m key v := by
  match v with
  | .object es =>
    cases hk : Operator.ofKey? key with
    | none => simp only [compile, Operator.ofValue?, hk, entryConditions_none_object s m hk]
    | some op =>
      cases op with
      | or =>
        rw [entryConditions_or s m hk, ← outcome_groupEntries s m es]
        simp only [compile, Operator.ofValue?, hk, outcome_bind_pure]
      | relation =>
        rw [entryConditions_object s m hk (by decide), ← outcome_relationEntries s m es]
        simp only [compile, Operator.ofValue?, hk]
      | _ =>
        rw [entryConditions_object s m hk (by decide), compile]
        simp only [Operator.ofValue?, hk, outcome_leafEntries]
        exact collect_congr fun e _ =>
          (appliedConditions_plain s m e.1 e.2 (by decide) (by decide)).symm
  | .list vs =>
    rw [entryConditions_list s m rfl]
    cases hk : Operator.ofKey? key <;> simp [compile, Operator.ofValue?, hk]
  | .tuple vs =>
    rw [entryConditions_list s m rfl]
    cases hk : Operator.ofKey? key <;> simp [compile, Operator.ofValue?, hk]
  | .null | .bool _ | .int _ | .float _ | .text _ | .bytes _ | .date _ | .moment _ =>
    rw [entryConditions_plain s m key rfl rfl]
    rfl

theorem outcome_entry (s : Schema) (m : Model) (op : Operator) (field : String) (v : Value) :
    (entry s m op (.text field) v).outcome = appliedConditions s m op field v := by
  match v with
  | .object es =>
    cases op with
    | or =>
      rw [appliedConditions_or, ← outcome_branchEntries s m field es]
      simp only [entry, outcome_bind_pure]
    | relation =>
      rw [appliedConditions_relation]
      simp only [entry, outcome_throughRelation, outcome_scopedEntries s _ es]
      cases es <;> cases s.resolve? m field <;> rfl
    | _ => rw [appliedConditions_plain s m field _ (by decide) (by decide)]; rfl
  | .list vs =>
    cases op with
    | or =>
      rw [appliedConditions_or, ← outcome_branchItems s m field 0 vs]
      simp only [entry, outcome_bind_pure]
    | relation => rw [appliedConditions_relation_nil s m field rfl]; rfl
    | _ => rw [appliedConditions_plain s m field _ (by decide) (by decide)]; rfl
  | .tuple vs =>
    cases op with
    | or =>
      rw [appliedConditions_or, show alternativesUnder field (.tuple vs) =
        alternativesUnder field (.list vs) from rfl, ← outcome_branchItems s m field 0 vs]
      simp only [entry, outcome_bind_pure]
    | relation => rw [appliedConditions_relation_nil s m field rfl]; rfl
    | _ => rw [appliedConditions_plain s m field _ (by decide) (by decide)]; rfl
  | .null | .bool _ | .int _ | .float _ | .text _ | .bytes _ | .date _ | .moment _ =>
    cases op with
    | or => rw [appliedConditions_or]; rfl
    | relation => rw [appliedConditions_relation_nil s m field rfl]; rfl
    | _ => rw [appliedConditions_plain s m field _ (by decide) (by decide)]; rfl

theorem outcome_groupEntries (s : Schema) (m : Model) (es : List (String × Value)) :
    (groupEntries s m es).outcome = collect (alternativeConditions s m) (groupAlternatives es) := by
  match es with
  | [] => rfl
  | (outer, v) :: es =>
    have hes := outcome_groupEntries s m es
    rw [groupAlternatives, List.flatMap_cons, collect_append, ← groupAlternatives, ← hes]
    match v with
    | .object pairs =>
      rw [← outcome_branchEntries s m outer pairs]
      simp only [groupEntries, Reported.outcome_bind, Reported.outcome_pure]
      rfl
    | .list vs =>
      rw [← outcome_branchItems s m outer 0 vs]
      simp only [groupEntries, Reported.outcome_bind, Reported.outcome_pure]
      rfl
    | .tuple vs =>
      rw [show alternativesUnder outer (.tuple vs) = alternativesUnder outer (.list vs) from rfl,
        ← outcome_branchItems s m outer 0 vs]
      simp only [groupEntries, Reported.outcome_bind, Reported.outcome_pure]
      rfl
    | .null | .bool _ | .int _ | .float _ | .text _ | .bytes _ | .date _ | .moment _ =>
      simp only [groupEntries, Reported.outcome_bind, Reported.outcome_pure]
      rfl

theorem outcome_branchEntries (s : Schema) (m : Model) (outer : String)
    (es : List (String × Value)) : (branchEntries s m (.text outer) es).outcome =
      collect (alternativeConditions s m) (alternativesUnder outer (.object es)) := by
  match es with
  | [] => rfl
  | (key, v) :: es =>
    have hes := outcome_branchEntries s m outer es
    have hv (op : Operator) (field : String) := outcome_entry s m op field v
    rw [alternativesUnder_object_cons, collect_append, ← hes]
    -- The operator is the outer key, or else the inner one, or there is none.
    by_cases h : v.isPresent
    · rw [if_pos h, collect_singleton, pairAlternative]
      simp only [branchEntries, h, if_true, branchTarget, Operator.ofValue?]
      cases Operator.ofKey? outer with
      | some op => simp only [outcome_bind_append, hv, alternativeConditions_applied]
      | none =>
        cases Operator.ofKey? key with
        | some op =>
          simp only [Option.map_some, outcome_bind_append, hv, alternativeConditions_applied]
        | none => simp only [Option.map_none, outcome_bind_append, alternativeConditions_listed]
    · rw [if_neg h]
      simp only [branchEntries, h, Bool.false_eq_true, if_false, outcome_bind_append]
      rfl

theorem outcome_branchItems (s : Schema) (m : Model) (outer : String) (place : Nat)
    (vs : List Value) : (branchItems s m (.text outer) place vs).outcome =
      collect (alternativeConditions s m) (alternativesUnder outer (.list vs)) := by
  match vs with
  | [] => simp [branchItems, alternativesUnder, collect]
  | v :: vs =>
    have hvs := outcome_branchItems s m outer (place + 1) vs
    rw [alternativesUnder_list_cons, collect_append, ← hvs]
    by_cases h : v.isPresent
    · simp only [branchItems, h, if_true, branchTarget, Operator.ofValue?, and_true]
      cases Operator.ofKey? outer with
      | some op =>
        simp only [outcome_bind_append, outcome_entry_int, reduceCtorEq, if_false]
        rfl
      | none =>
        simp only [Option.map_none, outcome_bind_append, if_true, collect_singleton,
          alternativeConditions_listed]
    · simp only [branchItems, h, Bool.false_eq_true, if_false, outcome_bind_append, and_false]
      rfl

theorem outcome_relationEntries (s : Schema) (m : Model) (es : List (String × Value)) :
    (relationEntries s m es).outcome =
      collect (fun e => appliedConditions s m .relation e.1 e.2) es := by
  match es with
  | [] => rfl
  | (name, v) :: es =>
    have hes := outcome_relationEntries s m es
    rw [collect, ← hes]
    match v with
    | .object inner =>
      simp only [relationEntries, Reported.outcome_bind, Reported.outcome_pure,
        appliedConditions_relation, outcome_throughRelation, outcome_scopedEntries s _ inner]
      cases inner <;> cases s.resolve? m name <;> rfl
    | .list _ | .tuple _ | .null | .bool _ | .int _ | .float _ | .text _ | .bytes _ | .date _
    | .moment _ =>
      rw [appliedConditions_relation_nil s m name rfl]
      simp only [relationEntries, Reported.outcome_bind, Reported.outcome_pure]
      rfl

theorem outcome_scopedEntries (s : Schema) (h : Handle) (es : List (String × Value)) :
    (scopedEntries s h es).outcome = collect (fun e => if e.2.isPresent && e.2.hasLeaf then
      (entryConditions s h.target e.1 e.2).map (relatedPredicate h) else .ok []) es := by
  match es with
  | [] => rfl
  | (key, v) :: es =>
    have hes := outcome_scopedEntries s h es
    have hv := outcome_compile s h.target key v
    rw [collect, ← hes, ← hv]
    by_cases hp : v.isPresent && v.hasLeaf
    · simp only [scopedEntries, hp, if_true, outcome_bind_append]
    · simp only [scopedEntries, hp, Bool.false_eq_true, if_false, outcome_bind_append]
      rfl

end

theorem outcome_compileAll (s : Schema) (m : Model) (es : List (String × Value)) :
    (compileAll s m es).outcome = collect (fun e => entryConditions s m e.1 e.2) es := by
  induction es with
  | nil => rfl
  | cons e es ih =>
    obtain ⟨key, v⟩ := e
    simp only [compileAll, collect, Reported.outcome_bind, Reported.outcome_pure, ih,
      outcome_compile]
    rfl

end Filter

end Records
