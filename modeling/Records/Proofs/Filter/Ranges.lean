import Records.Proofs.Filter.Absent
import Records.Proofs.Filter.Equality

/-!
Ranges of a timestamp. A range whose two bounds can be read asks what the two ordered comparisons
with them ask, and fails where they fail. Any other range asks nothing, and can be taken out of a
filter wherever it stands.
-/
namespace Records.Filter

open Predicate (compareHolds)

/-- A bound that counts: it is present, and a text is read as a value of the column. -/
def UsableBound (m : Model) (field : String) (bound : Value) : Prop :=
  bound.isPresent ∧ ∀ c, m.column? field = some c → (coerceValue? c.kind bound).isSome

/-- A range with two bounds of which one does not count. -/
def DeadRange (m : Model) (field : String) (v : Value) : Prop :=
  ∃ low high, v.items? = some [low, high] ∧
    ¬ (UsableBound m field low ∧ UsableBound m field high)

section Live
variable {s : Schema} {m : Model} {field : String} {c : Column} {low high v w : Value}

/-- A moment is never read as a boolean. -/
theorem not_isBoolean_of_coerced (hv : isBoolean v = false)
    (hw : coerceValue? .moment v = some w) : isBoolean w = false := by
  cases v with
  | text t =>
    obtain ⟨moment, -, rfl⟩ := Option.map_eq_some_iff.1 hw
    rfl
  | _ =>
    cases hw
    exact hv

/-- Lying between two bounds is being neither before the one nor after the other. -/
theorem lies_eq_and (hc : m.column? field = some c) {low' high' : Value}
    (hlow : coerceValue? c.kind low = some low') (hhigh : coerceValue? c.kind high = some high') :
    lies m field low high = (compared m .ge field low).and (compared m .le field high) := by
  have hbound (op : Comparison) (w : Value) :
      compareHolds ⟨m.table, c⟩ op (comparisonParameter ⟨m.table, c⟩ w) =
        compareHolds ⟨m.table, c⟩ op ⟨Codec.ofValue c.kind w, w⟩ :=
    compareHolds_congr (cell_comparisonParameter ⟨m.table, c⟩ w)
  simp only [lies, compared, hc, hlow, hhigh, Option.bind_eq_bind, Option.bind_some, hbound]
  rfl

theorem orderRefusal?_of_coerced (hv : v.isPresent) (hc : m.column? field = some c)
    (hw : coerceValue? c.kind v = some w) (hbool : isBoolean w = false) :
    orderRefusal? m field v = none := by
  have hcoerced : coerced? m field v = some w := by
    rw [coerced?, if_pos hv, hc]
    exact hw
  rw [orderRefusal?, hcoerced]
  cases w <;> first | rfl | cases hbool

theorem canCompare_iff_of_coerced {op : Comparison} (hv : v.isPresent)
    (hc : m.column? field = some c) (hw : coerceValue? c.kind v = some w)
    (hbool : isBoolean w = false) :
    CanCompare m op field v ↔ Parameter.Bindable ⟨Codec.ofValue c.kind w, w⟩ := by
  have hcell := cell_comparisonParameter ⟨m.table, c⟩ w
  unfold CanCompare Parameter.Bindable
  simp [hv, hc, hw, hbool, hcell]

/-- A range that counts asks what the two comparisons ask. -/
theorem askAlike_range (hf : field ∈ timestampFields) (hc : m.column? field = some c)
    (hkind : c.kind = .moment) (hv : v.items? = some [low, high])
    (hlow : UsableBound m field low) (hhigh : UsableBound m field high)
    (hlow' : isBoolean low = false) (hhigh' : isBoolean high = false) :
    AskAlike s m [("range", .object [(field, v)])]
      [("greater", .object [(field, low)]), ("less", .object [(field, high)])] := by
  obtain ⟨l, hl⟩ := Option.isSome_iff_exists.1 (hlow.2 c hc)
  obtain ⟨h, hh⟩ := Option.isSome_iff_exists.1 (hhigh.2 c hc)
  have hlbool := not_isBoolean_of_coerced hlow' (hkind ▸ hl)
  have hhbool := not_isBoolean_of_coerced hhigh' (hkind ▸ hh)
  have hbounds : bounds? (.text field) v = some (low, high) := by
    simp [bounds?, isTimestampField, hf, hv]
  have hrange : leaves s m [("range", .object [(field, v)])] = [.applied m .range field v] :=
    @leaves_applied s m .range (by decide) (by decide) field v
  have hcompare :
      leaves s m [("greater", .object [(field, low)]), ("less", .object [(field, high)])] =
        [.applied m .greater field low, .applied m .less field high] :=
    (leaves_append s m [_] [_]).trans (congrArg₂ (· ++ ·)
      (@leaves_applied s m .greater (by decide) (by decide) field low)
      (@leaves_applied s m .less (by decide) (by decide) field high))
  refine ⟨fun st => funext fun r => ?_, ?_, ?_⟩
  · have hboth : entryDemand s st m "range" (.object [(field, v)]) =
        (entryDemand s st m "greater" (.object [(field, low)])).and
          (entryDemand s st m "less" (.object [(field, high)])) :=
      calc entryDemand s st m "range" (.object [(field, v)])
          = plainDemand m .range field v :=
            entryDemand_plain_singleton st .range (by decide) (by decide) field v
        _ = lies m field low high := by
            rw [plainDemand_range, hbounds]
            exact if_pos (by rw [hlow.1, hhigh.1]; rfl)
        _ = (compared m .ge field low).and (compared m .le field high) := lies_eq_and hc hl hh
        _ = (plainDemand m .greater field low).and (plainDemand m .less field high) := by
            rw [plainDemand, plainDemand, if_pos hlow.1, if_pos hhigh.1]
        _ = _ := by
            rw [← entryDemand_plain_singleton st .greater (by decide) (by decide) field low,
              ← entryDemand_plain_singleton st .less (by decide) (by decide) field high]
            rfl
    simp only [isWanted, List.all_cons, List.all_nil, Bool.and_true, hboth, Demand.isMet_and]
  · rw [hrange, hcompare]
    simp [Leaf.refusal?, orderRefusal?_of_coerced hlow.1 hc hl hlbool,
      orderRefusal?_of_coerced hhigh.1 hc hh hhbool]
  · rw [hrange, hcompare]
    simp [Leaf.Usable, hbounds, CanLie, hlow.1, hhigh.1, hc, hl, hh,
      canCompare_iff_of_coerced hlow.1 hc hl hlbool, canCompare_iff_of_coerced hhigh.1 hc hh hhbool]

end Live

section Dead
variable {s : Schema} {m : Model} {field : String} {v : Value}

/-- A range of which a bound does not count has no condition. -/
theorem outcome_range_dead (h : DeadRange m field v) :
    (range m (.text field) v).outcome = .ok [] := by
  obtain ⟨low, high, hv, hdead⟩ := h
  have hbounds : bounds? (.text field) v = none ∨ bounds? (.text field) v = some (low, high) := by
    unfold bounds?
    rw [hv]
    cases isTimestampField (.text field) <;> simp
  unfold range
  split
  · rfl
  · rcases hbounds with hnone | hsome
    · rw [hnone]
      rfl
    · rw [hsome]
      dsimp only
      by_cases hpresent : (low.isPresent && high.isPresent) = true
      · obtain ⟨hlow, hhigh⟩ : low.isPresent ∧ high.isPresent := by simpa using hpresent
        simp only [hpresent, Bool.not_true, Bool.false_eq_true, if_false, Reported.outcome_bind,
          outcome_fieldColumn, Except.bind]
        cases hc : m.column? field with
        | none => rfl
        | some c =>
          simp only [Reported.outcome_bind, outcome_coerce, Except.bind]
          cases hl : coerceValue? c.kind low with
          | none => rfl
          | some l =>
            cases hh : coerceValue? c.kind high with
            | none => rfl
            | some h =>
              refine absurd ⟨⟨hlow, fun c' hc' => ?_⟩, ⟨hhigh, fun c' hc' => ?_⟩⟩ hdead
              · cases hc.symm.trans hc'
                rw [hl]
                rfl
              · cases hc.symm.trans hc'
                rw [hh]
                rfl
      · simp [hpresent]

theorem appliedConditions_dead (h : DeadRange m field v) :
    appliedConditions s m .range field v = .ok [] := by
  rw [appliedConditions_plain s m field v (by decide) (by decide)]
  exact outcome_range_dead h

theorem plainDemand_dead (h : DeadRange m field v) : plainDemand m .range field v = none := by
  rw [← asks_range Store.empty (outcome_range_dead h)]
  rfl

end Dead

/-- The conditions of the value at a place. Under a key of a group these are the alternatives
there, which are not joined before the whole group is read. -/
def Place.conditions (s : Schema) (p : Place) (v : Value) :
    Except CompileError (List Predicate) :=
  match p, v with
  | .filter m, .object es => collect (fun e => entryConditions s m e.1 e.2) es
  | .entry m key, v => entryConditions s m key v
  | .applied m .or field, v => collect (alternativeConditions s m) (alternativesUnder field v)
  | .applied m op field, v => appliedConditions s m op field v
  | _, _ => .ok []

/-- A payload of a relation that has no leaf is passed over as a whole. What is left of one counts
as it did before, or asks nothing. -/
def Place.Spares (s : Schema) (p : Place) (key : String) (v w : Value) : Prop :=
  match p with
  | .applied _ .relation _ =>
    v.hasLeaf → w.hasLeaf ∨ (p.child s key).conditions s w = .ok []
  | _ => True

/-- A range of which a bound does not count is taken out of a filter, somewhere. -/
inductive Drops (s : Schema) : Place → Value → Value → Prop
  | here {p : Place} {xs ys : List (String × Value)} {key field : String} {m : Model} {v : Value}
    (hplace : p.child s key = .applied m .range field) (hdead : DeadRange m field v) :
    Drops s p (.object (xs ++ (key, v) :: ys)) (.object (xs ++ ys))
  | under {p : Place} {xs ys : List (String × Value)} {key : String} {v w : Value}
    (h : Drops s (p.child s key) v w) (hspares : p.Spares s key v w) :
    Drops s p (.object (xs ++ (key, v) :: ys)) (.object (xs ++ (key, w) :: ys))

section Drops
variable {s : Schema} {p : Place} {v w : Value}

theorem collect_drop {ε α β : Type} {f : α → Except ε (List β)} {x : α} (hx : f x = .ok [])
    (xs ys : List α) : collect f (xs ++ x :: ys) = collect f (xs ++ ys) := by
  rw [collect_append, collect_append, collect, hx]
  cases collect f xs <;> cases collect f ys <;> rfl

theorem collect_exchange {ε α β : Type} {f : α → Except ε (List β)} {x y : α} (hxy : f x = f y)
    (xs ys : List α) : collect f (xs ++ x :: ys) = collect f (xs ++ y :: ys) := by
  rw [collect_append, collect_append, collect, collect, hxy]

theorem isPresent_of_drops (h : Drops s p v w) : v.isPresent = true := by
  cases h with
  | @here _ xs => cases xs <;> rfl
  | @under _ xs => cases xs <;> rfl

theorem isObject_of_drops (h : Drops s p v w) : ∃ es, w = .object es := by
  cases h <;> exact ⟨_, rfl⟩

theorem hasLeaf_of_drops (h : Drops s p v w) (hw : w.hasLeaf = true) : v.hasLeaf = true := by
  induction h with
  | here =>
    simp only [Value.hasLeaf, Value.anyLeafEntry_eq_any, List.any_append, List.any_cons,
      Bool.or_eq_true] at hw ⊢
    exact hw.imp_right .inr
  | under _ _ ih =>
    simp only [Value.hasLeaf, Value.anyLeafEntry_eq_any, List.any_append, List.any_cons,
      Bool.or_eq_true] at hw ⊢
    exact hw.imp_right (Or.imp_left ih)

theorem item_ne_applied (p : Place) (m : Model) (op : Operator) (field : String) :
    p.item ≠ .applied m op field := by
  unfold Place.item
  split
  · split <;> nofun
  · nofun
  · nofun

theorem child_item (p : Place) (key : String) : p.item.child s key = p.item.item := by
  unfold Place.item
  split
  · split <;> rfl
  · rfl
  · rfl

/-- Inside a value there are no ranges. -/
theorem not_drops_item (hitem : ∀ key, p.child s key = p.item) : ¬ Drops s p v w := by
  intro h
  induction h with
  | @here p _ _ key field m _ hplace _ =>
    exact item_ne_applied p m .range field ((hitem key).symm.trans hplace)
  | @under p _ _ key _ _ _ _ ih =>
    rw [hitem key] at ih
    exact ih (child_item p)

theorem applied_of_place {m m' : Model} {outer key field : String} {op : Operator}
    (h : (pairAlternative outer key .null).place m' = .applied m op field) (v : Value) :
    m' = m ∧ pairAlternative outer key v = .applied op field v := by
  unfold pairAlternative at h ⊢
  split at h <;> cases h <;> exact ⟨rfl, rfl⟩

theorem conditions_applied {m : Model} {op : Operator} (ho : op ≠ .or) (field : String)
    (v : Value) : (Place.applied m op field).conditions s v = appliedConditions s m op field v := by
  cases op <;> first | exact absurd rfl ho | rfl

/-- An operator has the same conditions where the parts of a group are the same. -/
theorem appliedConditions_congr {m : Model} {op : Operator} {field : String}
    (h : (Place.applied m op field).conditions s v = (Place.applied m op field).conditions s w) :
    appliedConditions s m op field v = appliedConditions s m op field w := by
  by_cases ho : op = .or
  · subst ho
    rw [appliedConditions_or, appliedConditions_or]
    exact congrArg _ h
  · rwa [conditions_applied ho, conditions_applied ho] at h

theorem appliedConditions_empty (s : Schema) (m : Model) (op : Operator) (field : String) :
    appliedConditions s m op field (.object []) = .ok [] := by
  by_cases ho : op = .or
  · subst ho
    exact appliedConditions_or s m field _
  by_cases hr : op = .relation
  · subst hr
    rw [appliedConditions_relation]
    cases s.resolve? m field <;> rfl
  · rw [appliedConditions_plain s m field _ ho hr]
    refine outcome_leaf_absent m rfl ?_
    cases op <;> nofun

/-- A range that does not count is no part of the conditions where it stands. -/
theorem conditions_here {m : Model} {key field : String}
    (hplace : p.child s key = .applied m .range field) (hdead : DeadRange m field v)
    (xs ys : List (String × Value)) :
    p.conditions s (.object (xs ++ (key, v) :: ys)) = p.conditions s (.object (xs ++ ys)) := by
  cases p with
  | filter m' => cases hplace
  | entry m' outer =>
    cases hk : Operator.ofKey? outer with
    | none =>
      rw [Place.child, hk] at hplace
      cases hplace
    | some op =>
      rw [Place.child, hk] at hplace
      cases hplace
      simp only [Place.conditions, entryConditions_object s m hk (by decide)]
      refine collect_drop ?_ xs ys
      exact appliedConditions_dead hdead
  | applied m' op outer =>
    by_cases ho : op = .or
    · subst ho
      obtain ⟨rfl, halternative⟩ := applied_of_place hplace v
      simp only [Place.conditions, collect_alternativesUnder]
      refine collect_drop ?_ xs ys
      dsimp only
      rw [halternative, alternativeConditions_applied, appliedConditions_dead hdead]
      exact ite_self _
    by_cases hr : op = .relation
    · subst hr
      rw [Place.child] at hplace
      cases hm : s.resolve? m' outer <;> rw [hm] at hplace <;> cases hplace
    · rw [child_plain ho hr] at hplace
      exact absurd hplace (item_ne_applied _ _ _ _)
  | listed m' outer => cases hplace
  | searched => cases hplace
  | value => cases hplace

theorem alternativeConditions_under {m : Model} {field key : String}
    (h : Drops s ((pairAlternative field key .null).place m) v w)
    (ih : ((pairAlternative field key .null).place m).conditions s v =
      ((pairAlternative field key .null).place m).conditions s w) :
    alternativeConditions s m (pairAlternative field key v) =
      if w.isPresent then alternativeConditions s m (pairAlternative field key w) else .ok [] := by
  cases ha : pairAlternative field key .null with
  | listed name x =>
    rw [ha] at h
    exact absurd h (not_drops_item fun _ => rfl)
  | applied op name x =>
    rw [ha] at h ih
    obtain ⟨-, hv⟩ := applied_of_place (congrArg (Alternative.place m) ha) v
    obtain ⟨-, hw⟩ := applied_of_place (congrArg (Alternative.place m) ha) w
    rw [hv, hw, alternativeConditions_applied, alternativeConditions_applied,
      appliedConditions_congr ih]
    split
    · rfl
    · rename_i habsent
      obtain ⟨es, rfl⟩ := isObject_of_drops h
      obtain rfl : es = [] := by simpa [Value.isPresent] using habsent
      rw [appliedConditions_empty]
      rfl

/-- A payload of a relation has the same conditions where it counts as before, or asks nothing. -/
theorem scopedConditions_under {r : Handle} {key : String}
    (hleaf : w.hasLeaf = true → v.hasLeaf = true)
    (ih : entryConditions s r.target key v = entryConditions s r.target key w)
    (hleft : v.hasLeaf = true → w.hasLeaf = true ∨ entryConditions s r.target key w = .ok []) :
    (if v.hasLeaf then (entryConditions s r.target key v).map (relatedPredicate r) else .ok []) =
      if w.hasLeaf then (entryConditions s r.target key w).map (relatedPredicate r)
        else .ok [] := by
  rw [ih]
  cases hw : w.hasLeaf with
  | true => rw [hleaf hw]
  | false =>
    cases hv : v.hasLeaf with
    | false => rfl
    | true =>
      have hnone : entryConditions s r.target key w = .ok [] :=
        (hleft hv).resolve_left (by simp [hw])
      rw [hnone]
      rfl

theorem conditions_under {key : String} (h : Drops s (p.child s key) v w)
    (hspares : p.Spares s key v w)
    (ih : (p.child s key).conditions s v = (p.child s key).conditions s w)
    (xs ys : List (String × Value)) :
    p.conditions s (.object (xs ++ (key, v) :: ys)) =
      p.conditions s (.object (xs ++ (key, w) :: ys)) := by
  have hv := isPresent_of_drops h
  cases p with
  | filter m =>
    refine collect_exchange ?_ xs ys
    exact ih
  | entry m outer =>
    cases hk : Operator.ofKey? outer with
    | none =>
      rw [Place.child, hk] at h
      exact absurd h (not_drops_item fun _ => rfl)
    | some op =>
      rw [Place.child, hk] at ih
      by_cases ho : op = .or
      · subst ho
        simp only [Place.conditions, entryConditions_or s m hk, groupAlternatives, collect_flatMap]
        refine congrArg _ (collect_exchange ?_ xs ys)
        exact ih
      · simp only [Place.conditions, entryConditions_object s m hk ho]
        refine collect_exchange ?_ xs ys
        exact appliedConditions_congr ih
  | applied m op field =>
    by_cases ho : op = .or
    · subst ho
      simp only [Place.conditions, collect_alternativesUnder]
      refine collect_exchange ?_ xs ys
      dsimp only
      rw [if_pos hv]
      exact alternativeConditions_under h ih
    by_cases hr : op = .relation
    · subst hr
      simp only [Place.conditions, appliedConditions_relation]
      cases hm : s.resolve? m field with
      | none => rfl
      | some r =>
        have hleft : v.hasLeaf = true → w.hasLeaf = true ∨
            ((Place.applied m .relation field).child s key).conditions s w = .ok [] := hspares
        rw [Place.child, hm] at ih hleft
        change entryConditions s r.target key v = entryConditions s r.target key w at ih
        refine collect_exchange ?_ xs ys
        dsimp only
        rw [present_and_hasLeaf, present_and_hasLeaf]
        exact scopedConditions_under (hasLeaf_of_drops h) ih hleft
    · rw [child_plain ho hr] at h
      exact absurd h (not_drops_item (child_item _))
  | listed m field => exact absurd h (not_drops_item fun _ => rfl)
  | searched => exact absurd h (not_drops_item fun _ => rfl)
  | value => exact absurd h (not_drops_item fun _ => rfl)

theorem Drops.conditions_eq (h : Drops s p v w) : p.conditions s v = p.conditions s w := by
  induction h with
  | here hplace hdead => exact conditions_here hplace hdead _ _
  | under h hspares ih => exact conditions_under h hspares ih _ _

end Drops

/-- A range of a timestamp selects what the two ordered comparisons with its bounds select, or fails
with them. Where one of the bounds is absent or cannot be read, it asks nothing at all: a filter
compiles to the same conditions without it, at any depth of groups and relations. -/
theorem range_as_comparisons (s : Schema) (q : Query) (st : Store) :
    (∀ (field : String) (c : Column) (v low high : Value), field ∈ timestampFields →
      q.model.column? field = some c → c.kind = .moment → v.items? = some [low, high] →
      UsableBound q.model field low → UsableBound q.model field high →
      isBoolean low = false → isBoolean high = false →
      Interchangeable s q st [("range", .object [(field, v)])]
        [("greater", .object [(field, low)]), ("less", .object [(field, high)])]) ∧
    (∀ (m : Model) (field : String) (v : Value), DeadRange m field v →
      appliedConditions s m .range field v = .ok [] ∧
        appliedDemand s st m .range field v = none) ∧
    ∀ (m : Model) (es fs : List (String × Value)),
      Drops s (.filter m) (.object es) (.object fs) →
      (compileAll s m es).outcome = (compileAll s m fs).outcome := by
  refine ⟨fun field c v low high hf hc hkind hv hlow hhigh hlow' hhigh' => ?_,
    fun m field v hdead => ⟨appliedConditions_dead hdead, ?_⟩, fun m es fs h => ?_⟩
  · exact (askAlike_range hf hc hkind hv hlow hhigh hlow' hhigh').interchangeable
  · rw [appliedDemand_plain s st m field v (by decide) (by decide)]
    exact plainDemand_dead hdead
  · rw [outcome_compileAll, outcome_compileAll]
    exact h.conditions_eq

/-- Authors by the time of their creation: between two bounds that are hit, with a bound that cannot
be bound, in a group beside a bound that cannot be read, and through a relation without an end. -/
theorem range_as_comparisons_created :
    let between (low high : Value) : List (String × Value) :=
      [("range", .object [("created_at", .list [low, high])])]
    let comparing (low high : Value) : List (String × Value) :=
      [("greater", .object [("created_at", low)]), ("less", .object [("created_at", high)])]
    let january := Value.text "2024-01-15"
    let march := Value.text "2024-03-10T00:00:00"
    let inGroup (es : List (String × Value)) : List (String × Value) :=
      [("or", .object (es ++ [("equal", .object [("country", .text "AR")])]))]
    let ofBooks (es : List (String × Value)) : List (String × Value) :=
      [("relation", .object [("books", .object [("range", .object es)])])]
    (authorIds Library.catalogue (between january march) =
        authorIds Library.catalogue (comparing january march) ∧
      authorIds Library.catalogue (between january march) = some [1, 2, 7]) ∧
    (authorIds Library.catalogue (between (.list [.int 1]) march) =
        authorIds Library.catalogue (comparing (.list [.int 1]) march) ∧
      authorIds Library.catalogue (between (.list [.int 1]) march) = none) ∧
    (compileAll Library.schema Library.author (inGroup (between (.text "soon") march))).outcome =
      (compileAll Library.schema Library.author (inGroup [("range", .object [])])).outcome ∧
    (compileAll Library.schema Library.author
        (ofBooks [("created_at", .list [january, .null])])).outcome =
      (compileAll Library.schema Library.author (ofBooks [])).outcome := by
  intro between comparing january march inGroup ofBooks
  obtain ⟨hlive, -, hdrops⟩ := range_as_comparisons Library.schema (Query.base Library.author true)
    Library.catalogue
  have hread {m : Model} {v : Value} (hv : v.isPresent = true)
      (hc : ∀ c, m.column? "created_at" = some c → c.kind = .moment)
      (hw : (coerceValue? .moment v).isSome) : UsableBound m "created_at" v :=
    ⟨hv, fun c hcolumn => by rwa [hc c hcolumn]⟩
  have hmoment : ∀ c, Library.author.column? "created_at" = some c → c.kind = .moment := by
    intro c hc
    cases hc
    rfl
  have hmarch : UsableBound Library.author "created_at" march :=
    hread rfl hmoment (by decide +kernel)
  have hids {low : Value} (hlow : UsableBound Library.author "created_at" low)
      (hbool : isBoolean low = false) : authorIds Library.catalogue (between low march) =
        authorIds Library.catalogue (comparing low march) := by
    have hsame := (hlive "created_at" createdAt (.list [low, march]) low march (by decide) rfl rfl
      rfl hlow hmarch hbool rfl [] []).2
    simp only [List.nil_append, List.append_nil] at hsame
    unfold authorIds
    rw [hsame]
  refine ⟨⟨hids (hread rfl hmoment (by decide +kernel)) rfl, by decide +kernel⟩,
    ⟨hids (hread rfl hmoment rfl) rfl, by decide +kernel⟩, hdrops _ _ _ ?_, hdrops _ _ _ ?_⟩
  · have hdead : DeadRange Library.author "created_at" (.list [.text "soon", march]) :=
      ⟨_, _, rfl, fun ⟨hsoon, _⟩ => absurd (hsoon.2 createdAt rfl) (by decide +kernel)⟩
    have hrange := @Drops.here Library.schema (.applied Library.author .or "range") [] []
      "created_at" _ _ _ rfl hdead
    have hgroup := @Drops.under Library.schema (.entry Library.author "or") []
      [("equal", .object [("country", .text "AR")])] "range" _ _ hrange trivial
    exact @Drops.under _ _ [] [] _ _ _ hgroup trivial
  · have hdead : DeadRange Library.book "created_at" (.list [january, .null]) :=
      ⟨_, _, rfl, fun ⟨_, habsent⟩ => nomatch habsent.1⟩
    have hleft : entryConditions Library.schema Library.book "range" (.object []) = .ok [] :=
      @entryConditions_object Library.schema Library.book "range" .range (by decide) (by decide) []
    have hrange := @Drops.here Library.schema (.entry Library.book "range") [] [] _ _ _ _ rfl hdead
    have hbooks := @Drops.under Library.schema (.applied Library.author .relation "books") [] [] _ _
      _ hrange fun _ => .inr hleft
    have hrelation := @Drops.under Library.schema (.entry Library.author "relation") [] [] _ _ _
      hbooks trivial
    exact @Drops.under _ _ [] [] _ _ _ hrelation trivial

end Records.Filter
