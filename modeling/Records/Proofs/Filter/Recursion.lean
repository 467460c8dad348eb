import Records.Library.Models
import Records.Proofs.Filter.Selection

/-!
How far compiling a filter recurs, and how much it yields. An alternative is compiled by a call of
its own, on a payload that is built for it; still the calls nest no deeper than the payload does,
and no part of it yields more than one comparison.
-/
namespace Records

namespace Value

mutual

/-- How deep collections nest in a value. -/
def nesting : Value → Nat
  | list xs => itemNesting xs + 1
  | tuple xs => itemNesting xs + 1
  | object es => entryNesting es + 1
  | _ => 0

def itemNesting : List Value → Nat
  | [] => 0
  | x :: xs => max (nesting x) (itemNesting xs)

def entryNesting : List (String × Value) → Nat
  | [] => 0
  | (_, x) :: es => max (nesting x) (entryNesting es)

end

mutual

/-- How many values there are in a value, itself included. -/
def count : Value → Nat
  | list xs => itemCount xs + 1
  | tuple xs => itemCount xs + 1
  | object es => entryCount es + 1
  | _ => 1

def itemCount : List Value → Nat
  | [] => 0
  | x :: xs => count x + itemCount xs

def entryCount : List (String × Value) → Nat
  | [] => 0
  | (_, x) :: es => count x + entryCount es

end

theorem one_le_count (v : Value) : 1 ≤ v.count := by cases v <;> simp [count]

/-- The values that a collection gives one by one, each with its key or its place. -/
def pairs : Value → List (Value × Value)
  | object es => es.map fun e => (text e.1, e.2)
  | list xs => xs.zipIdx.map fun x => (int x.2, x.1)
  | tuple xs => xs.zipIdx.map fun x => (int x.2, x.1)
  | _ => []

end Value

namespace Reported
variable {ε ε' α β γ : Type}

theorem bind_assoc (x : Reported ε α) (f : α → Reported ε β) (g : β → Reported ε γ) :
    (x >>= f >>= g) = x >>= fun a => f a >>= g := by
  change (x.bind f).bind g = x.bind fun a => (f a).bind g
  obtain ⟨log, outcome⟩ := x
  cases outcome with
  | error e => rfl
  | ok a =>
    dsimp only [bind]
    cases (f a).outcome <;> simp only [List.append_assoc]

theorem bind_pure (x : Reported ε α) : (x >>= fun a => Pure.pure a) = x := by
  change (x.bind fun a => Reported.pure a) = x
  obtain ⟨log, outcome⟩ := x
  cases outcome <;> simp [bind, pure]

theorem mapError_bind (h : ε → ε') (x : Reported ε α) (f : α → Reported ε β) :
    (x >>= f).mapError h = x.mapError h >>= fun a => (f a).mapError h := by
  change (x.bind f).mapError h = (x.mapError h).bind fun a => (f a).mapError h
  unfold bind mapError
  cases x.outcome <;> rfl

end Reported

namespace Filter

/-- A payload as a call is given it. A value that is put under a key for a call of its own may have
a key that is no text. -/
inductive Payload
  | pairs (es : List (Value × Value))
  | items (vs : List Value)
  | plain (v : Value)

def Payload.ofValue : Value → Payload
  | .object es => pairs (Value.object es).pairs
  | .list vs => items vs
  | .tuple vs => items vs
  | v => plain v

/-- Why a call is broken off: other calls are open that it may not go below, or the filter cannot be
compiled. -/
inductive Interruption
  | tooDeep
  | refused (e : CompileError)

/-- The conditions of a call that may not go below a given depth. -/
abbrev Bounded := Reported Interruption (List Predicate)

/-- What needs no further call. -/
def called (x : Compiled) : Bounded := x.mapError .refused

/-- The conditions of several values, one after another. -/
def each {α : Type} (f : α → Bounded) : List α → Bounded
  | [] => pure []
  | x :: xs => do return (← f x) ++ (← each f xs)

/-- The call an alternative is compiled by. The operator is the outer key or the inner one, and the
other is put in front of the value; where neither names one, the outer key is a column. -/
def branchCall (call : Value → Payload → Bounded) (outer key v : Value) : Bounded :=
  match Operator.ofValue? outer with
  | some _ => call outer (.pairs [(key, v)])
  | none =>
    match Operator.ofValue? key with
    | some _ => call key (.pairs [(outer, v)])
    | none => call outer (.items [v])

/-- What a call contributes where the value it is made for counts. -/
def calledIf (counts : Bool) (made : Bounded) (use : List Predicate → List Predicate) :
    Bounded := do
  return use (← if counts then made else pure [])

/-- The alternatives under one key of a group. -/
def calledPairs (call : Value → Payload → Bounded) (outer : Value) (ps : List (Value × Value)) :
    Bounded :=
  each (fun p => calledIf p.2.isPresent (branchCall call outer p.1 p.2)
    fun here => (Predicate.conjunction? here).toList) ps

/-- The alternatives of a group. -/
def calledGroup (call : Value → Payload → Bounded) (es : List (Value × Value)) : Bounded :=
  each (fun e => calledPairs call e.1 e.2.pairs) es

/-- The conditions on the records of a relation, each from a call on the model it leads to. -/
def calledRelation (s : Schema) (m : Model) (call : Model → Value → Payload → Bounded)
    (name : Value) : Value → Bounded
  | .object [] => pure []
  | .object es => do
    match ← (fieldRelation s m name).mapError .refused with
    | none => return []
    | some h =>
      each (fun e => calledIf (e.2.isPresent && e.2.hasLeaf)
        (call h.target (.text e.1) (.ofValue e.2)) (relatedPredicate h)) es
  | _ => pure []

/-- One entry of a filter, compiled with no more than a number of calls open at once, this one
among them. -/
def compileWithin (s : Schema) : Nat → Model → Value → Payload → Bounded
  | 0, _, _, _ => .fail .tooDeep
  | depth + 1, m, key, .pairs es =>
    match Operator.ofValue? key with
    | none => called (anyOf m key (es.map (·.2)))
    | some .or => do return alternatives (← calledGroup (compileWithin s depth m) es)
    | some .relation => each (fun e => calledRelation s m (compileWithin s depth) e.1 e.2) es
    | some op => each (fun e => called (leaf m op e.1 e.2)) es
  | _ + 1, m, key, .items vs =>
    match Operator.ofValue? key with
    | none => called (anyOf m key vs)
    | some _ => pure []
  | _ + 1, m, key, .plain v => called (containing m key v)

/-- What a pair inside a group asks for, before it is joined into one alternative. -/
def pairConditions (s : Schema) (m : Model) (outer key v : Value) : Compiled :=
  match branchTarget outer key with
  | some (op, field) => entry s m op field v
  | none => anyOf m outer [v]

section Called
variable {s : Schema} {m : Model}

theorem called_bind {α : Type} (x : Reported CompileError α) (f : α → Compiled) :
    called (x >>= f) = x.mapError .refused >>= fun a => called (f a) :=
  Reported.mapError_bind _ x f

theorem each_cons {α : Type} (f : α → Bounded) (x : α) (xs : List α) :
    each f (x :: xs) = do return (← f x) ++ (← each f xs) := rfl

theorem each_singleton {α : Type} (f : α → Bounded) (x : α) : each f [x] = f x := by
  change (f x >>= fun ps => pure (ps ++ [])) = f x
  simp only [List.append_nil, Reported.bind_pure]

theorem called_append (x y : Compiled) :
    called (do return (← x) ++ (← y)) = do return (← called x) ++ (← called y) := by
  rw [called_bind]
  congr 1
  funext ps
  rw [called_bind]
  rfl

theorem called_alternatives (x : Compiled) :
    called (do return alternatives (← x)) = do return alternatives (← called x) := by
  rw [called_bind]
  rfl

theorem called_calledIf {counts : Bool} {use : List Predicate → List Predicate} {made : Bounded}
    {x : Compiled} (hmade : counts = true → made = called x) :
    calledIf counts made use =
      called ((if counts then x else pure []) >>= fun here => pure (use here)) := by
  cases counts with
  | false => rfl
  | true =>
    rw [calledIf, hmade rfl, called_bind]
    rfl

/-- Values that are each compiled by what a call gives are compiled together by what the calls
give. -/
theorem each_calledIf_cons {α : Type} {f : α → Bounded} {e : α} {es : List α} {counts : Bool}
    {use : List Predicate → List Predicate} {made : Bounded} {x y : Compiled}
    (hf : f e = calledIf counts made use) (hmade : counts = true → made = called x)
    (hes : each f es = called y) :
    each f (e :: es) = called ((if counts then x else pure []) >>= fun here =>
      y >>= fun later => pure (use here ++ later)) := by
  rw [each_cons, hf, hes, called_calledIf hmade, ← called_append, Reported.bind_assoc]
  rfl

theorem branchEntries_cons (outer : Value) (key : String) (v : Value) (es : List (String × Value)) :
    branchEntries s m outer ((key, v) :: es) =
      (if v.isPresent then pairConditions s m outer (.text key) v else pure []) >>= fun here =>
        branchEntries s m outer es >>= fun later =>
          pure ((Predicate.conjunction? here).toList ++ later) := by
  rw [branchEntries, pairConditions]
  cases v.isPresent with
  | false => rfl
  | true => cases branchTarget outer (.text key) <;> rfl

theorem branchItems_cons (outer : Value) (place : Nat) (v : Value) (vs : List Value) :
    branchItems s m outer place (v :: vs) =
      (if v.isPresent then pairConditions s m outer (.int place) v else pure []) >>= fun here =>
        branchItems s m outer (place + 1) vs >>= fun later =>
          pure ((Predicate.conjunction? here).toList ++ later) := by
  rw [branchItems, pairConditions]
  cases v.isPresent with
  | false => rfl
  | true => cases branchTarget outer (.int place) <;> rfl

theorem scopedEntries_cons (h : Handle) (key : String) (v : Value) (es : List (String × Value)) :
    scopedEntries s h ((key, v) :: es) =
      (if v.isPresent && v.hasLeaf then compile s h.target (.text key) v else pure []) >>=
        fun here => scopedEntries s h es >>=
          fun later => pure (relatedPredicate h here ++ later) := by
  rw [scopedEntries]
  split <;> rfl

/-- The alternatives of one entry of a group. -/
def innerConditions (s : Schema) (m : Model) (outer : Value) : Value → Compiled
  | .object es => branchEntries s m outer es
  | .list vs => branchItems s m outer 0 vs
  | .tuple vs => branchItems s m outer 0 vs
  | _ => pure []

theorem groupEntries_cons (outer : String) (v : Value) (es : List (String × Value)) :
    groupEntries s m ((outer, v) :: es) =
      do return (← innerConditions s m (.text outer) v) ++ (← groupEntries s m es) := by
  cases v <;> rfl

theorem relationEntries_cons (name : String) (v : Value) (es : List (String × Value)) :
    relationEntries s m ((name, v) :: es) =
      do return (← entry s m .relation (.text name) v) ++ (← relationEntries s m es) := by
  cases v <;> rfl

theorem leafEntries_eq (op : Operator) (es : List (String × Value)) :
    each (fun e : Value × Value => called (leaf m op e.1 e.2)) (Value.object es).pairs =
      called (leafEntries m op es) := by
  induction es with
  | nil => rfl
  | cons e es ih =>
    rw [leafEntries, called_append, ← ih]
    rfl

end Called

section Within
variable (s : Schema)

/-- The call that an alternative is compiled by gives its conditions. -/
theorem branchCall_eq {m : Model} {call : Value → Payload → Bounded} {outer key v : Value}
    (hentry : ∀ k op field, Operator.ofValue? k = some op →
      call k (.pairs [(field, v)]) = called (entry s m op field v))
    (hlisted : Operator.ofValue? outer = none →
      call outer (.items [v]) = called (anyOf m outer [v])) :
    branchCall call outer key v = called (pairConditions s m outer key v) := by
  unfold branchCall pairConditions branchTarget
  cases houter : Operator.ofValue? outer with
  | some op => exact hentry outer op key houter
  | none =>
    cases hkey : Operator.ofValue? key with
    | some op => exact hentry key op outer hkey
    | none => exact hlisted houter

theorem compileWithin_items {m : Model} {depth : Nat} {outer v : Value}
    (houter : Operator.ofValue? outer = none) :
    compileWithin s (depth + 1) m outer (.items [v]) = called (anyOf m outer [v]) := by
  simp only [compileWithin, houter]

/-- The conditions on related records are those of the calls that are made on their model. -/
theorem calledRelation_eq {m : Model} {call : Model → Value → Payload → Bounded} {name : Value}
    {es : List (String × Value)}
    (hscoped : ∀ h, each (fun e => calledIf (e.2.isPresent && e.2.hasLeaf)
      (call h.target (.text e.1) (.ofValue e.2)) (relatedPredicate h)) es =
        called (scopedEntries s h es)) :
    calledRelation s m call name (.object es) = called (entry s m .relation name (.object es)) := by
  match es with
  | [] => rfl
  | e :: es =>
    refine Eq.trans ?_ (called_bind (fieldRelation s m name) _).symm
    change (fieldRelation s m name).mapError Interruption.refused >>= _ = _
    congr 1
    funext found
    cases found with
    | none => rfl
    | some h => exact hscoped h

-- Every payload that a call is built for holds a value of the one before it, and nests less deep.
mutual

theorem compileWithin_ofValue (m : Model) (key v : Value) {depth : Nat} (hd : v.nesting < depth) :
    compileWithin s depth m key (.ofValue v) = called (compile s m key v) := by
  obtain ⟨depth, rfl⟩ : ∃ d, depth = d + 1 := ⟨depth - 1, by omega⟩
  match v with
  | .object es =>
    rw [Value.nesting] at hd
    rw [Payload.ofValue, compileWithin, compile]
    cases hkey : Operator.ofValue? key with
    | none =>
      simp only [Value.pairs, List.map_map]
      rfl
    | some op =>
      cases op with
      | or =>
        dsimp only
        rw [calledGroup_eq m es (by omega), called_alternatives]
      | relation => exact each_calledRelation m es (by omega)
      | _ => exact leafEntries_eq _ es
  | .list vs =>
    rw [Payload.ofValue, compileWithin, compile]
    cases Operator.ofValue? key <;> rfl
  | .tuple vs =>
    rw [Payload.ofValue, compileWithin, compile]
    cases Operator.ofValue? key <;> rfl
  | .null | .bool _ | .int _ | .float _ | .text _ | .bytes _ | .date _ | .moment _ => rfl
termination_by structural v

theorem compileWithin_pair (m : Model) {key : Value} {op : Operator}
    (hkey : Operator.ofValue? key = some op) (field v : Value) {depth : Nat}
    (hd : v.nesting + 1 < depth) :
    compileWithin s depth m key (.pairs [(field, v)]) = called (entry s m op field v) := by
  obtain ⟨depth, rfl⟩ : ∃ d, depth = d + 1 := ⟨depth - 1, by omega⟩
  rw [compileWithin, hkey]
  match v with
  | .object es =>
    rw [Value.nesting] at hd
    cases op with
    | or =>
      dsimp only
      rw [calledGroup, each_singleton]
      dsimp only
      rw [calledPairs_branchEntries m field es (by omega), entry, called_alternatives]
    | relation =>
      exact (each_singleton ..).trans
        (calledRelation_eq s fun h => each_scopedEntries h es (by omega))
    | _ => exact each_singleton _ _
  | .list vs =>
    rw [Value.nesting] at hd
    cases op with
    | or =>
      dsimp only
      rw [calledGroup, each_singleton]
      exact (congrArg (· >>= fun ps => pure (alternatives ps))
        (calledPairs_branchItems m field 0 vs (by omega))).trans (called_alternatives _).symm
    | relation => exact each_singleton _ _
    | _ => exact each_singleton _ _
  | .tuple vs =>
    rw [Value.nesting] at hd
    cases op with
    | or =>
      dsimp only
      rw [calledGroup, each_singleton]
      exact (congrArg (· >>= fun ps => pure (alternatives ps))
        (calledPairs_branchItems m field 0 vs (by omega))).trans (called_alternatives _).symm
    | relation => exact each_singleton _ _
    | _ => exact each_singleton _ _
  | .null | .bool _ | .int _ | .float _ | .text _ | .bytes _ | .date _ | .moment _ =>
    cases op <;> first | rfl | exact each_singleton _ _
termination_by structural v

theorem calledGroup_eq (m : Model) (es : List (String × Value)) {depth : Nat}
    (hd : Value.entryNesting es < depth) :
    calledGroup (compileWithin s depth m) (Value.object es).pairs =
      called (groupEntries s m es) := by
  match es with
  | [] => rfl
  | (outer, v) :: es =>
    rw [Value.entryNesting] at hd
    have hes : Value.entryNesting es < depth := by omega
    rw [groupEntries_cons, called_append, ← calledGroup_eq m es hes]
    have hv : calledPairs (compileWithin s depth m) (.text outer) v.pairs =
        called (innerConditions s m (.text outer) v) := by
      match v with
      | .object pairs =>
        rw [Value.nesting] at hd
        exact calledPairs_branchEntries m (.text outer) pairs (by omega)
      | .list vs =>
        rw [Value.nesting] at hd
        exact calledPairs_branchItems m (.text outer) 0 vs (by omega)
      | .tuple vs =>
        rw [Value.nesting] at hd
        exact calledPairs_branchItems m (.text outer) 0 vs (by omega)
      | .null | .bool _ | .int _ | .float _ | .text _ | .bytes _ | .date _ | .moment _ => rfl
    rw [← hv]
    rfl
termination_by structural es

theorem calledPairs_branchEntries (m : Model) (outer : Value) (es : List (String × Value))
    {depth : Nat}
    (hd : Value.entryNesting es + 1 < depth) :
    calledPairs (compileWithin s depth m) outer (Value.object es).pairs =
      called (branchEntries s m outer es) := by
  match es with
  | [] => rfl
  | (key, v) :: es =>
    rw [Value.entryNesting] at hd
    obtain ⟨d, rfl⟩ : ∃ d, depth = d + 1 := ⟨depth - 1, by omega⟩
    rw [branchEntries_cons]
    have hes : Value.entryNesting es + 1 < d + 1 := by omega
    refine each_calledIf_cons rfl (fun _ => ?_) (calledPairs_branchEntries m outer es hes)
    exact branchCall_eq s
      (fun k op field hk => compileWithin_pair m hk field v (by omega)) (compileWithin_items s)
termination_by structural es

theorem calledPairs_branchItems (m : Model) (outer : Value) (place : Nat) (vs : List Value)
    {depth : Nat}
    (hd : Value.itemNesting vs + 1 < depth) :
    calledPairs (compileWithin s depth m) outer
        ((vs.zipIdx place).map fun x => (.int x.2, x.1)) =
      called (branchItems s m outer place vs) := by
  match vs with
  | [] => rfl
  | v :: vs =>
    rw [Value.itemNesting] at hd
    obtain ⟨d, rfl⟩ : ∃ d, depth = d + 1 := ⟨depth - 1, by omega⟩
    rw [branchItems_cons, List.zipIdx_cons, List.map_cons]
    have hvs : Value.itemNesting vs + 1 < d + 1 := by omega
    refine each_calledIf_cons rfl (fun _ => ?_) (calledPairs_branchItems m outer (place + 1) vs hvs)
    exact branchCall_eq s
      (fun k op field hk => compileWithin_pair m hk field v (by omega)) (compileWithin_items s)
termination_by structural vs

theorem each_calledRelation (m : Model) (es : List (String × Value)) {depth : Nat}
    (hd : Value.entryNesting es < depth) :
    each (fun e => calledRelation s m (compileWithin s depth) e.1 e.2) (Value.object es).pairs =
      called (relationEntries s m es) := by
  match es with
  | [] => rfl
  | (name, v) :: es =>
    rw [Value.entryNesting] at hd
    have hes : Value.entryNesting es < depth := by omega
    rw [relationEntries_cons, called_append, ← each_calledRelation m es hes]
    have hv : calledRelation s m (compileWithin s depth) (.text name) v =
        called (entry s m .relation (.text name) v) := by
      match v with
      | .object inner =>
        rw [Value.nesting] at hd
        exact calledRelation_eq s fun h => each_scopedEntries h inner (by omega)
      | .list _ | .tuple _ => rfl
      | .null | .bool _ | .int _ | .float _ | .text _ | .bytes _ | .date _ | .moment _ => rfl
    rw [← hv]
    rfl
termination_by structural es

theorem each_scopedEntries (h : Handle) (es : List (String × Value)) {depth : Nat}
    (hd : Value.entryNesting es < depth) :
    each (fun e => calledIf (e.2.isPresent && e.2.hasLeaf)
        (compileWithin s depth h.target (.text e.1) (.ofValue e.2)) (relatedPredicate h)) es =
      called (scopedEntries s h es) := by
  match es with
  | [] => rfl
  | (key, v) :: es =>
    rw [Value.entryNesting] at hd
    rw [scopedEntries_cons]
    exact each_calledIf_cons rfl
      (fun _ => compileWithin_ofValue h.target (.text key) v (by omega))
      (each_scopedEntries h es (by omega))
termination_by structural es

end

end Within

namespace Predicate

mutual

/-- How many comparisons of a column with something from outside a condition holds. That a record
is live is none. -/
def comparisons : Predicate → Nat
  | compare .. => 1
  | like .. => 1
  | between .. => 1
  | among .. => 1
  | isNull _ => 0
  | all ps => allComparisons ps
  | any ps => allComparisons ps
  | related _ p => comparisons p

def allComparisons : List Predicate → Nat
  | [] => 0
  | p :: ps => comparisons p + allComparisons ps

end

theorem allComparisons_append (ps qs : List Predicate) :
    allComparisons (ps ++ qs) = allComparisons ps + allComparisons qs := by
  induction ps with
  | nil => simp [allComparisons]
  | cons p ps ih => simp only [List.cons_append, allComparisons, ih, Nat.add_assoc]

theorem comparisons_group (make : List Predicate → Predicate)
    (hmake : ∀ ps, comparisons (make ps) = allComparisons ps) (ps : List Predicate) :
    comparisons (group make ps) = allComparisons ps := by
  match ps with
  | [] => exact hmake []
  | [p] => rfl
  | p :: q :: ps => exact hmake _

theorem comparisons_group_all (ps : List Predicate) :
    comparisons (group all ps) = allComparisons ps := comparisons_group all (fun _ => rfl) ps

theorem allComparisons_conjunction (ps : List Predicate) :
    allComparisons (conjunction? ps).toList = allComparisons ps := by
  match ps with
  | [] => rfl
  | p :: ps => exact comparisons_group_all (p :: ps)

end Predicate

open Predicate (allComparisons)

theorem allComparisons_alternatives (ps : List Predicate) :
    allComparisons (alternatives ps) = allComparisons ps := by
  match ps with
  | [] => rfl
  | p :: ps => exact Predicate.comparisons_group .any (fun _ => rfl) (p :: ps)

theorem allComparisons_relatedPredicate (h : Handle) (ps : List Predicate) :
    allComparisons (relatedPredicate h ps) = allComparisons ps := by
  match ps with
  | [] => rfl
  | p :: ps =>
    change Predicate.comparisons (.group .all (p :: ps ++ _)) = _
    rw [Predicate.comparisons_group_all, Predicate.allComparisons_append]
    cases h.target.softDeletes <;> rfl

/-- No more comparisons than a number, where there are conditions at all. -/
def YieldsAtMost (n : Nat) (x : Compiled) : Prop :=
  ∀ ps, x.outcome = .ok ps → allComparisons ps ≤ n

namespace YieldsAtMost
variable {n k : Nat} {x y : Compiled}

theorem none (n : Nat) : YieldsAtMost n (pure []) := by
  rintro ps ⟨⟩
  exact Nat.zero_le n

theorem failing (n : Nat) (e : CompileError) : YieldsAtMost n (.fail e) := by
  rintro ps ⟨⟩

theorem mono (h : YieldsAtMost n x) (hn : n ≤ k) : YieldsAtMost k x :=
  fun ps hps => Nat.le_trans (h ps hps) hn

theorem one {p : Predicate} (hp : p.comparisons = 1) : YieldsAtMost 1 (pure [p]) := by
  rintro ps ⟨⟩
  simp [allComparisons, hp]

theorem bind {α : Type} (z : Reported CompileError α) {f : α → Compiled}
    (hf : ∀ a, YieldsAtMost n (f a)) : YieldsAtMost n (z >>= f) := by
  intro ps hps
  rw [Reported.outcome_bind] at hps
  cases hz : z.outcome with
  | error e => rw [hz] at hps; cases hps
  | ok a =>
    rw [hz] at hps
    exact hf a ps hps

theorem append (use : List Predicate → List Predicate)
    (huse : ∀ ps, allComparisons (use ps) = allComparisons ps) (hx : YieldsAtMost n x)
    (hy : YieldsAtMost k y) :
    YieldsAtMost (n + k) (x >>= fun here => y >>= fun later => pure (use here ++ later)) := by
  intro ps hps
  simp only [Reported.outcome_bind, Reported.outcome_pure] at hps
  cases hhere : x.outcome with
  | error e => rw [hhere] at hps; cases hps
  | ok here =>
    cases hlater : y.outcome with
    | error e => rw [hhere, hlater] at hps; cases hps
    | ok later =>
      rw [hhere, hlater] at hps
      obtain rfl : use here ++ later = ps := Except.ok.inj hps
      rw [Predicate.allComparisons_append, huse]
      exact Nat.add_le_add (hx here hhere) (hy later hlater)

theorem alternatives (hx : YieldsAtMost n x) :
    YieldsAtMost n (do return Filter.alternatives (← x)) := by
  intro ps hps
  rw [Reported.outcome_bind] at hps
  cases hhere : x.outcome with
  | error e => rw [hhere] at hps; cases hps
  | ok here =>
    rw [hhere] at hps
    obtain rfl : Filter.alternatives here = ps := Except.ok.inj hps
    rw [allComparisons_alternatives]
    exact hx here hhere

theorem counted {counts : Bool} (hx : YieldsAtMost n x) :
    YieldsAtMost n (if counts then x else pure []) := by
  cases counts with
  | false => exact none n
  | true => exact hx

end YieldsAtMost

section Yields
variable (m : Model)

theorem yields_membership (field : Value) (vs : List Value) :
    YieldsAtMost 1 (membership m field vs) := by
  refine .bind _ fun c => ?_
  cases c with
  | none => exact .none 1
  | some c =>
    change YieldsAtMost 1 (membershipPredicate ⟨m.table, c⟩ vs)
    unfold membershipPredicate
    split
    · exact .failing 1 _
    · exact .one rfl

theorem yields_anyOf (field : Value) (vs : List Value) : YieldsAtMost 1 (anyOf m field vs) := by
  unfold anyOf
  split
  · exact .none 1
  · exact yields_membership m field vs

theorem yields_comparison (op : Comparison) (field v : Value) :
    YieldsAtMost 1 (comparison op m field v) := by
  unfold comparison
  split
  · exact .none 1
  refine .bind _ fun c => ?_
  cases c with
  | none => exact .none 1
  | some c =>
    refine .bind _ fun w => ?_
    cases w with
    | none => exact .none 1
    | some w =>
      dsimp only
      split
      · exact .failing 1 _
      · exact .one rfl

theorem yields_containing (field v : Value) : YieldsAtMost 1 (containing m field v) := by
  unfold containing
  split
  · exact .none 1
  refine .bind _ fun c => ?_
  cases c with
  | none => exact .none 1
  | some c => exact .one rfl

theorem yields_range (field v : Value) : YieldsAtMost 1 (range m field v) := by
  unfold range
  split
  · exact .none 1
  cases bounds? field v with
  | none => exact .bind _ fun _ => .none 1
  | some b =>
    dsimp only
    split
    · exact .none 1
    refine .bind _ fun c => ?_
    cases c with
    | none => exact .none 1
    | some c =>
      refine .bind _ fun low => .bind _ fun high => ?_
      cases low <;> cases high <;> first | exact .none 1 | exact .one rfl

theorem yields_leaf (op : Operator) (field v : Value) : YieldsAtMost 1 (leaf m op field v) := by
  cases op with
  | equal => exact yields_comparison m .eq field v
  | notEqual => exact yields_comparison m .ne field v
  | less => exact yields_comparison m .le field v
  | greater => exact yields_comparison m .ge field v
  | like => exact yields_containing m field v
  | range => exact yields_range m field v
  | within =>
    change YieldsAtMost 1 (within m field v)
    unfold within
    split
    · exact yields_membership m field _
    · exact .none 1
  | or => exact .none 1
  | relation => exact .none 1

theorem yields_leafEntries (op : Operator) (es : List (String × Value)) :
    YieldsAtMost (Value.entryCount es) (leafEntries m op es) := by
  induction es with
  | nil => exact .none 0
  | cons e es ih =>
    have hv := (yields_leaf m op (.text e.1) e.2).mono (Value.one_le_count e.2)
    exact .append id (fun _ => rfl) hv ih

end Yields

section Counted
variable (s : Schema)

theorem yields_throughRelation (m : Model) (name : Value) (isEmpty : Bool)
    {conditions : Handle → Compiled} {n : Nat} (h : ∀ handle, YieldsAtMost n (conditions handle)) :
    YieldsAtMost n (throughRelation s m name isEmpty conditions) := by
  unfold throughRelation
  split
  · exact .none n
  refine .bind _ fun found => ?_
  cases found with
  | none => exact .none n
  | some handle => exact h handle

theorem yields_pairConditions {m : Model} (outer key : Value) {v : Value}
    (h : ∀ op field, YieldsAtMost v.count (entry s m op field v)) :
    YieldsAtMost v.count (pairConditions s m outer key v) := by
  unfold pairConditions
  split
  · exact h _ _
  · exact (yields_anyOf m outer [v]).mono v.one_le_count

mutual

theorem yields_compile (m : Model) (key v : Value) :
    YieldsAtMost v.count (compile s m key v) := by
  match v with
  | .object es =>
    rw [compile, Value.count]
    cases Operator.ofValue? key with
    | none => exact (yields_anyOf m key _).mono (Nat.le_add_left ..)
    | some op =>
      cases op with
      | or => exact (yields_groupEntries m es).alternatives.mono (Nat.le_succ _)
      | relation => exact (yields_relationEntries m es).mono (Nat.le_succ _)
      | _ => exact (yields_leafEntries m _ es).mono (Nat.le_succ _)
  | .list vs | .tuple vs =>
    rw [compile, Value.count]
    cases Operator.ofValue? key with
    | none => exact (yields_anyOf m key vs).mono (Nat.le_add_left ..)
    | some _ => exact .none _
  | .null | .bool _ | .int _ | .float _ | .text _ | .bytes _ | .date _ | .moment _ =>
    exact yields_containing m key _
termination_by structural v

theorem yields_entry (m : Model) (op : Operator) (field v : Value) :
    YieldsAtMost v.count (entry s m op field v) := by
  have hleaf := (yields_leaf m op field v).mono v.one_le_count
  match v with
  | .object es =>
    cases op with
    | or => exact (yields_branchEntries m field es).alternatives.mono (Nat.le_succ _)
    | relation =>
      exact yields_throughRelation s m field _
        fun h => (yields_scopedEntries h es).mono (Nat.le_succ _)
    | _ => exact hleaf
  | .list vs =>
    cases op with
    | or => exact (yields_branchItems m field 0 vs).alternatives.mono (Nat.le_succ _)
    | _ => exact hleaf
  | .tuple vs =>
    cases op with
    | or => exact (yields_branchItems m field 0 vs).alternatives.mono (Nat.le_succ _)
    | _ => exact hleaf
  | .null | .bool _ | .int _ | .float _ | .text _ | .bytes _ | .date _ | .moment _ =>
    exact hleaf
termination_by structural v

theorem yields_groupEntries (m : Model) (es : List (String × Value)) :
    YieldsAtMost (Value.entryCount es) (groupEntries s m es) := by
  match es with
  | [] => exact .none 0
  | (outer, v) :: es =>
    rw [groupEntries_cons]
    have hv : YieldsAtMost v.count (innerConditions s m (.text outer) v) := by
      match v with
      | .object pairs => exact (yields_branchEntries m (.text outer) pairs).mono (Nat.le_succ _)
      | .list vs | .tuple vs =>
        exact (yields_branchItems m (.text outer) 0 vs).mono (Nat.le_succ _)
      | .null | .bool _ | .int _ | .float _ | .text _ | .bytes _ | .date _ | .moment _ =>
        exact .none _
    exact .append id (fun _ => rfl) hv (yields_groupEntries m es)
termination_by structural es

theorem yields_branchEntries (m : Model) (outer : Value) (es : List (String × Value)) :
    YieldsAtMost (Value.entryCount es) (branchEntries s m outer es) := by
  match es with
  | [] => exact .none 0
  | (key, v) :: es =>
    rw [branchEntries_cons]
    have hv := yields_pairConditions s outer (.text key)
      fun op field => yields_entry m op field v
    exact .append _ Predicate.allComparisons_conjunction hv.counted
      (yields_branchEntries m outer es)
termination_by structural es

theorem yields_branchItems (m : Model) (outer : Value) (place : Nat) (vs : List Value) :
    YieldsAtMost (Value.itemCount vs) (branchItems s m outer place vs) := by
  match vs with
  | [] => exact .none 0
  | v :: vs =>
    rw [branchItems_cons]
    have hv := yields_pairConditions s outer (.int place)
      fun op field => yields_entry m op field v
    exact .append _ Predicate.allComparisons_conjunction hv.counted
      (yields_branchItems m outer (place + 1) vs)
termination_by structural vs

theorem yields_relationEntries (m : Model) (es : List (String × Value)) :
    YieldsAtMost (Value.entryCount es) (relationEntries s m es) := by
  match es with
  | [] => exact .none 0
  | (name, v) :: es =>
    rw [relationEntries_cons]
    have hv := yields_entry m .relation (.text name) v
    exact .append id (fun _ => rfl) hv (yields_relationEntries m es)
termination_by structural es

theorem yields_scopedEntries (h : Handle) (es : List (String × Value)) :
    YieldsAtMost (Value.entryCount es) (scopedEntries s h es) := by
  match es with
  | [] => exact .none 0
  | (key, v) :: es =>
    rw [scopedEntries_cons]
    have hv := yields_compile h.target (.text key) v
    exact .append _ (allComparisons_relatedPredicate h) hv.counted (yields_scopedEntries h es)
termination_by structural es

end

theorem yields_compileAll (m : Model) (es : List (String × Value)) :
    YieldsAtMost (Value.entryCount es) (compileAll s m es) := by
  induction es with
  | nil => exact .none 0
  | cons e es ih => exact .append id (fun _ => rfl) (yields_compile s m (.text e.1) e.2) ih

/-- Compiling a filter ends without amplification. An entry is compiled to the end with no more
calls open at once than its payload nests collections, and one; its conditions hold at most one
comparison for each value of the payload, itself included, and those of a whole filter at most one
for each value in it. -/
theorem compile_without_amplification (m : Model) :
    (∀ key v depth, v.nesting + 1 ≤ depth →
      compileWithin s depth m key (.ofValue v) = (compile s m key v).mapError .refused) ∧
    (∀ key v ps, (compile s m key v).outcome = .ok ps → allComparisons ps ≤ v.count) ∧
    ∀ es ps, (compileAll s m es).outcome = .ok ps →
      allComparisons ps ≤ Value.entryCount es := by
  refine ⟨fun key v depth hd => ?_, fun key v => ?_, fun es => ?_⟩
  · exact compileWithin_ofValue s m key v hd
  · exact yields_compile s m key v
  · exact yields_compileAll s m es

end Counted

/-- A group of alternatives, one of them a group on related records. -/
def booksOrNames : Value :=
  .object [("relation", .object [("books", .object [("or", .object [("like",
      .object [("title", .text "a"), ("genre", .text "b")])])])]),
    ("name", .list [.text "c", .text "d"])]

theorem compile_without_amplification_nested :
    booksOrNames.nesting + 1 = 6 ∧
      compileWithin Library.schema 6 Library.author (.text "or") (.ofValue booksOrNames) =
        (compile Library.schema Library.author (.text "or") booksOrNames).mapError .refused ∧
      ∃ ps, (compile Library.schema Library.author (.text "or") booksOrNames).outcome = .ok ps ∧
        allComparisons ps = 4 ∧ allComparisons ps ≤ booksOrNames.count ∧
        (compileAll Library.schema Library.author [("or", booksOrNames)]).outcome = .ok ps ∧
        allComparisons ps ≤ Value.entryCount [("or", booksOrNames)] :=
  have h := compile_without_amplification Library.schema Library.author
  ⟨rfl, h.1 (.text "or") booksOrNames 6 (by decide), _, rfl, rfl, h.2.1 (.text "or") _ _ rfl, rfl,
    h.2.2 [("or", booksOrNames)] _ rfl⟩

end Filter

end Records
