import Records.Listing.Params
import Records.Proofs.Filter.Selection

/-!
Which log entries a listing makes. Compiling a filter makes entries of four forms, about keys and
values that the filter holds at some depth; reading the parameters makes entries of three, each
about a parameter.
-/
namespace Records

/-- Whether a datum is a number, or a text with a property. -/
def Value.Says (P : String → Prop) : Value → Prop
  | .text t => P t
  | .int _ => True
  | _ => False

theorem Value.says_text {P : String → Prop} {t : String} (ht : P t) : (Value.text t).Says P := ht

/-- All entries that a computation makes have a property. -/
def Reported.Logs {ε α : Type} (Q : LogEntry → Prop) (x : Reported ε α) : Prop := ∀ e ∈ x.log, Q e

namespace Reported
variable {ε α β : Type} {Q R : LogEntry → Prop}

theorem log_bind_of_ok {x : Reported ε α} {a : α} (hx : x.outcome = .ok a)
    (f : α → Reported ε β) : (x >>= f).log = x.log ++ (f a).log := by
  change (x.bind f).log = _
  unfold Reported.bind
  rw [hx]

theorem Logs.imp {x : Reported ε α} (hx : x.Logs Q) (h : ∀ e, Q e → R e) : x.Logs R :=
  fun e he => h e (hx e he)

theorem logs_pure (a : α) : (Pure.pure a : Reported ε α).Logs Q := fun _ he => nomatch he

theorem logs_fail (e : ε) : (fail e : Reported ε α).Logs Q := fun _ he => nomatch he

theorem logs_ofExcept (x : Except ε α) : (ofExcept x).Logs Q := fun _ he => nomatch he

theorem Logs.bind {x : Reported ε α} {f : α → Reported ε β} (hx : x.Logs Q)
    (hf : ∀ a, x.outcome = .ok a → (f a).Logs Q) : (x >>= f).Logs Q := by
  change (x.bind f).Logs Q
  unfold Reported.bind
  split
  · rename_i a ha
    intro e he
    rcases List.mem_append.1 he with he | he
    · exact hx e he
    · exact hf a ha e he
  · exact hx

theorem Logs.map {x : Reported ε α} (hx : x.Logs Q) (f : α → β) :
    (x >>= fun a => Pure.pure (f a)).Logs Q := hx.bind fun _ _ => logs_pure _

/-- An entry that a computation makes before it returns. -/
theorem logs_entry_then {e : LogEntry} (he : Q e) (a : α) :
    (do entry e; return a : Reported ε α).Logs Q :=
  fun _ he' => List.mem_singleton.1 he' ▸ he

end Reported

/-- A property that the names of models and columns have. -/
structure Schema.Names (s : Schema) (P : String → Prop) : Prop where
  model : ∀ m ∈ s.models, P m.name
  column : ∀ m ∈ s.models, ∀ c ∈ m.columns, P c.name

theorem Schema.mem_models_of_resolve? {s : Schema} {m : Model} {name : String} {h : Handle}
    (hh : s.resolve? m name = some h) : h.target ∈ s.models := by
  obtain ⟨declared, hh⟩ := exists_handle?_of_resolve? hh
  exact List.mem_of_find?_eq_some (handle?_eq_some.1 hh).2.1

namespace Filter

/-- The entries that compiling may make: about a field or a relation that the model lacks, about a
range without bounds, and about a text that is no value of its column. -/
inductive Reports (s : Schema) (F : String → Prop) (V : Value → Prop) : LogEntry → Prop
  | column {m : Model} {field : Value} (hm : m ∈ s.models) (hf : field.Says F) :
    Reports s F V ⟨.warning, .filters, "Unknown filter column skipped",
      [("model", .text m.name), ("field", field)]⟩
  | relation {m : Model} {name : Value} (hm : m ∈ s.models) (hn : name.Says F) :
    Reports s F V ⟨.warning, .filters, "Unknown filter relation skipped",
      [("model", .text m.name), ("relation", name)]⟩
  | range {field v : Value} (hf : field.Says F) (hv : V v) :
    Reports s F V ⟨.debug, .filters, "Range filter ignored",
      [("field", field), ("value", v.truncated)]⟩
  | unreadable {m : Model} {c : Column} {v : Value} (hm : m ∈ s.models) (hc : c ∈ m.columns)
      (hv : V v) : Reports s F V (unreadableEntry c v)

mutual

/-- Whether the keys in a value have one property, and the value and all inside it another. -/
def Covers (F : String → Prop) (V : Value → Prop) : Value → Prop
  | .list xs => V (.list xs) ∧ ItemsCover F V xs
  | .tuple xs => V (.tuple xs) ∧ ItemsCover F V xs
  | .object es => V (.object es) ∧ EntriesCover F V es
  | v => V v

def ItemsCover (F : String → Prop) (V : Value → Prop) : List Value → Prop
  | [] => True
  | x :: xs => Covers F V x ∧ ItemsCover F V xs

def EntriesCover (F : String → Prop) (V : Value → Prop) : List (String × Value) → Prop
  | [] => True
  | (key, x) :: es => F key ∧ Covers F V x ∧ EntriesCover F V es

end

section Compile
variable {s : Schema} {F : String → Prop} {V : Value → Prop} {m : Model} {field : Value}

theorem Covers.self {v : Value} (h : Covers F V v) : V v := by
  match v with
  | .list _ | .tuple _ | .object _ => exact h.1
  | .null | .bool _ | .int _ | .float _ | .text _ | .bytes _ | .date _ | .moment _ => exact h

theorem Covers.of_bounds {v low high : Value} (h : Covers F V v)
    (hb : bounds? field v = some (low, high)) : V low ∧ V high := by
  have hitems : v.items? = some [low, high] := by
    unfold bounds? at hb
    split at hb
    · cases hb
      assumption
    · cases hb
  cases v with
  | list xs | tuple xs =>
    cases hitems
    exact ⟨h.2.1.self, h.2.2.1.self⟩
  | _ => cases hitems

theorem logs_fieldColumn {ε : Type} (hm : m ∈ s.models) (hf : field.Says F) :
    (fieldColumn m field : Reported ε _).Logs (Reports s F V) := by
  unfold fieldColumn
  dsimp only
  split
  · exact Reported.logs_pure _
  · exact Reported.logs_entry_then (.column hm hf) none

theorem logs_fieldRelation {ε : Type} {name : Value} (hm : m ∈ s.models) (hn : name.Says F) :
    (fieldRelation s m name : Reported ε _).Logs (Reports s F V) := by
  unfold fieldRelation
  split
  · exact Reported.logs_pure _
  · exact Reported.logs_entry_then (.relation hm hn) none

/-- A relation that is found leads to a model of the schema. -/
theorem mem_models_of_fieldRelation {ε : Type} {name : Value} {h : Handle}
    (hh : (fieldRelation s m name : Reported ε _).outcome = .ok (some h)) :
    h.target ∈ s.models := by
  unfold fieldRelation at hh
  split at hh
  · rename_i found hfound
    cases hh
    cases name with
    | text name => exact Schema.mem_models_of_resolve? hfound
    | _ => cases hfound
  · cases hh

theorem logs_coerce {ε : Type} {c : Column} (hm : m ∈ s.models) (hc : c ∈ m.columns) {v : Value}
    (hv : V v) : (coerce c v : Reported ε _).Logs (Reports s F V) := by
  unfold coerce
  split
  · exact Reported.logs_pure _
  · exact Reported.logs_entry_then (.unreadable hm hc hv) none

variable (hm : m ∈ s.models) (hf : field.Says F)
include hm hf

/-- A column that is found is one of the model. -/
theorem logs_withColumn {ε β : Type} {f : Option Column → Reported ε β}
    (hnone : (f none).Logs (Reports s F V))
    (hsome : ∀ c ∈ m.columns, (f (some c)).Logs (Reports s F V)) :
    ((fieldColumn m field : Reported ε _) >>= f).Logs (Reports s F V) := by
  refine (logs_fieldColumn hm hf).bind fun found hfound => ?_
  cases found with
  | none => exact hnone
  | some c =>
    refine hsome c ?_
    cases field with
    | text name =>
      rw [outcome_fieldColumn] at hfound
      exact List.mem_of_find?_eq_some (Except.ok.inj hfound)
    | _ => cases hfound

theorem logs_membership (vs : List Value) : (membership m field vs).Logs (Reports s F V) := by
  refine logs_withColumn hm hf (Reported.logs_pure _) fun c _ => ?_
  change (membershipPredicate ⟨m.table, c⟩ vs).Logs (Reports s F V)
  unfold membershipPredicate
  split
  · exact Reported.logs_fail _
  · exact Reported.logs_pure _

theorem logs_anyOf (vs : List Value) : (anyOf m field vs).Logs (Reports s F V) := by
  unfold anyOf
  split
  · exact Reported.logs_pure _
  · exact logs_membership hm hf vs

theorem logs_containing (v : Value) : (containing m field v).Logs (Reports s F V) := by
  unfold containing
  split
  · exact Reported.logs_pure _
  · exact logs_withColumn hm hf (Reported.logs_pure _) fun _ _ => Reported.logs_pure _

theorem logs_comparison (op : Comparison) {v : Value} (hv : V v) :
    (comparison op m field v).Logs (Reports s F V) := by
  unfold comparison
  split
  · exact Reported.logs_pure _
  · refine logs_withColumn hm hf (Reported.logs_pure _) fun c hc => ?_
    refine (logs_coerce hm hc hv).bind fun w _ => ?_
    cases w with
    | none => exact Reported.logs_pure _
    | some w =>
      dsimp only
      split
      · exact Reported.logs_fail _
      · exact Reported.logs_pure _

theorem logs_range {v : Value} (hv : Covers F V v) : (range m field v).Logs (Reports s F V) := by
  unfold range
  split
  · exact Reported.logs_pure _
  · split
    · exact Reported.logs_entry_then (.range hf hv.self) []
    · rename_i low high hbounds
      obtain ⟨hlow, hhigh⟩ := hv.of_bounds hbounds
      split
      · exact Reported.logs_pure _
      · refine logs_withColumn hm hf (Reported.logs_pure _) fun c hc => ?_
        refine (logs_coerce hm hc hlow).bind fun low _ => ?_
        refine (logs_coerce hm hc hhigh).bind fun high _ => ?_
        split
        · exact Reported.logs_pure _
        · exact Reported.logs_pure _

/-- An entry of an operator reports its own field and its own values. -/
theorem logs_leaf (op : Operator) {v : Value} (hv : Covers F V v) :
    (leaf m op field v).Logs (Reports s F V) := by
  cases op with
  | equal => exact logs_comparison hm hf .eq hv.self
  | notEqual => exact logs_comparison hm hf .ne hv.self
  | less => exact logs_comparison hm hf .le hv.self
  | greater => exact logs_comparison hm hf .ge hv.self
  | like => exact logs_containing hm hf v
  | range => exact logs_range hm hf hv
  | within =>
    change (within m field v).Logs (Reports s F V)
    unfold within
    split
    · exact logs_membership hm hf _
    · exact Reported.logs_pure _
  | or => exact Reported.logs_pure _
  | relation => exact Reported.logs_pure _

end Compile

section Walk
variable {s : Schema} {F : String → Prop} {V : Value → Prop} {m : Model}

/-- The pairs under a key are applied in either order, so either may be the field. -/
theorem field_of_branchTarget {outer key field : Value} {op : Operator}
    (h : branchTarget outer key = some (op, field)) (ho : outer.Says F) (hk : key.Says F) :
    field.Says F := by
  unfold branchTarget at h
  split at h
  · cases h
    exact hk
  · obtain ⟨_, _, heq⟩ := Option.map_eq_some_iff.1 h
    cases heq
    exact ho

theorem logs_leafEntries (hm : m ∈ s.models) (op : Operator) (es : List (String × Value))
    (hes : EntriesCover F V es) : (leafEntries m op es).Logs (Reports s F V) := by
  induction es with
  | nil => exact Reported.logs_pure _
  | cons e es ih =>
    exact (logs_leaf hm (Value.says_text hes.1) op hes.2.1).bind fun _ _ => (ih hes.2.2).map _

theorem logs_throughRelation (hm : m ∈ s.models) {name : Value} (hname : name.Says F)
    (isEmpty : Bool) {f : Handle → Compiled}
    (hf : ∀ h, h.target ∈ s.models → (f h).Logs (Reports s F V)) :
    (throughRelation s m name isEmpty f).Logs (Reports s F V) := by
  unfold throughRelation
  split
  · exact Reported.logs_pure _
  · refine (logs_fieldRelation hm hname).bind fun found hfound => ?_
    cases found with
    | none => exact Reported.logs_pure _
    | some h => exact hf h (mem_models_of_fieldRelation hfound)

-- Compiling walks the payload; each field it may report is a key above or inside it, or the place
-- of an item in a list, which is a number.
mutual

theorem logs_compile {m : Model} (hm : m ∈ s.models) {key : String} (hkey : F key)
    (v : Value) (hv : Covers F V v) : (compile s m (.text key) v).Logs (Reports s F V) := by
  have hlisted (vs : List Value) : (anyOf m (.text key) vs).Logs (Reports s F V) :=
    logs_anyOf hm (Value.says_text hkey) vs
  match v with
  | .object es =>
    rw [compile]
    split
    · exact hlisted _
    · exact (logs_groupEntries hm es hv.2).map _
    · exact logs_relationEntries hm es hv.2
    · exact logs_leafEntries hm _ es hv.2
  | .list vs =>
    rw [compile]
    split
    · exact hlisted vs
    · exact Reported.logs_pure _
  | .tuple vs =>
    rw [compile]
    split
    · exact hlisted vs
    · exact Reported.logs_pure _
  | .null | .bool _ | .int _ | .float _ | .text _ | .bytes _ | .date _ | .moment _ =>
    exact logs_containing hm (Value.says_text hkey) _

theorem logs_entry {m : Model} (hm : m ∈ s.models) (op : Operator) (field : Value)
    (hf : field.Says F) (v : Value) (hv : Covers F V v) :
    (entry s m op field v).Logs (Reports s F V) := by
  have hleaf (op : Operator) : (leaf m op field v).Logs (Reports s F V) := logs_leaf hm hf op hv
  match v with
  | .object es =>
    cases op with
    | or => exact (logs_branchEntries hm hf es hv.2).map _
    | relation =>
      exact logs_throughRelation hm hf _ fun h hh => logs_scopedEntries hh es hv.2
    | _ => exact hleaf _
  | .list vs =>
    cases op with
    | or => exact (logs_branchItems hm hf 0 vs hv.2).map _
    | _ => exact hleaf _
  | .tuple vs =>
    cases op with
    | or => exact (logs_branchItems hm hf 0 vs hv.2).map _
    | _ => exact hleaf _
  | .null | .bool _ | .int _ | .float _ | .text _ | .bytes _ | .date _ | .moment _ =>
    exact hleaf op

theorem logs_groupEntries {m : Model} (hm : m ∈ s.models) (es : List (String × Value))
    (hes : EntriesCover F V es) : (groupEntries s m es).Logs (Reports s F V) := by
  match es with
  | [] => exact Reported.logs_pure _
  | (outer, v) :: es =>
    obtain ⟨houter, hv, hes⟩ := hes
    have ho := Value.says_text houter
    have hrest := logs_groupEntries hm es hes
    match v with
    | .object pairs =>
      exact (logs_branchEntries hm ho pairs hv.2).bind fun _ _ => hrest.map _
    | .list vs => exact (logs_branchItems hm ho 0 vs hv.2).bind fun _ _ => hrest.map _
    | .tuple vs => exact (logs_branchItems hm ho 0 vs hv.2).bind fun _ _ => hrest.map _
    | .null | .bool _ | .int _ | .float _ | .text _ | .bytes _ | .date _ | .moment _ =>
      exact (Reported.logs_pure _).bind fun _ _ => hrest.map _

theorem logs_branchEntries {m : Model} (hm : m ∈ s.models) {outer : Value} (ho : outer.Says F)
    (es : List (String × Value)) (hes : EntriesCover F V es) :
    (branchEntries s m outer es).Logs (Reports s F V) := by
  match es with
  | [] => exact Reported.logs_pure _
  | (key, v) :: es =>
    obtain ⟨hkey, hv, hes⟩ := hes
    have hrest := logs_branchEntries hm ho es hes
    rw [branchEntries]
    split
    · split
      · rename_i op field htarget
        have hf := field_of_branchTarget htarget ho hkey
        exact (logs_entry hm op field hf v hv).bind fun _ _ => hrest.map _
      · exact (logs_anyOf hm ho [v]).bind fun _ _ => hrest.map _
    · exact (Reported.logs_pure _).bind fun _ _ => hrest.map _

theorem logs_branchItems {m : Model} (hm : m ∈ s.models) {outer : Value} (ho : outer.Says F)
    (place : Nat) (vs : List Value) (hvs : ItemsCover F V vs) :
    (branchItems s m outer place vs).Logs (Reports s F V) := by
  match vs with
  | [] => exact Reported.logs_pure _
  | v :: vs =>
    have hrest := logs_branchItems hm ho (place + 1) vs hvs.2
    rw [branchItems]
    split
    · split
      · rename_i op field htarget
        have hf := field_of_branchTarget htarget ho trivial
        exact (logs_entry hm op field hf v hvs.1).bind fun _ _ => hrest.map _
      · exact (logs_anyOf hm ho [v]).bind fun _ _ => hrest.map _
    · exact (Reported.logs_pure _).bind fun _ _ => hrest.map _

theorem logs_relationEntries {m : Model} (hm : m ∈ s.models) (es : List (String × Value))
    (hes : EntriesCover F V es) : (relationEntries s m es).Logs (Reports s F V) := by
  match es with
  | [] => exact Reported.logs_pure _
  | (name, v) :: es =>
    obtain ⟨hname, hv, hes⟩ := hes
    have hrest := logs_relationEntries hm es hes
    match v with
    | .object inner =>
      exact (logs_throughRelation hm (Value.says_text hname) _ fun h hh =>
        logs_scopedEntries hh inner hv.2).bind fun _ _ => hrest.map _
    | .list _ | .tuple _ | .null | .bool _ | .int _ | .float _ | .text _ | .bytes _ | .date _
    | .moment _ => exact (Reported.logs_pure _).bind fun _ _ => hrest.map _

theorem logs_scopedEntries {h : Handle} (hm : h.target ∈ s.models) (es : List (String × Value))
    (hes : EntriesCover F V es) : (scopedEntries s h es).Logs (Reports s F V) := by
  match es with
  | [] => exact Reported.logs_pure _
  | (key, v) :: es =>
    obtain ⟨hkey, hv, hes⟩ := hes
    have hrest := logs_scopedEntries hm es hes
    rw [scopedEntries]
    split
    · exact (logs_compile hm hkey v hv).bind fun _ _ => hrest.map _
    · exact (Reported.logs_pure _).bind fun _ _ => hrest.map _

end

/-- A whole filter is reported in entries of the four forms, about what it holds. -/
theorem logs_compileAll (hm : m ∈ s.models) (es : List (String × Value))
    (hes : EntriesCover F V es) : (compileAll s m es).Logs (Reports s F V) := by
  induction es with
  | nil => exact Reported.logs_pure _
  | cons e es ih =>
    exact (logs_compile hm hes.1 e.2 hes.2.1).bind fun _ _ => (ih hes.2.2).map _

end Walk

end Filter

namespace Listing

/-- The entries that reading the parameters may make, about the filter and the sort. -/
inductive Reports (V : Value → Prop) : LogEntry → Prop
  | notObject {raw : Value} (hv : V raw) : Reports V ⟨.warning, .listing,
      "Filter parameter is not an object, ignored", [("filter", raw.truncated)]⟩
  | malformed {raw : Value} (hv : V raw) : Reports V ⟨.warning, .listing,
      "Malformed filter parameter ignored", [("filter", raw.truncated)]⟩
  | sort {raw : Value} (hv : V raw) : Reports V ⟨.debug, .listing,
      "Sort parameter ignored", [("sort", raw.truncated)]⟩

section Params
variable {ε : Type} {V : Value → Prop} {raw : Value} (hraw : V raw)
include hraw

theorem logs_filterOfDocument (document : Except Json.ReadError Value) :
    (filterOfDocument raw document).Logs (Reports V) := by
  unfold filterOfDocument
  split
  · exact Reported.logs_pure _
  · exact Reported.logs_entry_then (.notObject hraw) []
  · exact Reported.logs_entry_then (.malformed hraw) []
  · exact Reported.logs_fail _

theorem logs_readFilter : (readFilter raw).Logs (Reports V) := by
  unfold readFilter
  split
  · exact Reported.logs_pure _
  · split
    · exact Reported.logs_pure _
    · exact logs_filterOfDocument hraw _
    · exact logs_filterOfDocument hraw _
    · exact logs_filterOfDocument hraw _

theorem logs_readSort : (readSort raw : Reported ε _).Logs (Reports V) := by
  unfold readSort
  split
  · split
    · exact Reported.logs_pure _
    · split
      · exact Reported.logs_pure _
      · exact Reported.logs_entry_then (.sort hraw) none
  · exact Reported.logs_pure _

end Params

/-- Reading the parameters reports the filter and the sort that were given, if anything. -/
theorem logs_readParams {V : Value → Prop} (raw : Value)
    (h : ∀ es key, raw = .object es → V ((Value.lookup? key es).getD .null)) :
    (readParams raw).Logs (Reports V) := by
  unfold readParams
  split
  · exact Reported.logs_pure _
  · split
    · refine (logs_readFilter (h _ "filter" rfl)).bind fun _ _ =>
        (logs_readSort (h _ "sort" rfl)).bind fun _ _ => ?_
      refine (Reported.logs_ofExcept _).bind fun _ _ => ?_
      exact (Reported.logs_ofExcept _).bind fun _ _ => Reported.logs_pure _
    · exact Reported.logs_fail _

end Listing

end Records
