import Records.Proofs.Listing.Entries

/-!
What the log entries of a listing hold. Values from outside are cut before they are logged; the
names that a filter or a sort asks for are not, so an entry is as long as the longest of them.
-/
namespace Records

/-- Whether a text in the data of a log entry is as short as a value is cut to. -/
def IsShort (t : String) : Prop := t.length ≤ maxLoggedLength + 3

instance (t : String) : Decidable (IsShort t) := inferInstanceAs (Decidable (_ ≤ _))

def LogEntry.Says (P : String → Prop) (e : LogEntry) : Prop := ∀ d ∈ e.data, d.2.Says P

/-- All texts in the data that a computation logs have a property. -/
def Reported.Says {ε α : Type} (P : String → Prop) (x : Reported ε α) : Prop :=
  ∀ e ∈ x.log, e.Says P

theorem isShort_truncatedText (s : String) : IsShort (truncatedText maxLoggedLength s) := by
  unfold IsShort truncatedText maxLoggedLength
  split
  · omega
  · simp only [String.length_append, String.length_ofList, List.length_take]
    have hdots : "...".length = 3 := by decide
    split <;> omega

/-- A value that is cut is short, whatever it was. -/
theorem Value.says_truncated {P : String → Prop} (v : Value) (hP : ∀ t, IsShort t → P t) :
    v.truncated.Says P := hP _ (isShort_truncatedText _)

section Says
variable {P : String → Prop}

theorem LogEntry.says_pair {level : Level} {reporter : Reporter} {message a b : String}
    {v w : Value} (hv : v.Says P) (hw : w.Says P) :
    (⟨level, reporter, message, [(a, v), (b, w)]⟩ : LogEntry).Says P := by
  intro d hd
  rcases List.mem_cons.1 hd with rfl | hd
  · exact hv
  · rw [List.mem_singleton.1 hd]
    exact hw

theorem LogEntry.says_singleton {level : Level} {reporter : Reporter} {message a : String}
    {v : Value} (hv : v.Says P) : (⟨level, reporter, message, [(a, v)]⟩ : LogEntry).Says P := by
  intro d hd
  rw [List.mem_singleton.1 hd]
  exact hv

end Says

/-- A property that short texts have, and the names of models and columns. -/
structure Schema.Allows (s : Schema) (P : String → Prop) : Prop where
  short : ∀ t, IsShort t → P t
  model : ∀ m ∈ s.models, P m.name
  column : ∀ m ∈ s.models, ∀ c ∈ m.columns, P c.name

theorem Schema.Allows.names {s : Schema} {P : String → Prop} (hP : s.Allows P) : s.Names P :=
  ⟨hP.model, hP.column⟩

namespace Filter

mutual

/-- The names in a filter: the keys of its objects, at any depth. -/
def names : Value → List String
  | .list xs => itemNames xs
  | .tuple xs => itemNames xs
  | .object es => entryNames es
  | _ => []

def itemNames : List Value → List String
  | [] => []
  | x :: xs => names x ++ itemNames xs

def entryNames : List (String × Value) → List String
  | [] => []
  | (key, x) :: es => key :: (names x ++ entryNames es)

end

mutual

theorem covers_of_names {P : String → Prop} (v : Value) (hv : ∀ t ∈ names v, P t) :
    Covers P (fun _ => True) v := by
  match v with
  | .list xs | .tuple xs => exact ⟨trivial, itemsCover_of_names xs hv⟩
  | .object es => exact ⟨trivial, entriesCover_of_names es hv⟩
  | .null | .bool _ | .int _ | .float _ | .text _ | .bytes _ | .date _ | .moment _ =>
    exact trivial
termination_by structural v

theorem itemsCover_of_names {P : String → Prop} (xs : List Value)
    (hxs : ∀ t ∈ itemNames xs, P t) : ItemsCover P (fun _ => True) xs := by
  match xs with
  | [] => exact trivial
  | x :: xs =>
    rw [itemNames, List.forall_mem_append] at hxs
    exact ⟨covers_of_names x hxs.1, itemsCover_of_names xs hxs.2⟩
termination_by structural xs

theorem entriesCover_of_names {P : String → Prop} (es : List (String × Value))
    (hes : ∀ t ∈ entryNames es, P t) : EntriesCover P (fun _ => True) es := by
  match es with
  | [] => exact trivial
  | (key, x) :: es =>
    rw [entryNames, List.forall_mem_cons, List.forall_mem_append] at hes
    exact ⟨hes.1, covers_of_names x hes.2.1, entriesCover_of_names es hes.2.2⟩
termination_by structural es

end

/-- An entry says the names that it is about, and the value as it is cut. -/
theorem Reports.says_names {s : Schema} {P : String → Prop} {V : Value → Prop} {e : LogEntry}
    (hs : s.Names P) (hV : ∀ v, V v → v.truncated.Says P) (h : Reports s P V e) : e.Says P := by
  cases h with
  | column hm hf => exact LogEntry.says_pair (hs.model _ hm) hf
  | relation hm hn => exact LogEntry.says_pair (hs.model _ hm) hn
  | range hf hv => exact LogEntry.says_pair hf (hV _ hv)
  | unreadable hm hc hv => exact LogEntry.says_pair (hs.column _ hm _ hc) (hV _ hv)

theorem says_compileAll {s : Schema} {P : String → Prop} (hP : s.Allows P) {m : Model}
    (hm : m ∈ s.models) (es : List (String × Value)) (hes : ∀ t ∈ entryNames es, P t) :
    (compileAll s m es).Says P :=
  (logs_compileAll hm es (entriesCover_of_names es hes)).imp fun _ =>
    Reports.says_names hP.names fun v _ => v.says_truncated hP.short

section Whole
variable {s : Schema} {m : Model}

/-- The entry about a name that no column has. -/
def unknownColumn (m : Model) (name : String) : LogEntry :=
  ⟨.warning, .filters, "Unknown filter column skipped",
    [("model", .text m.name), ("field", .text name)]⟩

/-- The entry about a name that no relation has. -/
def unknownRelation (m : Model) (name : String) : LogEntry :=
  ⟨.warning, .filters, "Unknown filter relation skipped",
    [("model", .text m.name), ("relation", .text name)]⟩

theorem log_fieldColumn_then {ε β : Type} {name : String} (h : m.column? name = none)
    {f : Option Column → Reported ε β} (hf : (f none).log = []) :
    ((fieldColumn m (.text name) : Reported ε _) >>= f).log = [unknownColumn m name] := by
  rw [Reported.log_bind_of_ok (by rw [outcome_fieldColumn, h]) f, hf, List.append_nil]
  unfold fieldColumn
  dsimp only
  rw [h]
  rfl

theorem log_anyOf_of_none {name : String} (h : m.column? name = none) {vs : List Value}
    (hvs : vs ≠ []) : (anyOf m (.text name) vs).log = [unknownColumn m name] := by
  rw [anyOf, if_neg (by simpa using hvs)]
  exact log_fieldColumn_then h rfl

theorem log_compile_of_none {name : String} (hop : Operator.ofKey? name = none)
    (h : m.column? name = none) {v : Value} (hv : v.isPresent) :
    (compile s m (.text name) v).log = [unknownColumn m name] := by
  match v with
  | .object es =>
    simp only [compile, Operator.ofValue?, hop]
    exact log_anyOf_of_none h (by cases es <;> simp_all [Value.isPresent])
  | .list vs =>
    simp only [compile, Operator.ofValue?, hop]
    exact log_anyOf_of_none h (by cases vs <;> simp_all [Value.isPresent])
  | .tuple vs =>
    simp only [compile, Operator.ofValue?, hop]
    exact log_anyOf_of_none h (by cases vs <;> simp_all [Value.isPresent])
  | .null | .bool _ | .int _ | .float _ | .text _ | .bytes _ | .date _ | .moment _ =>
    simp only [compile, containing, hv, Bool.not_true, Bool.false_eq_true, if_false]
    exact log_fieldColumn_then h rfl

theorem log_throughRelation_of_none {name : String} (h : s.resolve? m name = none)
    (f : Handle → Compiled) :
    throughRelation s m (.text name) false f = ⟨[unknownRelation m name], .ok []⟩ := by
  unfold throughRelation fieldRelation
  dsimp only [Schema.resolveValue?]
  rw [h]
  rfl

theorem log_relation_of_none {name : String} (h : s.resolve? m name = none)
    {inner : List (String × Value)} (hinner : inner ≠ []) :
    (compile s m (.text "relation") (.object [(name, .object inner)])).log =
      [unknownRelation m name] := by
  have hop : Operator.ofValue? (.text "relation") = some .relation := by decide
  obtain ⟨e, es, rfl⟩ := List.exists_cons_of_ne_nil hinner
  simp only [compile, hop, relationEntries, List.isEmpty_cons, log_throughRelation_of_none h]
  rfl

theorem log_compileAll_singleton (s : Schema) (m : Model) (e : String × Value) :
    (compileAll s m [e]).log = (compile s m (.text e.1) e.2).log := by
  change ((compile s m (.text e.1) e.2).bind fun ps => Pure.pure (ps ++ [])).log = _
  unfold Reported.bind
  split
  · exact List.append_nil _
  · rfl

end Whole

end Filter

namespace Listing

section Params
variable {ε : Type}

/-- An entry about a parameter says it as it is cut. -/
theorem Reports.says_cut {P : String → Prop} {V : Value → Prop} {e : LogEntry}
    (hV : ∀ v, V v → v.truncated.Says P) (h : Reports V e) : e.Says P := by
  cases h with
  | notObject hv | malformed hv | sort hv => exact LogEntry.says_singleton (hV _ hv)

/-- Reading the parameters logs nothing but cut values. -/
theorem says_readParams (raw : Value) : (readParams raw).Says IsShort :=
  (logs_readParams raw fun _ _ _ => trivial).imp fun _ =>
    Reports.says_cut fun v (_ : True) => v.says_truncated fun _ h => h

/-- The entry about a sort field that no column has. -/
def unknownSort (m : Model) (field : String) : LogEntry :=
  ⟨.warning, .listing, "Unknown sort column skipped",
    [("model", .text m.name), ("field", .text field)]⟩

/-- A sort logs its field as it is, and only where no column has it. -/
theorem log_applySort (q : Query) (sort : SortSpec) :
    (applySort q (some sort) : Reported ε _).log =
      if q.model.hasColumn sort.field then [] else [unknownSort q.model sort.field] := by
  unfold applySort Model.hasColumn
  dsimp only
  cases q.model.column? sort.field <;> rfl

end Params

/-- What a listing logs is short but for the names that its filter and its sort ask for, and those
are logged as they are where the model has no such column or relation. -/
theorem says_short_but_names {s : Schema} (hs : s.Allows IsShort) {m : Model}
    (hm : m ∈ s.models) :
    (∀ raw, (readParams raw).Says IsShort) ∧
    (∀ es, (Filter.compileAll s m es).Says fun t => IsShort t ∨ t ∈ Filter.entryNames es) ∧
    (∀ name v, Filter.Operator.ofKey? name = none → m.column? name = none → v.isPresent →
      (Filter.compileAll s m [(name, v)]).log = [Filter.unknownColumn m name]) ∧
    (∀ name inner, s.resolve? m name = none → inner ≠ [] →
      (Filter.compileAll s m [("relation", .object [(name, .object inner)])]).log =
        [Filter.unknownRelation m name]) ∧
    ∀ (q : Query) (sort : SortSpec), q.model = m →
      (applySort q (some sort) : Reported ParamsError _).log =
        if m.hasColumn sort.field then [] else [unknownSort m sort.field] := by
  refine ⟨says_readParams, fun es => ?_, fun name v hop hc hv => ?_, fun name inner hr hi => ?_,
    fun q sort hq => ?_⟩
  · have hallows : s.Allows fun t => IsShort t ∨ t ∈ Filter.entryNames es :=
      ⟨fun _ => .inl, fun m hm => .inl (hs.model m hm),
        fun m hm c hc => .inl (hs.column m hm c hc)⟩
    exact Filter.says_compileAll hallows hm es fun _ => .inr
  · rw [Filter.log_compileAll_singleton, Filter.log_compile_of_none hop hc hv]
  · rw [Filter.log_compileAll_singleton, Filter.log_relation_of_none hr hi]
  · rw [log_applySort, hq]

theorem library_allows_short : Library.schema.Allows IsShort :=
  ⟨fun _ h => h, by decide, by decide⟩

/-- A name that is too long names no column, and no operator. -/
theorem column?_of_not_short {s : Schema} (hs : s.Allows IsShort) {m : Model} (hm : m ∈ s.models)
    {name : String} (h : ¬ IsShort name) : m.column? name = none := by
  cases hc : m.column? name with
  | none => rfl
  | some c =>
    obtain rfl : c.name = name := by simpa using List.find?_some hc
    exact (h (hs.column m hm c (List.mem_of_find?_eq_some hc))).elim

theorem ofKey?_of_not_short {name : String} (h : ¬ IsShort name) :
    Filter.Operator.ofKey? name = none := by
  cases hop : Filter.Operator.ofKey? name with
  | none => rfl
  | some op =>
    obtain rfl := Filter.Operator.key_of_ofKey? hop
    exact (h (by cases op <;> decide)).elim

/-- A name of 250 letters. -/
def longName : String := String.ofList (List.replicate 250 'x')

theorem not_isShort_longName : ¬ IsShort longName := by
  have hlength : longName.length = 250 := by
    unfold longName
    rw [String.length_ofList, List.length_replicate]
  unfold IsShort maxLoggedLength
  omega

/-- In a filter it is logged with all its letters; a text as long is cut. -/
theorem library_logs_longName :
    ¬ IsShort longName ∧
    (Filter.compileAll Library.schema Library.author [(longName, .text "a")]).log =
      [Filter.unknownColumn Library.author longName] ∧
    (readParams (.object [("sort", .text longName)])).Says IsShort := by
  have hauthor : Library.author ∈ Library.schema.models := by decide
  have h := says_short_but_names library_allows_short hauthor
  have hcolumn := column?_of_not_short library_allows_short hauthor not_isShort_longName
  have hkey := ofKey?_of_not_short not_isShort_longName
  exact ⟨not_isShort_longName, h.2.2.1 longName _ hkey hcolumn (by decide), h.1 _⟩

end Listing

end Records
