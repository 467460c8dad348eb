import Records.Proofs.Record.Hidden
import Records.Record.Eager

/-!
What is loaded of a record. Reading a column or a relation that is loaded needs nothing but the
record, and showing a record needs nothing else as long as it shows only what is loaded. Columns are
shown whether they are loaded or not, and so are appended attributes; of the relations, those that
are loaded are shown.
-/
namespace Records

/-- The columns that an attribute is computed from. -/
def Computed.columns : Computed → List String
  | .annotated main note => [main, note]
  | .isSet column => [column]

theorem Model.hasColumn_of_mem {m : Model} {name : String} (h : name ∈ m.columnNames) :
    m.hasColumn name = true := by
  obtain ⟨column, hmem, rfl⟩ := List.mem_map.1 h
  exact List.find?_isSome.2 ⟨column, hmem, by simp⟩

namespace Node

/-- Whether an attribute is a relation that is not loaded. -/
def isLazy (n : Node) (name : String) : Bool :=
  !n.model.hasColumn name && (n.model.relation? name).isSome && (n.related? name).isNone

/-- Whether an attribute is a column that is not loaded, or is computed from one. -/
def isDeferred (n : Node) (name : String) : Bool :=
  if n.model.hasColumn name then n.deferred.contains name
  else (n.model.relation? name).isNone &&
    (n.model.computed.find? (·.1 == name)).any fun c => c.2.columns.any n.deferred.contains

/-- Whether what is loaded is enough to read an attribute. -/
def isLoaded (n : Node) (name : String) : Bool := !n.isLazy name && !n.isDeferred name

theorem isLoaded_eq_false {n : Node} {name : String} :
    n.isLoaded name = false ↔ n.isLazy name = true ∨ n.isDeferred name = true := by
  unfold isLoaded
  cases n.isLazy name <;> simp

theorem isDeferred_of_nil {n : Node} (h : n.deferred = []) (name : String) :
    n.isDeferred name = false := by
  have hnone : (fun c : String × Computed => c.2.columns.any ([] : List String).contains) =
      fun _ => false := funext fun c => by simp
  unfold isDeferred
  rw [h, hnone]
  cases n.model.computed.find? (·.1 == name) <;> simp

theorem isDeferred_column {n : Node} {name : String} (h : n.model.hasColumn name = true) :
    n.isDeferred name = n.deferred.contains name := if_pos h

theorem isLazy_column {n : Node} {name : String} (h : n.model.hasColumn name = true) :
    n.isLazy name = false := by
  unfold isLazy
  rw [h]
  rfl

/-- Two records of which the same is loaded. -/
structure HoldsSame (n n' : Node) : Prop where
  model_eq : n'.model = n.model
  deferred_eq : n'.deferred = n.deferred
  related_eq : n'.related = n.related
  value_eq : ∀ column, column ∉ n.deferred → n'.value column = n.value column

namespace HoldsSame
variable {n n' : Node} {name : String} (h : n.HoldsSame n')
include h

theorem related?_eq (name : String) : n'.related? name = n.related? name := by
  unfold related?
  rw [h.related_eq]

theorem computed?_eq (hlazy : n.model.relation? name = none)
    (hcolumn : n.model.hasColumn name = false) (hloaded : n.isDeferred name = false) :
    n'.computed? name = n.computed? name := by
  unfold isDeferred at hloaded
  rw [hcolumn, hlazy] at hloaded
  unfold computed?
  rw [h.model_eq]
  cases hc : n.model.computed.find? (·.1 == name) with
  | none => rfl
  | some c =>
    rw [hc] at hloaded
    have hall : ∀ column ∈ c.2.columns, column ∉ n.deferred := by simpa using hloaded
    obtain ⟨key, computed⟩ := c
    cases computed with
    | annotated main note =>
      have hmain := h.value_eq main (hall main (by simp [Computed.columns]))
      have hnote := h.value_eq note (hall note (by simp [Computed.columns]))
      simp only [Option.map_some, Computed.apply, hmain, hnote]
    | isSet column =>
      have hset := h.value_eq column (hall column (by simp [Computed.columns]))
      simp only [Option.map_some, Computed.apply, hset]

/-- An attribute that is loaded reads alike wherever the same is loaded. -/
theorem attr?_eq (hloaded : n.isLoaded name = true) : n'.attr? name = n.attr? name := by
  obtain ⟨hlazy, hdeferred⟩ : n.isLazy name = false ∧ n.isDeferred name = false := by
    simpa [isLoaded] using hloaded
  unfold attr?
  rw [h.model_eq]
  by_cases hcolumn : n.model.hasColumn name = true
  · rw [if_pos hcolumn, if_pos hcolumn]
    rw [isDeferred_column hcolumn] at hdeferred
    rw [h.value_eq name (by simpa using hdeferred)]
  · rw [if_neg hcolumn, if_neg hcolumn]
    rw [Bool.not_eq_true] at hcolumn
    cases hr : n.model.relation? name with
    | none => rw [h.computed?_eq hr hcolumn hdeferred]
    | some r =>
      obtain rfl : r.name = name := by simpa using List.find?_some hr
      obtain ⟨q, hq⟩ : ∃ q, n.related? r.name = some q := by
        rw [← Option.isSome_iff_exists]
        simpa [isLazy, hcolumn, hr] using hlazy
      dsimp only
      unfold relatedDatum
      rw [h.related?_eq, hq]
      rfl

end HoldsSame

end Node

namespace Graph
variable {g g' : Graph} {remaining : List Ref} {ref : Ref} {v : Visibility}

/-- Two graphs with the same records, of which the same is loaded. -/
structure HoldsSame (g g' : Graph) : Prop where
  refs_eq : g'.refs = g.refs
  node : ∀ ref n, g.node? ref = some n → ∃ n', g'.node? ref = some n' ∧ n.HoldsSame n'

/-- Showing a record takes something that is not loaded: a column or an appended attribute of the
record, or something of a record that is shown below it. -/
inductive LooksUp (g : Graph) : List Ref → Ref → Visibility → Prop
  | own {remaining : List Ref} {ref : Ref} {v : Visibility} {n : Node} {name : String}
      (hn : g.node? ref = some n)
      (hname : name ∈ n.model.columnNames ∨ name ∈ v.appends.getD n.model.appends)
      (hshown : name ∉ n.model.hidden ++ v.hidden) (hunloaded : n.isLoaded name = false) :
      LooksUp g remaining ref v
  | nested {remaining : List Ref} {ref child : Ref} {v : Visibility} {n : Node} {r : Relation}
      {q : Related} (hn : g.node? ref = some n) (hr : r ∈ n.model.relations)
      (hshown : r.name ∉ n.model.hidden ++ v.hidden) (hq : n.related? r.name = some q)
      (hchild : child ∈ q.refs) (hbelow : LooksUp g (remaining.erase ref) child {}) :
      LooksUp g remaining ref v

/-- A record that shows only what is loaded is shown alike wherever the same is loaded. -/
theorem HoldsSame.dataBelow_eq (h : g.HoldsSame g') (hnone : ¬g.LooksUp remaining ref v) :
    g'.dataBelow remaining ref v = g.dataBelow remaining ref v := by
  -- By induction on the records that may still be shown.
  induction hk : remaining.length using Nat.strong_induction_on generalizing remaining ref v with
  | _ k ih =>
    by_cases href : ref ∈ remaining
    · cases hn : g.node? ref with
      | none =>
        have hn' : g'.node? ref = none := by rwa [node?_eq_none, h.refs_eq, ← node?_eq_none]
        rw [dataBelow_of_node?_none hn, dataBelow_of_node?_none hn']
      | some n =>
        obtain ⟨n', hn', hsame⟩ := h.node ref n hn
        have hown (name : String)
            (hname : name ∈ n.model.columnNames ∨ name ∈ v.appends.getD n.model.appends)
            (hshown : name ∉ n.model.hidden ++ v.hidden) : n'.attr? name = n.attr? name := by
          refine hsame.attr?_eq (Bool.eq_true_of_not_eq_false fun hunloaded => ?_)
          exact hnone (.own hn hname hshown hunloaded)
        have hcolumns : n'.columnData (n.model.hidden ++ v.hidden) =
            n.columnData (n.model.hidden ++ v.hidden) := by
          unfold Node.columnData
          rw [hsame.model_eq]
          refine List.map_congr_left fun c hc => ?_
          obtain ⟨hc, hshown⟩ := List.mem_filter.1 hc
          have hread := hown c (.inl hc) (by simpa using hshown)
          have hcolumn := Model.hasColumn_of_mem hc
          unfold Node.attr? at hread
          rw [hsame.model_eq, if_pos hcolumn, if_pos hcolumn] at hread
          rw [Datum.value.inj (Except.ok.inj hread)]
        have hrelations : g'.relationEntries (remaining.erase ref) n' (n.model.hidden ++ v.hidden) =
            g.relationEntries (remaining.erase ref) n (n.model.hidden ++ v.hidden) := by
          unfold relationEntries
          rw [hsame.model_eq]
          refine mapM_congr fun r hr => ?_
          obtain ⟨hr, hshown⟩ := List.mem_filter.1 hr
          rw [hsame.related?_eq]
          refine Related.entries_congr fun q hq child hchild => ?_
          refine ih _ (hk ▸ length_erase_lt href) (fun hbelow => ?_) rfl
          exact hnone (.nested hn hr (by simpa using hshown) hq hchild hbelow)
        have happended : n'.appendedData (n.model.hidden ++ v.hidden)
              (v.appends.getD n.model.appends) =
            n.appendedData (n.model.hidden ++ v.hidden) (v.appends.getD n.model.appends) := by
          unfold Node.appendedData
          refine mapM_congr fun a ha => ?_
          obtain ⟨ha, hshown⟩ := List.mem_filter.1 ha
          rw [hown a (.inr (List.mem_eraseDups.1 ha)) (by simpa using hshown)]
        rw [dataBelow_of_node? href hn, dataBelow_of_node? href hn', hsame.model_eq, hrelations,
          happended, hcolumns]
    · rw [dataBelow_of_not_mem href, dataBelow_of_not_mem href]

/-- A record shows something that is not loaded if it is an appended relation, or a column that was
left out or computed from one. -/
theorem isLoaded_eq_false_of_shown {n : Node} {es : List (String × Datum)} {key : String}
    (hn : g.node? ref = some n) (h : g.dataBelow remaining ref v = .ok (.object es))
    (hkey : key ∈ es.map (·.1)) : n.isLoaded key = false ↔
      key ∈ v.appends.getD n.model.appends ∧ n.isLazy key = true ∨ n.isDeferred key = true := by
  obtain ⟨n', -, hn', -, hes⟩ := mem_object h
  obtain rfl := Option.some.inj (hn.symm.trans hn')
  obtain ⟨⟨k, d⟩, hd, rfl⟩ := List.mem_map.1 hkey
  dsimp only
  rw [Node.isLoaded_eq_false]
  refine or_congr_left ⟨fun hlazy => ⟨?_, hlazy⟩, And.right⟩
  obtain ⟨-, ⟨happended, -⟩ | ⟨-, ⟨hcolumn, -⟩ | ⟨r, -, -, shown, hshown, hmem⟩⟩⟩ := (hes k d).1 hd
  · exact happended
  -- By itself, a record shows columns, and relations only when they are loaded.
  · rw [Node.isLazy_column (Model.hasColumn_of_mem hcolumn)] at hlazy
    cases hlazy
  · have hnone : n.related? k = none := by
      simpa using (Bool.and_eq_true_iff.1 hlazy).2
    rw [hnone] at hshown
    cases hshown
    cases hmem

/-- A record is held, with all of its columns but some. -/
def Has (g : Graph) (ref : Ref) (deferred : List String) : Prop :=
  ∃ n, g.node? ref = some n ∧ ∀ column ∈ n.deferred, column ∈ deferred

/-- Every record that a relation holds is there with all of its columns. -/
def Whole (g : Graph) : Prop :=
  ∀ ref name q, g.related? ref name = some q → ∀ child ∈ q.refs, g.Has child []

theorem whole_empty : empty.Whole := fun _ _ _ hq => nomatch hq

theorem Has.exists_of_nil (h : g.Has ref []) : ∃ n, g.node? ref = some n ∧ n.deferred = [] := by
  obtain ⟨n, hn, hd⟩ := h
  exact ⟨n, hn, List.eq_nil_iff_forall_not_mem.2 fun c hc => nomatch hd c hc⟩

/-- Below a record, all columns are loaded. -/
theorem Whole.has_of_leads (hg : g.Whole) {p q : Place} (hpq : g.Leads p q) : g.Has q.ref [] := by
  cases hpq with
  | one hone hd => exact hg _ _ _ hone _ (List.mem_singleton_self _)
  | many hmany hitems hd =>
    exact hg _ _ _ hmany _ (List.mem_of_mem_filter (List.of_mem_zip hd).1)

/-- Below a record, only an appended relation is shown that is not loaded. -/
theorem Whole.shown_below (hg : g.Whole) {es inner : List (String × Datum)} {rest : List Ref}
    {below : Ref} (h : g.dataBelow remaining ref v = .ok (.object es))
    (hbelow : Relation.TransGen g.Leads ⟨remaining, ref, .object es⟩
      ⟨rest, below, .object inner⟩) :
    ∃ m, g.node? below = some m ∧ ∀ key ∈ inner.map (·.1),
      m.isLoaded key = false ↔ key ∈ m.model.appends ∧ m.isLazy key = true := by
  have hinner := dataBelow_of_below hbelow h rfl
  obtain ⟨p, -, hlast⟩ := Relation.TransGen.tail'_iff.1 hbelow
  obtain ⟨m, hm, hcolumns⟩ := (hg.has_of_leads hlast).exists_of_nil
  refine ⟨m, hm, fun key hkey => ?_⟩
  rw [isLoaded_eq_false_of_shown hm hinner hkey, Node.isDeferred_of_nil hcolumns]
  simp

/-- A record with all of its columns shows only what is loaded, unless a relation is appended to it
or to one below it that is not. -/
theorem Whole.not_looksUp (hg : g.Whole) (hplain : ∀ ref n, g.node? ref = some n →
      ∀ a ∈ n.model.appends, n.isLazy a = false) {n : Node} (hn : g.node? ref = some n)
    (hcolumns : n.deferred = [])
    (happends : ∀ a ∈ v.appends.getD n.model.appends, n.isLazy a = false) :
    ¬g.LooksUp remaining ref v := by
  intro h
  induction h generalizing n with
  | @own remaining ref v n' name hn' hname _ hunloaded =>
    obtain rfl := Option.some.inj (hn.symm.trans hn')
    rw [Node.isLoaded_eq_false, Node.isDeferred_of_nil hcolumns] at hunloaded
    rcases hname with hcolumn | happended
    · rw [Node.isLazy_column (Model.hasColumn_of_mem hcolumn)] at hunloaded
      simp at hunloaded
    · rw [happends name happended] at hunloaded
      simp at hunloaded
  | @nested remaining ref child v n' r q hn' _ _ hq hchild _ ih =>
    obtain rfl := Option.some.inj (hn.symm.trans hn')
    have hrelated : g.related? ref r.name = some q := by
      unfold related?
      rw [hn]
      exact hq
    obtain ⟨m, hm, hm'⟩ := (hg _ _ _ hrelated child hchild).exists_of_nil
    exact ih hm hm' (hplain child m hm)

end Graph

end Records
