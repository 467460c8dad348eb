import Records.Proofs.Record.Reading
import Records.Proofs.Traversal
import Records.Record.Serialize

/-!
What records show of a store and of the store without its trashed rows: the same, unless an
attribute that is appended to one of the records shown reads a trashed row.
-/
namespace Records

namespace Related
variable {name : String} {rest : List Ref} {f f' : Ref → Except MissingAttribute Datum}
  {q : Option Related}

/-- What a record shows of a relation, of the records there that may still be shown. -/
def entries (name : String) (rest : List Ref) (f : Ref → Except MissingAttribute Datum) :
    Option Related → Except MissingAttribute (List (String × Datum))
  | none => pure []
  | some (.one none) => pure [(name, Datum.value .null)]
  | some (.one (some child)) => if child ∈ rest then do return [(name, ← f child)] else pure []
  | some (.many children) => do
    let items ← (children.filter (· ∈ rest)).mapM f
    return [(name, .list items)]

/-- The keys under which a record shows a relation. -/
def entryKeys (name : String) (rest : List Ref) : Option Related → List String
  | none => []
  | some (.one (some child)) => if child ∈ rest then [name] else []
  | some _ => [name]

theorem eq_of_mem_entryKeys {k : String} (hk : k ∈ entryKeys name rest q) : k = name := by
  rcases q with _ | children | _ | child
  · cases hk
  · exact List.mem_singleton.1 hk
  · exact List.mem_singleton.1 hk
  · rw [entryKeys] at hk
    split at hk
    · exact List.mem_singleton.1 hk
    · cases hk

theorem keys_entries {es : List (String × Datum)} (h : entries name rest f q = .ok es) :
    es.map (·.1) = entryKeys name rest q := by
  rcases q with _ | children | _ | child
  · cases h
    rfl
  · obtain ⟨items, -, h⟩ := except_bind_ok.1 h
    cases h
    rfl
  · cases h
    rfl
  · rw [entries] at h
    rw [entryKeys]
    by_cases hc : child ∈ rest
    · rw [if_pos hc] at h ⊢
      obtain ⟨d, -, h⟩ := except_bind_ok.1 h
      cases h
      rfl
    · rw [if_neg hc] at h ⊢
      cases h
      rfl

theorem entries_failsAlike (h : ∀ child, FailsAlike (f child) (f' child)) :
    FailsAlike (entries name rest f q) (entries name rest f' q) := by
  rcases q with _ | children | _ | child
  · exact .ok_ok _ _
  · exact .bind (.mapM fun child _ => h child) fun _ _ => .ok_ok _ _
  · exact .ok_ok _ _
  · rw [entries, entries]
    split
    · exact .bind (h child) fun _ _ => .ok_ok _ _
    · exact .ok_ok _ _

theorem entries_congr (h : ∀ r, q = some r → ∀ child ∈ r.refs, f' child = f child) :
    entries name rest f' q = entries name rest f q := by
  rcases q with _ | children | _ | child
  · rfl
  · have hitems : (children.filter (· ∈ rest)).mapM f' = (children.filter (· ∈ rest)).mapM f :=
      mapM_congr fun child hchild => h _ rfl child (List.mem_of_mem_filter hchild)
    rw [entries, entries, hitems]
  · rfl
  · rw [entries, entries, h _ rfl child (List.mem_singleton_self child)]

theorem entries_ok_iff {es : List (String × Datum)} (h : entries name rest f q = .ok es) :
    entries name rest f' q = .ok es ↔
      ∀ r, q = some r → ∀ child ∈ r.refs, child ∈ rest → f' child = f child := by
  rcases q with _ | children | _ | child
  · simpa [entries] using h
  · obtain ⟨items, hitems, h⟩ := except_bind_ok.1 h
    cases h
    have hiff := mapM_ok_iff (g := f') hitems
    simp only [List.mem_filter, decide_eq_true_eq, and_imp] at hiff
    simp only [Option.some.injEq, forall_eq', Related.refs, ← hiff]
    rw [entries]
    cases (children.filter (· ∈ rest)).mapM f' <;> simp [bind, Except.bind, pure, Except.pure]
  · simpa [entries, Related.refs] using h
  · rw [entries] at h ⊢
    by_cases hc : child ∈ rest
    · rw [if_pos hc] at h ⊢
      obtain ⟨d, hd, h⟩ := except_bind_ok.1 h
      cases h
      cases hd' : f' child <;>
        simp [Related.refs, hc, hd, hd', bind, Except.bind, pure, Except.pure]
    · simpa [hc, Related.refs] using h

theorem exists_of_entries_ok {es : List (String × Datum)} {r : Related} {child : Ref}
    (h : entries name rest f (some r) = .ok es) (hc : child ∈ r.refs) (hrest : child ∈ rest) :
    ∃ d, f child = .ok d := by
  rcases r with children | _ | c
  · obtain ⟨items, hitems, -⟩ := except_bind_ok.1 h
    exact exists_of_mapM_ok hitems (List.mem_filter.2 ⟨hc, decide_eq_true hrest⟩)
  · cases hc
  · obtain rfl : child = c := List.mem_singleton.1 hc
    rw [entries, if_pos hrest] at h
    obtain ⟨d, hd, -⟩ := except_bind_ok.1 h
    exact ⟨d, hd⟩

end Related

/-- No model appends one of its relations. -/
def Schema.AppendsPlain (s : Schema) : Prop :=
  ∀ m ∈ s.models, ∀ a ∈ m.appends, m.relation? a = none

theorem overlay_eq_iff {cols rels rels' app app' : List (String × Datum)}
    (hkeys : app'.map (·.1) = app.map (·.1)) :
    overlay (cols ++ rels') app' = overlay (cols ++ rels) app ↔
      rels'.filter (fun e => !(app.map (·.1)).contains e.1) =
        rels.filter (fun e => !(app.map (·.1)).contains e.1) ∧ app' = app := by
  unfold overlay
  rw [hkeys, List.filter_append, List.filter_append, List.append_assoc, List.append_assoc,
    List.append_cancel_left_eq]
  constructor
  · intro h
    exact List.append_inj' h (by rw [← List.length_map (·.1), hkeys, List.length_map])
  · rintro ⟨hrels, rfl⟩
    rw [hrels]

namespace Graph

/-- A record shows a trashed row: through an attribute that is appended to it, or in a record that
is shown below it. -/
inductive ShowsTrash (s : Schema) (st : Store) (g : Graph) : List Ref → Ref → Visibility → Prop
  | appended {remaining : List Ref} {ref : Ref} {v : Visibility} {n : Node} {a : String}
      (href : ref ∈ remaining) (hn : g.node? ref = some n)
      (ha : a ∈ v.appends.getD n.model.appends) (hshown : a ∉ n.model.hidden ++ v.hidden)
      (htrash : n.ReadsTrash s st a) : ShowsTrash s st g remaining ref v
  | nested {remaining : List Ref} {ref child : Ref} {v : Visibility} {n : Node} {r : Relation}
      {q : Related} (href : ref ∈ remaining) (hn : g.node? ref = some n)
      (hr : r ∈ n.model.relations) (hshown : r.name ∉ n.model.hidden ++ v.hidden)
      (hkept : r.name ∉ v.appends.getD n.model.appends) (hq : n.related? r.name = some q)
      (hchild : child ∈ q.refs) (htrash : ShowsTrash s st g (remaining.erase ref) child {}) :
      ShowsTrash s st g remaining ref v

theorem ShowsTrash.mem {s : Schema} {st : Store} {g : Graph} {remaining : List Ref} {ref : Ref}
    {v : Visibility} (h : g.ShowsTrash s st remaining ref v) : ref ∈ remaining := by
  cases h <;> assumption

theorem ShowsTrash.node? {s : Schema} {st : Store} {g : Graph} {remaining : List Ref} {ref : Ref}
    {v : Visibility} (h : g.ShowsTrash s st remaining ref v) : ∃ n, g.node? ref = some n := by
  cases h <;> exact ⟨_, ‹_›⟩

theorem not_showsTrash_iff {s : Schema} {st : Store} {g : Graph} {remaining : List Ref} {ref : Ref}
    {n : Node} (href : ref ∈ remaining) (hn : g.node? ref = some n) (v : Visibility) :
    ¬ g.ShowsTrash s st remaining ref v ↔
      (∀ a ∈ v.appends.getD n.model.appends, a ∉ n.model.hidden ++ v.hidden →
        ¬ n.ReadsTrash s st a) ∧
      ∀ r ∈ n.model.relations, r.name ∉ n.model.hidden ++ v.hidden →
        r.name ∉ v.appends.getD n.model.appends → ∀ q, n.related? r.name = some q →
          ∀ child ∈ q.refs, ¬ g.ShowsTrash s st (remaining.erase ref) child {} := by
  constructor
  · intro h
    refine ⟨fun a ha hshown htrash => h (.appended href hn ha hshown htrash), ?_⟩
    intro r hr hshown hkept q hq child hchild htrash
    exact h (.nested href hn hr hshown hkept hq hchild htrash)
  · rintro ⟨happended, hnested⟩ h
    cases h with
    | appended _ hn' ha hshown htrash =>
      obtain rfl := Option.some.inj (hn.symm.trans hn')
      exact happended _ ha hshown htrash
    | nested _ hn' hr hshown hkept hq hchild htrash =>
      obtain rfl := Option.some.inj (hn.symm.trans hn')
      exact hnested _ hr hshown hkept _ hq _ hchild htrash

/-- What a record shows of its relations that are not hidden. -/
def relationEntries (g : Graph) (rest : List Ref) (n : Node) (hidden : List String) :
    Except MissingAttribute (List (List (String × Datum))) :=
  (n.model.relations.filter fun r => !hidden.contains r.name).mapM fun r =>
    Related.entries r.name rest (fun child => g.dataBelow rest child {}) (n.related? r.name)

theorem dataBelow_of_not_mem {remaining : List Ref} {ref : Ref} (href : ref ∉ remaining) (g : Graph)
    (v : Visibility) : g.dataBelow remaining ref v = .ok (.value .null) := by
  rw [dataBelow, dif_neg href]

theorem dataBelow_of_node?_none {g : Graph} {ref : Ref} (hn : g.node? ref = none)
    (remaining : List Ref) (v : Visibility) :
    g.dataBelow remaining ref v = .ok (.value .null) := by
  by_cases href : ref ∈ remaining
  · rw [dataBelow, dif_pos href, hn]
  · exact dataBelow_of_not_mem href g v

theorem dataBelow_of_node? {g : Graph} {remaining : List Ref} {ref : Ref} {n : Node}
    (href : ref ∈ remaining) (hn : g.node? ref = some n) (v : Visibility) :
    g.dataBelow remaining ref v = do
      let relations ← g.relationEntries (remaining.erase ref) n (n.model.hidden ++ v.hidden)
      let appended ← n.appendedData (n.model.hidden ++ v.hidden) (v.appends.getD n.model.appends)
      return .object
        (overlay (n.columnData (n.model.hidden ++ v.hidden) ++ relations.flatten) appended) := by
  rw [dataBelow, dif_pos href, hn]
  unfold relationEntries
  dsimp only
  congr 2

section Mirrored
variable {s : Schema} {st : Store} {g g' : Graph} {m : Model} {row : Row} {n n' : Node}

theorem attr?_failsAlike (h : Mirrors s st m row n n') (name : String) :
    FailsAlike (n.attr? name) (n'.attr? name) := by
  rw [h.twin]
  unfold Node.attr?
  dsimp only
  split
  · exact .ok_ok _ _
  · split
    · exact .ok_ok _ _
    · exact fun _ => Iff.rfl

theorem appendedData_failsAlike (h : Mirrors s st m row n n') (hidden appends : List String) :
    FailsAlike (n.appendedData hidden appends) (n'.appendedData hidden appends) := by
  unfold Node.appendedData
  exact .mapM fun a _ => .bind (attr?_failsAlike h a) fun _ _ => .ok_ok _ _

/-- Appended attributes are shown alike exactly if none of them shows a trashed row. -/
theorem appendedData_ok_iff (h : Mirrors s st m row n n') {hidden appends : List String}
    {app : List (String × Datum)} (happ : n.appendedData hidden appends = .ok app) :
    n'.appendedData hidden appends = .ok app ↔
      ∀ a ∈ appends, a ∉ hidden → ¬ n.ReadsTrash s st a := by
  unfold Node.appendedData at happ ⊢
  rw [mapM_ok_iff happ]
  simp only [List.mem_filter, List.mem_eraseDups, and_imp]
  refine forall₂_congr fun a _ => ?_
  rw [← h.attr?_eq_iff, Bool.not_eq_true', List.contains_eq_mem, decide_eq_false_iff_not]
  refine imp_congr_right fun _ => ?_
  cases n.attr? a <;> cases n'.attr? a <;> simp [bind, Except.bind, pure, Except.pure]

theorem relationEntries_failsAlike {rest : List Ref} (h : Mirrors s st m row n n')
    (hdata : ∀ child, FailsAlike (g.dataBelow rest child {}) (g'.dataBelow rest child {}))
    (hidden : List String) :
    FailsAlike (g.relationEntries rest n hidden) (g'.relationEntries rest n' hidden) := by
  rw [h.twin]
  exact .mapM fun r _ => Related.entries_failsAlike hdata

theorem length_erase_lt {remaining : List Ref} {ref : Ref} (href : ref ∈ remaining) :
    (remaining.erase ref).length < remaining.length := by
  rw [List.length_erase_of_mem href]
  exact Nat.sub_lt (List.length_pos_of_mem href) Nat.one_pos

theorem Mirrored.dataBelow_failsAlike (hg : Mirrored s st g g') (remaining : List Ref) (ref : Ref)
    (v : Visibility) :
    FailsAlike (g.dataBelow remaining ref v) (g'.dataBelow remaining ref v) := by
  induction hk : remaining.length using Nat.strong_induction_on generalizing remaining ref v with
  | _ k ih =>
    by_cases href : ref ∈ remaining
    · cases hn : g.node? ref with
      | none =>
        rw [dataBelow_of_node?_none hn, dataBelow_of_node?_none (hg.node?_none hn)]
        exact .ok_ok _ _
      | some n =>
        obtain ⟨m, -, row, -, -, -, n', hn', h⟩ := hg.node?_some hn
        have hmodel : n'.model = n.model := by rw [h.twin]
        have hlength : (remaining.erase ref).length < k := hk ▸ length_erase_lt href
        rw [dataBelow_of_node? href hn, dataBelow_of_node? href hn', hmodel]
        refine .bind (relationEntries_failsAlike h (fun child => ih _ hlength _ child {} rfl) _) ?_
        exact fun _ _ => .bind (appendedData_failsAlike h _ _) fun _ _ => .ok_ok _ _
    · rw [dataBelow_of_not_mem href, dataBelow_of_not_mem href]
      exact .ok_ok _ _

theorem keys_appendedData {hidden appends : List String} {app : List (String × Datum)}
    (h : n.appendedData hidden appends = .ok app) :
    app.map (·.1) = appends.eraseDups.filter fun a => !hidden.contains a := keys_mapM h

/-- Relations are shown alike, but for those that appended attributes replace, exactly if none of
the others leads to a record that shows a trashed row. -/
theorem relationEntries_eq_iff {rest : List Ref} (hmodel : n'.model = n.model)
    (hrelated : ∀ name, n'.related? name = n.related? name)
    (hdata : ∀ child d, g.dataBelow rest child {} = .ok d →
      (g'.dataBelow rest child {} = g.dataBelow rest child {} ↔
        ¬ g.ShowsTrash s st rest child {}))
    (keep : String → Bool) {hidden : List String} {es es' : List (List (String × Datum))}
    (hes : g.relationEntries rest n hidden = .ok es)
    (hes' : g'.relationEntries rest n' hidden = .ok es') :
    es'.flatten.filter (fun e => keep e.1) = es.flatten.filter (fun e => keep e.1) ↔
      ∀ r ∈ n.model.relations, r.name ∉ hidden → keep r.name →
        ∀ q, n.related? r.name = some q → ∀ child ∈ q.refs,
          ¬ g.ShowsTrash s st rest child {} := by
  unfold relationEntries at hes hes'
  rw [hmodel] at hes'
  rw [filter_flatten_eq_iff (fun r es h => Related.keys_entries h)
    (fun r es h => hrelated r.name ▸ Related.keys_entries h)
    (fun r k hk => Related.eq_of_mem_entryKeys hk) keep hes hes']
  simp only [List.mem_filter, Bool.not_eq_true', List.contains_eq_mem, decide_eq_false_iff_not,
    and_imp]
  refine forall₂_congr fun r hr => forall₂_congr fun hshown hkeep => ?_
  obtain ⟨shown, hshow⟩ := exists_of_mapM_ok hes
    (List.mem_filter.2 ⟨hr, by simpa using hshown⟩)
  rw [hrelated, hshow, Related.entries_ok_iff hshow]
  refine forall₂_congr fun q hq => forall₂_congr fun child hchild => ?_
  by_cases hrest : child ∈ rest
  · rw [hq] at hshow
    obtain ⟨d, hd⟩ := Related.exists_of_entries_ok hshow hchild hrest
    rw [← hdata child d hd]
    exact ⟨fun h => h hrest, fun h _ => h⟩
  · exact ⟨fun _ h => hrest h.mem, fun _ h => absurd h hrest⟩

/-- A record that can be shown looks the same without the trashed rows exactly if it shows none. -/
theorem Mirrored.dataBelow_ok_iff (hg : Mirrored s st g g') {remaining : List Ref} {ref : Ref}
    {v : Visibility} {d : Datum} (hd : g.dataBelow remaining ref v = .ok d) :
    g'.dataBelow remaining ref v = .ok d ↔ ¬ g.ShowsTrash s st remaining ref v := by
  -- By induction on the records that may still be shown: below a record, it is not shown again.
  induction hk : remaining.length using Nat.strong_induction_on
    generalizing remaining ref v d with
  | _ k ih =>
    by_cases href : ref ∈ remaining
    · cases hn : g.node? ref with
      | none =>
        rw [dataBelow_of_node?_none hn] at hd
        rw [dataBelow_of_node?_none (hg.node?_none hn), hd]
        refine iff_of_true rfl fun h => ?_
        obtain ⟨n, hsome⟩ := h.node?
        rw [hn] at hsome
        cases hsome
      | some n =>
        obtain ⟨m, -, row, -, -, -, n', hn', h⟩ := hg.node?_some hn
        have hmodel : n'.model = n.model := by rw [h.twin]
        have hcolumns : n'.columnData = n.columnData := by rw [h.twin]; rfl
        have hlength : (remaining.erase ref).length < k := hk ▸ length_erase_lt href
        rw [dataBelow_of_node? href hn] at hd
        rw [dataBelow_of_node? href hn', not_showsTrash_iff href hn, hmodel, hcolumns]
        obtain ⟨es, hes, hd⟩ := except_bind_ok.1 hd
        obtain ⟨app, happ, hd⟩ := except_bind_ok.1 hd
        cases hd
        -- The mirrors fail nowhere else, so there are parts to compare one by one.
        obtain ⟨es', hes'⟩ := (relationEntries_failsAlike h
          (fun child => hg.dataBelow_failsAlike _ child {}) _).exists_ok hes
        obtain ⟨app', happ'⟩ := (appendedData_failsAlike h _ _).exists_ok happ
        have hkeys := (keys_appendedData happ').trans (keys_appendedData happ).symm
        rw [hes', happ', ← appendedData_ok_iff h happ, happ']
        change Except.ok (Datum.object _) = Except.ok (Datum.object _) ↔ _
        rw [Except.ok.injEq, Datum.object.injEq, overlay_eq_iff hkeys,
          relationEntries_eq_iff hmodel (fun name => by rw [h.twin]; rfl)
            (fun child d hd => by rw [hd]; exact ih _ hlength hd rfl)
            (fun name => !(app.map (·.1)).contains name) hes hes', and_comm, Except.ok.injEq]
        refine and_congr_right fun _ => forall₂_congr fun r _ => forall_congr' fun hshown => ?_
        -- A relation under the name of an appended attribute is replaced by that.
        have hkeep : (!(app.map (·.1)).contains r.name) = true ↔
            r.name ∉ v.appends.getD n.model.appends := by
          rw [keys_appendedData happ]
          simpa [List.mem_eraseDups] using fun h _ => hshown h
        rw [hkeep]
    · rw [dataBelow_of_not_mem href] at hd
      rw [dataBelow_of_not_mem href, hd]
      exact iff_of_true rfl fun h => href h.mem

/-- A record looks the same without the trashed rows, or cannot be shown in either case, exactly if
it shows none of them. -/
theorem Mirrored.data_eq_iff (hg : Mirrored s st g g') (ref : Ref) (v : Visibility) :
    g'.data ref v = g.data ref v ↔
      ((∃ d, g.data ref v = .ok d) → ¬ g.ShowsTrash s st g.refs ref v) := by
  unfold data
  rw [hg.refs_eq]
  cases h : g.dataBelow g.refs ref v with
  | error e =>
    rw [(hg.dataBelow_failsAlike _ ref v e).1 h]
    simp
  | ok d =>
    rw [hg.dataBelow_ok_iff h]
    simp

/-- Nothing trashed is shown where models append no relations and nothing else is appended. -/
theorem Mirrored.not_showsTrash (hg : Mirrored s st g g') (hs : s.AppendsPlain)
    {remaining : List Ref} {ref : Ref} {v : Visibility} (hv : v.appends = none) :
    ¬ g.ShowsTrash s st remaining ref v := by
  intro h
  induction h with
  | @appended remaining ref v n a _ hn ha _ htrash =>
    obtain ⟨m, hm, row, -, -, -, n', -, h⟩ := hg.node?_some hn
    rw [hv, Option.getD_none, h.model_eq] at ha
    obtain ⟨-, -, q, hq, -⟩ := htrash
    rw [h.within?_eq] at hq
    obtain ⟨d, hd, -⟩ := Option.map_eq_some_iff.1 hq
    have hrelation := (Schema.handle?_eq_some.1 (Schema.handle?_of_declared? hd)).1
    rw [hs m hm a ha] at hrelation
    cases hrelation
  | nested _ _ _ _ _ _ _ _ ih => exact ih rfl

end Mirrored

end Graph

end Records
