import Records.Proofs.Record.Held

/-!
Graphs that show the same of a store. They may hold different records, and one may have loaded what
the other has not, as long as nothing that is looked up in them differs. Holding more rows and
loading more relations keeps graphs alike.
-/
namespace Records.Graph
variable {s : Schema} {st : Store} {g g' : Graph}

/-- What a relation was loaded with is held as well, and of the model that the relation leads to. -/
def Sound (s : Schema) (g : Graph) : Prop :=
  ∀ h, s.Declares h → ∀ id q, g.related? (.stored h.parent.name id) h.relation.name = some q →
    ∀ c ∈ q.refs, c ∈ g.refs ∧ ∃ k, c = .stored h.target.name k

/-- Graphs in which the same is seen of a store: the values of records, what their relations hold,
and what these load. -/
structure Alike (s : Schema) (st : Store) (g g' : Graph) : Prop where
  sound : g.Sound s
  sound_other : g'.Sound s
  values_eq : ∀ ref, g'.valuesOf s st ref = g.valuesOf s st ref
  members_eq : ∀ h, s.Declares h → ∀ id,
    g'.members st h (.stored h.parent.name id) = g.members st h (.stored h.parent.name id)
  loaded_eq : ∀ h, s.Declares h → ∀ id, g'.loadedOf st h id = g.loadedOf st h id
  drafts_eq : ∀ n name, g'.related? (.draft n) name = g.related? (.draft n) name

theorem Alike.refl (hg : g.Sound s) : Alike s st g g :=
  ⟨hg, hg, fun _ => rfl, fun _ _ _ => rfl, fun _ _ _ => rfl, fun _ _ => rfl⟩

theorem sound_empty : empty.Sound s := fun _ _ _ _ hq => by cases hq

/-- What a graph holds is what the store has: nothing else would be seen with nothing held. -/
def InStep (s : Schema) (st : Store) (g : Graph) : Prop := Alike s st g empty

theorem inStep_empty : InStep s st empty := .refl sound_empty

theorem members_of_related? {h : Handle} {ref : Ref} {q : Related}
    (hq : g.related? ref h.relation.name = some q) : g.members st h ref = q.refs := by
  unfold members
  rw [hq]

theorem members_congr (h : Handle) (ref : Ref)
    (hr : g'.related? ref h.relation.name = g.related? ref h.relation.name) :
    g'.members st h ref = g.members st h ref := by
  unfold members
  rw [hr]

theorem Sound.of_related (hg : g.Sound s) (hrefs : ∀ ref ∈ g.refs, ref ∈ g'.refs)
    (hr : ∀ ref name, g'.related? ref name = g.related? ref name) : g'.Sound s := by
  intro h hd id q hq c hc
  rw [hr] at hq
  obtain ⟨hheld, hkind⟩ := hg h hd id q hq c hc
  exact ⟨hrefs c hheld, hkind⟩

/-- Graphs stay alike when more is held, or values change in both, and no relation is loaded. -/
theorem Alike.of_related (ha : Alike s st g g') {k k' : Graph}
    (hrefs : ∀ ref ∈ g.refs, ref ∈ k.refs) (hrefs' : ∀ ref ∈ g'.refs, ref ∈ k'.refs)
    (hr : ∀ ref name, k.related? ref name = g.related? ref name)
    (hr' : ∀ ref name, k'.related? ref name = g'.related? ref name)
    (hvalues : ∀ ref, k'.valuesOf s st ref = k.valuesOf s st ref) : Alike s st k k' where
  sound := ha.sound.of_related hrefs hr
  sound_other := ha.sound_other.of_related hrefs' hr'
  values_eq := hvalues
  members_eq h hd id := by
    rw [members_congr h _ (hr' ..), ha.members_eq h hd id, members_congr h _ (hr ..)]
  loaded_eq h hd id := by
    have hloaded := ha.loaded_eq h hd id
    unfold loadedOf at hloaded ⊢
    rw [hr, hr', hloaded]
  drafts_eq n name := by rw [hr, hr', ha.drafts_eq]

theorem Sound.holdAll {m : Model} {rows : List Row} (hg : g.Sound s) (deferred : List String) :
    (rows.foldl (hold s st m deferred) g).Sound s :=
  hg.of_related (fun _ h => (mem_refs_holdAll _).2 (.inl h)) fun _ _ => related?_holdAll ..

theorem Alike.holdAll {m : Model} {rows : List Row} (ha : Alike s st g g') (hm : m ∈ s.models)
    (hrows : ∀ row ∈ rows, row ∈ st.rows m) (deferred : List String) :
    Alike s st (rows.foldl (hold s st m deferred) g) (rows.foldl (hold s st m deferred) g') := by
  refine ha.of_related (fun _ h => (mem_refs_holdAll _).2 (.inl h))
    (fun _ h => (mem_refs_holdAll _).2 (.inl h)) (fun _ _ => related?_holdAll ..)
    (fun _ _ => related?_holdAll ..) fun ref => ?_
  rw [valuesOf_holdAll hm hrows, valuesOf_holdAll hm hrows, ha.values_eq]

/-- The graph with some values of a record changed. -/
def revalue (g : Graph) (ref : Ref) (es : List (String × Value)) : Graph :=
  g.modify ref fun n => { n with values := Value.merge n.values es }

theorem refs_revalue (ref : Ref) (es : List (String × Value)) : (g.revalue ref es).refs = g.refs :=
  refs_modify ..

theorem valuesOf_revalue {ref : Ref} (href : ref ∈ g.refs) (es : List (String × Value)) (r : Ref) :
    (g.revalue ref es).valuesOf s st r =
      if r = ref then (g.valuesOf s st r).map fun vs => Value.merge vs es
      else g.valuesOf s st r := by
  unfold valuesOf revalue
  rw [node?_modify]
  by_cases hr : r = ref
  · obtain ⟨n, hn⟩ := mem_refs_iff.1 href
    subst hr
    simp [hn]
  · simp [hr]

theorem related?_revalue (ref : Ref) (es : List (String × Value)) (r : Ref) (name : String) :
    (g.revalue ref es).related? r name = g.related? r name := by
  unfold related? revalue
  rw [node?_modify]
  cases g.node? r with
  | none => rfl
  | some n =>
    dsimp only [Option.map_some, Option.bind_some]
    split <;> rfl

theorem Alike.revalue (ha : Alike s st g g') {ref : Ref} (href : ref ∈ g.refs)
    (href' : ref ∈ g'.refs) (es : List (String × Value)) :
    Alike s st (g.revalue ref es) (g'.revalue ref es) := by
  refine ha.of_related (fun _ h => by rwa [refs_revalue]) (fun _ h => by rwa [refs_revalue])
    (fun _ _ => related?_revalue ..) (fun _ _ => related?_revalue ..) fun r => ?_
  rw [valuesOf_revalue href, valuesOf_revalue href', ha.values_eq]

theorem isSome_setRelated {ref r : Ref} {name other : String} {q : Related}
    (hr : (g.related? r name).isSome) : ((g.setRelated ref other q).related? r name).isSome := by
  unfold related? setRelated at *
  rw [node?_modify]
  cases hn : g.node? r with
  | none => simp [hn] at hr
  | some n =>
    dsimp only [Option.map_some, Option.bind_some]
    rw [hn] at hr
    split
    · rw [Node.related?_setRelated]
      split
      · rfl
      · exact hr
    · exact hr

section Load
variable {h : Handle} {id : Int}

theorem loads_of_find? {row : Row} (hrow : (st.table h.parent.table).find? id = some row) :
    st.loads h id = h.relatedOf (loadedRows st h row) := by
  unfold Store.loads
  rw [hrow]

theorem loadRelation_of_missing (hrow : (st.table h.parent.table).find? id = none) :
    g.loadRelation s st h (.stored h.parent.name id) = g := by
  unfold loadRelation
  cases g.related? (.stored h.parent.name id) h.relation.name with
  | some q => rfl
  | none =>
    dsimp only
    rw [hrow]

theorem mem_refs_loadRelation {ref r : Ref} (hr : r ∈ g.refs) :
    r ∈ (g.loadRelation s st h ref).refs := by
  unfold loadRelation
  split
  · split
    · unfold setRelated
      rw [refs_modify]
      exact (mem_refs_holdAll _).2 (.inl hr)
    · exact hr
  · exact hr

theorem valuesOf_loadRelation (ht : h.target ∈ s.models) (ref r : Ref) :
    (g.loadRelation s st h ref).valuesOf s st r = g.valuesOf s st r := by
  unfold loadRelation
  split
  · split
    · rw [valuesOf_setRelated, valuesOf_holdAll ht fun t ht => (Store.mem_loadedRows ht).1]
    · rfl
  · rfl

/-- Loading a relation of a record that is held: it is then loaded, with what it was loaded with
before or else with what it loads. -/
theorem related?_loadRelation {row : Row} (hrow : (st.table h.parent.table).find? id = some row)
    (href : .stored h.parent.name id ∈ g.refs) (r : Ref) (name : String) :
    (g.loadRelation s st h (.stored h.parent.name id)).related? r name =
      if r = .stored h.parent.name id ∧ name = h.relation.name then some (g.loadedOf st h id)
      else g.related? r name := by
  unfold loadRelation loadedOf
  cases hq : g.related? (.stored h.parent.name id) h.relation.name with
  | some q =>
    dsimp only
    split
    · rename_i hsame
      rw [hsame.1, hsame.2, hq]
      rfl
    · rfl
  | none =>
    dsimp only
    rw [hrow]
    dsimp only
    rw [related?_setRelated ((mem_refs_holdAll _).2 (.inl href)), related?_holdAll,
      loads_of_find? hrow]
    rfl

/-- A relation that is loaded stays so. -/
theorem isSome_loadRelation {ref r : Ref} {name : String} (hr : (g.related? r name).isSome) :
    ((g.loadRelation s st h ref).related? r name).isSome := by
  unfold loadRelation
  split
  · split
    · refine isSome_setRelated ?_
      rwa [related?_holdAll]
    · exact hr
  · exact hr

theorem held_loadRelation {row t : Row} (hrow : (st.table h.parent.table).find? id = some row)
    (hq : g.related? (.stored h.parent.name id) h.relation.name = none)
    (ht : t ∈ loadedRows st h row) : .stored h.target.name t.id ∈
      (g.loadRelation s st h (.stored h.parent.name id)).refs := by
  unfold loadRelation
  rw [hq]
  dsimp only
  rw [hrow]
  dsimp only
  unfold setRelated
  rw [refs_modify]
  exact (mem_refs_holdAll _).2 (.inr ⟨t, ht, rfl⟩)

theorem Sound.loadRelation (hg : g.Sound s) (hd : s.Declares h)
    (href : .stored h.parent.name id ∈ g.refs) :
    (g.loadRelation s st h (.stored h.parent.name id)).Sound s := by
  cases hrow : (st.table h.parent.table).find? id with
  | none => rwa [loadRelation_of_missing hrow]
  | some row =>
    intro k hk i q hq c hc
    rw [related?_loadRelation hrow href] at hq
    split at hq
    -- The relation that was loaded comes first, and then all the others.
    · rename_i hsame
      obtain rfl := hd.eq_of_names hk (Ref.stored.inj hsame.1).1 hsame.2
      cases hq
      unfold loadedOf at hc
      cases hbefore : g.related? (.stored k.parent.name id) k.relation.name with
      | some q =>
        rw [hbefore] at hc
        obtain ⟨hheld, hkind⟩ := hg k hd id q hbefore c hc
        exact ⟨mem_refs_loadRelation hheld, hkind⟩
      | none =>
        rw [hbefore, Option.getD_none, loads_of_find? hrow] at hc
        obtain ⟨t, ht, rfl⟩ := List.mem_map.1 (Related.mem_of_mem_ofRefs hc)
        exact ⟨held_loadRelation hrow hbefore ht, t.id, rfl⟩
    · obtain ⟨hheld, hkind⟩ := hg k hk i q hq c hc
      exact ⟨mem_refs_loadRelation hheld, hkind⟩

theorem Alike.loadRelation (ha : Alike s st g g') (hd : s.Declares h)
    (href : .stored h.parent.name id ∈ g.refs) (href' : .stored h.parent.name id ∈ g'.refs) :
    Alike s st (g.loadRelation s st h (.stored h.parent.name id))
      (g'.loadRelation s st h (.stored h.parent.name id)) := by
  cases hrow : (st.table h.parent.table).find? id with
  | none => rwa [loadRelation_of_missing hrow, loadRelation_of_missing hrow]
  | some row =>
    have hr := related?_loadRelation (s := s) hrow href
    have hr' := related?_loadRelation (s := s) hrow href'
    have hloaded := ha.loaded_eq h hd id
    -- Loaded in one graph and not yet in the other, the relation now shows the same in both.
    refine ⟨ha.sound.loadRelation hd href, ha.sound_other.loadRelation hd href', fun ref => ?_,
      fun k hk i => ?_, fun k hk i => ?_, fun n name => ?_⟩
    · rw [valuesOf_loadRelation hd.target_mem, valuesOf_loadRelation hd.target_mem, ha.values_eq]
    · by_cases hsame : Ref.stored k.parent.name i = .stored h.parent.name id ∧
          k.relation.name = h.relation.name
      · rw [members_of_related? ((hr _ _).trans (if_pos hsame)),
          members_of_related? ((hr' _ _).trans (if_pos hsame)), hloaded]
      · rw [members_congr k _ ((hr _ _).trans (if_neg hsame)),
          members_congr k _ ((hr' _ _).trans (if_neg hsame)), ha.members_eq k hk i]
    · have hk := ha.loaded_eq k hk i
      unfold loadedOf at hk ⊢
      rw [hr, hr', hloaded]
      split
      · rfl
      · exact hk
    · rw [hr, hr', if_neg (by simp), if_neg (by simp), ha.drafts_eq]

end Load

/-- Both graphs hold a record of a model. -/
def BothHold (m : Model) (g g' : Graph) (ref : Ref) : Prop :=
  ref ∈ g.refs ∧ ref ∈ g'.refs ∧ ∃ id, ref = .stored m.name id

/-- The graph with some values of the records of rows changed. -/
def revalueAll (g : Graph) (m : Model) (es : Row → List (String × Value)) (rows : List Row) :
    Graph :=
  rows.foldl (fun g row => g.revalue (.stored m.name row.id) (es row)) g

section RevalueAll
variable {m : Model} {es : Row → List (String × Value)} {rows : List Row}

theorem refs_revalueAll : (g.revalueAll m es rows).refs = g.refs := by
  induction rows generalizing g with
  | nil => rfl
  | cons row rows ih => exact ih.trans (refs_revalue ..)

theorem related?_revalueAll (r : Ref) (name : String) :
    (g.revalueAll m es rows).related? r name = g.related? r name := by
  induction rows generalizing g with
  | nil => rfl
  | cons row rows ih => exact ih.trans (related?_revalue ..)

theorem Alike.revalueAll (ha : Alike s st g g')
    (hrows : ∀ row ∈ rows, BothHold m g g' (.stored m.name row.id)) :
    Alike s st (g.revalueAll m es rows) (g'.revalueAll m es rows) := by
  induction rows generalizing g g' with
  | nil => exact ha
  | cons row rows ih =>
    obtain ⟨hheld, hheld', -⟩ := hrows row (List.mem_cons_self ..)
    refine ih (ha.revalue hheld hheld' _) fun t ht => ?_
    unfold BothHold
    rw [refs_revalue, refs_revalue]
    exact hrows t (List.mem_cons_of_mem _ ht)

end RevalueAll

section LoadAll
variable {h : Handle} {refs : List Ref}

theorem mem_refs_loadRelations {r : Ref} (hr : r ∈ g.refs) :
    r ∈ (refs.foldl (Graph.loadRelation s st h) g).refs := by
  induction refs generalizing g with
  | nil => exact hr
  | cons ref refs ih => exact ih (mem_refs_loadRelation hr)

theorem isSome_loadRelations {r : Ref} {name : String} (hr : (g.related? r name).isSome) :
    ((refs.foldl (Graph.loadRelation s st h) g).related? r name).isSome := by
  induction refs generalizing g with
  | nil => exact hr
  | cons ref refs ih => exact ih (isSome_loadRelation hr)

theorem isSome_of_mem_loadRelations {id : Int} {row : Row}
    (hrow : (st.table h.parent.table).find? id = some row)
    (hmem : .stored h.parent.name id ∈ refs)
    (hrefs : ∀ ref ∈ refs, ref ∈ g.refs ∧ ∃ id, ref = .stored h.parent.name id) :
    ((refs.foldl (Graph.loadRelation s st h) g).related? (.stored h.parent.name id)
      h.relation.name).isSome := by
  induction refs generalizing g with
  | nil => cases hmem
  | cons ref refs ih =>
    obtain ⟨⟨href, hkind⟩, hrest⟩ := List.forall_mem_cons.1 hrefs
    have hheld : ∀ r ∈ refs, r ∈ (g.loadRelation s st h ref).refs ∧
        ∃ id, r = .stored h.parent.name id :=
      fun r hr => ⟨mem_refs_loadRelation (hrest r hr).1, (hrest r hr).2⟩
    rw [List.foldl_cons]
    rcases List.mem_cons.1 hmem with rfl | hmem
    · refine isSome_loadRelations ?_
      rw [related?_loadRelation hrow href, if_pos ⟨rfl, rfl⟩]
      rfl
    · exact ih hmem hheld

theorem refs_loadRelations {ref : Ref} (hmem : ref ∈ refs)
    (hrefs : ∀ ref ∈ refs, ref ∈ g.refs ∧ ∃ id, ref = .stored h.parent.name id) :
    (((refs.foldl (Graph.loadRelation s st h) g).related? ref h.relation.name).map
      Related.refs).getD [] = (refs.foldl (Graph.loadRelation s st h) g).members st h ref := by
  obtain ⟨id, rfl⟩ := (hrefs ref hmem).2
  cases hq : (refs.foldl (Graph.loadRelation s st h) g).related? (.stored h.parent.name id)
      h.relation.name with
  | some q =>
    rw [members_of_related? hq]
    rfl
  | none =>
    cases hrow : (st.table h.parent.table).find? id with
    | none =>
      unfold members
      rw [hq]
      dsimp only
      rw [hrow]
      rfl
    | some row =>
      have hsome := isSome_of_mem_loadRelations (s := s) hrow hmem hrefs
      rw [hq] at hsome
      cases hsome

theorem Alike.loadRelations (ha : Alike s st g g') (hd : s.Declares h)
    (hrefs : ∀ ref ∈ refs, BothHold h.parent g g' ref) :
    Alike s st (refs.foldl (Graph.loadRelation s st h) g)
      (refs.foldl (Graph.loadRelation s st h) g') := by
  induction refs generalizing g g' with
  | nil => exact ha
  | cons ref refs ih =>
    obtain ⟨⟨href, href', id, rfl⟩, hrest⟩ := List.forall_mem_cons.1 hrefs
    refine ih (ha.loadRelation hd href href') fun r hr => ?_
    obtain ⟨hheld, hheld', hkind⟩ := hrest r hr
    exact ⟨mem_refs_loadRelation hheld, mem_refs_loadRelation hheld', hkind⟩

theorem held_of_mem_next {k : Graph} (hk : k.Sound s) (hd : s.Declares h)
    (hrefs : ∀ ref ∈ refs, BothHold h.parent g g' ref) {c : Ref}
    (hc : c ∈ refs.flatMap fun ref => ((k.related? ref h.relation.name).map Related.refs).getD []) :
    c ∈ k.refs ∧ ∃ id, c = .stored h.target.name id := by
  obtain ⟨ref, href, hc⟩ := List.mem_flatMap.1 hc
  obtain ⟨-, -, id, rfl⟩ := hrefs ref href
  cases hq : k.related? (.stored h.parent.name id) h.relation.name with
  | none => simp [hq] at hc
  | some q => exact hk h hd id q hq c (by simpa [hq] using hc)

end LoadAll

theorem mem_refs_loadChain {hs : List Handle} {refs : List Ref} {r : Ref} (hr : r ∈ g.refs) :
    r ∈ (g.loadChain s st hs refs).refs := by
  induction hs generalizing g refs with
  | nil => exact hr
  | cons h hs ih => exact ih (mem_refs_loadRelations hr)

theorem mem_refs_loadChains {chains : List (List Handle)} {refs : List Ref} {r : Ref}
    (hr : r ∈ g.refs) : r ∈ (g.loadChains s st chains refs).refs := by
  unfold Graph.loadChains
  induction chains generalizing g with
  | nil => exact hr
  | cons hs chains ih => exact ih (mem_refs_loadChain hr)

theorem isSome_loadChain {hs : List Handle} {refs : List Ref} {r : Ref} {name : String}
    (hr : (g.related? r name).isSome) : ((g.loadChain s st hs refs).related? r name).isSome := by
  induction hs generalizing g refs with
  | nil => exact hr
  | cons h hs ih => exact ih (isSome_loadRelations hr)

theorem isSome_loadChains {chains : List (List Handle)} {refs : List Ref} {r : Ref} {name : String}
    (hr : (g.related? r name).isSome) :
    ((g.loadChains s st chains refs).related? r name).isSome := by
  unfold Graph.loadChains
  induction chains generalizing g with
  | nil => exact hr
  | cons hs chains ih => exact ih (isSome_loadChain hr)

/-- The relation that a chain begins with is loaded on the records it starts from. -/
theorem isSome_of_mem_loadChains {chains : List (List Handle)} {refs : List Ref} {h : Handle}
    {hs : List Handle} (hchain : h :: hs ∈ chains) {id : Int} {row : Row}
    (hrow : (st.table h.parent.table).find? id = some row)
    (hmem : .stored h.parent.name id ∈ refs)
    (hrefs : ∀ ref ∈ refs, ref ∈ g.refs ∧ ∃ id, ref = .stored h.parent.name id) :
    ((g.loadChains s st chains refs).related? (.stored h.parent.name id)
      h.relation.name).isSome := by
  induction chains generalizing g with
  | nil => cases hchain
  | cons ks chains ih =>
    rcases List.mem_cons.1 hchain with rfl | hchain
    · refine isSome_loadChains (g := g.loadChain s st (h :: hs) refs) ?_
      unfold Graph.loadChain
      exact isSome_loadChain (isSome_of_mem_loadRelations hrow hmem hrefs)
    · exact ih hchain fun ref href => ⟨mem_refs_loadChain (hrefs ref href).1, (hrefs ref href).2⟩

theorem Alike.loadChain (ha : Alike s st g g') {m : Model} (hm : m ∈ s.models) {hs : List Handle}
    (hchain : IsChain s m hs) {refs : List Ref} (hrefs : ∀ ref ∈ refs, BothHold m g g' ref) :
    Alike s st (g.loadChain s st hs refs) (g'.loadChain s st hs refs) := by
  induction hs generalizing m refs g g' with
  | nil => exact ha
  | cons h hs ih =>
    obtain ⟨rfl, hh, hrest⟩ := hchain
    have hd : s.Declares h := ⟨hm, hh⟩
    have hnext := ha.loadRelations hd hrefs
    -- The records that the next relation starts from are the same in both graphs.
    have hsame : refs.flatMap (fun ref => (((refs.foldl (Graph.loadRelation s st h) g').related? ref
          h.relation.name).map Related.refs).getD []) =
        refs.flatMap (fun ref => (((refs.foldl (Graph.loadRelation s st h) g).related? ref
          h.relation.name).map Related.refs).getD []) := by
      refine List.flatMap_congr fun ref href => ?_
      rw [refs_loadRelations href fun r hr => ⟨(hrefs r hr).1, (hrefs r hr).2.2⟩,
        refs_loadRelations href fun r hr => ⟨(hrefs r hr).2.1, (hrefs r hr).2.2⟩]
      obtain ⟨-, -, id, rfl⟩ := hrefs ref href
      exact hnext.members_eq h hd id
    unfold Graph.loadChain
    dsimp only
    rw [hsame]
    refine ih hnext hd.target_mem hrest fun c hc => ?_
    have hc' := hsame ▸ hc
    exact ⟨(held_of_mem_next hnext.sound hd hrefs hc).1,
      (held_of_mem_next hnext.sound_other hd hrefs hc').1,
      (held_of_mem_next hnext.sound hd hrefs hc).2⟩

theorem Alike.loadChains (ha : Alike s st g g') {m : Model} (hm : m ∈ s.models)
    {chains : List (List Handle)} (hchains : ∀ hs ∈ chains, IsChain s m hs) {refs : List Ref}
    (hrefs : ∀ ref ∈ refs, BothHold m g g' ref) :
    Alike s st (g.loadChains s st chains refs) (g'.loadChains s st chains refs) := by
  unfold Graph.loadChains
  induction chains generalizing g g' with
  | nil => exact ha
  | cons hs chains ih =>
    refine ih (ha.loadChain hm (hchains hs (List.mem_cons_self ..)) hrefs)
      (fun hs' h => hchains hs' (List.mem_cons_of_mem _ h)) fun ref href => ?_
    obtain ⟨hheld, hheld', hkind⟩ := hrefs ref href
    exact ⟨mem_refs_loadChain hheld, mem_refs_loadChain hheld', hkind⟩

end Records.Graph
