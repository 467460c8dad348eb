import Mathlib.Data.List.Forall2
import Records.Proofs.Record.Chain
import Records.Proofs.Store.Live

/-!
Sessions on a store and on the store without its trashed rows hold the same records, as long as they
read rows that are not trashed. Only what the records could still load from the store may differ.
-/
namespace Records

/-- A record of a row of a model that is not trashed. -/
def IsLiveRef (st : Store) (m : Model) (ref : Ref) : Prop :=
  ∃ row ∈ st.rows m, m.isLive row ∧ ref = .stored m.name row.id

/-- What the relations of a row hold in a store. -/
def Store.within (s : Schema) (st : Store) (m : Model) (row : Row) : List (String × Related) :=
  (s.handles m).map fun h => (h.relation.name, h.relatedOf (memberRows st h row))

/-- Two records of one row, held in sessions on the store and on its live part. -/
structure Mirrors (s : Schema) (st : Store) (m : Model) (row : Row) (n n' : Node) : Prop where
  model_eq : n.model = m
  within_eq : n.within = st.within s m row
  twin : n' = { n with within := (st.live s).within s m row }
  related_live : ∀ name r, n.related? name = some r →
    ∃ h, s.handle? m name = some h ∧ ∀ child ∈ r.refs, IsLiveRef st h.target child

/-- Two entries of graphs, each the mirror of the other. -/
def MirrorsAt (s : Schema) (st : Store) (e e' : Ref × Node) : Prop :=
  ∃ m ∈ s.models, ∃ row ∈ st.rows m, m.isLive row ∧ e.1 = .stored m.name row.id ∧ e'.1 = e.1 ∧
    Mirrors s st m row e.2 e'.2

/-- Two graphs that hold the same live records. -/
def Graph.Mirrored (s : Schema) (st : Store) (g g' : Graph) : Prop :=
  List.Forall₂ (MirrorsAt s st) g.nodes g'.nodes

namespace Graph
variable {s : Schema} {st : Store} {g g' : Graph}

theorem Mirrored.keys_eq {es es' : List (Ref × Node)}
    (hes : List.Forall₂ (MirrorsAt s st) es es') : es'.map (·.1) = es.map (·.1) := by
  induction hes with
  | nil => rfl
  | cons he _ ih =>
    obtain ⟨m, -, row, -, -, -, hkey, -⟩ := he
    rw [List.map_cons, List.map_cons, ih, hkey]

theorem Mirrored.refs_eq (hg : Mirrored s st g g') : g'.refs = g.refs := keys_eq hg

theorem Mirrored.contains_eq (hg : Mirrored s st g g') (ref : Ref) :
    g'.contains ref = g.contains ref := by
  unfold contains
  rw [hg.refs_eq]

theorem Mirrored.find?_rel {es es' : List (Ref × Node)}
    (hes : List.Forall₂ (MirrorsAt s st) es es') (ref : Ref) :
    Option.Rel (MirrorsAt s st) (es.find? (·.1 == ref)) (es'.find? (·.1 == ref)) := by
  induction hes with
  | nil => exact .none
  | @cons e e' es es' he _ ih =>
    obtain ⟨m, hm, row, hrow, hlive, href, hkey, hn⟩ := he
    rw [List.find?_cons, List.find?_cons, hkey]
    split
    · exact .some ⟨m, hm, row, hrow, hlive, href, hkey, hn⟩
    · exact ih

theorem Mirrored.node?_some (hg : Mirrored s st g g') {ref : Ref} {n : Node}
    (hn : g.node? ref = some n) : ∃ m ∈ s.models, ∃ row ∈ st.rows m, m.isLive row ∧
      ref = .stored m.name row.id ∧ ∃ n', g'.node? ref = some n' ∧ Mirrors s st m row n n' := by
  have h := Mirrored.find?_rel hg ref
  unfold node? at hn ⊢
  cases hf : g.nodes.find? (·.1 == ref) with
  | none => simp [hf] at hn
  | some e =>
    rw [hf] at h hn
    cases hf' : g'.nodes.find? (·.1 == ref) with
    | none => rw [hf'] at h; cases h
    | some e' =>
      rw [hf'] at h
      obtain ⟨m, hm, row, hrow, hlive, href, hkey, hmirror⟩ := Option.rel_some_some.1 h
      have he : e.1 = ref := by simpa using List.find?_some hf
      cases hn
      exact ⟨m, hm, row, hrow, hlive, he ▸ href, e'.2, rfl, hmirror⟩

theorem Mirrored.node?_none (hg : Mirrored s st g g') {ref : Ref} (hn : g.node? ref = none) :
    g'.node? ref = none := by
  have h := Mirrored.find?_rel hg ref
  unfold node? at hn ⊢
  rw [Option.map_eq_none_iff] at hn ⊢
  rw [hn] at h
  cases hf' : g'.nodes.find? (·.1 == ref) with
  | none => rfl
  | some e' => rw [hf'] at h; cases h

theorem Mirrored.related?_eq (hg : Mirrored s st g g') (ref : Ref) (name : String) :
    g'.related? ref name = g.related? ref name := by
  unfold related?
  cases hn : g.node? ref with
  | none => rw [hg.node?_none hn]
  | some n =>
    obtain ⟨m, -, row, -, -, -, n', hn', hmirror⟩ := hg.node?_some hn
    rw [hn', hmirror.twin]
    rfl

theorem Mirrored.related_live (hg : Mirrored s st g g') {h : Handle} (hd : s.Declares h) {ref : Ref}
    (href : IsLiveRef st h.parent ref) {r : Related}
    (hr : g.related? ref h.relation.name = some r) {child : Ref} (hc : child ∈ r.refs) :
    IsLiveRef st h.target child := by
  unfold related? at hr
  cases hn : g.node? ref with
  | none => simp [hn] at hr
  | some n =>
    rw [hn] at hr
    obtain ⟨m, hm, row, -, -, hrow, n', -, hmirror⟩ := hg.node?_some hn
    obtain ⟨row', -, -, hrow'⟩ := href
    obtain ⟨hname, -⟩ := Ref.stored.inj (hrow.symm.trans hrow')
    obtain rfl : m = h.parent := Schema.eq_of_name hm hd.parent_mem hname
    obtain ⟨h', hh', hlive⟩ := hmirror.related_live _ _ hr
    obtain rfl : h' = h := Option.some.inj (hh'.symm.trans hd.handle?)
    exact hlive child hc

theorem Mirrored.add (hg : Mirrored s st g g') {ref : Ref} {n n' : Node}
    (hn : MirrorsAt s st (ref, n) (ref, n')) : Mirrored s st (g.add ref n) (g'.add ref n') :=
  List.rel_append hg (.cons hn .nil)

theorem Mirrored.modify (hg : Mirrored s st g g') {ref : Ref} {f : Node → Node}
    (hf : ∀ m ∈ s.models, ∀ row ∈ st.rows m, ref = .stored m.name row.id →
      ∀ n n', Mirrors s st m row n n' → Mirrors s st m row (f n) (f n')) :
    Mirrored s st (g.modify ref f) (g'.modify ref f) := by
  unfold Mirrored Graph.modify
  rw [List.forall₂_map_left_iff, List.forall₂_map_right_iff]
  -- Mirrored entries have one key, so the change reaches both of them or neither.
  refine List.Forall₂.imp (fun e e' he => ?_) hg
  obtain ⟨m, hm, row, hrow, hlive, href, hkey, hn⟩ := he
  refine ⟨m, hm, row, hrow, hlive, href, hkey, ?_⟩
  dsimp only
  rw [hkey]
  split
  · rename_i heq
    exact hf m hm row hrow (heq ▸ href) _ _ hn
  · exact hn

theorem Mirrored.hold (hg : Mirrored s st g g') {m : Model} (hm : m ∈ s.models) {row : Row}
    (hrow : row ∈ st.rows m) (hlive : m.isLive row) (deferred : List String) :
    Mirrored s st (g.hold s st m deferred row) (g'.hold s (st.live s) m deferred row) := by
  unfold Graph.hold
  dsimp only
  rw [hg.contains_eq]
  split
  · refine hg.modify fun m' _ row' _ _ n n' hn => ?_
    exact ⟨hn.model_eq, hn.within_eq, by rw [hn.twin], hn.related_live⟩
  · refine hg.add ⟨m, hm, row, hrow, hlive, rfl, rfl, ?_⟩
    exact ⟨rfl, rfl, rfl, fun name r hr => by cases hr⟩

theorem Mirrored.holdAll (hg : Mirrored s st g g') {m : Model} (hm : m ∈ s.models)
    {rows : List Row} (hrows : ∀ row ∈ rows, row ∈ st.rows m ∧ m.isLive row)
    (deferred : List String) : Mirrored s st (rows.foldl (Graph.hold s st m deferred) g)
      (rows.foldl (Graph.hold s (st.live s) m deferred) g') := by
  induction rows generalizing g g' with
  | nil => exact hg
  | cons row rows ih =>
    have hrow := hrows row (List.mem_cons_self ..)
    exact ih (hg.hold hm hrow.1 hrow.2 deferred) fun r hr => hrows r (List.mem_cons_of_mem _ hr)

theorem Mirrored.setRelated (hg : Mirrored s st g g') {h : Handle} (hd : s.Declares h) {ref : Ref}
    (href : IsLiveRef st h.parent ref) {r : Related}
    (hr : ∀ child ∈ r.refs, IsLiveRef st h.target child) :
    Mirrored s st (g.setRelated ref h.relation.name r) (g'.setRelated ref h.relation.name r) := by
  refine hg.modify fun m hm row _ hrow n n' hn => ?_
  obtain ⟨row', -, -, hrow'⟩ := href
  obtain ⟨hname, -⟩ := Ref.stored.inj (hrow.symm.trans hrow')
  obtain rfl : m = h.parent := Schema.eq_of_name hm hd.parent_mem hname
  refine ⟨hn.model_eq, hn.within_eq, by rw [hn.twin]; rfl, fun name r' hr' => ?_⟩
  rw [Node.related?_setRelated] at hr'
  split at hr'
  · cases hr'
    rename_i heq
    exact ⟨h, heq ▸ hd.handle?, hr⟩
  · exact hn.related_live name r' hr'

theorem Mirrored.loadRelation (hg : Mirrored s st g g') {h : Handle} (hd : s.Declares h) {ref : Ref}
    (href : IsLiveRef st h.parent ref) :
    Mirrored s st (g.loadRelation s st h ref) (g'.loadRelation s (st.live s) h ref) := by
  obtain ⟨row, hrow, hlive, rfl⟩ := href
  have ht := hd.target_mem
  unfold Graph.loadRelation
  rw [hg.related?_eq]
  cases g.related? (.stored h.parent.name row.id) h.relation.name with
  | some r => exact hg
  | none =>
    dsimp only
    rw [Table.find?_of_mem hrow, Store.find?_live hd.parent_mem hrow hlive]
    dsimp only
    -- Both stores load the live rows that the relation leads to.
    rw [Store.loadedRows_live ht]
    refine (hg.holdAll ht (fun t => Store.mem_loadedRows) []).setRelated hd
      ⟨row, hrow, hlive, rfl⟩ fun child hc => ?_
    obtain ⟨t, hloaded, rfl⟩ := List.mem_map.1 (Related.mem_of_mem_ofRefs hc)
    obtain ⟨hmem, htlive⟩ := Store.mem_loadedRows hloaded
    exact ⟨t, hmem, htlive, rfl⟩

theorem Mirrored.loadRelations (hg : Mirrored s st g g') {h : Handle} (hd : s.Declares h)
    {refs : List Ref} (hrefs : ∀ ref ∈ refs, IsLiveRef st h.parent ref) :
    Mirrored s st (refs.foldl (Graph.loadRelation s st h) g)
      (refs.foldl (Graph.loadRelation s (st.live s) h) g') := by
  induction refs generalizing g g' with
  | nil => exact hg
  | cons ref refs ih =>
    exact ih (hg.loadRelation hd (hrefs ref (List.mem_cons_self ..)))
      fun r hr => hrefs r (List.mem_cons_of_mem _ hr)

theorem Mirrored.loadChain (hg : Mirrored s st g g') {m : Model} (hm : m ∈ s.models)
    {hs : List Handle} (hchain : IsChain s m hs) {refs : List Ref}
    (hrefs : ∀ ref ∈ refs, IsLiveRef st m ref) :
    Mirrored s st (g.loadChain s st hs refs) (g'.loadChain s (st.live s) hs refs) := by
  induction hs generalizing m refs g g' with
  | nil => exact hg
  | cons h hs ih =>
    obtain ⟨rfl, hh, hrest⟩ := hchain
    have hd : s.Declares h := ⟨hm, hh⟩
    have hnext := hg.loadRelations hd hrefs
    unfold Graph.loadChain
    simp only [hnext.related?_eq]
    -- The next relation starts from what this one has loaded, which is live.
    refine ih hnext hd.target_mem hrest fun child hc => ?_
    obtain ⟨ref, href, hc⟩ := List.mem_flatMap.1 hc
    cases hr : (refs.foldl (Graph.loadRelation s st h) g).related? ref h.relation.name with
    | none => simp [hr] at hc
    | some r => exact hnext.related_live hd (hrefs ref href) hr (by simpa [hr] using hc)

theorem Mirrored.loadChains (hg : Mirrored s st g g') {m : Model} (hm : m ∈ s.models)
    {chains : List (List Handle)} (hchains : ∀ hs ∈ chains, IsChain s m hs) {refs : List Ref}
    (hrefs : ∀ ref ∈ refs, IsLiveRef st m ref) :
    Mirrored s st (g.loadChains s st chains refs) (g'.loadChains s (st.live s) chains refs) := by
  unfold Graph.loadChains
  induction chains generalizing g g' with
  | nil => exact hg
  | cons hs chains ih =>
    exact ih (hg.loadChain hm (hchains hs (List.mem_cons_self ..)) hrefs)
      fun hs' h => hchains hs' (List.mem_cons_of_mem _ h)

end Graph

end Records
