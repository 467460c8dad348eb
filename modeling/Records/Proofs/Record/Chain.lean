import Records.Staging

/-!
Relations that a schema declares, and chains of them. The relations that eager loading follows, and
those through which records are attached, are all declared.
-/
namespace Records

/-- A relation of one of the models, found under its own name. -/
structure Schema.Declares (s : Schema) (h : Handle) : Prop where
  parent_mem : h.parent ∈ s.models
  handle? : s.handle? h.parent h.relation.name = some h

namespace Schema
variable {s : Schema} {m : Model} {name : String} {h : Handle}

theorem target_mem_of_handle? (hh : s.handle? m name = some h) : h.target ∈ s.models :=
  mem_of_model? (handle?_eq_some.1 hh).2.1

theorem Declares.target_mem (hd : s.Declares h) : h.target ∈ s.models :=
  target_mem_of_handle? hd.handle?

theorem Declares.eq_of_names {k : Handle} (hd : s.Declares h) (hk : s.Declares k)
    (hparent : k.parent.name = h.parent.name) (hname : k.relation.name = h.relation.name) :
    k = h := by
  have hsame := eq_of_name hk.parent_mem hd.parent_mem hparent
  have hfound := hk.handle?
  rw [hsame, hname, hd.handle?] at hfound
  exact (Option.some.inj hfound).symm

theorem declares_of_handle? (hm : m ∈ s.models) (hh : s.handle? m name = some h) :
    s.Declares h ∧ h.parent = m := by
  have hparent := (handle?_eq_some.1 hh).2.2
  refine ⟨⟨hparent ▸ hm, ?_⟩, hparent⟩
  rw [hparent, relation_name_of_handle? hh, hh]

theorem declares_of_resolve? (hm : m ∈ s.models) (hh : s.resolve? m name = some h) :
    s.Declares h ∧ h.parent = m := by
  obtain ⟨declared, hd⟩ := exists_handle?_of_resolve? hh
  exact declares_of_handle? hm hd

theorem target_mem_of_resolve? (hh : s.resolve? m name = some h) : h.target ∈ s.models := by
  obtain ⟨declared, hd⟩ := exists_handle?_of_resolve? hh
  exact target_mem_of_handle? hd

theorem declares_of_mem_handles (hm : m ∈ s.models) (hh : h ∈ s.handles m) :
    s.Declares h ∧ h.parent = m := by
  obtain ⟨r, -, hr⟩ := List.mem_filterMap.1 hh
  exact declares_of_handle? hm hr

theorem declares_back (hd : s.Declares h) {back : Handle} (hb : h.back? = some back) :
    s.Declares back ∧ back.parent = h.target := by
  obtain ⟨r, hr, rfl⟩ := Option.map_eq_some_iff.1 hb
  have hmem : r ∈ h.target.relations := List.mem_of_find?_eq_some hr
  -- It was found by where it leads.
  have htarget : r.target = h.parent.name := by
    have hp := List.find?_some hr
    simp only [Bool.and_eq_true, beq_iff_eq] at hp
    exact hp.1
  refine ⟨⟨hd.target_mem, handle?_eq_some.2 ⟨relation?_of_mem hd.target_mem hmem, ?_, rfl⟩⟩, rfl⟩
  rw [htarget]
  exact model?_of_mem hd.parent_mem

end Schema

/-- Relations that follow on each other, from the records of a model on. -/
def IsChain (s : Schema) : Model → List Handle → Prop
  | _, [] => True
  | m, h :: hs => h.parent = m ∧ s.handle? m h.relation.name = some h ∧ IsChain s h.target hs

theorem isChain_of_chain {s : Schema} {m : Model} {names : List String} {hs : List Handle}
    (h : s.chain m names = .ok hs) : IsChain s m hs := by
  induction names generalizing m hs with
  | nil =>
    cases h
    trivial
  | cons name names ih =>
    unfold Schema.chain at h
    cases hr : s.resolve? m name with
    | none => simp [hr] at h
    | some handle =>
      rw [hr] at h
      cases hrest : s.chain handle.target names with
      | error e => simp [hrest, Except.map] at h
      | ok rest =>
        simp only [hrest, Except.map, Except.ok.injEq] at h
        subst h
        obtain ⟨declared, hd⟩ := Schema.exists_handle?_of_resolve? hr
        refine ⟨(Schema.handle?_eq_some.1 hd).2.2, ?_, ih hrest⟩
        rw [Schema.relation_name_of_handle? hd, hd]

theorem isChain_of_chains {s : Schema} {m : Model} {ε : Type} {paths : List String}
    {chains : List (List Handle)} (h : (s.chains m paths : Reported ε _).outcome = .ok chains) :
    ∀ hs ∈ chains, IsChain s m hs := by
  induction paths generalizing chains with
  | nil =>
    cases h
    simp
  | cons path paths ih =>
    unfold Schema.chains at h
    cases hc : s.chain m (segments path) with
    | error last =>
      simp only [hc, Reported.outcome_bind, Reported.outcome_entry, Except.bind] at h
      exact ih h
    | ok hs =>
      simp only [hc, Reported.outcome_bind, Reported.outcome_pure] at h
      cases hrest : (s.chains m paths : Reported ε _).outcome with
      | error e => simp [hrest, Except.bind] at h
      | ok rest =>
        simp only [hrest, Except.bind, Except.ok.injEq] at h
        subst h
        exact List.forall_mem_cons.2 ⟨isChain_of_chain hc, ih hrest⟩

end Records
