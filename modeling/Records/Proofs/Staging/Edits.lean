import Records.Staging.Flush

/-!
The values that are staged for stored records. There is one edit for a record, and what comes later
goes over what is there.
-/
namespace Records

theorem Value.lookup?_eq_none {column : String} {es : List (String × Value)}
    (h : ∀ e ∈ es, e.1 ≠ column) : lookup? column es = none := by
  have hnone : es.find? (·.1 == column) = none :=
    List.find?_eq_none.2 fun e he => by simpa using h e he
  unfold lookup?
  rw [hnone]
  rfl

theorem Value.mem_of_lookup? {column : String} {es : List (String × Value)} {v : Value}
    (h : lookup? column es = some v) : (column, v) ∈ es := by
  obtain ⟨e, he, rfl⟩ := Option.map_eq_some_iff.1 h
  have hkey : e.1 = column := by simpa using List.find?_some he
  exact hkey ▸ List.mem_of_find?_eq_some he

theorem Value.lookup?_merge_of_none {column : String} {extra : List (String × Value)}
    (h : lookup? column extra = none) (es : List (String × Value)) :
    lookup? column (merge es extra) = lookup? column es := by
  induction extra generalizing es with
  | nil => rfl
  | cons e extra ih =>
    obtain ⟨key, v⟩ := e
    have hne : column ≠ key := by
      rintro rfl
      simp [lookup?] at h
    have hrest : lookup? column extra = none := by
      simpa [lookup?, Ne.symm hne] using h
    calc lookup? column (merge es ((key, v) :: extra))
        = lookup? column (merge (put key v es) extra) := rfl
      _ = lookup? column (put key v es) := ih hrest _
      _ = lookup? column es := lookup?_put_of_ne hne v es

theorem Value.lookup?_merge_eq_none {column : String} {es extra : List (String × Value)}
    (h : lookup? column (merge es extra) = none) :
    (∀ e ∈ extra, e.1 ≠ column) ∧ lookup? column es = none := by
  induction extra generalizing es with
  | nil => exact ⟨fun _ he => absurd he List.not_mem_nil, h⟩
  | cons e extra ih =>
    obtain ⟨hextra, hput⟩ := ih h
    by_cases hkey : column = e.1
    · rw [hkey, lookup?_put_self] at hput
      cases hput
    · rw [lookup?_put_of_ne hkey] at hput
      exact ⟨List.forall_mem_cons.2 ⟨Ne.symm hkey, hextra⟩, hput⟩

theorem Value.lookup?_merge_cases {column : String} {es extra : List (String × Value)} {v : Value}
    (h : lookup? column (merge es extra) = some v) :
    (column, v) ∈ extra ∨ (∀ e ∈ extra, e.1 ≠ column) ∧ lookup? column es = some v := by
  induction extra generalizing es with
  | nil => exact .inr ⟨fun _ he => absurd he List.not_mem_nil, h⟩
  | cons e extra ih =>
    rcases ih h with hin | ⟨hnone, hput⟩
    · exact .inl (List.mem_cons_of_mem _ hin)
    · by_cases hkey : column = e.1
      · rw [hkey, lookup?_put_self] at hput
        obtain rfl := Option.some.inj hput
        exact .inl (hkey ▸ List.mem_cons_self ..)
      · rw [lookup?_put_of_ne hkey] at hput
        exact .inr ⟨List.forall_mem_cons.2 ⟨Ne.symm hkey, hnone⟩, hput⟩

/-- Edits of different records. -/
def Edit.Apart (a b : Edit) : Prop := ¬(a.model.name = b.model.name ∧ a.id = b.id)

namespace Staging

theorem find?_putEdit (m : Model) (id : Int) (values : List (String × Value)) (es : List Edit)
    (name : String) (i : Int) :
    (putEdit m id values es).find? (fun e => e.model.name = name ∧ e.id = i) =
      if m.name = name ∧ id = i then
        some (((es.find? fun e => e.model.name = name ∧ e.id = i).map fun e =>
          { e with values := Value.merge e.values values }).getD ⟨m, id, values⟩)
      else es.find? fun e => e.model.name = name ∧ e.id = i := by
  induction es with
  | nil =>
    by_cases hkey : m.name = name ∧ id = i
    · simp [putEdit, hkey]
    · simp [putEdit, hkey]
  | cons e es ih =>
    unfold putEdit
    by_cases hhere : e.model.name = m.name ∧ e.id = id
    · rw [if_pos hhere]
      by_cases hkey : m.name = name ∧ id = i
      · simp [hhere, hkey]
      · simp [hhere, hkey]
    · rw [if_neg hhere]
      by_cases hfound : e.model.name = name ∧ e.id = i
      · have hkey : ¬(m.name = name ∧ id = i) := by
          rintro ⟨rfl, rfl⟩
          exact hhere hfound
        simp [hfound, hkey]
      · rw [List.find?_cons_of_neg (by simpa using hfound), ih,
          List.find?_cons_of_neg (by simpa using hfound)]

theorem valuesOf_edit (g : Staging) (m : Model) (id : Int) (values : List (String × Value))
    (name : String) (i : Int) : (g.edit m id values).valuesOf name i =
      if m.name = name ∧ id = i then
        ((g.edits.find? fun e => e.model.name = name ∧ e.id = i).map fun e =>
          Value.merge e.values values).getD values
      else g.valuesOf name i := by
  unfold valuesOf edit
  dsimp only
  rw [find?_putEdit]
  split
  · cases g.edits.find? fun e => e.model.name = name ∧ e.id = i <;> rfl
  · rfl

theorem lookup?_valuesOf_edit {g : Staging} {m : Model} {id : Int}
    {values : List (String × Value)} {name : String} {i : Int} {column : String}
    (h : Value.lookup? column ((g.edit m id values).valuesOf name i) = none) :
    Value.lookup? column (g.valuesOf name i) = none := by
  rw [valuesOf_edit] at h
  split at h
  · unfold valuesOf
    cases hfound : g.edits.find? fun e => e.model.name = name ∧ e.id = i with
    | none => rfl
    | some e =>
      rw [hfound] at h
      exact (Value.lookup?_merge_eq_none h).2
  · exact h

theorem lookup?_valuesOf_edit_of_none {g : Staging} {m : Model} {id : Int}
    {values : List (String × Value)} {name : String} {i : Int} {column : String}
    (h : m.name = name → id = i → Value.lookup? column values = none) :
    Value.lookup? column ((g.edit m id values).valuesOf name i) =
      Value.lookup? column (g.valuesOf name i) := by
  rw [valuesOf_edit]
  split
  · rename_i hsame
    have hnone := h hsame.1 hsame.2
    unfold valuesOf
    cases g.edits.find? fun e => e.model.name = name ∧ e.id = i with
    | none => exact hnone
    | some e => exact Value.lookup?_merge_of_none hnone e.values
  · rfl

theorem lookup?_valuesOf_edit_of_mem (g : Staging) {m : Model} (id : Int)
    {values : List (String × Value)} {column : String} {v : Value} (hv : (column, v) ∈ values) :
    ∃ v', (column, v') ∈ values ∧
      Value.lookup? column ((g.edit m id values).valuesOf m.name id) = some v' := by
  rw [valuesOf_edit, if_pos ⟨rfl, rfl⟩]
  cases g.edits.find? fun e => e.model.name = m.name ∧ e.id = id with
  | none =>
    have hfound : (values.find? (·.1 == column)).isSome :=
      List.find?_isSome.2 ⟨_, hv, beq_self_eq_true _⟩
    obtain ⟨e, he⟩ := Option.isSome_iff_exists.1 hfound
    have hstaged : Value.lookup? column values = some e.2 := by
      unfold Value.lookup?
      rw [he]
      rfl
    exact ⟨e.2, Value.mem_of_lookup? hstaged, hstaged⟩
  | some e =>
    change ∃ v', (column, v') ∈ values ∧
      Value.lookup? column (Value.merge e.values values) = some v'
    cases hstaged : Value.lookup? column (Value.merge e.values values) with
    | none => exact absurd rfl ((Value.lookup?_merge_eq_none hstaged).1 _ hv)
    | some v' =>
      rcases Value.lookup?_merge_cases hstaged with hin | ⟨hnone, -⟩
      · exact ⟨v', hin, rfl⟩
      · exact absurd rfl (hnone _ hv)

/-- The records that are edited are those that were, and the one of the new edit. -/
theorem mem_putEdit_cases {m : Model} {id : Int} {values : List (String × Value)} {es : List Edit}
    {e : Edit} (he : e ∈ putEdit m id values es) : (e.model.name = m.name ∧ e.id = id) ∨
      ∃ e' ∈ es, e.model.name = e'.model.name ∧ e.id = e'.id := by
  induction es with
  | nil =>
    obtain rfl := List.mem_singleton.1 he
    exact .inl ⟨rfl, rfl⟩
  | cons f es ih =>
    unfold putEdit at he
    split at he
    · rename_i hsame
      rcases List.mem_cons.1 he with rfl | he
      · exact .inl hsame
      · exact .inr ⟨e, List.mem_cons_of_mem _ he, rfl, rfl⟩
    · rcases List.mem_cons.1 he with rfl | he
      · exact .inr ⟨e, List.mem_cons_self .., rfl, rfl⟩
      · refine (ih he).imp_right ?_
        rintro ⟨e', he', hsame⟩
        exact ⟨e', List.mem_cons_of_mem _ he', hsame⟩

theorem pairwise_putEdit {m : Model} {id : Int} {values : List (String × Value)} {es : List Edit}
    (h : es.Pairwise Edit.Apart) : (putEdit m id values es).Pairwise Edit.Apart := by
  induction es with
  | nil => exact List.pairwise_singleton ..
  | cons e es ih =>
    obtain ⟨hfirst, hrest⟩ := List.pairwise_cons.1 h
    unfold putEdit
    split
    · exact List.pairwise_cons.2 ⟨hfirst, hrest⟩
    · rename_i hother
      refine List.pairwise_cons.2 ⟨fun e' he' hsame => ?_, ih hrest⟩
      rcases mem_putEdit_cases he' with ⟨hname, hid⟩ | ⟨f, hf, hname, hid⟩
      · exact hother ⟨hsame.1.trans hname, hsame.2.trans hid⟩
      · exact hfirst f hf ⟨hsame.1.trans hname, hsame.2.trans hid⟩

theorem mem_putEdit (m : Model) (id : Int) (values : List (String × Value)) (es : List Edit) :
    ∃ e ∈ putEdit m id values es, e.model.name = m.name ∧ e.id = id := by
  induction es with
  | nil => exact ⟨_, List.mem_singleton_self _, rfl, rfl⟩
  | cons e es ih =>
    unfold putEdit
    split
    · rename_i hsame
      exact ⟨_, List.mem_cons_self .., hsame⟩
    · obtain ⟨e', he', hsame⟩ := ih
      exact ⟨e', List.mem_cons_of_mem _ he', hsame⟩

theorem exists_putEdit {m : Model} {id : Int} {values : List (String × Value)} {es : List Edit}
    {name : String} {i : Int} (h : ∃ e ∈ es, e.model.name = name ∧ e.id = i) :
    ∃ e ∈ putEdit m id values es, e.model.name = name ∧ e.id = i := by
  induction es with
  | nil =>
    obtain ⟨e, he, -⟩ := h
    cases he
  | cons f es ih =>
    obtain ⟨e, he, hsame⟩ := h
    unfold putEdit
    rcases List.mem_cons.1 he with rfl | he
    · split
      · exact ⟨_, List.mem_cons_self .., hsame⟩
      · exact ⟨_, List.mem_cons_self .., hsame⟩
    · split
      · exact ⟨e, List.mem_cons_of_mem _ he, hsame⟩
      · obtain ⟨e', he', hsame'⟩ := ih ⟨e, he, hsame⟩
        exact ⟨e', List.mem_cons_of_mem _ he', hsame'⟩

theorem valuesOf_eq_nil {g : Staging} {name : String} {id : Int}
    (h : ∀ e ∈ g.edits, e.model.name = name → e.id ≠ id) : g.valuesOf name id = [] := by
  have hnone : g.edits.find? (fun e => e.model.name = name ∧ e.id = id) = none :=
    List.find?_eq_none.2 fun e he => by simpa using h e he
  unfold valuesOf
  rw [hnone]
  rfl

theorem valuesOf_of_mem {g : Staging} (hg : g.edits.Pairwise Edit.Apart) {e : Edit}
    (he : e ∈ g.edits) : g.valuesOf e.model.name e.id = e.values := by
  -- The first edit of the record is this one, as there is no other.
  unfold valuesOf
  have hfound : (g.edits.find? fun f => f.model.name = e.model.name ∧ f.id = e.id) = some e := by
    revert hg he
    generalize g.edits = es
    intro hg he
    induction hg with
    | nil => cases he
    | cons hfirst _ ih =>
      rcases List.mem_cons.1 he with rfl | he
      · exact List.find?_cons_of_pos (by simp)
      · rw [List.find?_cons_of_neg (by simpa [Edit.Apart] using hfirst e he)]
        exact ih he
  rw [hfound]
  rfl

/-- The record that a relation was given last. -/
structure IsLast (g : Staging) (a : Attachment) : Prop where
  attached : a ∈ g.attachments
  last : g.lastMember? a.handle.relation.name a.holder = some a.member

variable {g : Staging} {a : Attachment}

theorem isLast_attach (g : Staging) (h : Handle) (holder member : Ref) :
    (g.attach h holder member).IsLast ⟨member, holder, h⟩ := by
  refine ⟨List.mem_append_right _ (List.mem_singleton_self _), ?_⟩
  unfold lastMember? attach
  dsimp only
  rw [List.filter_append, List.filter_cons_of_pos (by simp), List.filter_nil, List.getLast?_concat]
  rfl

theorem IsLast.attach_of_ne (ha : g.IsLast a) {h : Handle}
    (hother : h.relation.name ≠ a.handle.relation.name) (holder member : Ref) :
    (g.attach h holder member).IsLast a := by
  refine ⟨List.mem_append_left _ ha.attached, ?_⟩
  rw [← ha.last]
  unfold lastMember? attach
  dsimp only
  rw [List.filter_append, List.filter_cons_of_neg (by simp [hother]), List.filter_nil,
    List.append_nil]

theorem IsLast.standing (ha : g.IsLast a) : a ∈ g.standing := by
  refine List.mem_eraseDups.2 (List.mem_filter.2 ⟨ha.attached, ?_⟩)
  unfold isSuperseded
  rw [ha.last]
  simp

/-- A record that keeps its place under a singular relation is the last one. -/
theorem isLast_of_standing (ha : a ∈ g.standing) (hlink : a.handle.relation.link.isMany = false) :
    g.IsLast a := by
  obtain ⟨hattached, hstands⟩ := List.mem_filter.1 (List.mem_eraseDups.1 ha)
  refine ⟨hattached, ?_⟩
  unfold isSuperseded at hstands
  rw [hlink] at hstands
  simpa using hstands

end Staging

end Records
