import Records.Proofs.Session.Alike
import Records.Resource.Change

/-!
What a resource does in sessions that act alike: every read and every change tells and yields the
same in both, and leaves one store.
-/
namespace Records

open Records.Action
open Records.Filter (Predicate)

section Staged
variable {s : Schema} {c : Staging} {held : List (Model × Ref)} {m : Model}

theorem alike_of_unstaged {α : Type} {x : Action α} {Q : α → Session → Session → Prop}
    {E : Session → Session → Prop} (h : Relates (Session.AlikeStaged s held) x Q E) :
    Relates (Session.Alike s .empty held) x Q E := h.weaken fun _ _ hse => hse.unstaged

theorem alike_of_staged {α : Type} {x : Action α} {Q : α → Session → Session → Prop}
    {E : Session → Session → Prop}
    (h : ∀ c : Staging, c.Fits s → Relates (Session.Alike s c held) x Q E) :
    Relates (Session.AlikeStaged s held) x Q E := .anyOf h

theorem alike_stage {f : Staging → Staging} (hf : ∀ c : Staging, c.Fits s → (f c).Fits s) :
    Relates (Session.AlikeStaged s held) (Action.stage f) (fun _ => Session.AlikeStaged s held)
      Session.SameStore := by
  refine .modify ?_
  rintro se se' ⟨c, hc, h⟩
  refine ⟨f c, hf c hc, ⟨h.store_eq, h.now_eq, ?_, ?_, h.active, h.active_other, h.records,
    h.holds⟩⟩
  · exact congrArg f h.staged
  · exact congrArg f h.staged_other

theorem alike_stageDraft (m : Model) (values : List (String × Value)) :
    Relates (Session.AlikeStaged s held) (Action.stageDraft m values)
      (fun ref se se' => Session.AlikeStaged s held se se' ∧ ∃ n, ref = .draft n)
      Session.SameStore := by
  rintro se se' ⟨c, hc, h⟩
  have hstaged : se'.staged = se.staged := by rw [h.staged, h.staged_other]
  unfold Action.stageDraft
  rw [hstaged]
  refine ⟨rfl, rfl, ⟨(se.staged.addDraft m values).1, ?_, h.store_eq, h.now_eq, rfl, rfl, h.active,
    h.active_other, h.records, h.holds⟩, ⟨_, rfl⟩⟩
  rw [h.staged]
  exact hc

theorem alike_attach {h : Handle} {holder member : Ref} (hd : s.Declares h)
    (hholder : holder.IsOf h.parent) (hmember : member.IsOf h.target) :
    Relates (Session.AlikeStaged s held) (Action.stage (·.attach h holder member))
      (fun _ => Session.AlikeStaged s held) Session.SameStore := by
  refine alike_stage fun c hc a ha => ?_
  rcases List.mem_append.1 ha with ha | ha
  · exact hc a ha
  · obtain rfl := List.mem_singleton.1 ha
    exact ⟨hd, hholder, hmember⟩

theorem alike_flush : Relates (Session.AlikeStaged s held) (Action.flush s)
    (fun _ => Session.Same s) (Session.AlikeStaged s held) := by
  rintro se se' ⟨c, hc, h⟩
  have hflush : se'.staged.flush s se'.now se'.store se'.records =
      se.staged.flush s se.now se.store se.records := by
    rw [h.staged, h.staged_other, h.now_eq, h.store_eq]
    exact Staging.flush_alike h.records hc se.now
  unfold Action.flush
  rw [h.active, h.active_other, hflush]
  simp only [Bool.false_eq_true, if_false]
  cases se.staged.flush s se.now se.store se.records with
  | error e => exact ⟨rfl, rfl, c, hc, h⟩
  | ok w => exact ⟨rfl, rfl, Session.same_committed h.sameStore w.store⟩

theorem alike_commit : Relates (Session.AlikeStaged s held) (Action.commit s)
    (fun _ => Session.Same s) Session.SameStore := by
  intro se se' h
  obtain ⟨hlog, hresult, hsession⟩ := alike_flush h
  cases hr : (Action.flush s se).result with
  | ok w =>
    rw [hr] at hresult hsession
    rw [commit_apply_of_ok hr, commit_apply_of_ok hresult, hr]
    exact ⟨hlog, hresult, hsession⟩
  | error e =>
    rw [hr] at hresult hsession
    rw [commit_apply_of_error hr, commit_apply_of_error hresult]
    exact ⟨hlog, rfl, hsession.sameStore⟩

theorem alike_save (m : Model) : Relates (Session.AlikeStaged s held) (Action.save s m)
    (fun _ => Session.Same s) Session.SameStore := by
  intro se se' h
  obtain ⟨hlog, hresult, hsession⟩ := alike_flush h
  cases hr : (Action.flush s se).result with
  | ok w =>
    rw [hr] at hresult hsession
    rw [save_apply_of_ok hr, save_apply_of_ok hresult]
    exact ⟨hlog, rfl, hsession⟩
  | error e =>
    rw [hr] at hresult hsession
    unfold Action.save
    simp only [hr, hresult, hlog]
    cases e.escapes with
    | true => exact ⟨rfl, rfl, hsession.sameStore⟩
    | false => exact ⟨rfl, rfl, Session.same_rolledBack hsession.sameStore⟩

theorem alike_pendingValue {ref : Ref} (href : (m, ref) ∈ held) (column : String) :
    Relates (Session.Alike s c held) (Resource.pendingValue ref column)
      (fun _ => Session.Alike s c held) Session.SameStore := by
  unfold Resource.pendingValue
  refine .current (fun se se' h => ?_) fun se => ?_
  · obtain ⟨hheld, hheld', -⟩ := h.holds (m, ref) href
    obtain ⟨n, hn⟩ := Graph.mem_refs_iff.1 hheld
    obtain ⟨n', hn'⟩ := Graph.mem_refs_iff.1 hheld'
    have hvalues := h.records.values_eq ref
    unfold Graph.valuesOf at hvalues
    rw [hn, hn'] at hvalues
    have hsame : n'.values = n.values := Option.some.inj hvalues
    dsimp only
    rw [hn, hn', h.staged, h.staged_other]
    simp only [Option.map_some, Option.getD_some, Node.value, hsame]
  · dsimp only
    split <;> exact .pure fun _ _ h => h

end Staged

namespace Resource
variable {s : Schema} {r : Resource} {c : Staging} {held : List (Model × Ref)} {m : Model}

section Reads
variable (hm : r.model ∈ r.schema.models)
include hm

theorem alike_fetch {q : Query} (hmodel : q.model = r.model) {chains : List (List Handle)}
    (hchains : ∀ hs ∈ chains, IsChain r.schema r.model hs) (deferred : List String) :
    Relates (Session.Alike r.schema c held) (r.fetch q chains deferred)
      (fun refs => Session.Alike r.schema c (refs.map (fun ref => (r.model, ref)) ++ held))
      Session.SameStore := by
  unfold fetch
  refine (alike_query q).bind fun rows => ?_
  rw [hmodel]
  refine (alike_hold hm rows deferred).bind fun refs => ?_
  exact (alike_load hm hchains).bind fun _ => .pure fun _ _ h => h

theorem respects_alike (withTrashed : Bool) : r.Respects withTrashed (fun _ => True)
    (Session.Alike r.schema c []) Session.SameStore where
  fetch hmodel _ _ _ hchains deferred :=
    (alike_fetch hm hmodel hchains deferred).mono fun _ _ _ h => h.mono (by simp)
  count _ _ _ := alike_count _
  fails _ _ h := h.sameStore
  looks_exactly _ := trivial
  looks_filter _ := trivial

theorem alike_findById (id : Value) (withTrashed : Bool) :
    Relates (Session.Alike r.schema c held) (r.findById id [] withTrashed)
      (fun found => Session.Alike r.schema c
        (found.toList.map (fun ref => (r.model, ref)) ++ held)) Session.SameStore := by
  unfold findById
  exact (alike_fetch hm rfl (by simp) []).bind fun refs => .pure fun se se' h => h.head

end Reads

section Staging

theorem alike_fill (ref : Ref) (es : List (String × Value)) :
    Relates (Session.AlikeStaged s held) (fill m ref es) (fun _ => Session.AlikeStaged s held)
      Session.SameStore := by
  cases ref with
  | stored name id => exact alike_stage fun c hc a ha => hc a ha
  | draft n => exact .pure fun _ _ h => h

theorem relates_nested {R E : Session → Session → Prop} (hm : r.model ∈ r.schema.models)
    (es : List (String × Value)) : Relates R (r.nested es) (fun ns se se' => R se se' ∧
      ∀ n ∈ ns, r.schema.Declares n.handle ∧ n.handle.parent = r.model) E := by
  induction es with
  | nil => exact .pure fun _ _ h => ⟨h, by simp⟩
  | cons e es ih =>
    obtain ⟨key, v⟩ := e
    unfold nested
    split
    · split
      · rename_i h hh
        refine ih.bind fun ns => .pure fun _ _ hns => ⟨hns.1, ?_⟩
        exact List.forall_mem_cons.2 ⟨Schema.declares_of_resolve? hm hh, hns.2⟩
      · exact (Relates.entry _).bind fun _ => ih
    · exact ih

theorem alike_attachNew {h : Handle} (hd : s.Declares h) {holder : Ref}
    (hholder : holder.IsOf h.parent) (es : List (String × Value)) :
    Relates (Session.AlikeStaged s held) (attachNew holder h es)
      (fun _ => Session.AlikeStaged s held) Session.SameStore := by
  unfold attachNew
  refine (alike_stageDraft h.target _).bind fun member => .given ?_
  rintro ⟨n, rfl⟩
  exact alike_attach hd hholder trivial

theorem alike_belongs (h : Handle) {holder : Ref} (hheld : (m, holder) ∈ held) :
    Relates (Session.Alike s c held) (belongs h holder) (fun _ => Session.Alike s c held)
      Session.SameStore := by
  unfold belongs
  split
  · exact (alike_pendingValue hheld _).bind fun _ => .pure fun _ _ h => h
  · exact (alike_pendingValue hheld _).bind fun _ => .pure fun _ _ h => h

theorem alike_findRelated {h : Handle} (ht : h.target ∈ r.schema.models) {holder : Ref}
    (hheld : (m, holder) ∈ held) (id : Value) :
    Relates (Session.Alike r.schema c held) (r.findRelated holder h id)
      (fun found => Session.Alike r.schema c
        (found.toList.map (fun ref => (h.target, ref)) ++ held)) Session.SameStore := by
  unfold findRelated
  refine (alike_belongs h hheld).bind fun ps => ?_
  refine (alike_query _).bind fun rows => ?_
  exact (alike_hold ht rows []).bind fun refs => .pure fun se se' hse => hse.head

theorem alike_attachNested {h : Handle} (hd : r.schema.Declares h) {holder : Ref}
    (hholder : holder.IsOf h.parent) (hheld : (m, holder) ∈ held) (es : List (String × Value)) :
    Relates (Session.AlikeStaged r.schema held) (r.attachNested holder h es)
      (fun _ => Session.AlikeStaged r.schema held) Session.SameStore := by
  unfold attachNested
  split
  · exact alike_attachNew hd hholder es
  · refine alike_of_staged fun c hc => ?_
    refine (alike_findRelated hd.target_mem hheld _).bind fun found => ?_
    cases found with
    | some member =>
      have hmember (se se' : Session)
          (hse : Session.Alike r.schema c
            ((some member).toList.map (fun ref => (h.target, ref)) ++ held) se se') :
          member.IsOf h.target :=
        (hse.holds (h.target, member) (List.mem_cons_self ..)).isOf
      refine .using hmember fun hmember => ?_
      have hfill : Relates (Session.AlikeStaged r.schema held) (fill h.target member es)
          (fun _ => Session.AlikeStaged r.schema held) Session.SameStore := alike_fill member es
      refine Relates.bind (hfill.weaken fun se se' hse =>
        ⟨c, hc, hse.mono fun e he => List.mem_append_right _ he⟩) fun _ => ?_
      exact alike_attach hd hholder hmember
    | none =>
      -- The sessions forget all that they staged before the problem is raised.
      refine (alike_pendingValue (m := m) (by simpa using hheld) _).bind fun id => ?_
      have hforget : Relates (Session.Alike r.schema c
          ((none : Option Ref).toList.map (fun ref => (h.target, ref)) ++ held)) Action.rollback
          (fun _ => Session.SameStore) Session.SameStore :=
        .modify fun se se' hse => hse.sameStore
      exact hforget.bind fun _ => .raise _ fun _ _ hse => hse

end Staging

section Writing

theorem sound_hold {se : Session} (h : se.records.Sound s) (rows : List Row)
    (deferred : List String) : (Action.hold s m deferred rows se).session.records.Sound s := by
  have hheld : (rows.foldl (Graph.hold s se.store m deferred) se.records).Sound s :=
    h.holdAll deferred
  rw [records_hold_revalue]
  refine hheld.of_related (fun ref href => ?_) Graph.related?_revalueAll
  rwa [Graph.refs_revalueAll]

theorem same_reload (w : Written) (ref : Ref) : Relates (Session.Same r.schema) (r.reload w ref)
    (fun _ => Session.Same r.schema) Session.SameStore := by
  unfold reload
  split
  · refine Relates.bind (Q := fun _ => Session.Same r.schema) ?_ fun _ => .pure fun _ _ h => h
    rintro se se' ⟨rfl, hstaged, hactive, hsound⟩
    exact ⟨rfl, rfl, rfl, hstaged, hactive, sound_hold hsound _ _⟩
  · rintro se se' ⟨rfl, -⟩
    exact ⟨rfl, rfl, rfl, rfl⟩

-- The store that is committed is another one, so nothing would be known of the records held. But
-- nothing is staged either, and then they are not asked for.
theorem alike_commitOn (st : Store) : Relates (Session.Alike s .empty held)
    (Action.commitOn s st) (fun _ => Session.Same s) Session.SameStore := by
  intro se se' h
  have hflush : se'.staged.flush s se'.now st se'.records =
      se.staged.flush s se.now st se.records := by
    rw [h.staged, h.staged_other, h.now_eq]
    exact Staging.flush_empty ..
  unfold Action.commitOn Action.commit Action.flush
  simp only [h.active, h.active_other, hflush, Bool.false_eq_true, if_false]
  cases se.staged.flush s se.now st se.records with
  | error e => exact ⟨rfl, rfl, h.sameStore⟩
  | ok w => exact ⟨rfl, rfl, Session.same_committed h.sameStore w.store⟩

theorem same_commitValues (ref : Ref) (es : List (String × Value)) :
    Relates (Session.AlikeStaged r.schema held) (r.commitValues ref es)
      (fun _ => Session.Same r.schema) Session.SameStore := by
  unfold commitValues
  refine (alike_fill ref es).bind fun _ => ?_
  exact alike_commit.bind fun w => same_reload w ref

theorem same_delete (ref : Ref) : Relates (Session.AlikeStaged r.schema held) (r.delete ref)
    (fun _ => Session.Same r.schema) Session.SameStore := by
  unfold delete
  split
  · refine .current (fun se se' h => ?_) fun se => ?_
    · obtain ⟨c, -, h⟩ := h
      rw [h.now_eq]
    · exact (same_commitValues ref _).bind fun _ => .pure fun _ _ h => h
  · have hremove : Relates (Session.AlikeStaged r.schema held) (Action.stage (·.remove ref))
        (fun _ => Session.AlikeStaged r.schema held) Session.SameStore :=
      alike_stage fun c hc a ha => hc a ha
    exact hremove.bind fun _ => alike_commit.bind fun _ => .pure fun _ _ h => h

theorem same_saveRecord (ref : Ref) (message : String) :
    Relates (Session.AlikeStaged r.schema held) (r.saveRecord ref message)
      (fun _ => Session.Same r.schema) Session.SameStore := by
  unfold saveRecord
  refine (alike_save r.model).bind fun saved => ?_
  cases saved with
  | none => exact .pure fun _ _ h => h
  | some w =>
    dsimp only
    refine (same_reload w ref).bind fun ref => ?_
    exact (Relates.entry _).bind fun _ => .pure fun _ _ h => h

end Writing

section Changes
variable (hm : r.model ∈ r.schema.models)
include hm

theorem alike_store (payload : Value) :
    Relates (Session.Alike r.schema .empty []) (r.store payload)
      (fun _ => Session.Same r.schema) Session.SameStore := by
  unfold store
  refine (relates_ofExcept (fun _ _ h => h.sameStore) _).bind fun es => ?_
  refine (alike_of_unstaged (alike_stageDraft r.model _)).bind fun holder => .given ?_
  rintro ⟨n, rfl⟩
  refine (relates_nested hm es).bind fun ns => .given fun hns => ?_
  refine (Relates.forM fun n hn => .forM fun es _ => ?_).bind fun _ => same_saveRecord _ _
  obtain ⟨hd, hparent⟩ := hns n hn
  exact alike_attachNew hd (Ref.isOf_draft ..) es

theorem alike_update (id payload : Value) :
    Relates (Session.Alike r.schema .empty []) (r.update id payload)
      (fun _ => Session.Same r.schema) Session.SameStore := by
  unfold update
  refine (alike_findById hm id false).bind fun found => ?_
  cases found with
  | none => exact .raise _ fun _ _ h => h.sameStore
  | some holder =>
    dsimp only
    -- The record is held in both from here on, which is what its nested records are attached to.
    refine .using (fun se se' h => (h.holds (r.model, holder) (by simp)).isOf) fun hholder => ?_
    refine (relates_ofExcept (fun _ _ h => h.sameStore) _).bind fun es => ?_
    have hheld : (r.model, holder) ∈ [(r.model, holder)] := List.mem_singleton_self _
    refine (alike_of_unstaged (alike_fill holder es)).bind fun _ => ?_
    refine (relates_nested hm es).bind fun ns => .given fun hns => ?_
    refine (Relates.forM fun n hn => .forM fun es _ => ?_).bind fun _ => same_saveRecord _ _
    obtain ⟨hd, hparent⟩ := hns n hn
    exact alike_attachNested hd (hparent ▸ hholder) hheld es

theorem alike_destroy (id : Value) :
    Relates (Session.Alike r.schema .empty []) (r.destroy id)
      (fun _ => Session.Same r.schema) Session.SameStore := by
  unfold destroy
  refine (alike_findById hm id false).bind fun found => ?_
  cases found with
  | none => exact .raise _ fun _ _ h => h.sameStore
  | some ref =>
    refine (alike_of_unstaged (same_delete ref)).bind fun _ => ?_
    exact Relates.entry _

theorem alike_restore (id : Value) :
    Relates (Session.Alike r.schema .empty []) (r.restore id)
      (fun _ => Session.Same r.schema) Session.SameStore := by
  unfold restore
  refine (alike_findById hm id true).bind fun found => ?_
  split
  · rename_i ref hsoft
    unfold unmark
    refine Relates.bind (Q := fun _ => Session.Same r.schema) ?_ fun _ => Relates.entry _
    exact (alike_of_unstaged (same_commitValues ref _)).bind fun _ => .pure fun _ _ h => h
  · exact .raise _ fun _ _ h => h.sameStore

omit hm in
theorem alike_create (es : List (String × Value)) :
    Relates (Session.Alike r.schema .empty []) (r.create es)
      (fun _ => Session.Same r.schema) Session.SameStore := by
  unfold create
  refine (alike_of_unstaged (alike_stageDraft r.model _)).bind fun ref => .given fun _ => ?_
  exact alike_commit.bind fun w => same_reload w ref

theorem alike_firstOrCreate (attributes values : Value) :
    Relates (Session.Alike r.schema .empty []) (r.firstOrCreate attributes values)
      (fun _ => Session.Alike r.schema .empty []) Session.SameStore := by
  unfold firstOrCreate
  refine (relates_findOneBy (respects_alike hm false) attributes (by simp)).bind fun found => ?_
  cases found with
  | some ref => exact .pure fun _ _ h => h
  | none =>
    refine (relates_ofExcept (fun _ _ h => h.sameStore) _).bind fun es => ?_
    exact (alike_create es).bind fun ref => .pure fun _ _ h => h.alike

theorem alike_updateOrCreate (attributes values : Value) :
    Relates (Session.Alike r.schema .empty []) (r.updateOrCreate attributes values)
      (fun _ => Session.Same r.schema) Session.SameStore := by
  unfold updateOrCreate
  refine (relates_findOneBy (respects_alike hm false) attributes (by simp)).bind fun found => ?_
  cases found with
  | some ref =>
    refine (relates_ofExcept (fun _ _ h => h.sameStore) _).bind fun es => ?_
    exact (alike_of_unstaged (same_commitValues ref es)).bind fun _ => .pure fun _ _ h => h
  | none =>
    refine (relates_ofExcept (fun _ _ h => h.sameStore) _).bind fun es => ?_
    exact (alike_create es).bind fun ref => .pure fun _ _ h => h

omit hm in
theorem alike_changeAll (ids : List Value) (es : List (String × Value)) :
    Relates (Session.Alike r.schema .empty []) (r.changeAll ids es)
      (fun _ => Session.Same r.schema) Session.SameStore := by
  unfold changeAll
  refine (relates_ofReported (fun _ _ h => h.sameStore) _ _).bind fun chosen => .given fun _ => ?_
  refine .current (fun se se' h => ?_) fun se => ?_
  · rw [h.store_eq, h.now_eq, h.active, h.active_other]
  · split
    · exact fun _ _ h => ⟨rfl, rfl, h.sameStore⟩
    · refine (relates_ofExcept (fun _ _ h => h.sameStore) _).bind fun written => ?_
      exact (alike_commitOn written.1).bind fun _ => .pure fun _ _ h => h

omit hm in
theorem alike_multiUpdate (ids attributes : Value) :
    Relates (Session.Alike r.schema .empty []) (r.multiUpdate ids attributes)
      (fun _ => Session.Alike r.schema .empty []) Session.SameStore := by
  unfold multiUpdate
  refine (relates_ofExcept (fun _ _ h => h.sameStore) _).bind fun ids => ?_
  refine (relates_ofExcept (fun _ _ h => h.sameStore) _).bind fun es => ?_
  dsimp only
  split
  · exact .raise _ fun _ _ h => h.sameStore
  · split
    · exact .pure fun _ _ h => h
    · refine (alike_changeAll ids _).bind fun count => ?_
      exact (Relates.entry _).bind fun _ => .pure fun _ _ h => h.alike

end Changes

end Resource

end Records
