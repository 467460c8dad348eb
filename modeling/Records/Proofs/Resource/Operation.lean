import Records.Proofs.Resource.Alike

/-!
The operations of resources, one after another in a session. In sessions that act alike they have
the same results and leave the same stores.
-/
namespace Records

open Records.Action
open Records.Calendar (Moment)

/-- What a resource can be asked to do. -/
inductive Operation
  | read (withTrashed : Bool) (q : Read)
  | store (payload : Value)
  | update (id payload : Value)
  | destroy (id : Value)
  | restore (id : Value)
  | firstOrCreate (attributes values : Value)
  | updateOrCreate (attributes values : Value)
  | multiUpdate (ids attributes : Value)

/-- What an operation yields. -/
inductive Reply
  | found (f : Found)
  | saved (ref : Option Ref)
  | chosen (ref : Ref) (isNew : Bool)
  | counted (n : Nat)
  | done

def Resource.perform (r : Resource) : Operation → Action Reply
  | .read withTrashed q => do return .found (← r.read withTrashed q)
  | .store payload => do return .saved (← r.store payload)
  | .update id payload => do return .saved (← r.update id payload)
  | .destroy id => do
    r.destroy id
    return .done
  | .restore id => do
    r.restore id
    return .done
  | .firstOrCreate attributes values => do
    let (ref, isNew) ← r.firstOrCreate attributes values
    return .chosen ref isNew
  | .updateOrCreate attributes values => do
    let (ref, isNew) ← r.updateOrCreate attributes values
    return .chosen ref isNew
  | .multiUpdate ids attributes => do return .counted (← r.multiUpdate ids attributes)

/-- An operation of a resource at some time. -/
structure Call where
  resource : Resource
  operation : Operation
  now : Moment

def Call.run (c : Call) (se : Session) : Outcome Reply :=
  c.resource.perform c.operation { se with now := c.now }

/-- The session for the next call: a call that failed is rolled back. -/
def Outcome.next {α : Type} (o : Outcome α) : Session :=
  match o.result with
  | .ok _ => o.session
  | .error _ => o.session.rolledBack

/-- What the calls of a session yield, one after another, and the store that each leaves. -/
def replay : List Call → Session → List (Except Failure Reply × Store)
  | [], _ => []
  | c :: cs, se => ((c.run se).result, (c.run se).session.store) :: replay cs (c.run se).next

/-- An operation has one effect in sessions that act alike. -/
theorem Resource.alike_perform {r : Resource} (hm : r.model ∈ r.schema.models) (op : Operation) :
    Relates (Session.Alike r.schema .empty []) (r.perform op)
      (fun _ => Session.Alike r.schema .empty []) Session.SameStore := by
  cases op with
  | read withTrashed q =>
    refine (relates_read (respects_alike hm withTrashed) (respects_alike hm false) q).bind ?_
    exact fun _ => .pure fun _ _ h => h
  | store payload => exact (alike_store hm payload).bind fun _ => .pure fun _ _ h => h.alike
  | update id payload => exact (alike_update hm id payload).bind fun _ => .pure fun _ _ h => h.alike
  | destroy id => exact (alike_destroy hm id).bind fun _ => .pure fun _ _ h => h.alike
  | restore id => exact (alike_restore hm id).bind fun _ => .pure fun _ _ h => h.alike
  | firstOrCreate attributes values =>
    exact (alike_firstOrCreate hm attributes values).bind fun _ => .pure fun _ _ h => h
  | updateOrCreate attributes values =>
    exact (alike_updateOrCreate hm attributes values).bind fun _ => .pure fun _ _ h => h.alike
  | multiUpdate ids attributes =>
    exact (alike_multiUpdate ids attributes).bind fun _ => .pure fun _ _ h => h

theorem replay_alike {s : Schema} {calls : List Call}
    (hcalls : ∀ c ∈ calls, c.resource.schema = s ∧ c.resource.model ∈ s.models) {se se' : Session}
    (h : Session.Alike s .empty [] se se') : replay calls se' = replay calls se := by
  induction calls generalizing se se' with
  | nil => rfl
  | cons c calls ih =>
    obtain ⟨⟨rfl, hm⟩, hrest⟩ := List.forall_mem_cons.1 hcalls
    have hnow : Session.Alike c.resource.schema .empty [] { se with now := c.now }
        { se' with now := c.now } := { h with now_eq := rfl }
    obtain ⟨-, hresult, hsession⟩ := Resource.alike_perform hm c.operation hnow
    -- After a failure both sessions are rolled back, and then they are even the same.
    have hnext : Session.Alike c.resource.schema .empty [] (c.run se).next (c.run se').next ∧
        (c.run se').session.store = (c.run se).session.store := by
      unfold Outcome.next Call.run
      rw [hresult]
      cases hr : (c.resource.perform c.operation { se with now := c.now }).result with
      | ok a =>
        rw [hr] at hsession
        exact ⟨hsession, hsession.store_eq⟩
      | error e =>
        rw [hr] at hsession
        exact ⟨(Session.same_rolledBack hsession).alike, hsession.1⟩
    unfold replay
    rw [ih hrest hnext.1, hnext.2, Call.run, Call.run, hresult]

end Records
