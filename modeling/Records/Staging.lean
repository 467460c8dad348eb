import Records.Record.Eager

/-!
Changes that are staged and not yet written: new records, edits of stored ones, records put under
relations of others, and records to be removed. What an attachment means for foreign keys is settled
when the changes are written, for then new records get their ids.
-/
namespace Records

structure Draft where
  model : Model
  values : List (String × Value)
deriving DecidableEq

structure Edit where
  model : Model
  id : Int
  values : List (String × Value)
deriving DecidableEq

/-- A record put under a relation of another. -/
structure Attachment where
  member : Ref
  holder : Ref
  handle : Handle
deriving DecidableEq

/-- A foreign key that is to lead to a record. -/
structure Bond where
  record : Ref
  column : String
  target : Ref
deriving DecidableEq

structure Staging where
  /-- A draft is known by its place. -/
  drafts : List Draft := []
  edits : List Edit := []
  attachments : List Attachment := []
  /-- Stored records that are to be removed, with all that they own. -/
  removed : List Ref := []
deriving DecidableEq

namespace Staging

def empty : Staging := {}

def addDraft (g : Staging) (m : Model) (values : List (String × Value)) : Staging × Ref :=
  ({ g with drafts := g.drafts ++ [⟨m, values⟩] }, .draft g.drafts.length)

def putEdit (m : Model) (id : Int) (values : List (String × Value)) : List Edit → List Edit
  | [] => [⟨m, id, values⟩]
  | e :: es =>
    if e.model.name = m.name ∧ e.id = id then { e with values := Value.merge e.values values } :: es
    else e :: putEdit m id values es

/-- New values for columns of a stored record. -/
def edit (g : Staging) (m : Model) (id : Int) (values : List (String × Value)) : Staging :=
  { g with edits := putEdit m id values g.edits }

def attach (g : Staging) (h : Handle) (holder member : Ref) : Staging :=
  { g with attachments := g.attachments ++ [⟨member, holder, h⟩] }

def remove (g : Staging) (ref : Ref) : Staging := { g with removed := g.removed ++ [ref] }

/-- The values staged for a stored record. -/
def valuesOf (g : Staging) (model : String) (id : Int) : List (String × Value) :=
  ((g.edits.find? fun e => e.model.name = model ∧ e.id = id).map (·.values)).getD []

/-- The record that a singular relation was last given. -/
def lastMember? (g : Staging) (relation : String) (holder : Ref) : Option Ref :=
  let under := g.attachments.filter fun a => a.handle.relation.name = relation ∧ a.holder = holder
  under.getLast?.map (·.member)

/-- A later record took the place of this one. -/
def isSuperseded (g : Staging) (a : Attachment) : Bool :=
  !a.handle.relation.link.isMany && g.lastMember? a.handle.relation.name a.holder != some a.member

end Staging

/-- The records that a relation of a record holds before any change: those it was loaded with, or
else those in the store. -/
def Graph.members (g : Graph) (st : Store) (h : Handle) (ref : Ref) : List Ref :=
  match g.related? ref h.relation.name, ref with
  | some r, _ => r.refs
  | none, .stored _ id =>
    match (st.table h.parent.table).find? id with
    | some r => (h.relatedOf (memberRows st h r)).refs
    | none => []
  | none, .draft _ => []

/-- The relation that leads back, with its two models. -/
def Handle.back? (h : Handle) : Option Handle := h.inverse?.map fun r => ⟨r, h.target, h.parent⟩

namespace Attachment

/-- The foreign key that an attachment sets. A record that the relation already holds keeps its
own. -/
def bond? (members : List Ref) (a : Attachment) : Option Bond :=
  if members.contains a.member then none
  else match a.handle.relation.link with
    | .parent fk => some ⟨a.holder, fk, a.member⟩
    | link => some ⟨a.member, link.foreignKey, a.holder⟩

/-- The singular relation that loses a record to an attachment, and the record it then holds. -/
def displacing? (a : Attachment) : Option (Handle × Ref × Ref) :=
  match a.handle.relation.link with
  | .one .. => some (a.handle, a.holder, a.member)
  | .many .. => none
  | .parent _ =>
    match a.handle.back? with
    | some back => if back.relation.link.isMany then none else some (back, a.member, a.holder)
    | none => none

end Attachment

end Records
