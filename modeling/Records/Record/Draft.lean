import Records.Record.Graph

/-!
Records that are not stored yet, drafted from nested values: columns, and under the name of a
relation the related records.
-/
namespace Records

inductive DraftError
  /-- The key is no attribute of the model. -/
  | unknownKey (model key : String)
  /-- The key names an attribute that is computed. -/
  | computedKey (model key : String)
deriving DecidableEq

def DraftError.message : DraftError → String
  | .unknownKey model key => "'" ++ key ++ "' is an invalid keyword argument for " ++ model
  | .computedKey model key =>
    "property '" ++ key ++ "' of '" ++ model ++ "' object has no setter"

namespace Model

/-- Attributes that every record computes. -/
def inherentAttributes : List String := ["hidden_fields", "appended_fields"]

def isComputed (m : Model) (key : String) : Bool :=
  (m.computed.map (·.1)).contains key || inherentAttributes.contains key

/-- The columns of a draft, unless a key is neither a column nor a relation. -/
def draftValues (m : Model) (es : List (String × Value)) :
    Except DraftError (List (String × Value)) :=
  (es.filter fun e => (m.relation? e.1).isNone).mapM fun e =>
    if m.hasColumn e.1 then .ok e
    else if m.isComputed e.1 then .error (.computedKey m.name e.1)
    else .error (.unknownKey m.name e.1)

end Model

namespace Graph

/-- A draft with its columns and no relations yet. -/
def startDraft (g : Graph) (m : Model) (es : List (String × Value)) :
    Except DraftError (Graph × Ref) := do
  let values ← m.draftValues es
  let ref := Ref.draft g.nodes.length
  let unset := m.columnNames.filter fun c => !(values.map (·.1)).contains c
  return (g.add ref { model := m, values := values, deferred := unset }, ref)

mutual

def draftRelations (s : Schema) (m : Model) (ref : Ref) :
    List (String × Value) → Graph → Except DraftError Graph
  | [], g => .ok g
  | (key, v) :: es, g => do
    let g ← match s.handle? m key with
      | none => pure g
      | some h => match v with
        | .object child => do
          let (g, c) ← g.startDraft h.target child
          let g ← draftRelations s h.target c child g
          pure (g.attach h ref c)
        | .list items => draftItems s h ref items (g.setRelated ref key (.many []))
        | .tuple items => draftItems s h ref items (g.setRelated ref key (.many []))
        | _ => pure (g.setRelated ref key (.one none))
    draftRelations s m ref es g

def draftItems (s : Schema) (h : Handle) (ref : Ref) : List Value → Graph → Except DraftError Graph
  | [], g => .ok g
  | v :: vs, g => do
    let g ← match v with
      | .object child => do
        let (g, c) ← g.startDraft h.target child
        let g ← draftRelations s h.target c child g
        pure (g.attach h ref c)
      | _ => pure g
    draftItems s h ref vs g

end

/-- The graph of a draft, and the draft itself. -/
def draft (s : Schema) (m : Model) (es : List (String × Value)) :
    Except DraftError (Graph × Ref) := do
  let (g, ref) ← empty.startDraft m es
  return (← draftRelations s m ref es g, ref)

end Graph

end Records
