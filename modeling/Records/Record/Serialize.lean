import Records.Record.Attribute

/-!
Records as plain data. A record shows its columns, its loaded relations and its appended attributes
but the hidden ones; a record that is already shown further up is not repeated.
-/
namespace Records

/-- Which attributes a record shows besides its model's defaults: more are hidden, and others may
be appended instead. -/
structure Visibility where
  hidden : List String := []
  appends : Option (List String) := none
deriving DecidableEq

namespace Node

def columnData (n : Node) (hidden : List String) : List (String × Datum) :=
  (n.model.columnNames.filter fun c => !hidden.contains c).map fun c => (c, .value (n.value c))

def appendedData (n : Node) (hidden appends : List String) :
    Except MissingAttribute (List (String × Datum)) :=
  (appends.eraseDups.filter fun a => !hidden.contains a).mapM fun a => return (a, ← n.attr? a)

end Node

/-- The entries with each one of the second put in place of the one under its key. -/
def overlay (entries extra : List (String × Datum)) : List (String × Datum) :=
  entries.filter (fun e => !(extra.map (·.1)).contains e.1) ++ extra

namespace Graph

/-- The data of a record below records that are already shown. `remaining` are the records that may
still be shown, this one among them. -/
def dataBelow (g : Graph) (remaining : List Ref) (ref : Ref) (v : Visibility) :
    Except MissingAttribute Datum :=
  if _h : ref ∈ remaining then
    match g.node? ref with
    | none => .ok (.value .null)
    | some n => do
      let hidden := n.model.hidden ++ v.hidden
      let shown := n.model.relations.filter fun r => !hidden.contains r.name
      let rest := remaining.erase ref
      let relations ← shown.mapM fun r =>
        match n.related? r.name with
        | none => pure []
        | some (.one none) => pure [(r.name, Datum.value .null)]
        | some (.one (some child)) =>
          if child ∈ rest then do return [(r.name, ← g.dataBelow rest child {})] else pure []
        | some (.many children) => do
          let items ← (children.filter (· ∈ rest)).mapM fun child => g.dataBelow rest child {}
          return [(r.name, .list items)]
      let appended ← n.appendedData hidden (v.appends.getD n.model.appends)
      return .object (overlay (n.columnData hidden ++ relations.flatten) appended)
  else .ok (.value .null)
termination_by remaining.length
decreasing_by
  all_goals
    have := List.length_pos_of_mem _h
    simp only [List.length_erase_of_mem _h]
    omega

/-- The data of a record. -/
def data (g : Graph) (ref : Ref) (v : Visibility := {}) : Except MissingAttribute Datum :=
  g.dataBelow g.refs ref v

end Graph

end Records
