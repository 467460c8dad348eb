import Records.Schema
import Records.Text.LowerCase

/-!
Finding a relation by the name a caller gives: the declared name, or its spelling in camel case.
-/
namespace Records

/-- An underscore goes before every ASCII capital but one at the very beginning. -/
def markCapitals : List Char → List Char
  | [] => []
  | c :: cs => c :: go cs
where
  go : List Char → List Char
    | [] => []
    | c :: cs => if 'A' ≤ c ∧ c ≤ 'Z' then '_' :: c :: go cs else c :: go cs

/-- The lower-case spelling with underscores of a name in camel case. -/
def snakeCase (name : String) : String :=
  Text.lower (String.ofList (markCapitals name.toList))

/-- A relation between its two models. -/
structure Handle where
  relation : Relation
  parent : Model
  target : Model
deriving DecidableEq

namespace Schema

def handle? (s : Schema) (m : Model) (name : String) : Option Handle := do
  let relation ← m.relation? name
  let target ← s.model? relation.target
  return ⟨relation, m, target⟩

/-- The relation a name stands for, as declared or from camel case. -/
def resolve? (s : Schema) (m : Model) (name : String) : Option Handle :=
  if name = "" then none else (s.handle? m name).or (s.handle? m (snakeCase name))

/-- Only a text can name a relation. -/
def resolveValue? (s : Schema) (m : Model) : Value → Option Handle
  | .text name => s.resolve? m name
  | _ => none

def handles (s : Schema) (m : Model) : List Handle :=
  m.relations.filterMap fun r => s.handle? m r.name

theorem handle?_eq_some {s : Schema} {m : Model} {name : String} {h : Handle} :
    s.handle? m name = some h ↔
      m.relation? name = some h.relation ∧ s.model? h.relation.target = some h.target ∧
        h.parent = m := by
  obtain ⟨relation, parent, target⟩ := h
  unfold handle?
  cases m.relation? name with
  | none => simp
  | some r =>
    simp only [Option.bind_eq_bind, Option.bind_some, Option.bind_eq_some_iff, Option.pure_def,
      Option.some.injEq, Handle.mk.injEq]
    constructor
    · rintro ⟨t, ht, rfl, rfl, rfl⟩
      exact ⟨rfl, ht, rfl⟩
    · rintro ⟨rfl, ht, rfl⟩
      exact ⟨target, ht, rfl, rfl, rfl⟩

theorem relation_name_of_handle? {s : Schema} {m : Model} {name : String} {h : Handle}
    (hh : s.handle? m name = some h) : h.relation.name = name := by
  simpa using List.find?_some (handle?_eq_some.1 hh).1

theorem exists_handle?_of_resolve? {s : Schema} {m : Model} {name : String} {h : Handle}
    (hh : s.resolve? m name = some h) : ∃ declared, s.handle? m declared = some h := by
  unfold resolve? at hh
  split at hh
  · cases hh
  · rcases Option.or_eq_some_iff.1 hh with hh | ⟨-, hh⟩
    · exact ⟨_, hh⟩
    · exact ⟨_, hh⟩

end Schema

/-- Two links are the two ends of one foreign key. -/
def Link.opposite : Link → Link → Bool
  | .many fk _ _, .parent fk' => fk == fk'
  | .one fk _, .parent fk' => fk == fk'
  | .parent fk, .many fk' _ _ => fk == fk'
  | .parent fk, .one fk' _ => fk == fk'
  | _, _ => false

/-- The relation that leads back. -/
def Handle.inverse? (h : Handle) : Option Relation :=
  h.target.relations.find? fun r => r.target == h.parent.name && h.relation.link.opposite r.link

end Records
