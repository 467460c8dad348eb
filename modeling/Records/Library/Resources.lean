import Records.Library.Models
import Records.Resource

/-!
The models of the library served as resources, and authors of whom only the active ones are listed.
-/
namespace Records.Library

def resource (m : Model) : Resource := ⟨schema, m, []⟩

/-- Authors of whom listings show only the active ones. -/
def activeAuthors : Resource :=
  ⟨schema, author, [.compare ⟨author.table, activeColumn⟩ .eq (.bool true)]⟩

/-- The resource with a name: that of a model, or one with conditions of its own. -/
def resource? (name : String) : Option Resource :=
  if name = "ActiveAuthor" then some activeAuthors else (schema.model? name).map resource

/-- A session on a store as it begins, at the turn of a year. -/
def visit (st : Store) : Session :=
  { store := st, now := ⟨⟨2030, 1, 1, by decide⟩, .midnight, none⟩ }

end Records.Library
