import Records.Schema

/-!
The models of a small library: authors with their books and profiles, chapters of books, venues
with their event slots, and a tree of categories.
-/
namespace Records.Library

def textColumn (name : String) (required : Bool := false) : Column :=
  ⟨name, .text, required, false, none, false, none⟩

def reference (name table : String) (required : Bool := false) : Column :=
  ⟨name, .int, required, false, none, false, some table⟩

def timestamps : List Column := [createdAt, updatedAt]

def trashed : String × Computed := ("trashed", .isSet deletedAt.name)

def activeColumn : Column := ⟨"active", .bool, true, false, some (.value (.bool true)), false, none⟩

def author : Model where
  name := "Author"
  table := "author"
  columns := [idColumn, textColumn "name" true, textColumn "country",
    { textColumn "status" true with default := some (.value (.text "active")) },
    ⟨"rating", .int, true, false, some (.value (.int 0)), false, none⟩,
    activeColumn,
    textColumn "secret_note"] ++ timestamps ++ [deletedAt]
  relations := [⟨"books", "Book", .many "author_id" "id" true⟩,
    ⟨"profile", "Profile", .one "author_id" true⟩]
  softDeletes := true
  computed := [("display_name", .annotated "name" "country"), trashed]
  hidden := ["secret_note"]
  appends := ["display_name"]

def book : Model where
  name := "Book"
  table := "book"
  columns := [idColumn, reference "author_id" "author", textColumn "title" true, textColumn "genre",
    ⟨"pages", .int, true, false, some (.value (.int 0)), false, none⟩] ++ timestamps ++ [deletedAt]
  relations := [⟨"author", "Author", .parent "author_id"⟩,
    ⟨"chapters", "Chapter", .many "book_id" "number" true⟩]
  softDeletes := true
  computed := [trashed]

def profile : Model where
  name := "Profile"
  table := "profile"
  columns := [idColumn, reference "author_id" "author" true, textColumn "bio", textColumn "website"]
  relations := [⟨"author", "Author", .parent "author_id"⟩]

def chapter : Model where
  name := "Chapter"
  table := "chapter"
  columns := [idColumn, reference "book_id" "book" true,
    ⟨"number", .int, true, false, none, false, none⟩, textColumn "title" true]
  relations := [⟨"book", "Book", .parent "book_id"⟩]

def venue : Model where
  name := "Venue"
  table := "venue"
  columns := [idColumn, textColumn "label" true,
    ⟨"opened_on", .date, false, false, none, false, none⟩,
    ⟨"score", .float, false, false, none, false, none⟩,
    ⟨"door_code", .untyped, false, false, none, false, none⟩] ++ timestamps
  relations := [⟨"event_slots", "EventSlot", .many "venue_id" "id" true⟩]
  hidden := ["door_code"]

def eventSlot : Model where
  name := "EventSlot"
  table := "event_slot"
  columns := [idColumn, reference "venue_id" "venue", textColumn "title" true,
    ⟨"starts_on", .date, false, false, none, false, none⟩, deletedAt]
  relations := [⟨"venue", "Venue", .parent "venue_id"⟩]
  softDeletes := true
  computed := [trashed]

def category : Model where
  name := "Category"
  table := "category"
  columns := [idColumn, { textColumn "name" true with unique := true },
    reference "parent_id" "category"]
  relations := [⟨"parent", "Category", .parent "parent_id"⟩,
    ⟨"children", "Category", .many "parent_id" "id" false⟩]

def schema : Schema where
  models := [author, book, profile, chapter, venue, eventSlot, category]
  distinctNames := by decide
  distinctTables := by decide
  distinctRelations := by decide

/-- Every relation of the library leads to one of its models. -/
theorem handle?_isSome :
    ∀ m ∈ schema.models, ∀ r ∈ m.relations, (schema.model? r.target).isSome := by
  decide

end Records.Library
