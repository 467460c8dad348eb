import Records.Library.Models
import Records.Store.Table

/-!
A small catalogue: rows of every model of the library, some of them trashed, some without the
record they could refer to.
-/
namespace Records.Library

open Records.Number (Double)

/-- A row with a cell for each column but the id, in the order of the columns. -/
def rowOf (m : Model) (row : Int × List Cell) : Row :=
  ⟨row.1, (m.ownColumns.map Column.name).zip row.2⟩

def tableOf (m : Model) (rows : List (Int × List Cell)) : Table :=
  rows.foldl (fun t row => t.insert (rowOf m row)) .empty

def authors : List (Int × List Cell) := [
  (1, [.text "Ann", .text "AR", .text "active", .integer 5, .integer 1, .text "likes tea",
    .text "2024-01-15 00:00:00.000000", .null, .null]),
  (2, [.text "Bob", .text "CL", .text "active", .integer 0, .integer 1, .null,
    .text "2024-03-10 00:00:00.000000", .text "2024-04-01 12:30:00.000000", .null]),
  (3, [.text "Cora", .text "AR", .text "draft", .integer 3, .integer 1, .null,
    .text "2024-06-01 00:00:00.000000", .null, .null]),
  (4, [.text "Dan", .null, .text "active", .integer 1, .integer 0, .null,
    .text "2024-09-20 00:00:00.000000", .null, .null]),
  (5, [.text "Émile O'Brien", .text "FR", .text "archived", .integer (-7), .integer 0, .text "",
    .text "2023-12-31 23:59:59.999999", .text "2024-01-01 00:00:00.000000", .null]),
  (6, [.text "100% Pure_Ink", .text "UY", .text "draft", .integer 50, .integer 1, .text "a\\b",
    .text "2024-03-10 00:00:00.000001", .null, .null]),
  (7, [.text "ann", .text "", .text "active", .integer 5, .integer 1, .null,
    .text "2024-02-29 08:00:00.000000", .null, .text "2024-05-05 05:05:05.000000"]),
  (8, [.text "张伟", .text "CN", .text "draft", .integer 9007199254740993, .integer 0, .text "True",
    .text "2024-06-01 00:00:00.000000", .null, .text "2024-10-01 00:00:00.000000"])]

def books : List (Int × List Cell) := [
  (10, [.integer 1, .text "Dune", .text "sci-fi", .integer 412,
    .text "2024-01-20 10:00:00.000000", .null, .null]),
  (11, [.integer 1, .text "Emma", .text "classic", .integer 320,
    .text "2024-01-21 10:00:00.000000", .null, .null]),
  (12, [.integer 2, .text "Solaris", .text "sci-fi", .integer 204,
    .text "2024-03-11 00:00:00.000000", .null, .null]),
  (13, [.integer 2, .text "Ubik", .text "sci-fi", .integer 202,
    .text "2024-03-12 00:00:00.000000", .null, .text "2024-10-01 00:00:00.000000"]),
  (14, [.integer 5, .text "L'Été", .null, .integer 0, .text "2024-07-14 00:00:00.000000",
    .text "2024-07-15 00:00:00.000000", .null]),
  (15, [.null, .text "Orphan", .text "classic", .integer 10, .text "2024-08-01 00:00:00.000000",
    .null, .null]),
  (16, [.integer 7, .text "Ghost", .text "classic", .integer 99,
    .text "2024-08-02 00:00:00.000000", .null, .null])]

def profiles : List (Int × List Cell) := [
  (50, [.integer 1, .text "Writes long books", .null]),
  (51, [.integer 5, .null, .text "https://example.org/é"]),
  (52, [.integer 7, .text "gone", .text ""])]

def chapters : List (Int × List Cell) := [
  (100, [.integer 10, .integer 1, .text "Arrakis"]),
  (101, [.integer 11, .integer 1, .text "Hartfield"]),
  (102, [.integer 10, .integer 3, .text "Prophet"]),
  (103, [.integer 10, .integer 2, .text "Muad'Dib"]),
  (104, [.integer 13, .integer 1, .text "Runciter"]),
  (105, [.integer 16, .integer 1, .text "Hartfield"])]

def venues : List (Int × List Cell) := [
  (1, [.text "Hall", .text "1999-12-31", .real (Double.ofDecimal false 45 (-1)), .text "0042",
    .text "2024-01-01 00:00:00.000000", .null]),
  (2, [.text "Barn", .text "2024-02-29", .real (Double.ofDecimal false 30 (-1)), .null,
    .text "2024-02-01 00:00:00.000000", .null]),
  (3, [.text "Attic", .null, .null, .text "true", .text "2024-03-01 00:00:00.000000",
    .text "2024-03-02 00:00:00.000000"])]

def eventSlots : List (Int × List Cell) := [
  (1, [.integer 1, .text "Opening", .text "2024-05-01", .null]),
  (2, [.integer 1, .text "Closing", .text "2024-05-31", .text "2024-06-01 00:00:00.000000"]),
  (3, [.integer 2, .text "Opening", .null, .null]),
  (4, [.null, .text "Floating", .text "2023-01-01", .null])]

def categories : List (Int × List Cell) := [
  (1, [.text "root", .null]),
  (2, [.text "fiction", .integer 1]),
  (3, [.text "sci-fi", .integer 2]),
  (4, [.text "essay", .integer 1]),
  (5, [.text "lonely", .null])]

def catalogue : Store := ⟨[
  ("author", tableOf author authors),
  ("book", tableOf book books),
  ("profile", tableOf profile profiles),
  ("chapter", tableOf chapter chapters),
  ("venue", tableOf venue venues),
  ("event_slot", tableOf eventSlot eventSlots),
  ("category", tableOf category categories)]⟩

end Records.Library
