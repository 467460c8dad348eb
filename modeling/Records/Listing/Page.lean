import Records.Value.Arithmetic

/-!
Pages of a listing. A window is a page size and a page number brought into range; a page is some
items with the total they are taken from.
-/
namespace Records.Listing

def defaultLimit : Int := 20

def maxLimit : Int := 200

def firstPage : Int := 1

structure Window where
  limit : Int
  page : Int
deriving DecidableEq

/-- The window nearest to what was asked for: at least one row, at most `most`. -/
def Window.clamp (limit page most : Int) : Window := ⟨min (max 1 limit) most, max firstPage page⟩

/-- How many rows come before the page. -/
def Window.offset (w : Window) : Int := (w.page - 1) * w.limit

structure Page (α : Type) where
  items : List α
  total : Int
  page : Int
  perPage : Int

namespace Page

variable {α : Type}

/-- The number of the last page; an empty listing has one page. -/
def lastPage (p : Page α) : Int :=
  if p.total = 0 then 1 else (p.total + p.perPage - 1).fdiv p.perPage

def hasNext (p : Page α) : Bool := p.page < p.lastPage

def hasPrevious (p : Page α) : Bool := 1 < p.page

/-- What a page tells about its place. -/
def summary (p : Page α) : List (String × Value) :=
  [("total", .int p.total), ("page", .int p.page), ("per_page", .int p.perPage),
    ("last_page", .int p.lastPage), ("has_next", .bool p.hasNext),
    ("has_prev", .bool p.hasPrevious)]

end Page

/-- A window of any numbers: its limit, page and offset. -/
def clampValues (limit page most : Value) : Except ArithmeticError (Value × Value × Value) := do
  let limit ← (← Value.maximum (.int 1) limit).minimum most
  let page ← Value.maximum (.int firstPage) page
  let offset ← (← page.minus (.int 1)).times limit
  return (limit, page, offset)

/-- The summary of a page of any numbers. -/
def summaryOfValues (total page perPage : Value) :
    Except ArithmeticError (List (String × Value)) := do
  let lastPage ←
    if total.same (.int 0) then pure (.int 1)
    else (← (← total.plus perPage).minus (.int 1)).floorQuotient perPage
  let hasNext ← page.isLess lastPage
  let hasPrevious ← page.isGreater (.int 1)
  return [("total", total), ("page", page), ("per_page", perPage), ("last_page", lastPage),
    ("has_next", .bool hasNext), ("has_prev", .bool hasPrevious)]

theorem maximum_int (a b : Int) : Value.maximum (.int a) (.int b) = .ok (.int (max a b)) := by
  simp only [Value.maximum, Value.isGreater, Value.numeric?, Value.Numeric.compare?, bind,
    Except.bind, pure, Except.pure, Except.ok.injEq]
  by_cases h : a < b
  · have hc : compare b a = .gt := Int.compare_eq_gt.2 h
    simp [hc, Int.max_eq_right (Int.le_of_lt h)]
  · have hc : compare b a ≠ .gt := fun hg => h (Int.compare_eq_gt.1 hg)
    simp [hc, Int.max_eq_left (Int.not_lt.1 h)]

theorem minimum_int (a b : Int) : Value.minimum (.int a) (.int b) = .ok (.int (min a b)) := by
  simp only [Value.minimum, Value.isLess, Value.numeric?, Value.Numeric.compare?, bind,
    Except.bind, pure, Except.pure, Except.ok.injEq]
  by_cases h : b < a
  · have hc : compare b a = .lt := Int.compare_eq_lt.2 h
    simp [hc, Int.min_eq_right (Int.le_of_lt h)]
  · have hc : compare b a ≠ .lt := fun hl => h (Int.compare_eq_lt.1 hl)
    simp [hc, Int.min_eq_left (Int.not_lt.1 h)]

/-- On integers the two windows agree. -/
theorem clampValues_int (limit page most : Int) :
    clampValues (.int limit) (.int page) (.int most) =
      .ok (.int (Window.clamp limit page most).limit, .int (Window.clamp limit page most).page,
        .int (Window.clamp limit page most).offset) := by
  simp only [clampValues, maximum_int, bind, Except.bind, minimum_int]
  rfl

end Records.Listing
