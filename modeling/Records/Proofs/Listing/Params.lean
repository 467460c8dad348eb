import Records.Listing.Params
import Records.Proofs.Traversal

/-!
Reading the parameters of a listing: each of them is read on its own, so that asking for another
page leaves the rest as it was.
-/
namespace Records

theorem Reported.outcome_bind_ok {ε α β : Type} {x : Reported ε α} {f : α → Reported ε β} {b : β} :
    (x >>= f).outcome = .ok b ↔ ∃ a, x.outcome = .ok a ∧ (f a).outcome = .ok b := by
  rw [Reported.outcome_bind]
  exact except_bind_ok

namespace Listing

theorem positiveOr_pos {default : Int} (hdefault : 0 < default) {raw : Value} {n : Int}
    (h : positiveOr default raw = .ok n) : 0 < n := by
  obtain ⟨read, -, h⟩ := except_bind_ok.1 h
  cases read with
  | none =>
    cases h
    exact hdefault
  | some m =>
    obtain rfl : (if 0 < m then m else default) = n := Except.ok.inj h
    split
    · assumption
    · exact hdefault

theorem positiveOr_int (default : Int) {n : Int} (h : 0 < n) :
    positiveOr default (.int n) = .ok n := congrArg Except.ok (if_pos h)

def entryOr (key : String) (es : List (String × Value)) : Value :=
  (Value.lookup? key es).getD .null

/-- The sort that is read from what is written for it. -/
def sortOf : Value → Option SortSpec
  | .text s => parseSort? s
  | _ => none

theorem outcome_readSort {ε : Type} (written : Value) :
    (readSort written : Reported ε _).outcome = .ok (sortOf written) := by
  unfold readSort sortOf
  cases written with
  | text s =>
    dsimp only
    split
    · subst s
      rfl
    · cases parseSort? s <;> rfl
  | _ => rfl

theorem outcome_paramsOf_ok {es : List (String × Value)} {p : Params} :
    (paramsOf es).outcome = .ok p ↔
      (readFilter (entryOr "filter" es)).outcome = .ok p.filters ∧
      p.sort = sortOf (entryOr "sort" es) ∧
      (∃ limit, positiveOr defaultLimit (entryOr "limit" es) = .ok limit ∧
        p.limit = min limit maxLimit) ∧
      positiveOr firstPage (entryOr "page" es) = .ok p.page := by
  unfold paramsOf
  simp only [Reported.outcome_bind_ok]
  constructor
  · rintro ⟨filters, hfilters, sort, hsort, limit, hlimit, page, hpage, h⟩
    rw [outcome_readSort] at hsort
    cases hsort
    cases h
    exact ⟨hfilters, rfl, ⟨limit, hlimit, rfl⟩, hpage⟩
  · obtain ⟨filters, sort, limit, page⟩ := p
    rintro ⟨hfilters, rfl, ⟨asked, hasked, rfl⟩, hpage⟩
    exact ⟨filters, hfilters, _, outcome_readSort _, asked, hasked, page, hpage, rfl⟩

theorem outcome_readParams_object (es : List (String × Value)) :
    (readParams (.object es)).outcome = (paramsOf es).outcome := by
  cases es <;> rfl

/-- The parameters with another page asked for. -/
def atPage (params : Value) (k : Nat) : Value :=
  match params with
  | .object es => .object (Value.put "page" (.int k) es)
  | _ => .object [("page", .int k)]

theorem readParams_put (key : String) (v : Value) (es : List (String × Value)) :
    readParams (.object (Value.put key v es)) = paramsOf (Value.put key v es) := by
  have htruthy : Value.isTruthy (.object (Value.put key v es)) = true := by
    cases es with
    | nil => rfl
    | cons e es =>
      unfold Value.put
      split <;> rfl
  unfold readParams
  rw [htruthy]
  rfl

/-- Parameters that can be read are those of the entries of an object, or of no entries at all. -/
theorem readParams_ok {params : Value} {p : Params} (h : (readParams params).outcome = .ok p) :
    ∃ es, (paramsOf es).outcome = .ok p ∧
      ∀ k, atPage params k = .object (Value.put "page" (.int k) es) := by
  unfold readParams at h
  by_cases htruthy : params.isTruthy = true
  · rw [htruthy] at h
    cases params with
    | object es => exact ⟨es, h, fun _ => rfl⟩
    | _ => cases h
  · have hempty : (Pure.pure {} : Reported ParamsError Params).outcome = .ok p := by
      simpa [htruthy] using h
    cases hempty
    refine ⟨[], rfl, fun k => ?_⟩
    cases params with
    | object es =>
      cases es with
      | nil => rfl
      | cons e es => exact absurd rfl htruthy
    | _ => rfl

theorem readParams_atPage {params : Value} {p : Params} (h : (readParams params).outcome = .ok p)
    {k : Nat} (hk : 1 ≤ k) : (readParams (atPage params k)).outcome = .ok { p with page := k } := by
  obtain ⟨es, hes, hat⟩ := readParams_ok h
  obtain ⟨hfilters, hsort, hlimit, -⟩ := outcome_paramsOf_ok.1 hes
  have hother (key : String) (hne : key ≠ "page") :
      entryOr key (Value.put "page" (.int k) es) = entryOr key es := by
    unfold entryOr
    rw [Value.lookup?_put_of_ne hne]
  have hself : entryOr "page" (Value.put "page" (.int k) es) = .int k := by
    unfold entryOr
    rw [Value.lookup?_put_self]
    rfl
  rw [hat, readParams_put, outcome_paramsOf_ok, hother _ (by decide), hother _ (by decide),
    hother _ (by decide), hself]
  exact ⟨hfilters, hsort, hlimit, positiveOr_int _ (by omega)⟩

theorem readParams_range {params : Value} {p : Params} (h : (readParams params).outcome = .ok p) :
    1 ≤ p.limit ∧ p.limit ≤ maxLimit ∧ 1 ≤ p.page := by
  obtain ⟨es, hes, -⟩ := readParams_ok h
  obtain ⟨-, -, ⟨limit, hlimit, hcapped⟩, hpage⟩ := outcome_paramsOf_ok.1 hes
  have hlimit := positiveOr_pos (by decide) hlimit
  have hpage := positiveOr_pos (by decide) hpage
  have hmost : maxLimit = 200 := rfl
  omega

end Listing

end Records
