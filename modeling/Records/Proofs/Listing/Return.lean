import Records.Library.Catalogue
import Records.Library.Resources
import Records.Proofs.Filter.Usable
import Records.Proofs.Listing.Pages

/-!
Which parameters a listing returns for. Most of what cannot be used is dropped, but not all of it: a
limit or a page that is infinite, a filter with a leaf that cannot be used, and a page whose offset
is past 64 bits end the listing, whatever the rows are.
-/
namespace Records

open Records.Filter (Leaf Predicate bindable_comparisonParameter leaves leaves_applied
  runs_compileAll)
open Records.Listing

namespace Listing

/-- A document that nests deeper than it is followed. -/
def TooDeep (raw : Value) : Prop :=
  (∃ s object, raw = .text s ∧ Json.read s = .error (.tooDeep object)) ∨
    ∃ b object, raw = .bytes b ∧ Json.readBytes b = .error (.tooDeep object)

def Infinite (raw : Value) : Prop := ∃ negative, raw = .float (.infinite negative)

/-- The parameters in some entries are read, whatever is dropped of them. -/
structure Readable (es : List (String × Value)) : Prop where
  filter : ¬ TooDeep (entryOr "filter" es)
  limit : ¬ Infinite (entryOr "limit" es)
  page : ¬ Infinite (entryOr "page" es)

theorem filterOfDocument_returns {raw : Value} {document : Except Json.ReadError Value} :
    (∃ es, (filterOfDocument raw document).outcome = .ok es) ↔
      ∀ object, document ≠ .error (.tooDeep object) := by
  cases document with
  | ok v => cases v <;> exact iff_of_true ⟨_, rfl⟩ nofun
  | error e =>
    cases e with
    | malformed => exact iff_of_true ⟨_, rfl⟩ nofun
    | tooDeep object => exact iff_of_false (fun ⟨_, h⟩ => nomatch h) fun h => h object rfl

theorem read_empty : Json.read "" = .error .malformed := by cbv

theorem readFilter_returns {raw : Value} :
    (∃ es, (readFilter raw).outcome = .ok es) ↔ ¬ TooDeep raw := by
  unfold readFilter
  cases htruthy : raw.isTruthy with
  | false =>
    refine iff_of_true ⟨_, rfl⟩ ?_
    rintro (⟨s, object, rfl, hs⟩ | ⟨b, object, rfl, hb⟩)
    · obtain rfl : s = "" := by simpa [Value.isTruthy] using htruthy
      rw [read_empty] at hs
      cases hs
    · obtain rfl : b = [] := by simpa [Value.isTruthy] using htruthy
      have hdocument : Text.decodeDocument? [] = some "" := rfl
      unfold Json.readBytes at hb
      rw [hdocument] at hb
      dsimp only at hb
      rw [read_empty] at hb
      cases hb
  | true =>
    simp only [Bool.not_true, Bool.false_eq_true, if_false]
    unfold TooDeep
    cases raw with
    | text s =>
      rw [filterOfDocument_returns]
      simp
    | bytes b =>
      rw [filterOfDocument_returns]
      simp
    | object es => exact iff_of_true ⟨_, rfl⟩ (by simp)
    | _ => exact iff_of_true (filterOfDocument_returns.2 (by simp)) (by simp)

theorem positiveOr_returns {default : Int} {raw : Value} :
    (∃ n, positiveOr default raw = .ok n) ↔ ¬ Infinite raw := by
  have hread {read : Option Int} (h : integerOf raw = .ok read) :
      ∃ n, positiveOr default raw = .ok n := by
    unfold positiveOr
    rw [h]
    cases read <;> exact ⟨_, rfl⟩
  unfold Infinite
  cases raw with
  | float x =>
    cases x with
    | infinite negative => exact iff_of_false (fun ⟨_, h⟩ => nomatch h) fun h => h ⟨negative, rfl⟩
    | _ => exact iff_of_true (hread rfl) nofun
  | _ => exact iff_of_true (hread rfl) nofun

theorem readable_iff {es : List (String × Value)} :
    (∃ p, (readParams (.object es)).outcome = .ok p) ↔ Readable es := by
  rw [outcome_readParams_object]
  constructor
  · rintro ⟨p, hp⟩
    obtain ⟨hfilter, -, ⟨limit, hlimit, -⟩, hpage⟩ := outcome_paramsOf_ok.1 hp
    exact ⟨readFilter_returns.1 ⟨_, hfilter⟩, positiveOr_returns.1 ⟨_, hlimit⟩,
      positiveOr_returns.1 ⟨_, hpage⟩⟩
  · rintro ⟨hfilter, hlimit, hpage⟩
    obtain ⟨filters, hfilters⟩ := readFilter_returns.2 hfilter
    obtain ⟨limit, hlimit⟩ := positiveOr_returns.2 hlimit
    obtain ⟨page, hpage⟩ := positiveOr_returns.2 hpage
    exact ⟨⟨filters, sortOf (entryOr "sort" es), min limit maxLimit, page⟩,
      outcome_paramsOf_ok.2 ⟨hfilters, rfl, ⟨limit, hlimit, rfl⟩, hpage⟩⟩

end Listing

namespace Resource

/-- Nothing but the parameters can keep a listing from running. -/
structure Serves (r : Resource) (relations : Value) (se : Session) : Prop where
  active : se.inactive = false
  relations : ∃ chains, (r.eager relations se).result = .ok chains
  scope : ∀ x ∈ Predicate.allParameters r.scope, x.Bindable

theorem bindable_listingQuery (r : Resource) (p : Params) (ps : List Predicate)
    (withTrashed : Bool) :
    (∀ x ∈ (r.listingQuery p ps withTrashed).parameters, x.Bindable) ↔
      (∀ x ∈ Predicate.allParameters r.scope, x.Bindable) ∧
        ∀ x ∈ Predicate.allParameters ps, x.Bindable := by
  have hbase : Predicate.allParameters (Query.base r.model withTrashed).conditions = [] := by
    unfold Query.base notTrashed
    cases withTrashed <;> cases r.model.softDeletes <;> rfl
  rw [Predicate.allParameters_eq_flatMap] at hbase
  simp only [Query.parameters, listingQuery, Query.when, Predicate.allParameters_eq_flatMap,
    List.flatMap_append, List.forall_mem_append, hbase, List.not_mem_nil, false_implies,
    implies_true, true_and]

end Resource

end Records
