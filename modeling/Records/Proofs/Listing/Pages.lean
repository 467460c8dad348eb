import Records.Library.Catalogue
import Records.Library.Resources
import Records.Proofs.Listing.Params
import Records.Proofs.Listing.Run
import Records.Proofs.Store.Binding
import Records.Proofs.Store.Order

/-!
The pages of a listing partition it. A page is cut out of the listing by its number and size, and
the pages up to the last one, put one after the other, are the listing.
-/
namespace Records

open Records.Filter (Predicate compileAll)
open Records.Listing

namespace Listing

variable {α : Type}

/-- Some pages, by number, cut a listing into parts of one size, the last perhaps shorter. -/
structure Partitions (xs : List α) (size last : Nat) (pages : Nat → Page α) : Prop where
  whole : (List.range last).flatMap (fun i => (pages (i + 1)).items) = xs
  total : ∀ k, (pages k).total = xs.length
  number : ∀ k, (pages k).page = k
  perPage : ∀ k, (pages k).perPage = size
  lastPage : ∀ k, (pages k).lastPage = last
  full : ∀ k, 1 ≤ k → k < last → (pages k).items.length = size
  past : ∀ k, last < k → (pages k).items = []
  hasNext : ∀ k, (pages k).hasNext = false ↔ last ≤ k
  hasPrevious : ∀ k, 1 ≤ k → ((pages k).hasPrevious = false ↔ k = 1)
  starts : ∀ k, 1 ≤ k → k ≤ last → (k - 1) * size ≤ xs.length

/-- A page cut out of a listing. -/
def Page.cut (xs : List α) (size k : Nat) : Page α :=
  ⟨(xs.drop ((k - 1) * size)).take size, xs.length, k, size⟩

/-- How many pages some items make. -/
def pageCount (total size : Nat) : Nat := if total = 0 then 1 else (total + size - 1) / size

theorem one_le_pageCount {size : Nat} (hsize : 1 ≤ size) (total : Nat) :
    1 ≤ pageCount total size := by
  unfold pageCount
  split
  · exact Nat.le_refl 1
  · rw [Nat.le_div_iff_mul_le hsize]
    omega

theorem le_pageCount_mul {size : Nat} (hsize : 1 ≤ size) (total : Nat) :
    total ≤ pageCount total size * size := by
  unfold pageCount
  split
  · omega
  · have hdiv := Nat.div_add_mod (total + size - 1) size
    have hmod := Nat.mod_lt (total + size - 1) hsize
    rw [Nat.mul_comm] at hdiv
    omega

theorem pageCount_mul_le {size : Nat} (hsize : 1 ≤ size) (total : Nat) :
    (pageCount total size - 1) * size ≤ total := by
  unfold pageCount
  split
  · omega
  · have hdiv := Nat.div_mul_le_self (total + size - 1) size
    rw [Nat.sub_mul]
    omega

theorem flatMap_windows (xs : List α) (size n : Nat) :
    (List.range n).flatMap (fun i => (xs.drop (i * size)).take size) = xs.take (n * size) := by
  induction n with
  | zero => simp
  | succ n ih => rw [List.range_succ, List.flatMap_append, ih, Nat.succ_mul, List.take_add]; simp

theorem lastPage_cut (xs : List α) {size : Nat} (hsize : 1 ≤ size) (k : Nat) :
    (Page.cut xs size k).lastPage = pageCount xs.length size := by
  unfold Page.lastPage Page.cut pageCount
  dsimp only
  by_cases h : xs.length = 0
  · simp [h]
  · rw [if_neg (by omega), if_neg h, Int.fdiv_eq_ediv_of_nonneg _ (by omega), Int.natCast_ediv]
    congr 1
    omega

theorem partitions_cut (xs : List α) {size : Nat} (hsize : 1 ≤ size) :
    Partitions xs size (pageCount xs.length size) (Page.cut xs size) := by
  have hlast := one_le_pageCount hsize xs.length
  have hreach := le_pageCount_mul hsize xs.length
  have hwithin := pageCount_mul_le hsize xs.length
  -- A page before the last ends where the last one begins, or earlier; one past it begins later.
  have hbefore (k : Nat) (hk : k < pageCount xs.length size) : k * size ≤ xs.length :=
    (Nat.mul_le_mul_right size (by omega)).trans hwithin
  have hbehind (k : Nat) (hk : pageCount xs.length size < k) : xs.length ≤ (k - 1) * size :=
    hreach.trans (Nat.mul_le_mul_right size (by omega))
  constructor
  case whole =>
    change (List.range _).flatMap (fun i => (xs.drop ((i + 1 - 1) * size)).take size) = xs
    simp only [Nat.add_sub_cancel]
    rw [flatMap_windows, List.take_of_length_le hreach]
  case total => exact fun _ => rfl
  case number => exact fun _ => rfl
  case perPage => exact fun _ => rfl
  case lastPage => exact lastPage_cut xs hsize
  case full =>
    intro k hk hlt
    have hend : (k - 1) * size + size = k * size := by
      rw [← Nat.succ_mul]
      congr 1
      omega
    have := hbefore k hlt
    change ((xs.drop ((k - 1) * size)).take size).length = size
    rw [List.length_take, List.length_drop]
    omega
  case past =>
    intro k hk
    change (xs.drop ((k - 1) * size)).take size = []
    rw [List.drop_of_length_le (hbehind k hk), List.take_nil]
  case hasNext =>
    intro k
    unfold Page.hasNext
    rw [lastPage_cut xs hsize]
    simp [Page.cut]
  case hasPrevious =>
    intro k hk
    unfold Page.hasPrevious
    rw [decide_eq_false_iff_not]
    change ¬ (1 : Int) < k ↔ k = 1
    omega
  case starts =>
    intro k hk hle
    exact hbefore (k - 1) (by omega)

theorem toNat_offset {limit page : Int} (hlimit : 1 ≤ limit) (hpage : 1 ≤ page) :
    ((page - 1) * limit).toNat = (page.toNat - 1) * limit.toNat := by
  rw [Int.toNat_mul (by omega) (by omega)]
  congr 1
  omega

theorem clamp_within {limit page : Int} (hlimit : 1 ≤ limit ∧ limit ≤ maxLimit) (hpage : 1 ≤ page) :
    Window.clamp limit page maxLimit = ⟨limit, page⟩ := by
  unfold Window.clamp
  congr 1
  · omega
  · exact max_eq_right hpage

end Listing

namespace Resource

theorem run_listingQuery {r : Resource} {p : Params} {ps : List Predicate}
    {withTrashed : Bool} {st : Store} :
    (r.listingQuery p ps withTrashed).run st = .ok ((r.listingQuery p ps withTrashed).rows st) ↔
      ∀ x ∈ (r.listingQuery p ps withTrashed).parameters, x.Bindable := by
  rw [Query.run_runs]
  exact List.forall_mem_append.trans (and_iff_left fun x hx => (List.not_mem_nil hx).elim)

theorem rows_windowed {q : Query} (hq : q.window = none) (st : Store)
    (window : Option (Int × Int)) :
    Query.rows { q with window := window } st = Query.windowed (q.rows st) window := by
  unfold Query.rows
  rw [hq]
  rfl

theorem run_windowed {q : Query} {st : Store} {limit offset : Int} (hlimit : fitsInteger limit) :
    Query.run { q with window := some (limit, offset) } st =
        .ok (Query.rows { q with window := some (limit, offset) } st) ↔
      (∀ x ∈ q.parameters, x.Bindable) ∧ fitsInteger offset := by
  rw [Query.run_runs, List.forall_mem_append]
  change _ ∧ (∀ x ∈ [(⟨.raw, .int limit⟩ : Parameter), ⟨.raw, .int offset⟩], x.Bindable) ↔ _
  simp [Parameter.bindable_int, hlimit, Query.parameters]

/-- A page of a query is cut out of what the query yields without the window. -/
theorem result_paginate_ok {r : Resource} {q : Query} (hq : q.window = none)
    {chains : List (List Handle)} {limit page : Int} (hlimit : 1 ≤ limit ∧ limit ≤ maxLimit)
    (hpage : 1 ≤ page) {se : Session} {p : Page Ref} :
    (r.paginate q chains limit page se).result = .ok p ↔
      se.inactive = false ∧ (∀ x ∈ q.parameters, x.Bindable) ∧ fitsInteger ((page - 1) * limit) ∧
        p = Page.cut ((q.rows se.store).map r.refOf) limit.toNat page.toNat := by
  have hmost : maxLimit = 200 := rfl
  have hfits : fitsInteger limit := by
    simp only [fitsInteger, Bool.and_eq_true, decide_eq_true_eq]
    omega
  have htotal : (q.matching se.store).length = ((q.rows se.store).map r.refOf).length := by
    rw [List.length_map, Query.rows, hq]
    exact (Query.length_sorted ..).symm
  -- The rows in the window are the records on the page.
  have hcut : (⟨(Query.rows { q with window := some (limit, (page - 1) * limit) } se.store).map
        r.refOf, (q.matching se.store).length, page, limit⟩ : Page Ref) =
      Page.cut ((q.rows se.store).map r.refOf) limit.toNat page.toNat := by
    rw [rows_windowed hq, htotal, Query.windowed, Page.cut, List.map_take, List.map_drop,
      toNat_offset hlimit.1 hpage, Int.toNat_of_nonneg (by omega), Int.toNat_of_nonneg (by omega)]
  unfold paginate
  rw [clamp_within hlimit hpage]
  constructor
  · intro h
    obtain ⟨n, hn, h⟩ := Action.result_bind_ok.1 h
    rw [Action.session_count] at h
    obtain ⟨items, hitems, h⟩ := Action.result_bind_ok.1 h
    obtain ⟨hactive, hrun, rfl⟩ := result_fetch_ok.1 hitems
    obtain rfl := Query.count_ok (Action.result_count_ok.1 hn).2
    obtain ⟨hbind, hoffset⟩ := (run_windowed hfits).1 hrun
    cases h
    exact ⟨hactive, hbind, hoffset, hcut⟩
  · rintro ⟨hactive, hbind, hoffset, rfl⟩
    refine Action.result_bind_ok.2
      ⟨_, Action.result_count_ok.2 ⟨hactive, Query.count_runs.2 hbind⟩, ?_⟩
    rw [Action.session_count]
    refine Action.result_bind_ok.2
      ⟨_, result_fetch_ok.2 ⟨hactive, (run_windowed hfits).2 ⟨hbind, hoffset⟩, rfl⟩, ?_⟩
    exact congrArg Except.ok hcut

/-- What a page of a listing shows, and when there is one. -/
theorem result_listPage_iff {r : Resource} {params relations : Value} {withTrashed : Bool}
    {se : Session} {page : Page Ref} :
    (r.listPage params relations withTrashed se).result = .ok page ↔
      ∃ p ps chains, (readParams params).outcome = .ok p ∧
        (r.eager relations se).result = .ok chains ∧
        (compileAll r.schema r.model p.filters).outcome = .ok ps ∧ se.inactive = false ∧
        (∀ x ∈ (r.listingQuery p ps withTrashed).parameters, x.Bindable) ∧
        fitsInteger ((p.page - 1) * p.limit) ∧
        page = Page.cut (((r.listingQuery p ps withTrashed).rows se.store).map r.refOf)
          p.limit.toNat p.page.toNat := by
  unfold listPage
  constructor
  · intro h
    obtain ⟨p, hp, h⟩ := Action.result_bind_ok.1 h
    obtain ⟨chains, hchains, h⟩ := Action.result_bind_ok.1 h
    rw [session_eager_of_ok hchains] at h
    obtain ⟨q, hq, h⟩ := Action.result_bind_ok.1 h
    rw [session_listing_of_ok hq] at h
    obtain ⟨ps, hps, rfl⟩ := result_listing_ok.1 hq
    have hp := Action.result_ofReported_ok.1 hp
    obtain ⟨hlimit, hmost, hpage⟩ := readParams_range hp
    exact ⟨p, ps, chains, hp, hchains, hps, (result_paginate_ok rfl ⟨hlimit, hmost⟩ hpage).1 h⟩
  · rintro ⟨p, ps, chains, hp, hchains, hps, h⟩
    obtain ⟨hlimit, hmost, hpage⟩ := readParams_range hp
    refine Action.result_bind_ok.2 ⟨p, Action.result_ofReported_ok.2 hp, ?_⟩
    refine Action.result_bind_ok.2 ⟨chains, hchains, ?_⟩
    rw [Action.session_ofReported, session_eager_of_ok hchains]
    have hq : (r.listing p withTrashed se).result = .ok (r.listingQuery p ps withTrashed) :=
      result_listing_ok.2 ⟨ps, hps, rfl⟩
    refine Action.result_bind_ok.2 ⟨_, hq, ?_⟩
    rw [session_listing_of_ok hq]
    exact (result_paginate_ok rfl ⟨hlimit, hmost⟩ hpage).2 h

/-- A page runs only where the whole listing does. -/
theorem exists_listAll_of_listPage {r : Resource} {params relations : Value} {withTrashed : Bool}
    {se : Session} {page : Page Ref}
    (h : (r.listPage params relations withTrashed se).result = .ok page) :
    ∃ refs, (r.listAll params relations withTrashed se).result = .ok refs := by
  obtain ⟨p, ps, chains, hp, hchains, hps, hactive, hbind, -⟩ := result_listPage_iff.1 h
  exact ⟨_, result_listAll_ok.2
    ⟨p, ps, chains, hp, hchains, hps, hactive, run_listingQuery.2 hbind, rfl⟩⟩

theorem result_eager (r : Resource) (paths : Value) (se se' : Session) :
    (r.eager paths se').result = (r.eager paths se).result := by
  unfold eager
  cases paths.toPaths <;> rfl

/-- The pages of a listing partition it. Every page runs whose offset is an integer of 64 bits, and
those up to the last one begin within the listing. -/
theorem pages_partition {r : Resource} {params relations : Value} {withTrashed : Bool}
    {se : Session} {refs : List Ref}
    (hrefs : (r.listAll params relations withTrashed se).result = .ok refs) :
    ∃ (size last : Nat) (pages : Nat → Page Ref), Partitions refs size last pages ∧
      ∀ se', se'.store = se.store → se'.inactive = false →
        (∀ k : Nat, 1 ≤ k → fitsInteger ((k - 1) * size) →
          (r.listPage (atPage params k) relations withTrashed se').result = .ok (pages k)) ∧
        ∀ page, (r.listPage params relations withTrashed se').result = .ok page →
          ∃ k, 1 ≤ k ∧ page = pages k := by
  obtain ⟨p, ps, chains, hp, hchains, hps, hactive, hrun, rfl⟩ := result_listAll_ok.1 hrefs
  obtain ⟨hlimit, hmost, hpage⟩ := readParams_range hp
  refine ⟨p.limit.toNat, _, _, partitions_cut _ (by omega), fun se' hstore hactive' => ⟨?_, ?_⟩⟩
  · intro k hk hoffset
    refine result_listPage_iff.2 ⟨_, ps, chains, readParams_atPage hp hk, ?_, hps, hactive',
      run_listingQuery.1 hrun, ?_, ?_⟩
    · rw [result_eager r relations se se', hchains]
    · change fitsInteger ((k - 1) * p.limit)
      rwa [Int.toNat_of_nonneg (by omega)] at hoffset
    · rw [hstore]
      rfl
  · intro page hlist
    obtain ⟨p', ps', chains', hp', -, hps', -, -, -, hcut⟩ := result_listPage_iff.1 hlist
    obtain rfl : p = p' := Except.ok.inj (hp.symm.trans hp')
    obtain rfl : ps = ps' := Except.ok.inj (hps.symm.trans hps')
    rw [hstore] at hcut
    exact ⟨p.page.toNat, by omega, hcut⟩

theorem pages_partition_catalogue :
    let refs (ids : List Int) : List Ref := ids.map (.stored "Author")
    let authors := Library.resource Library.author
    let visit := Library.visit Library.catalogue
    let four : Value := .object [("limit", .int 4)]
    (authors.listAll four .null false visit).result = .ok (refs [1, 2, 3, 4, 5, 6]) ∧
    ∃ last pages, Partitions (refs [1, 2, 3, 4, 5, 6]) 4 last pages ∧
      (authors.listPage (atPage four 2) .null false visit).result = .ok (pages 2) ∧
      pages 2 = ⟨refs [5, 6], 6, 2, 4⟩ := by
  intro refs authors visit four
  have hrefs : (authors.listAll four .null false visit).result = .ok (refs [1, 2, 3, 4, 5, 6]) :=
    rfl
  have hfirst : (authors.listPage four .null false visit).result =
      .ok ⟨refs [1, 2, 3, 4], 6, 1, 4⟩ := rfl
  have hsecond : (authors.listPage (atPage four 2) .null false visit).result =
      .ok ⟨refs [5, 6], 6, 2, 4⟩ := rfl
  obtain ⟨size, last, pages, hpages, hruns⟩ := pages_partition hrefs
  obtain ⟨hruns, htaken⟩ := hruns visit rfl rfl
  obtain ⟨k, -, hk⟩ := htaken _ hfirst
  obtain rfl : size = 4 := by
    have hsize := hpages.perPage k
    rw [← hk] at hsize
    exact Int.ofNat.inj hsize.symm
  have hpage := hruns 2 (by decide) (by decide)
  exact ⟨hrefs, last, pages, hpages, hpage, Except.ok.inj (hpage.symm.trans hsecond)⟩

end Resource

end Records
