import Records.Proofs.Listing.Return
import Records.Request

/-!
The page parameters of a listing on their way from a request to the window of a query. Each layer
brings them into range by itself, and what one of them lets pass the next one does not change.
-/
namespace Records

open Records.Listing

namespace Query

variable {α : Type}

/-- The items at the positions from one on and before another. -/
def between (xs : List α) (first past : Int) : List α :=
  (xs.zipIdx.filter fun x => first ≤ x.2 ∧ x.2 < past).map (·.1)

theorem filter_zipIdx (xs : List α) (k lo hi : Nat) :
    ((xs.zipIdx k).filter fun x => lo ≤ x.2 ∧ x.2 < hi).map (·.1) =
      (xs.drop (lo - k)).take (hi - max lo k) := by
  induction xs generalizing k with
  | nil => simp
  | cons x xs ih =>
    rw [List.zipIdx_cons, List.filter_cons]
    by_cases hlo : lo ≤ k
    · by_cases hhi : k < hi
      · have hstart : lo - k = 0 := by omega
        have hstart' : lo - (k + 1) = 0 := by omega
        have hcount : hi - max lo k = (hi - max lo (k + 1)) + 1 := by omega
        rw [if_pos (by simp [hlo, hhi]), List.map_cons, ih, hcount, hstart, hstart', List.drop_zero,
          List.drop_zero, List.take_succ_cons]
      · have hcount : hi - max lo k = 0 := by omega
        have hcount' : hi - max lo (k + 1) = 0 := by omega
        rw [if_neg (by simp [hhi]), ih, hcount, hcount', List.take_zero, List.take_zero]
    · have hskip : lo - k = (lo - (k + 1)) + 1 := by omega
      have hcount : hi - max lo k = hi - max lo (k + 1) := by omega
      rw [if_neg (by simp [hlo]), ih, hskip, hcount, List.drop_succ_cons]

/-- The window of a page takes the rows from `(page - 1) * limit` on, before `page * limit`. -/
theorem windowed_page (xs : List α) {limit page : Int} (hlimit : 1 ≤ limit) (hpage : 1 ≤ page) :
    windowed xs (some (limit, (page - 1) * limit)) =
      between xs ((page - 1) * limit) (page * limit) := by
  obtain ⟨n, rfl⟩ : ∃ n : Nat, limit = n := ⟨limit.toNat, by omega⟩
  obtain ⟨k, rfl⟩ : ∃ k : Nat, page = (k + 1 : Nat) := ⟨(page - 1).toNat, by omega⟩
  have hfirst : ((k + 1 : Nat) - 1 : Int) * n = (k * n : Nat) := by push_cast; ring
  have hpast : ((k + 1 : Nat) : Int) * n = (k * n + n : Nat) := by push_cast; ring
  have hcount : k * n + n - max (k * n) 0 = n := by omega
  have hrows := filter_zipIdx xs 0 (k * n) (k * n + n)
  rw [hcount] at hrows
  unfold windowed between
  rw [hfirst, hpast]
  simp only [Int.toNat_natCast, Nat.cast_le, Nat.cast_lt]
  exact hrows.symm

/-- A page cut out of some items holds those at the positions of its window. -/
theorem items_cut (xs : List α) {limit page : Int} (hlimit : 1 ≤ limit) (hpage : 1 ≤ page) :
    (Page.cut xs limit.toNat page.toNat).items =
      between xs ((page - 1) * limit) (page * limit) := by
  rw [← windowed_page xs hlimit hpage]
  change _ = (xs.drop ((page - 1) * limit).toNat).take limit.toNat
  rw [toNat_offset hlimit hpage]
  rfl

end Query

namespace Json

theorem tokens_brackets (limits : Limits) (n : Nat) :
    tokens limits (List.replicate n '[') = List.replicate n .openList := by
  induction n with
  | zero => simp [tokens]
  | succ n ih =>
    rw [List.replicate_succ, List.replicate_succ, ← ih, tokens]
    rfl

theorem step_openList {expecting : Expecting}
    (hvalue : expecting = .value ∨ expecting = .firstItem) (stack : List Frame) :
    step .standard expecting stack .openList = begin .standard stack .openList := by
  rcases hvalue with rfl | rfl
  · rfl
  · cases stack with
    | nil => rfl
    | cons frame stack => cases frame <;> rfl

/-- Lists that are only opened nest too deep at last, wherever a value may stand. -/
theorem run_openLists {expecting : Expecting} (hvalue : expecting = .value ∨ expecting = .firstItem)
    {stack : List Frame} {n : Nat} (hstack : stack.length ≤ maxDepth)
    (hdeep : maxDepth < stack.length + n) :
    run .standard expecting stack (List.replicate n .openList) = .error (.tooDeep false) := by
  induction n generalizing expecting stack with
  | zero => omega
  | succ n ih =>
    rw [List.replicate_succ, run, step_openList hvalue]
    unfold begin
    by_cases hroom : stack.length < maxDepth
    · have hallowed : Limits.standard.allowInside stack.length = true := decide_eq_true hroom
      rw [if_pos hallowed]
      exact ih (.inr rfl) hroom (by simp only [List.length_cons]; omega)
    · have hrefused : ¬Limits.standard.allowInside stack.length = true := by
        rw [show Limits.standard.allowInside stack.length = decide _ from rfl,
          decide_eq_true_iff]
        exact hroom
      rw [if_neg hrefused]
      rfl

theorem read_brackets {n : Nat} (h : maxDepth < n) :
    read (String.ofList (List.replicate n '[')) = .error (.tooDeep false) := by
  unfold read readWithin
  rw [String.toList_ofList, tokens_brackets]
  exact run_openLists (.inl rfl) (Nat.zero_le _) (by simpa using h)

end Json

namespace Request

open Records.Settings (readInt)

/-- The number that a request asks for: the one it spells, or the default if it spells none. -/
def Asks (raw : Option String) (default n : Int) : Prop :=
  match raw with
  | none => n = default
  | some s => readInt s = .ok n

/-- The filter document of a request nests too deep to be followed. -/
def TooDeep (ps : List (String × String)) : Prop :=
  ∃ s object, value? ps "filter" = some s ∧ Json.read s = .error (.tooDeep object)

theorem atLeast_ok {low m n : Int} : atLeast low m = .ok n ↔ m = n ∧ low ≤ n := by
  unfold atLeast
  split <;> simp <;> omega

theorem atMost_ok {high m n : Int} : atMost high m = .ok n ↔ m = n ∧ n ≤ high := by
  unfold atMost
  split <;> simp <;> omega

theorem limitOf_ok {raw : Option String} {n : Int} (h : limitOf raw = .ok n) :
    Asks raw defaultLimit n ∧ 1 ≤ n ∧ n ≤ maxLimit := by
  cases raw with
  | none =>
    cases h
    exact ⟨rfl, by decide, by decide⟩
  | some s =>
    obtain ⟨m, hm, h⟩ := except_bind_ok.1 h
    obtain ⟨k, hk, h⟩ := except_bind_ok.1 h
    obtain ⟨rfl, hleast⟩ := atLeast_ok.1 hk
    obtain ⟨rfl, hmost⟩ := atMost_ok.1 h
    exact ⟨hm, hleast, hmost⟩

theorem pageOf_ok {raw : Option String} {n : Int} (h : pageOf raw = .ok n) :
    Asks raw firstPage n ∧ 1 ≤ n := by
  cases raw with
  | none =>
    cases h
    exact ⟨rfl, by decide⟩
  | some s =>
    obtain ⟨m, hm, h⟩ := except_bind_ok.1 h
    obtain ⟨rfl, hleast⟩ := atLeast_ok.1 h
    exact ⟨hm, hleast⟩

theorem entryOr_filter (ps : List (String × String)) (limit page : Value) :
    entryOr "filter" ([("limit", limit), ("page", page)] ++ textEntry ps "filter" ++
      textEntry ps "sort") = ((value? ps "filter").filter (· ≠ "")).elim .null .text := by
  unfold textEntry
  cases value? ps "filter" with
  | none => cases value? ps "sort" <;> simp [entryOr, Value.lookup?, apply_ite]
  | some s =>
    by_cases hs : s = "" <;> cases value? ps "sort" <;>
      simp [entryOr, Value.lookup?, Option.filter, hs, apply_ite]

/-- What a request that is accepted hands on: the numbers it asks for, within their bounds, and its
filter document if it has one. -/
theorem params_ok {ps : List (String × String)} {es : List (String × Value)}
    (h : params ps = .ok es) : ∃ limit page : Int,
      (Asks (value? ps "limit") defaultLimit limit ∧ 1 ≤ limit ∧ limit ≤ maxLimit) ∧
      (Asks (value? ps "page") firstPage page ∧ 1 ≤ page) ∧
      entryOr "limit" es = .int limit ∧ entryOr "page" es = .int page ∧
      (Listing.TooDeep (entryOr "filter" es) ↔ TooDeep ps) := by
  unfold params at h
  split at h
  · rename_i limit page hlimit hpage
    cases h
    refine ⟨limit, page, limitOf_ok hlimit, pageOf_ok hpage, rfl, rfl, ?_⟩
    rw [entryOr_filter]
    unfold Listing.TooDeep TooDeep
    cases value? ps "filter" with
    | none => simp
    | some s =>
      by_cases hs : s = ""
      · simp [hs, Option.filter, read_empty]
      · simp [hs, Option.filter]
  · cases h

/-- A request that is accepted is read, unless its filter nests too deep, and with the numbers that
it asks for. -/
theorem readParams_params {ps : List (String × String)} {es : List (String × Value)}
    (h : params ps = .ok es) : ∃ limit page : Int,
      Asks (value? ps "limit") defaultLimit limit ∧ Asks (value? ps "page") firstPage page ∧
      ((∃ p, (readParams (.object es)).outcome = .ok p) ↔ ¬ TooDeep ps) ∧
      ∀ p, (readParams (.object es)).outcome = .ok p → p.limit = limit ∧ p.page = page := by
  obtain ⟨limit, page, ⟨hasked, hlimit, hmost⟩, ⟨hasked', hpage⟩, hentry, hentry', hfilter⟩ :=
    params_ok h
  refine ⟨limit, page, hasked, hasked', ?_, fun p hp => ?_⟩
  · rw [readable_iff, ← hfilter]
    refine ⟨Readable.filter, fun hdeep => ⟨hdeep, ?_, ?_⟩⟩
    · rintro ⟨negative, hinfinite⟩
      rw [hentry] at hinfinite
      cases hinfinite
    · rintro ⟨negative, hinfinite⟩
      rw [hentry'] at hinfinite
      cases hinfinite
  · rw [outcome_readParams_object, outcome_paramsOf_ok, hentry, hentry', positiveOr_int _ hlimit,
      positiveOr_int _ hpage] at hp
    obtain ⟨-, -, ⟨limit', hlimit', hcapped⟩, hpage'⟩ := hp
    cases hlimit'
    cases hpage'
    exact ⟨hcapped.trans (min_eq_left hmost), rfl⟩

end Request

namespace Resource

/-- The layers of the page parameters agree. Whatever the parameters are, those that are read are in
range, and a window keeps them and takes the rows at its positions; of a request they are the ones
it asks for, where its filter does not nest too deep. -/
theorem page_layers_agree (raw : Value) (ps : List (String × String)) :
    (∀ p, (readParams raw).outcome = .ok p →
      (1 ≤ p.limit ∧ p.limit ≤ maxLimit ∧ 1 ≤ p.page) ∧
      Window.clamp p.limit p.page maxLimit = ⟨p.limit, p.page⟩ ∧
      (∀ (α : Type) (xs : List α),
        Query.windowed xs (some (p.limit, (Window.mk p.limit p.page).offset)) =
          Query.between xs ((p.page - 1) * p.limit) (p.page * p.limit)) ∧
      ∀ (r : Resource) relations withTrashed se page,
        (r.listPage raw relations withTrashed se).result = .ok page →
        page.page = p.page ∧ page.perPage = p.limit ∧
        ∃ refs, (r.listAll raw relations withTrashed se).result = .ok refs ∧
          page.items = Query.between refs ((p.page - 1) * p.limit) (p.page * p.limit)) ∧
    ∀ es, Request.params ps = .ok es → ∃ limit page : Int,
      Request.Asks (Request.value? ps "limit") defaultLimit limit ∧
      Request.Asks (Request.value? ps "page") firstPage page ∧
      ((∃ p, (readParams (.object es)).outcome = .ok p) ↔ ¬ Request.TooDeep ps) ∧
      ∀ p, (readParams (.object es)).outcome = .ok p → p.limit = limit ∧ p.page = page := by
  refine ⟨fun p hp => ?_, fun es => Request.readParams_params⟩
  obtain ⟨hlimit, hmost, hpage⟩ := readParams_range hp
  refine ⟨⟨hlimit, hmost, hpage⟩, clamp_within ⟨hlimit, hmost⟩ hpage,
    fun α xs => Query.windowed_page xs hlimit hpage, fun r relations withTrashed se page h => ?_⟩
  obtain ⟨p', preds, chains, hp', hchains, hpreds, hactive, hbind, -, rfl⟩ :=
    result_listPage_iff.1 h
  obtain rfl : p = p' := Except.ok.inj (hp.symm.trans hp')
  refine ⟨Int.toNat_of_nonneg (by omega), Int.toNat_of_nonneg (by omega), _,
    result_listAll_ok.2
      ⟨p, preds, chains, hp, hchains, hpreds, hactive, run_listingQuery.2 hbind, rfl⟩,
    Query.items_cut _ hlimit hpage⟩

/-- A request for the second four authors, and the same with a filter that nests too deep: it is
accepted, but its parameters are not read. -/
theorem page_layers_agree_catalogue :
    let refs (ids : List Int) : List Ref := ids.map (.stored "Author")
    let authors := Library.resource Library.author
    let visit := Library.visit Library.catalogue
    let asked := Request.pairs "limit=4&page=2"
    let deep := String.ofList (List.replicate 3000 '[')
    let es : List (String × Value) := [("limit", .int 4), ("page", .int 2)]
    (Request.params asked = .ok es ∧
      ∃ p page, (readParams (.object es)).outcome = .ok p ∧ p.limit = 4 ∧ p.page = 2 ∧
        (authors.listPage (.object es) .null false visit).result = .ok page ∧
        page.items = Query.between (refs [1, 2, 3, 4, 5, 6]) 4 8 ∧ page.items = refs [5, 6]) ∧
    Request.params (asked ++ [("filter", deep)]) = .ok (es ++ [("filter", .text deep)]) ∧
      ¬ ∃ p, (readParams (.object (es ++ [("filter", .text deep)]))).outcome = .ok p := by
  intro refs authors visit asked deep es
  have hasked : asked = [("limit", "4"), ("page", "2")] := by decide +kernel
  have hparams : Request.params asked = .ok es := by
    rw [hasked]
    decide +kernel
  have hpage : (authors.listPage (.object es) .null false visit).result =
      .ok ⟨refs [5, 6], 6, 2, 4⟩ := rfl
  have hlist : (authors.listAll (.object es) .null false visit).result =
      .ok (refs [1, 2, 3, 4, 5, 6]) := rfl
  have hfilter (s : String) (hs : s ≠ "") :
      Request.params (asked ++ [("filter", s)]) = .ok (es ++ [("filter", .text s)]) := by
    rw [hasked]
    change Except.ok (es ++ (if s = "" then [] else [("filter", .text s)]) ++ []) = _
    rw [if_neg hs]
    rfl
  have hlength : deep.length = 3000 := by
    rw [String.length_ofList, List.length_replicate]
  have hdeep := hfilter deep fun h => by
    rw [h] at hlength
    cases hlength
  obtain ⟨hread, hrequest⟩ := page_layers_agree (.object es) asked
  refine ⟨⟨hparams, ?_⟩, hdeep, ?_⟩
  · obtain ⟨limit, page, hlimit, hnumber, hreads, hsame⟩ := hrequest _ hparams
    rw [hasked] at hlimit hnumber
    obtain rfl : (4 : Int) = limit := Except.ok.inj hlimit
    obtain rfl : (2 : Int) = page := Except.ok.inj hnumber
    obtain ⟨p, hp⟩ := hreads.2 fun ⟨s, object, hs, _⟩ => by
      rw [hasked] at hs
      cases hs
    obtain ⟨h4, h2⟩ := hsame p hp
    obtain ⟨-, -, -, hcut⟩ := hread p hp
    obtain ⟨-, -, refs', hrefs', hitems⟩ := hcut authors .null false visit _ hpage
    obtain rfl := Except.ok.inj (hlist.symm.trans hrefs')
    rw [h4, h2] at hitems
    exact ⟨p, _, hp, h4, h2, hpage, hitems, rfl⟩
  · obtain ⟨-, -, -, -, hreads, -⟩ :=
      (page_layers_agree .null (asked ++ [("filter", deep)])).2 _ hdeep
    rw [hreads, not_not]
    refine ⟨deep, false, ?_, Json.read_brackets (by decide)⟩
    rw [hasked]
    rfl

end Resource

end Records
