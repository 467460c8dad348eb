import Mathlib.Data.List.Basic

/-!
Walking a list with steps that may fail, and results that fail alike.
-/
namespace Records

theorem except_bind_ok {α β ε : Type} {x : Except ε α} {f : α → Except ε β} {b : β} :
    (x >>= f) = .ok b ↔ ∃ a, x = .ok a ∧ f a = .ok b := by
  cases x <;> simp [bind, Except.bind]

theorem except_bind_error {α β ε : Type} {x : Except ε α} {f : α → Except ε β} {e : ε} :
    (x >>= f) = .error e ↔ x = .error e ∨ ∃ a, x = .ok a ∧ f a = .error e := by
  cases x <;> simp [bind, Except.bind]

theorem except_of_toOption {α ε : Type} {x : Except ε α} {a : α} (h : x.toOption = some a) :
    x = .ok a := by
  cases x with
  | ok b => exact congrArg Except.ok (Option.some.inj h)
  | error e => cases h

theorem mapError_eq_ok {α ε ε' : Type} {f : ε → ε'} {x : Except ε α} {a : α} :
    x.mapError f = .ok a ↔ x = .ok a := by
  cases x with
  | ok b => exact ⟨fun h => by cases h; rfl, fun h => by cases h; rfl⟩
  | error e => exact ⟨nofun, nofun⟩

theorem mapError_eq_error {α ε ε' : Type} {f : ε → ε'} {x : Except ε α} {e : ε'} :
    x.mapError f = .error e ↔ ∃ e', x = .error e' ∧ f e' = e := by
  cases x with
  | ok b => exact ⟨nofun, nofun⟩
  | error e => simp [Except.mapError]

section Walks
variable {α β ε : Type} {f g : α → Except ε β}

theorem mapM_cons_ok {x : α} {xs : List α} {ys : List β} : (x :: xs).mapM f = .ok ys ↔
    ∃ y later, f x = .ok y ∧ xs.mapM f = .ok later ∧ ys = y :: later := by
  rw [List.mapM_cons]
  cases f x <;> cases xs.mapM f <;> simp [bind, Except.bind, pure, Except.pure, eq_comm]

/-- A step that takes back what was made of each item takes back them all. -/
theorem mapM_map_ok {k : β → α} (h : ∀ y, f (k y) = .ok y) (ys : List β) :
    (ys.map k).mapM f = .ok ys := by
  induction ys with
  | nil => rfl
  | cons y ys ih => exact mapM_cons_ok.2 ⟨y, ys, h y, ih, rfl⟩

theorem mapM_congr {xs : List α} (h : ∀ x ∈ xs, f x = g x) : xs.mapM f = xs.mapM g := by
  induction xs with
  | nil => rfl
  | cons x xs ih =>
    rw [List.mapM_cons, List.mapM_cons, h x (List.mem_cons_self ..),
      ih fun y hy => h y (List.mem_cons_of_mem _ hy)]

theorem eq_of_mapM_ok {xs : List α} {ys : List β} (hf : xs.mapM f = .ok ys)
    (hg : xs.mapM g = .ok ys) {x : α} (hx : x ∈ xs) : f x = g x := by
  induction xs generalizing ys with
  | nil => cases hx
  | cons a xs ih =>
    obtain ⟨y, later, hfa, hfxs, rfl⟩ := mapM_cons_ok.1 hf
    obtain ⟨y', later', hga, hgxs, heq⟩ := mapM_cons_ok.1 hg
    obtain ⟨rfl, rfl⟩ := List.cons.inj heq
    rcases List.mem_cons.1 hx with rfl | hx
    · rw [hfa, hga]
    · exact ih hfxs hgxs hx

theorem exists_of_mapM_ok {xs : List α} {ys : List β} (hf : xs.mapM f = .ok ys) {x : α}
    (hx : x ∈ xs) : ∃ y, f x = .ok y := by
  induction xs generalizing ys with
  | nil => cases hx
  | cons a xs ih =>
    obtain ⟨y, later, hfa, hfxs, rfl⟩ := mapM_cons_ok.1 hf
    rcases List.mem_cons.1 hx with rfl | hx
    · exact ⟨y, hfa⟩
    · exact ih hfxs hx

theorem exists_of_mapM_error {xs : List α} {e : ε} (h : xs.mapM f = .error e) :
    ∃ x ∈ xs, f x = .error e := by
  induction xs with
  | nil => cases h
  | cons x xs ih =>
    rw [List.mapM_cons] at h
    rcases except_bind_error.1 h with hx | ⟨y, -, h⟩
    · exact ⟨x, List.mem_cons_self .., hx⟩
    rcases except_bind_error.1 h with hxs | ⟨ys, -, h⟩
    · obtain ⟨z, hz, he⟩ := ih hxs
      exact ⟨z, List.mem_cons_of_mem _ hz, he⟩
    · cases h

theorem exists_of_mem_mapM {xs : List α} {ys : List β} (hf : xs.mapM f = .ok ys) {y : β}
    (hy : y ∈ ys) : ∃ x ∈ xs, f x = .ok y := by
  induction xs generalizing ys with
  | nil =>
    cases hf
    cases hy
  | cons x xs ih =>
    obtain ⟨z, later, hz, hlater, rfl⟩ := mapM_cons_ok.1 hf
    rcases List.mem_cons.1 hy with rfl | hy
    · exact ⟨x, List.mem_cons_self .., hz⟩
    · obtain ⟨x', hx', hfound⟩ := ih hlater hy
      exact ⟨x', List.mem_cons_of_mem _ hx', hfound⟩

theorem exists_mem_mapM {xs : List α} {ys : List β} (hf : xs.mapM f = .ok ys) {x : α}
    (hx : x ∈ xs) : ∃ y ∈ ys, f x = .ok y := by
  induction xs generalizing ys with
  | nil => cases hx
  | cons a xs ih =>
    obtain ⟨y, later, hfa, hfxs, rfl⟩ := mapM_cons_ok.1 hf
    rcases List.mem_cons.1 hx with rfl | hx
    · exact ⟨y, List.mem_cons_self .., hfa⟩
    · obtain ⟨z, hz, hfz⟩ := ih hfxs hx
      exact ⟨z, List.mem_cons_of_mem _ hz, hfz⟩

theorem ok_of_mem_zip_mapM {xs : List α} {ys : List β} (hf : xs.mapM f = .ok ys) {x : α} {y : β}
    (hxy : (x, y) ∈ xs.zip ys) : f x = .ok y := by
  induction xs generalizing ys with
  | nil => cases hxy
  | cons a xs ih =>
    obtain ⟨z, later, hz, hlater, rfl⟩ := mapM_cons_ok.1 hf
    rcases List.mem_cons.1 hxy with heq | hxy
    · cases heq
      exact hz
    · exact ih hlater hxy

theorem exists_mem_zip_mapM {xs : List α} {ys : List β} (hf : xs.mapM f = .ok ys) {y : β}
    (hy : y ∈ ys) : ∃ x, (x, y) ∈ xs.zip ys := by
  induction xs generalizing ys with
  | nil =>
    cases hf
    cases hy
  | cons a xs ih =>
    obtain ⟨z, later, -, hlater, rfl⟩ := mapM_cons_ok.1 hf
    rcases List.mem_cons.1 hy with rfl | hy
    · exact ⟨a, List.mem_cons_self ..⟩
    · obtain ⟨x, hx⟩ := ih hlater hy
      exact ⟨x, List.mem_cons_of_mem _ hx⟩

/-- What a walk makes of its items, as a function of them. -/
theorem exists_map_of_mapM_ok [Nonempty β] {xs : List α} {ys : List β} (h : xs.mapM f = .ok ys) :
    ∃ k : α → β, ys = xs.map k ∧ ∀ x ∈ xs, f x = .ok (k x) := by
  obtain ⟨b⟩ := ‹Nonempty β›
  refine ⟨fun x => (f x).toOption.getD b, ?_, fun x hx => ?_⟩
  · induction xs generalizing ys with
    | nil =>
      cases h
      rfl
    | cons x xs ih =>
      obtain ⟨y, later, hy, hlater, rfl⟩ := mapM_cons_ok.1 h
      rw [List.map_cons, hy, ← ih hlater]
      rfl
  · obtain ⟨y, hy⟩ := exists_of_mapM_ok h hx
    change f x = .ok ((f x).toOption.getD b)
    rw [hy]
    rfl

/-- What tells the items of a walk apart tells its results apart. -/
theorem pairwise_mapM {R : α → α → Prop} {S : β → β → Prop} {xs : List α} {ys : List β}
    (hf : xs.mapM f = .ok ys) (hxs : xs.Pairwise R)
    (hRS : ∀ x x' y y', f x = .ok y → f x' = .ok y' → R x x' → S y y') : ys.Pairwise S := by
  induction xs generalizing ys with
  | nil =>
    cases hf
    exact .nil
  | cons x xs ih =>
    obtain ⟨y, later, hy, hlater, rfl⟩ := mapM_cons_ok.1 hf
    obtain ⟨hfirst, hrest⟩ := List.pairwise_cons.1 hxs
    refine List.pairwise_cons.2 ⟨fun y' hy' => ?_, ih hlater hrest⟩
    obtain ⟨x', hx', hfound⟩ := exists_of_mem_mapM hlater hy'
    exact hRS x x' y y' hy hfound (hfirst x' hx')

/-- What every step keeps, the walk keeps. -/
theorem foldlM_keeps {P : β → Prop} {step : β → α → Except ε β} {xs : List α}
    (hstep : ∀ x ∈ xs, ∀ b b', step b x = .ok b' → P b → P b') {b b' : β}
    (h : xs.foldlM step b = .ok b') (hb : P b) : P b' := by
  induction xs generalizing b with
  | nil =>
    cases h
    exact hb
  | cons x xs ih =>
    rw [List.foldlM_cons] at h
    obtain ⟨next, hnext, h⟩ := except_bind_ok.1 h
    have hkept := hstep x (List.mem_cons_self ..) b next hnext hb
    exact ih (fun y hy => hstep y (List.mem_cons_of_mem _ hy)) h hkept

/-- A walk in which an item has its turn once: the other steps keep what holds before it, and then
what holds after it. -/
theorem foldlM_turns {κ : Type} {k : α → κ} {P Q : β → Prop} {step : β → α → Except ε β}
    {xs : List α} (hdistinct : xs.Pairwise fun y z => k y ≠ k z) {x : α} (hx : x ∈ xs)
    (hbefore : ∀ y ∈ xs, k y ≠ k x → ∀ b b', step b y = .ok b' → P b → P b')
    (hturn : ∀ b b', step b x = .ok b' → P b → Q b')
    (hafter : ∀ y ∈ xs, k y ≠ k x → ∀ b b', step b y = .ok b' → Q b → Q b')
    {b b' : β} (h : xs.foldlM step b = .ok b') (hb : P b) : Q b' := by
  induction xs generalizing b with
  | nil => cases hx
  | cons y xs ih =>
    rw [List.foldlM_cons] at h
    obtain ⟨next, hnext, hlater⟩ := except_bind_ok.1 h
    obtain ⟨hfirst, hrest⟩ := List.pairwise_cons.1 hdistinct
    rcases List.mem_cons.1 hx with rfl | hx
    · refine foldlM_keeps (P := Q) (fun z hz => ?_) hlater (hturn b next hnext hb)
      exact hafter z (List.mem_cons_of_mem _ hz) (hfirst z hz).symm
    · refine ih hrest hx (fun z hz => hbefore z (List.mem_cons_of_mem _ hz))
        (fun z hz => hafter z (List.mem_cons_of_mem _ hz)) hlater ?_
      exact hbefore y (List.mem_cons_self ..) (hfirst x hx) b next hnext hb

theorem mapM_ok_iff {xs : List α} {ys : List β} (hf : xs.mapM f = .ok ys) :
    xs.mapM g = .ok ys ↔ ∀ x ∈ xs, g x = f x := by
  constructor
  · intro hg x hx
    exact eq_of_mapM_ok hg hf hx
  · intro h
    rw [mapM_congr h, hf]

theorem keys_mapM {names : List α} {es : List (α × β)}
    (h : names.mapM (fun a => do return (a, ← f a)) = .ok es) : es.map (·.1) = names := by
  induction names generalizing es with
  | nil =>
    cases h
    rfl
  | cons a names ih =>
    obtain ⟨y, later, hy, hlater, rfl⟩ := mapM_cons_ok.1 h
    obtain ⟨d, -, hd⟩ := except_bind_ok.1 hy
    cases hd
    rw [List.map_cons, ih hlater]

end Walks

/-- Two results that fail with the same error, or not at all. -/
def FailsAlike {α ε : Type} (x y : Except ε α) : Prop := ∀ e, x = .error e ↔ y = .error e

namespace FailsAlike
variable {α β ε : Type}

theorem ok_ok (a b : α) : FailsAlike (.ok a : Except ε α) (.ok b) := fun _ => ⟨nofun, nofun⟩

theorem exists_ok {x y : Except ε α} (h : FailsAlike x y) {a : α} (hx : x = .ok a) :
    ∃ b, y = .ok b := by
  cases hy : y with
  | ok b => exact ⟨b, rfl⟩
  | error e => rw [(h e).2 hy] at hx; cases hx

theorem bind {x y : Except ε α} {f g : α → Except ε β} (h : FailsAlike x y)
    (hfg : ∀ a b, FailsAlike (f a) (g b)) : FailsAlike (x >>= f) (y >>= g) := by
  cases hx : x with
  | ok a =>
    obtain ⟨b, rfl⟩ := h.exists_ok hx
    exact hfg a b
  | error e =>
    rw [(h e).1 hx]
    exact fun _ => Iff.rfl

theorem mapM {f g : α → Except ε β} {xs : List α} (h : ∀ x ∈ xs, FailsAlike (f x) (g x)) :
    FailsAlike (xs.mapM f) (xs.mapM g) := by
  induction xs with
  | nil => exact ok_ok [] []
  | cons x xs ih =>
    rw [List.mapM_cons, List.mapM_cons]
    refine bind (h x (List.mem_cons_self ..)) fun y y' => ?_
    exact bind (ih fun z hz => h z (List.mem_cons_of_mem _ hz)) fun ys ys' => ok_ok _ _

end FailsAlike

section Entries
variable {α β ε : Type} {f g : α → Except ε (List (String × β))} {keys : α → List String}
  {key : α → String}

theorem filter_of_key {es : List (String × β)} {k : String} (h : ∀ e ∈ es, e.1 = k)
    (keep : String → Bool) : es.filter (fun e => keep e.1) = if keep k then es else [] := by
  split
  · exact List.filter_eq_self.2 fun e he => by rwa [h e he]
  · exact List.filter_eq_nil_iff.2 fun e he => by rwa [h e he]

/-- Two walks that yield entries under the same keys agree on the keys that are kept exactly if
their steps do. -/
theorem filter_flatten_eq_iff (hf : ∀ x es, f x = .ok es → es.map (·.1) = keys x)
    (hg : ∀ x es, g x = .ok es → es.map (·.1) = keys x) (hkey : ∀ x, ∀ k ∈ keys x, k = key x)
    (keep : String → Bool) {xs : List α} {ys zs : List (List (String × β))}
    (hys : xs.mapM f = .ok ys) (hzs : xs.mapM g = .ok zs) :
    zs.flatten.filter (fun e => keep e.1) = ys.flatten.filter (fun e => keep e.1) ↔
      ∀ x ∈ xs, keep (key x) → g x = f x := by
  induction xs generalizing ys zs with
  | nil =>
    cases hys
    cases hzs
    simp
  | cons x xs ih =>
    obtain ⟨y, ys, hy, hyrest, rfl⟩ := mapM_cons_ok.1 hys
    obtain ⟨z, zs, hz, hzrest, rfl⟩ := mapM_cons_ok.1 hzs
    have hykeys := hf x y hy
    have hzkeys := hg x z hz
    have hkeys (es : List (String × β)) (hes : es.map (·.1) = keys x) : ∀ e ∈ es, e.1 = key x :=
      fun e he => hkey x e.1 (hes ▸ List.mem_map_of_mem he)
    rw [List.flatten_cons, List.flatten_cons, List.filter_append, List.filter_append,
      filter_of_key (hkeys y hykeys), filter_of_key (hkeys z hzkeys), List.forall_mem_cons, hy, hz,
      Except.ok.injEq, ← ih hyrest hzrest]
    -- Entries under a key that is kept are as many in both, so the lists can be taken apart.
    by_cases hkeep : keep (key x) = true
    · have hlength : z.length = y.length := by
        rw [← List.length_map (·.1), hzkeys, ← hykeys, List.length_map]
      rw [if_pos hkeep, if_pos hkeep]
      constructor
      · intro h
        obtain ⟨hzy, hrest⟩ := List.append_inj h hlength
        exact ⟨fun _ => hzy, hrest⟩
      · rintro ⟨hzy, hrest⟩
        rw [hzy hkeep, hrest]
    · simp [hkeep]

end Entries

end Records
