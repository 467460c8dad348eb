import Records.Library.Models
import Records.Record.Eager

/-!
Which relations some requested paths load: what a path that resolves leads through, unless another
requested path that does not resolve goes on from it.
-/
namespace Records

/-- A path goes on from another one, as their texts tell. -/
def PassesThrough (q p : String) : Prop := (p ++ ".").toList <+: q.toList

instance (q p : String) : Decidable (PassesThrough q p) := inferInstanceAs (Decidable (_ <+: _))

section PassesThrough
variable {p q r : String}

theorem passesThrough_iff : PassesThrough q p ↔ ∃ t, q.toList = p.toList ++ '.' :: t := by
  simp only [PassesThrough, List.IsPrefix, String.toList_append, eq_comm (b := q.toList),
    List.append_assoc]
  rfl

theorem PassesThrough.trans (hr : PassesThrough r q) (hq : PassesThrough q p) :
    PassesThrough r p := by
  obtain ⟨t, ht⟩ := passesThrough_iff.1 hr
  obtain ⟨u, hu⟩ := passesThrough_iff.1 hq
  exact passesThrough_iff.2 ⟨u ++ '.' :: t, by rw [ht, hu, List.append_assoc, List.cons_append]⟩

theorem PassesThrough.length_lt (h : PassesThrough q p) : p.length < q.length := by
  obtain ⟨t, ht⟩ := passesThrough_iff.1 h
  rw [← String.length_toList, ← String.length_toList, ht, List.length_append, List.length_cons]
  omega

/-- A path has the segments of every path that it goes on from. -/
theorem PassesThrough.segments_prefix (h : PassesThrough q p) : segments p <+: segments q := by
  obtain ⟨t, ht⟩ := passesThrough_iff.1 h
  unfold segments
  rw [ht, List.splitOn_append_cons_self, List.map_append]
  exact List.prefix_append ..

end PassesThrough

/-- A requested path that no requested path goes on from. -/
structure Leads (paths : List String) (p : String) : Prop where
  requested : p ∈ paths
  last : ∀ q ∈ paths, ¬PassesThrough q p

theorem mem_leadingPaths {paths : List String} {p : String} :
    p ∈ leadingPaths paths ↔ Leads paths p := by
  simp only [leadingPaths, List.mem_filter, List.mem_eraseDups, Bool.not_eq_true',
    List.any_eq_false, List.isPrefixOf_iff_prefix]
  exact ⟨fun h => ⟨h.1, h.2⟩, fun h => ⟨h.1, h.2⟩⟩

/-- From every requested path some leading one goes on, or it leads itself. -/
theorem exists_leads {paths : List String} {p : String} (hp : p ∈ paths) :
    ∃ q, Leads paths q ∧ (q = p ∨ PassesThrough q p) := by
  -- The longest of those that go on from it.
  let onward := paths.filter fun q => q = p ∨ PassesThrough q p
  have hmem {q : String} : q ∈ onward ↔ q ∈ paths ∧ (q = p ∨ PassesThrough q p) := by
    simp only [onward, List.mem_filter, decide_eq_true_iff]
  have hne : onward ≠ [] := List.ne_nil_of_mem (hmem.2 ⟨hp, .inl rfl⟩)
  obtain ⟨hq, hon⟩ := hmem.1 (List.maxOn_mem (f := String.length) (h := hne))
  refine ⟨onward.maxOn String.length hne, ⟨hq, fun r hr hpass => ?_⟩, hon⟩
  have hle : r.length ≤ (onward.maxOn String.length hne).length := by
    refine List.le_apply_maxOn_of_mem (hmem.2 ⟨hr, .inr ?_⟩)
    rcases hon with h | h
    · rwa [h] at hpass
    · exact hpass.trans h
  have hlt := hpass.length_lt
  omega

namespace Schema
variable {s : Schema} {m : Model}

/-- Every segment of a path resolves. -/
def Resolves (s : Schema) (m : Model) (path : String) : Prop :=
  ∃ hs, s.chain m (segments path) = .ok hs

theorem chain_cons_ok {name : String} {names : List String} {hs : List Handle} :
    s.chain m (name :: names) = .ok hs ↔
      ∃ h rest, s.resolve? m name = some h ∧ s.chain h.target names = .ok rest ∧
        hs = h :: rest := by
  rw [chain]
  cases s.resolve? m name with
  | none => simp
  | some h =>
    cases hrest : s.chain h.target names with
    | error last => simp [Except.map, hrest]
    | ok rest => simp [Except.map, hrest, eq_comm]

theorem chain_append_ok {names more : List String} {hs : List Handle}
    (h : s.chain m (names ++ more) = .ok hs) :
    ∃ front, s.chain m names = .ok front ∧ front <+: hs := by
  induction names generalizing m hs with
  | nil => exact ⟨[], rfl, List.nil_prefix⟩
  | cons name names ih =>
    obtain ⟨handle, rest, hr, hrest, rfl⟩ := chain_cons_ok.1 h
    obtain ⟨front, hfront, hpre⟩ := ih hrest
    exact ⟨handle :: front, chain_cons_ok.2 ⟨handle, front, hr, hfront, rfl⟩,
      List.cons_prefix_cons.2 ⟨rfl, hpre⟩⟩

/-- Where a path resolves, so does every path it passes through, to the first of its relations. -/
theorem chain_of_passesThrough {p q : String} {hs ks : List Handle} (hq : PassesThrough q p)
    (hp : s.chain m (segments p) = .ok hs) (hk : s.chain m (segments q) = .ok ks) : hs <+: ks := by
  obtain ⟨more, hmore⟩ := hq.segments_prefix
  rw [← hmore] at hk
  obtain ⟨front, hfront, hpre⟩ := chain_append_ok hk
  rw [hp] at hfront
  cases hfront
  exact hpre

theorem outcome_chains {ε : Type} (paths : List String) :
    (s.chains m paths : Reported ε _).outcome =
      .ok (paths.filterMap fun p => (s.chain m (segments p)).toOption) := by
  induction paths with
  | nil => rfl
  | cons p paths ih =>
    unfold chains
    cases hc : s.chain m (segments p) with
    | ok hs =>
      simp only [Reported.outcome_bind, Reported.outcome_pure, ih, Except.bind]
      rw [List.filterMap_cons_some (by rw [hc]; rfl)]
    | error last =>
      simp only [Reported.outcome_bind, Reported.outcome_entry, ih, Except.bind]
      rw [List.filterMap_cons_none (by rw [hc]; rfl)]

/-- The first relations of a requested path that resolves, and from which no requested path goes on
that does not. -/
def Follows (s : Schema) (m : Model) (paths : List String) (c : List Handle) : Prop :=
  c ≠ [] ∧ ∃ p ∈ paths, ∃ hs, s.chain m (segments p) = .ok hs ∧ c <+: hs ∧
    ∀ q ∈ paths, PassesThrough q p → s.Resolves m q

end Schema

/-- Some of the chains starts with these relations. -/
def Loaded (chains : List (List Handle)) (c : List Handle) : Prop :=
  c ≠ [] ∧ ∃ hs ∈ chains, c <+: hs

theorem exists_loaded_iff_follows {ε : Type} (s : Schema) (m : Model) (paths : List String) :
    ∃ chains, (s.eagerChains m paths : Reported ε _).outcome = .ok chains ∧
      ∀ c, Loaded chains c ↔ s.Follows m paths c := by
  refine ⟨_, Schema.outcome_chains _, fun c => and_congr_right fun _ => ?_⟩
  simp only [List.mem_filterMap, mem_leadingPaths]
  constructor
  · rintro ⟨hs, ⟨p, hp, hchain⟩, hc⟩
    cases hk : s.chain m (segments p) with
    | error last =>
      rw [hk] at hchain
      cases hchain
    | ok ks =>
      rw [hk] at hchain
      cases hchain
      exact ⟨p, hp.requested, hs, hk, hc, fun q hq hpass => (hp.last q hq hpass).elim⟩
  · rintro ⟨p, hp, hs, hchain, hc, hgood⟩
    obtain ⟨q, hq, rfl | hpass⟩ := exists_leads hp
    · exact ⟨hs, ⟨q, hq, by rw [hchain]; rfl⟩, hc⟩
    · obtain ⟨ks, hks⟩ := hgood q hq.requested hpass
      exact ⟨ks, ⟨q, hq, by rw [hks]; rfl⟩,
        hc.trans (Schema.chain_of_passesThrough hpass hchain hks)⟩

/-- Nothing is loaded beside a requested path that does not resolve and goes on from all that do. -/
theorem Schema.not_follows_hidden {s : Schema} {m : Model} {paths : List String} {q : String}
    (hq : q ∈ paths) (hfails : ¬s.Resolves m q)
    (hpass : ∀ p ∈ paths, s.Resolves m p → PassesThrough q p) (c : List Handle) :
    ¬s.Follows m paths c := by
  rintro ⟨-, p, hp, hs, hchain, -, hgood⟩
  exact hfails (hgood q hq (hpass p hp ⟨hs, hchain⟩))

-- The books of an author resolve, and are not loaded.
example : (Library.schema.eagerChains Library.author ["books", "books.nope"] :
    Reported Empty _).outcome = .ok [] := rfl

/-- A path that does not resolve is skipped alone if it goes on from none that does. -/
theorem Schema.follows_skip {s : Schema} {m : Model} {paths more : List String} {q : String}
    (hmore : ∀ p, p ∈ more ↔ p = q ∨ p ∈ paths) (hq : ¬s.Resolves m q)
    (hpass : ∀ p ∈ paths, s.Resolves m p → ¬PassesThrough q p) (c : List Handle) :
    s.Follows m more c ↔ s.Follows m paths c := by
  refine and_congr_right fun _ => ⟨?_, ?_⟩
  · rintro ⟨p, hp, hs, hchain, hc, hgood⟩
    rcases (hmore p).1 hp with rfl | hp
    · exact (hq ⟨hs, hchain⟩).elim
    · exact ⟨p, hp, hs, hchain, hc, fun r hr => hgood r ((hmore r).2 (.inr hr))⟩
  · rintro ⟨p, hp, hs, hchain, hc, hgood⟩
    refine ⟨p, (hmore p).2 (.inr hp), hs, hchain, hc, fun r hr hon => ?_⟩
    rcases (hmore r).1 hr with rfl | hr
    · exact (hpass p hp ⟨hs, hchain⟩ hon).elim
    · exact hgood r hr hon

/-- What is loaded for some paths, whatever they are: the relations along those that resolve, the
ones left aside from which a requested path goes on that does not. Another path that does not
resolve changes nothing unless it goes on from one that does. -/
theorem loaded_iff {ε : Type} (s : Schema) (m : Model) (paths : List String) :
    ∃ chains, (s.eagerChains m paths : Reported ε _).outcome = .ok chains ∧
      (∀ c, Loaded chains c ↔ s.Follows m paths c) ∧
      ∀ (q : String) (more : List String), (∀ p, p ∈ more ↔ p = q ∨ p ∈ paths) →
        ¬s.Resolves m q → (∀ p ∈ paths, s.Resolves m p → ¬PassesThrough q p) →
        ∃ chains', (s.eagerChains m more : Reported ε _).outcome = .ok chains' ∧
          ∀ c, Loaded chains' c ↔ Loaded chains c := by
  obtain ⟨chains, houtcome, hloaded⟩ := @exists_loaded_iff_follows ε s m paths
  refine ⟨chains, houtcome, hloaded, fun q more hmore hq hpass => ?_⟩
  obtain ⟨chains', houtcome', hloaded'⟩ := @exists_loaded_iff_follows ε s m more
  exact ⟨chains', houtcome', fun c =>
    (hloaded' c).trans ((Schema.follows_skip hmore hq hpass c).trans (hloaded c).symm)⟩

/-- Slots are asked for under both of their names, and along with their venues. -/
theorem loaded_iff_slots : ∃ chains chains',
    (Library.schema.eagerChains Library.venue ["eventSlots", "event_slots.venue"] :
      Reported Empty _).outcome = .ok chains ∧
    (∀ c, Loaded chains c ↔
      Library.schema.Follows Library.venue ["eventSlots", "event_slots.venue"] c) ∧
    (Library.schema.eagerChains Library.venue ["eventSlots", "ghost.venue", "event_slots.venue"] :
      Reported Empty _).outcome = .ok chains' ∧
    ∀ c, Loaded chains' c ↔ Loaded chains c := by
  obtain ⟨chains, houtcome, hloaded, hskip⟩ := @loaded_iff Empty Library.schema Library.venue
    ["eventSlots", "event_slots.venue"]
  obtain ⟨chains', houtcome', hloaded'⟩ := hskip "ghost.venue"
    ["eventSlots", "ghost.venue", "event_slots.venue"] (by simp [or_left_comm])
    (fun ⟨_, h⟩ => nomatch h) fun p hp _ => (by decide :
      ∀ p ∈ ["eventSlots", "event_slots.venue"], ¬PassesThrough "ghost.venue" p) p hp
  exact ⟨chains, chains', houtcome, hloaded, houtcome', hloaded'⟩

end Records
