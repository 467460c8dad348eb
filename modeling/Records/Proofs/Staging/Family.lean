import Records.Proofs.Resource.Identity
import Records.Proofs.Staging.Inserted

/-!
New records that are staged together: one, and those that are put under its relations. Nothing else
is written when they are, and those that are put under it go before it or after it as the keys
between them need.
-/
namespace Records

open Records.Calendar (Moment)

namespace Plan
variable {s : Schema} {p : Plan} {m m' : Model} {i j : Nat}

theorem pair_sublist_of_models (h : [m, m'].Sublist s.models) (hi : i < p.rounds)
    (hj : j < p.rounds) : [(m, i), (m', j)].Sublist (p.steps s) := by
  have hround {m : Model} {level : Nat} (hlevel : level < p.rounds) :
      [(m, level)].Sublist ((List.range p.rounds).map fun level => (m, level)) :=
    List.singleton_sublist.2 (List.mem_map.2 ⟨level, List.mem_range.2 hlevel, rfl⟩)
  refine List.Sublist.trans ?_ (h.flatMap fun m => (List.range p.rounds).map fun level => (m, level))
  rw [List.flatMap_cons, List.flatMap_singleton]
  exact (hround hi).append (hround hj)

theorem pair_sublist_of_lt (hm : m ∈ s.models) (hij : i < j) (hj : j < p.rounds) :
    [(m, i), (m, j)].Sublist (p.steps s) := by
  have hlevels : [i, j].Sublist (List.range p.rounds) := by
    rw [List.range_eq_range', ← Nat.sub_add_cancel hj.le, Nat.add_comm, ← List.range'_append]
    refine (List.Sublist.append ?_ ?_ : ([i] ++ [j]).Sublist _)
    · exact List.singleton_sublist.2 (List.mem_range'_1.2 (by omega))
    · exact List.singleton_sublist.2 (List.mem_range'_1.2 (by omega))
  refine List.Sublist.trans ?_ ((List.singleton_sublist.2 hm).flatMap fun m =>
    (List.range p.rounds).map fun level => (m, level))
  rw [List.flatMap_singleton]
  exact hlevels.map fun level => (m, level)

end Plan

namespace Attachment
variable {as : List Attachment} {a : Attachment} {height : Ref → Nat}

/-- Where records are higher than those that they wait for, a rank needs no more fuel than that. -/
theorem rank_succ (hheight : ∀ a ∈ as, height a.leader < height a.follower) {fuel : Nat} {ref : Ref}
    (hfuel : height ref ≤ fuel) : rank as (fuel + 1) ref = rank as fuel ref := by
  induction fuel generalizing ref with
  | zero =>
    have hnone : as.filter (fun a => a.follower == ref) = [] := by
      refine List.filter_eq_nil_iff.2 fun a ha hsame => ?_
      have hlower := hheight a ha
      rw [eq_of_beq hsame] at hlower
      omega
    unfold rank
    rw [hnone]
    rfl
  | succ fuel ih =>
    have hleaders : (as.filter fun a => a.follower == ref).map (fun a =>
        rank as (fuel + 1) a.leader + 1) =
          (as.filter fun a => a.follower == ref).map fun a => rank as fuel a.leader + 1 := by
      refine List.map_congr_left fun a ha => ?_
      obtain ⟨ha, hsame⟩ := List.mem_filter.1 ha
      have hlower := hheight a ha
      rw [eq_of_beq hsame] at hlower
      rw [ih (by omega)]
    rw [rank, hleaders, rank]

theorem rank_lt (hheight : ∀ a ∈ as, height a.leader < height a.follower) (ha : a ∈ as)
    (hle : height a.follower ≤ as.length) :
    rank as as.length a.leader < rank as as.length a.follower := by
  rw [← rank_succ hheight hle, rank]
  exact le_foldl_max (.inl (List.mem_map.2 ⟨a, List.mem_filter.2 ⟨ha, beq_self_eq_true _⟩, rfl⟩))

/-- A record with its members, each of which waits for it or is waited for by it. -/
structure IsStar (as : List Attachment) : Prop where
  holder : ∀ a ∈ as, a.holder = .draft 0
  member : ∀ a ∈ as, a.member ≠ .draft 0
  apart : ∀ a ∈ as, ∀ b ∈ as, a.member = b.member → a = b

theorem leader_follower (a : Attachment) : a.leader = a.member ∧ a.follower = a.holder ∨
    a.leader = a.holder ∧ a.follower = a.member := by
  unfold leader follower
  cases a.handle.relation.link with
  | parent fk => exact .inl ⟨rfl, rfl⟩
  | many fk orderedBy owned => exact .inr ⟨rfl, rfl⟩
  | one fk owned => exact .inr ⟨rfl, rfl⟩

theorem IsStar.rank_lt (has : IsStar as) (ha : a ∈ as) :
    rank as as.length a.leader < rank as as.length a.follower := by
  -- As many stand below the record in the middle as it waits for, and its followers stand above.
  let below := as.countP (·.follower == .draft 0)
  let height (ref : Ref) : Nat :=
    if ref = .draft 0 then below else if ∃ a ∈ as, a.follower = ref then below + 1 else 0
  have hbelow {a : Attachment} (ha : a ∈ as) (hfollower : a.follower = .draft 0) : 0 < below :=
    List.countP_pos_iff.2 ⟨a, ha, beq_iff_eq.2 hfollower⟩
  have hheight : ∀ a ∈ as, height a.leader < height a.follower := by
    intro a ha
    have hholder := has.holder a ha
    have hmember := has.member a ha
    rcases a.leader_follower with ⟨hleader, hfollower⟩ | ⟨hleader, hfollower⟩
    · have hnone : ¬∃ b ∈ as, b.follower = a.leader := by
        rintro ⟨b, hb, hsame⟩
        rw [hleader] at hsame
        rcases b.leader_follower with ⟨-, hb'⟩ | ⟨-, hb'⟩
        · rw [hb', has.holder b hb] at hsame
          exact hmember hsame.symm
        · obtain rfl := has.apart b hb a ha (hb'.symm.trans hsame)
          rw [hfollower, hholder] at hsame
          exact hmember hsame.symm
      dsimp only [height]
      rw [if_neg hnone, if_neg (hleader ▸ hmember), hfollower, hholder, if_pos rfl]
      exact hbelow ha (hfollower.trans hholder)
    · dsimp only [height]
      rw [hleader, hholder, if_pos rfl, if_neg (hfollower ▸ hmember), if_pos ⟨a, ha, rfl⟩]
      exact Nat.lt_succ_self _
  refine Attachment.rank_lt hheight ha ?_
  dsimp only [height]
  split
  · exact List.countP_le_length
  · rename_i hother
    rw [if_pos ⟨a, ha, rfl⟩]
    have habove : 0 < as.countP fun b => ¬(b.follower == .draft 0) :=
      List.countP_pos_iff.2 ⟨a, ha, by simpa using hother⟩
    have hall := List.length_eq_countP_add_countP (fun b : Attachment => b.follower == .draft 0)
      (l := as)
    simp only [below]
    omega

end Attachment

/-- A new record that is put under a relation of another one, and its number. -/
structure Member where
  number : Nat
  handle : Handle
  values : List (String × Value)

namespace Member

def draft (d : Member) : Draft := ⟨d.handle.target, d.values⟩

def attachment (d : Member) : Attachment := ⟨.draft d.number, .draft 0, d.handle⟩

/-- The foreign key that is to lead from one of the two records to the other. -/
def bond (d : Member) : Bond :=
  match d.handle.relation.link with
  | .parent fk => ⟨.draft 0, fk, .draft d.number⟩
  | link => ⟨.draft d.number, link.foreignKey, .draft 0⟩

theorem column_bond (d : Member) : d.bond.column = d.handle.relation.link.foreignKey := by
  unfold bond
  cases d.handle.relation.link <;> rfl

section Links
variable {d : Member}

theorem bond_of_parent {fk : String} (hlink : d.handle.relation.link = .parent fk) :
    d.bond = ⟨.draft 0, fk, .draft d.number⟩ := by
  unfold bond
  rw [hlink]

theorem bond_of_child (hlink : ∀ fk, d.handle.relation.link ≠ .parent fk) :
    d.bond = ⟨.draft d.number, d.handle.relation.link.foreignKey, .draft 0⟩ := by
  unfold bond
  split
  · exact absurd ‹_› (hlink _)
  · rfl

theorem leads_of_parent {fk : String} (hlink : d.handle.relation.link = .parent fk) :
    d.attachment.leader = .draft d.number ∧ d.attachment.follower = .draft 0 := by
  unfold Attachment.leader Attachment.follower attachment
  dsimp only
  rw [hlink]
  exact ⟨rfl, rfl⟩

theorem leads_of_child (hlink : ∀ fk, d.handle.relation.link ≠ .parent fk) :
    d.attachment.leader = .draft 0 ∧ d.attachment.follower = .draft d.number := by
  unfold Attachment.leader Attachment.follower attachment
  cases hl : d.handle.relation.link with
  | parent fk => exact absurd hl (hlink fk)
  | many fk orderedBy owned => exact ⟨rfl, rfl⟩
  | one fk owned => exact ⟨rfl, rfl⟩

end Links

end Member

/-- A new record, and those that are put under it in the order of their numbers. -/
structure Family where
  holder : Draft
  members : List Member
  numbered : members.map (·.number) = List.range' 1 members.length

namespace Family
variable {f : Family} {s : Schema} {st : Store} {held : Graph} {d : Member}

def staging (f : Family) : Staging where
  drafts := f.holder :: f.members.map (·.draft)
  attachments := f.members.map (·.attachment)

def add (f : Family) (h : Handle) (values : List (String × Value)) : Family where
  holder := f.holder
  members := f.members ++ [⟨f.members.length + 1, h, values⟩]
  numbered := by
    rw [List.map_append, List.length_append, f.numbered, List.length_singleton,
      List.range'_concat, Nat.one_mul, Nat.add_comm 1]
    rfl

/-- The members that no later one takes the place of. -/
def kept (f : Family) : List Member := f.members.filter fun d => !f.staging.isSuperseded d.attachment

theorem staging_add (f : Family) (h : Handle) (values : List (String × Value)) :
    (f.staging.addDraft h.target values).1.attach h (.draft 0)
      (f.staging.addDraft h.target values).2 = (f.add h values).staging := by
  unfold staging add Staging.addDraft Staging.attach
  dsimp only
  rw [List.map_append, List.map_append, List.length_cons, List.length_map]
  rfl

theorem nodup_numbers (f : Family) : (f.members.map (·.number)).Nodup :=
  f.numbered ▸ List.nodup_range'

theorem number_ne_zero (hd : d ∈ f.members) : d.number ≠ 0 := by
  have hin : d.number ∈ f.members.map (·.number) := List.mem_map_of_mem hd
  rw [f.numbered] at hin
  exact Nat.ne_of_gt (List.mem_range'_1.1 hin).1

theorem eq_of_number {d' : Member} (hd : d ∈ f.members) (hd' : d' ∈ f.members)
    (h : d.number = d'.number) : d = d' :=
  List.inj_on_of_nodup_map f.nodup_numbers hd hd' h

theorem mem_kept : d ∈ f.kept ↔ d ∈ f.members ∧ f.staging.isSuperseded d.attachment = false := by
  unfold kept
  rw [List.mem_filter, Bool.not_eq_true']

theorem mem_standing {a : Attachment} :
    a ∈ f.staging.standing ↔ ∃ d ∈ f.kept, a = d.attachment := by
  unfold Staging.standing staging kept
  rw [List.mem_eraseDups, List.filter_map, List.mem_map]
  exact ⟨fun ⟨d, hd, h⟩ => ⟨d, hd, h.symm⟩, fun ⟨d, hd, h⟩ => ⟨d, hd, h.symm⟩⟩

theorem mem_dropped {n : Nat} : .draft n ∈ f.staging.dropped ↔
    ∃ d ∈ f.members, d.number = n ∧ f.staging.isSuperseded d.attachment = true := by
  unfold Staging.dropped
  rw [List.mem_map]
  constructor
  · rintro ⟨a, ha, hn⟩
    obtain ⟨ha, hlost⟩ := List.mem_filter.1 ha
    obtain ⟨d, hd, rfl⟩ := List.mem_map.1 ha
    exact ⟨d, hd, Ref.draft.inj hn, (Bool.and_eq_true_iff.1 hlost).1⟩
  · rintro ⟨d, hd, rfl, hlost⟩
    exact ⟨d.attachment, List.mem_filter.2 ⟨List.mem_map_of_mem hd, by rw [hlost]; rfl⟩, rfl⟩

theorem drafts_plan : (f.staging.plan s st held).drafts =
    (0, f.holder) :: f.kept.map fun d => (d.number, d.draft) := by
  have hnumbered : (f.staging.drafts.zipIdx.map fun e => (e.2, e.1)) =
      (0, f.holder) :: f.members.map fun d => (d.number, d.draft) := by
    unfold staging
    rw [List.zipIdx_cons, List.map_cons, List.zipIdx_eq_zip_range', List.length_map, Nat.zero_add,
      ← f.numbered, List.zip_map', List.map_map]
    rfl
  change (f.staging.drafts.zipIdx.map fun e => (e.2, e.1)).filter
    (fun e => !f.staging.dropped.contains (.draft e.1)) = _
  rw [hnumbered, List.filter_cons_of_pos, List.filter_map]
  · refine congrArg (List.cons _ <| List.map _ ·) (List.filter_congr fun d hd => ?_)
    refine congrArg (!·) (Bool.eq_iff_iff.2 ?_)
    dsimp only
    rw [List.contains_iff_mem, mem_dropped]
    constructor
    · rintro ⟨d', hd', hnumber, hlost⟩
      rwa [eq_of_number hd hd' hnumber.symm]
    · exact fun hlost => ⟨d, hd, rfl, hlost⟩
  · rw [Bool.not_eq_true', ← Bool.not_eq_true, List.contains_iff_mem, mem_dropped]
    rintro ⟨d, hd, hzero, -⟩
    exact number_ne_zero hd hzero

section Unheld
variable (hheld : ∀ n name, held.related? (.draft n) name = none)
include hheld

theorem displaced_eq_nil : f.staging.displaced st held = [] := by
  refine Staging.displaced_of_drafts hheld fun a ha => ?_
  obtain ⟨d, -, rfl⟩ := List.mem_map.1 ha
  exact ⟨⟨0, rfl⟩, d.number, rfl⟩

theorem removals_eq_nil : f.staging.removals s st held = [] :=
  Staging.removals_eq_nil (displaced_eq_nil hheld) rfl

theorem mem_bonds {b : Bond} : b ∈ f.staging.bonds st held ↔ ∃ d ∈ f.kept, b = d.bond := by
  have hbond (d : Member) :
      d.attachment.bond? (held.members st d.attachment.handle d.attachment.holder) =
        some d.bond := by
    unfold Attachment.bond? Member.bond Member.attachment
    dsimp only
    rw [Graph.members_draft (hheld ..), if_neg (by simp)]
    cases d.handle.relation.link <;> rfl
  unfold Staging.bonds
  rw [List.mem_filterMap]
  constructor
  · rintro ⟨a, ha, hb⟩
    obtain ⟨d, hd, rfl⟩ := mem_standing.1 ha
    rw [hbond] at hb
    exact ⟨d, hd, (Option.some.inj hb).symm⟩
  · rintro ⟨d, hd, rfl⟩
    exact ⟨d.attachment, mem_standing.2 ⟨d, hd, rfl⟩, hbond d⟩

theorem edits_plan : (f.staging.plan s st held).edits = [] := by
  have hcleared : f.staging.cleared s st held = [] := by
    unfold Staging.cleared
    rw [displaced_eq_nil hheld, removals_eq_nil hheld]
    rfl
  have hsettled : f.staging.settledEdits s st held = [] := by
    unfold Staging.settledEdits
    rw [hcleared]
    refine List.foldlRecOn (motive := fun g : Staging => g.edits = []) _ _ rfl ?_
    rintro g hg ⟨ref, values⟩ htouched
    -- Only new records get keys, and there is nothing to edit of these.
    obtain ⟨b, hb, hsame⟩ := List.mem_map.1 htouched
    obtain ⟨rfl, rfl⟩ := Prod.mk.inj hsame
    obtain ⟨d, -, rfl⟩ := (mem_bonds hheld).1 hb
    have hdraft : ∃ n, d.bond.record = .draft n := by
      unfold Member.bond
      split
      · exact ⟨0, rfl⟩
      · exact ⟨d.number, rfl⟩
    obtain ⟨n, hn⟩ := hdraft
    rw [hn]
    exact hg
  unfold Staging.plan
  dsimp only
  rw [hsettled]
  rfl

end Unheld

/-- The members are put under relations of the first record, and none but that one has an id. -/
structure Fits (s : Schema) (f : Family) : Prop where
  holder_mem : f.holder.model ∈ s.models
  declared : ∀ d ∈ f.members, s.Declares d.handle ∧ d.handle.parent = f.holder.model
  holder_id : ∀ v, Value.lookup? idColumn.name f.holder.values = some v → v ≠ .null →
    ∃ n, v = .int n
  member_id : ∀ d ∈ f.members, Value.lookup? idColumn.name d.values = none

theorem isStar_attachments : Attachment.IsStar (f.staging.plan s st held).attachments := by
  have hmember {a : Attachment} (ha : a ∈ (f.staging.plan s st held).attachments) :
      ∃ d ∈ f.members, a = d.attachment := by
    obtain ⟨d, hd, rfl⟩ := mem_standing.1 (List.mem_filter.1 ha).1
    exact ⟨d, (mem_kept.1 hd).1, rfl⟩
  constructor
  · intro a ha
    obtain ⟨d, -, rfl⟩ := hmember ha
    rfl
  · intro a ha
    obtain ⟨d, hd, rfl⟩ := hmember ha
    exact fun hzero => number_ne_zero hd (Ref.draft.inj hzero)
  · intro a ha b hb hsame
    obtain ⟨d, hd, rfl⟩ := hmember ha
    obtain ⟨d', hd', rfl⟩ := hmember hb
    rw [eq_of_number hd hd' (Ref.draft.inj hsame)]

/-- Of a member and the first record, the one that a key leads to is written before the other. -/
theorem pair_sublist_steps (st : Store) (held : Graph) (hs : s.Regular) (hf : f.Fits s) (hd : d ∈ f.kept) :
    [(d.handle.referred, (f.staging.plan s st held).rank d.attachment.leader),
      (d.handle.referrer, (f.staging.plan s st held).rank d.attachment.follower)].Sublist
        ((f.staging.plan s st held).steps s) := by
  obtain ⟨hdeclared, -⟩ := hf.declared d (mem_kept.1 hd).1
  rcases hs.order _ hdeclared.parent_mem _ hdeclared.mem_handles with hself | hbefore
  · have hattached : d.attachment ∈ (f.staging.plan s st held).attachments := by
      refine List.mem_filter.2 ⟨mem_standing.2 ⟨d, hd, rfl⟩, beq_iff_eq.2 (congrArg _ ?_)⟩
      unfold Handle.referred Handle.referrer at hself
      change d.handle.parent = d.handle.target
      split at hself <;> simp_all
    rw [hself]
    exact Plan.pair_sublist_of_lt hdeclared.referrer_mem (isStar_attachments.rank_lt hattached)
      (Plan.rank_lt_rounds ..)
  · exact Plan.pair_sublist_of_models hbefore (Plan.rank_lt_rounds ..) (Plan.rank_lt_rounds ..)

theorem mem_drafts_plan {e : Nat × Draft} : e ∈ (f.staging.plan s st held).drafts ↔
    e = (0, f.holder) ∨ ∃ d ∈ f.kept, e = (d.number, d.draft) := by
  rw [drafts_plan, List.mem_cons, List.mem_map]
  exact or_congr_right (exists_congr fun d => and_congr_right fun _ => eq_comm)

/-- What a key is to lead to is a new record too, and is written before the record with the key. -/
theorem target_before (hs : s.Regular) (hheld : ∀ n name, held.related? (.draft n) name = none)
    (hf : f.Fits s) {e : Nat × Draft} (he : e ∈ (f.staging.plan s st held).drafts) {b : Bond}
    (hb : b ∈ f.staging.bonds st held) (hrecord : b.record = .draft e.1) :
    ∃ e' ∈ (f.staging.plan s st held).drafts, b.target = .draft e'.1 ∧
      [(f.staging.plan s st held).stepOf e', (f.staging.plan s st held).stepOf e].Sublist
        ((f.staging.plan s st held).steps s) := by
  obtain ⟨d, hd, rfl⟩ := (mem_bonds hheld).1 hb
  have hmember := (mem_kept.1 hd).1
  have hparent := (hf.declared d hmember).2
  have hbefore := pair_sublist_steps st held hs hf hd
  have hholder : (0, f.holder) ∈ (f.staging.plan s st held).drafts := mem_drafts_plan.2 (.inl rfl)
  have hdraft : (d.number, d.draft) ∈ (f.staging.plan s st held).drafts :=
    mem_drafts_plan.2 (.inr ⟨d, hd, rfl⟩)
  -- The key is one of the first record, or one of the member.
  by_cases hup : ∃ fk, d.handle.relation.link = .parent fk
  · obtain ⟨fk, hlink⟩ := hup
    rw [Member.bond_of_parent hlink] at hrecord ⊢
    rw [Handle.referred_of_parent hlink, Handle.referrer_of_parent hlink,
      (Member.leads_of_parent hlink).1, (Member.leads_of_parent hlink).2, hparent] at hbefore
    rcases mem_drafts_plan.1 he with rfl | ⟨d', hd', rfl⟩
    · exact ⟨_, hdraft, rfl, hbefore⟩
    · exact absurd (Ref.draft.inj hrecord).symm (number_ne_zero (mem_kept.1 hd').1)
  · have hlink (fk : String) : d.handle.relation.link ≠ .parent fk := fun hl => hup ⟨fk, hl⟩
    rw [Member.bond_of_child hlink] at hrecord ⊢
    rw [Handle.referred_of_child hlink, Handle.referrer_of_child hlink,
      (Member.leads_of_child hlink).1, (Member.leads_of_child hlink).2, hparent] at hbefore
    rcases mem_drafts_plan.1 he with rfl | ⟨d', hd', rfl⟩
    · exact absurd (Ref.draft.inj hrecord) (number_ne_zero hmember)
    · obtain rfl := eq_of_number hmember (mem_kept.1 hd').1 (Ref.draft.inj hrecord)
      exact ⟨_, hholder, rfl, hbefore⟩

theorem adding (hs : s.Regular) (hheld : ∀ n name, held.related? (.draft n) name = none)
    (hf : f.Fits s) : (f.staging.plan s st held).Adding s where
  edits := edits_plan hheld
  removals := removals_eq_nil hheld
  numbers := by
    rw [drafts_plan, List.map_cons, List.map_map]
    refine List.nodup_cons.2 ⟨fun hzero => ?_, f.nodup_numbers.sublist (List.filter_sublist.map _)⟩
    obtain ⟨d, hd, hnumber⟩ := List.mem_map.1 hzero
    exact number_ne_zero (mem_kept.1 hd).1 hnumber
  models e he := by
    rcases mem_drafts_plan.1 he with rfl | ⟨d, hd, rfl⟩
    · exact hf.holder_mem
    · exact (hf.declared d (mem_kept.1 hd).1).1.target_mem
  ids e he v hv hne := by
    rcases mem_drafts_plan.1 he with rfl | ⟨d, hd, rfl⟩
    · exact hf.holder_id v hv hne
    · rw [show Value.lookup? idColumn.name (d.number, d.draft).2.values = none from
        hf.member_id d (mem_kept.1 hd).1] at hv
      cases hv
  keys b hb := by
    obtain ⟨d, hd, rfl⟩ := (mem_bonds hheld).1 hb
    rw [d.column_bond]
    exact Update.foreignKey_ne_id hs.toKeyed (hf.declared d (mem_kept.1 hd).1).1
  ready _ he _ hb hrecord := target_before hs hheld hf he hb hrecord

end Family

end Records
