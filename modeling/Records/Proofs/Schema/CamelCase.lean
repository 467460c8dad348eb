import Records.Library.Models
import Records.Schema.Resolve

/-!
Names in snake case and their spellings in camel case. An underscore goes before every capital but
one at the beginning, so that lower case gives the words of the name back, and a relation is found
by each spelling of its name that no other relation has for its name.
-/
namespace Records

abbrev IsSmall (c : Char) : Prop := 'a' ≤ c ∧ c ≤ 'z'

abbrev IsCapital (c : Char) : Prop := 'A' ≤ c ∧ c ≤ 'Z'

/-- A run of one or more small letters of ASCII. -/
@[ext]
structure Word where
  initial : Char
  rest : List Char
  small : ∀ c ∈ initial :: rest, IsSmall c
deriving DecidableEq

namespace Word

def letters (w : Word) : List Char := w.initial :: w.rest

def capitalized (w : Word) : List Char := w.initial.toUpper :: w.rest

end Word

/-- One or more words. -/
@[ext]
structure SnakeName where
  first : Word
  others : List Word
deriving DecidableEq

namespace SnakeName

def words (n : SnakeName) : List Word := n.first :: n.others

/-- The words joined by single underscores. -/
def text (n : SnakeName) : String := String.ofList (['_'].intercalate (n.words.map (·.letters)))

/-- The words with nothing between them, and each but the first with a capital. -/
def camelCase (n : SnakeName) : String :=
  String.ofList (n.first.letters ++ n.others.flatMap (·.capitalized))

/-- The words with nothing between them, and each with a capital. -/
def pascalCase (n : SnakeName) : String := String.ofList (n.words.flatMap (·.capitalized))

def spellings (n : SnakeName) : List String := [n.camelCase, n.pascalCase]

end SnakeName

section Ascii
variable {c : Char} {cs before : List Char}

theorem forall_ascii {P : Char → Prop} (h : ∀ n < 0x80, P (Char.ofNat n)) (hc : c.toNat < 0x80) :
    P c := by
  simpa only [Char.ofNat_toNat] using h c.toNat hc

theorem IsSmall.toNat_lt (hc : IsSmall c) : c.toNat < 0x80 := Nat.lt_of_le_of_lt hc.2 (by decide)

theorem IsSmall.not_capital (hc : IsSmall c) : ¬IsCapital c := fun hcapital =>
  absurd (Char.le_trans hc.1 hcapital.2) (by decide)

theorem IsSmall.toUpper (hc : IsSmall c) :
    IsCapital c.toUpper ∧ c.toUpper.toNat < 0x80 ∧ c.toUpper.toLower = c :=
  forall_ascii (P := fun c => IsSmall c →
    IsCapital c.toUpper ∧ c.toUpper.toNat < 0x80 ∧ c.toUpper.toLower = c) (by decide) hc.toNat_lt hc

theorem toLower_of_not_capital (hc : ¬IsCapital c) : c.toLower = c := dif_neg hc

theorem map_toLower_of_no_capital (hcs : ∀ c ∈ cs, ¬IsCapital c) : cs.map Char.toLower = cs := by
  rw [List.map_congr_left fun c hc => toLower_of_not_capital (hcs c hc), List.map_id']

theorem toLower_ascii (hc : c.toNat < 0x80) : c.toLower.toNat < 0x80 ∧ ¬IsCapital c.toLower :=
  forall_ascii (P := fun c => c.toLower.toNat < 0x80 ∧ ¬IsCapital c.toLower) (by decide) hc

/-- Lower case within ASCII does not look at what stands around a character. -/
theorem Text.lowerChars_ascii (hcs : ∀ c ∈ cs, c.toNat < 0x80) :
    Text.lowerChars before cs = cs.map Char.toLower := by
  induction cs generalizing before with
  | nil => rfl
  | cons c cs ih =>
    rw [List.forall_mem_cons] at hcs
    have hsigma : c ≠ '\u03A3' := by
      rintro rfl
      exact absurd hcs.1 (by decide)
    have hdotted : c ≠ '\u0130' := by
      rintro rfl
      exact absurd hcs.1 (by decide)
    have hsmall : Text.smallLetter c = c.toLower := if_pos hcs.1
    rw [Text.lowerChars, Text.lowerAt, if_neg hsigma, if_neg hdotted, hsmall, ih hcs.2,
      List.map_cons, List.singleton_append]

end Ascii

section Marks
variable {c : Char} {cs ds : List Char}

theorem markCapitals.go_append : go (cs ++ ds) = go cs ++ go ds := by
  induction cs with
  | nil => rfl
  | cons c cs ih =>
    rw [List.cons_append, go, go, ih]
    split <;> rfl

theorem markCapitals.go_of_no_capital (hcs : ∀ c ∈ cs, ¬IsCapital c) : go cs = cs := by
  induction cs with
  | nil => rfl
  | cons c cs ih =>
    rw [List.forall_mem_cons] at hcs
    rw [go, if_neg hcs.1, ih hcs.2]

theorem markCapitals.eq_or_mem_of_mem_go (hc : c ∈ go cs) : c = '_' ∨ c ∈ cs := by
  induction cs with
  | nil => exact .inr hc
  | cons d cs ih =>
    rw [go] at hc
    split at hc <;> grind

theorem markCapitals_append (hcs : cs ≠ []) :
    markCapitals (cs ++ ds) = markCapitals cs ++ markCapitals.go ds := by
  cases cs with
  | nil => exact absurd rfl hcs
  | cons c cs => exact congrArg (c :: ·) markCapitals.go_append

/-- A capital at the beginning is not marked. -/
theorem markCapitals_cons_of_no_capital (hcs : ∀ c ∈ cs, ¬IsCapital c) :
    markCapitals (c :: cs) = c :: cs :=
  congrArg (c :: ·) (markCapitals.go_of_no_capital hcs)

theorem markCapitals_of_no_capital (hcs : ∀ c ∈ cs, ¬IsCapital c) : markCapitals cs = cs := by
  cases cs with
  | nil => rfl
  | cons c cs => exact markCapitals_cons_of_no_capital (List.forall_mem_cons.1 hcs).2

theorem toNat_lt_of_mem_markCapitals (hcs : ∀ c ∈ cs, c.toNat < 0x80) :
    ∀ c ∈ markCapitals cs, c.toNat < 0x80 := by
  cases cs with
  | nil => exact hcs
  | cons d cs =>
    refine List.forall_mem_cons.2 ⟨hcs d List.mem_cons_self, fun c hc => ?_⟩
    rcases markCapitals.eq_or_mem_of_mem_go hc with rfl | hc
    · decide
    · exact hcs c (List.mem_cons_of_mem d hc)

theorem snakeCase_ascii (hcs : ∀ c ∈ cs, c.toNat < 0x80) :
    snakeCase (String.ofList cs) = String.ofList ((markCapitals cs).map Char.toLower) := by
  rw [snakeCase, Text.lower, String.toList_ofList, String.toList_ofList,
    Text.lowerChars_ascii (toNat_lt_of_mem_markCapitals hcs)]

theorem snakeCase_of_no_capital (hcs : ∀ c ∈ cs, c.toNat < 0x80 ∧ ¬IsCapital c) :
    snakeCase (String.ofList cs) = String.ofList cs := by
  have hsmall : ∀ c ∈ cs, ¬IsCapital c := fun c hc => (hcs c hc).2
  rw [snakeCase_ascii fun c hc => (hcs c hc).1, markCapitals_of_no_capital hsmall,
    map_toLower_of_no_capital hsmall]

/-- No capital is left to be marked in lower case. -/
theorem snakeCase_idempotent {t : String} (ht : ∀ c ∈ t.toList, c.toNat < 0x80) :
    snakeCase (snakeCase t) = snakeCase t := by
  have hsnake := snakeCase_ascii ht
  rw [String.ofList_toList] at hsnake
  rw [hsnake]
  refine snakeCase_of_no_capital (List.forall_mem_map.2 fun c hc => ?_)
  exact toLower_ascii (toNat_lt_of_mem_markCapitals ht c hc)

end Marks

namespace Word
variable {w : Word} {c : Char}

theorem rest_no_capital (w : Word) : ∀ c ∈ w.rest, ¬IsCapital c := fun c hc =>
  (w.small c (List.mem_cons_of_mem _ hc)).not_capital

theorem toUpper_initial (w : Word) :
    IsCapital w.initial.toUpper ∧ w.initial.toUpper.toNat < 0x80 ∧
      w.initial.toUpper.toLower = w.initial :=
  (w.small _ List.mem_cons_self).toUpper

theorem toNat_lt_capitalized (hc : c ∈ w.capitalized) : c.toNat < 0x80 := by
  rcases List.mem_cons.1 hc with rfl | hc
  · exact w.toUpper_initial.2.1
  · exact (w.small c (List.mem_cons_of_mem _ hc)).toNat_lt

theorem map_toLower_letters (w : Word) : w.letters.map Char.toLower = w.letters :=
  map_toLower_of_no_capital fun c hc => (w.small c hc).not_capital

theorem map_toLower_capitalized (w : Word) : w.capitalized.map Char.toLower = w.letters := by
  rw [capitalized, List.map_cons, w.toUpper_initial.2.2,
    map_toLower_of_no_capital w.rest_no_capital, letters]

theorem go_capitalized (w : Word) : markCapitals.go w.capitalized = '_' :: w.capitalized := by
  rw [capitalized, markCapitals.go, if_pos w.toUpper_initial.1,
    markCapitals.go_of_no_capital w.rest_no_capital]

/-- Each word that follows is led back to an underscore and its letters. -/
theorem map_toLower_go_flatMap (ws : List Word) :
    (markCapitals.go (ws.flatMap (·.capitalized))).map Char.toLower =
      ws.flatMap ('_' :: ·.letters) := by
  induction ws with
  | nil => rfl
  | cons w ws ih =>
    rw [List.flatMap_cons, List.flatMap_cons, markCapitals.go_append, List.map_append, ih,
      go_capitalized, List.map_cons, map_toLower_capitalized]
    rfl

theorem intercalate_letters (w : Word) (ws : List Word) :
    ['_'].intercalate ((w :: ws).map (·.letters)) = w.letters ++ ws.flatMap ('_' :: ·.letters) := by
  induction ws generalizing w with
  | nil => rw [List.map_singleton, List.intercalate_singleton, List.flatMap_nil, List.append_nil]
  | cons v ws ih =>
    have hrest := ih v
    rw [List.map_cons] at hrest
    rw [List.map_cons, List.map_cons, List.intercalate_cons_cons, hrest, List.flatMap_cons,
      List.append_assoc, List.singleton_append, List.cons_append]

end Word

namespace SnakeName
variable {n n' : SnakeName} {t : String}

theorem toList_text (n : SnakeName) :
    n.text.toList = n.first.letters ++ n.others.flatMap ('_' :: ·.letters) := by
  rw [text, String.toList_ofList, words, Word.intercalate_letters]

/-- The first word gets no underscore, so that it may begin with a capital or not. -/
theorem snakeCase_append {front : List Char} (hne : front ≠ [])
    (hascii : ∀ c ∈ front, c.toNat < 0x80) (hmarked : markCapitals front = front)
    (hlower : front.map Char.toLower = n.first.letters) :
    snakeCase (String.ofList (front ++ n.others.flatMap (·.capitalized))) = n.text := by
  have hcs : ∀ c ∈ front ++ n.others.flatMap (·.capitalized), c.toNat < 0x80 := by
    intro c hc
    rcases List.mem_append.1 hc with hc | hc
    · exact hascii c hc
    · obtain ⟨w, -, hc⟩ := List.mem_flatMap.1 hc
      exact Word.toNat_lt_capitalized hc
  rw [snakeCase_ascii hcs, markCapitals_append hne, hmarked, List.map_append, hlower,
    Word.map_toLower_go_flatMap, ← toList_text, String.ofList_toList]

theorem snakeCase_camelCase (n : SnakeName) : snakeCase n.camelCase = n.text :=
  snakeCase_append (List.cons_ne_nil _ _) (fun c hc => (n.first.small c hc).toNat_lt)
    (markCapitals_cons_of_no_capital n.first.rest_no_capital) n.first.map_toLower_letters

theorem snakeCase_pascalCase (n : SnakeName) : snakeCase n.pascalCase = n.text := by
  rw [pascalCase, words, List.flatMap_cons]
  exact snakeCase_append (List.cons_ne_nil _ _) (fun _ => Word.toNat_lt_capitalized)
    (markCapitals_cons_of_no_capital n.first.rest_no_capital) n.first.map_toLower_capitalized

theorem mem_spellings : t ∈ n.spellings ↔ t = n.camelCase ∨ t = n.pascalCase := by
  simp [spellings]

theorem snakeCase_spelling (ht : t ∈ n.spellings) : snakeCase t = n.text := by
  rcases mem_spellings.1 ht with rfl | rfl
  · exact n.snakeCase_camelCase
  · exact n.snakeCase_pascalCase

theorem text_ne_empty (n : SnakeName) : n.text ≠ "" := by
  rw [Ne, ← String.toList_eq_nil_iff, toList_text]
  exact List.cons_ne_nil _ _

theorem spelling_ne_empty (ht : t ∈ n.spellings) : t ≠ "" := by
  rintro rfl
  exact n.text_ne_empty (snakeCase_spelling ht).symm

theorem splitOn_text (n : SnakeName) : n.text.toList.splitOn '_' = n.words.map (·.letters) := by
  rw [text, String.toList_ofList]
  refine List.splitOn_intercalate '_' (List.forall_mem_map.2 fun w _ hmem => ?_) (by simp [words])
  exact absurd (w.small '_' hmem).1 (by decide)

theorem text_injective (h : n.text = n'.text) : n = n' := by
  have hletters : n.words.map (·.letters) = n'.words.map (·.letters) := by
    rw [← splitOn_text, ← splitOn_text, h]
  have hword : ∀ {v w : Word}, v.letters = w.letters → v = w := fun hvw =>
    Word.ext (List.cons.inj hvw).1 (List.cons.inj hvw).2
  have hwords := List.cons.inj ((List.map_inj_right fun _ _ => hword).1 hletters)
  exact SnakeName.ext hwords.1 hwords.2

/-- No two names share a spelling. -/
theorem eq_of_mem_spellings (ht : t ∈ n.spellings) (ht' : t ∈ n'.spellings) : n = n' :=
  text_injective ((snakeCase_spelling ht).symm.trans (snakeCase_spelling ht'))

end SnakeName

namespace Schema
variable {s : Schema} {m target : Model} {r : Relation} {n : SnakeName} {t : String}

theorem handle?_of_mem (hm : m ∈ s.models) (hr : r ∈ m.relations)
    (htarget : s.model? r.target = some target) : s.handle? m r.name = some ⟨r, m, target⟩ :=
  handle?_eq_some.2 ⟨relation?_of_mem hm hr, htarget, rfl⟩

theorem resolve?_spelling (ht : t ∈ n.spellings) :
    s.resolve? m t = (s.handle? m t).or (s.handle? m n.text) := by
  rw [resolve?, if_neg (SnakeName.spelling_ne_empty ht), SnakeName.snakeCase_spelling ht]

theorem resolve?_of_spelling (hm : m ∈ s.models) (hr : r ∈ m.relations)
    (htarget : s.model? r.target = some target) (hname : r.name = n.text)
    (ht : t ∈ n.spellings) (hfree : ∀ r' ∈ m.relations, r'.name = t → r' = r) :
    s.resolve? m t = some ⟨r, m, target⟩ := by
  have hdeclared := handle?_of_mem hm hr htarget
  rw [resolve?_spelling ht, ← hname, hdeclared]
  cases hfound : s.handle? m t with
  | none => rfl
  | some h =>
    -- A name in one word is a spelling of itself.
    have hrelation : h.relation = r :=
      hfree h.relation (List.mem_of_find?_eq_some (handle?_eq_some.1 hfound).1)
        (relation_name_of_handle? hfound)
    rw [← relation_name_of_handle? hfound, hrelation, hdeclared] at hfound
    rw [Option.some_or, hfound]

/-- A spelling is led back to its name, a name that has been led back stays as it is, and a relation
is found by each spelling of its name that is not the name of another relation. -/
theorem spellings_resolve :
    (∀ n : SnakeName, ∀ t ∈ n.spellings, snakeCase t = n.text) ∧
    (∀ t : String, (∀ c ∈ t.toList, c.toNat < 0x80) → snakeCase (snakeCase t) = snakeCase t) ∧
    ∀ s : Schema, ∀ m ∈ s.models, ∀ r ∈ m.relations, ∀ target, s.model? r.target = some target →
      ∀ n : SnakeName, r.name = n.text → ∀ t ∈ n.spellings,
        (∀ r' ∈ m.relations, r'.name = t → r' = r) → s.resolve? m t = some ⟨r, m, target⟩ := by
  refine ⟨fun n t ht => SnakeName.snakeCase_spelling ht, fun t ht => snakeCase_idempotent ht, ?_⟩
  intro s m hm r hr target htarget n hname t ht hfree
  exact resolve?_of_spelling hm hr htarget hname ht hfree

end Schema

namespace Library

def eventSlotsName : SnakeName where
  first := ⟨'e', ['v', 'e', 'n', 't'], by simp [IsSmall]⟩
  others := [⟨'s', ['l', 'o', 't', 's'], by simp [IsSmall]⟩]

theorem spellings_resolve_event_slots :
    eventSlotsName.text = "event_slots" ∧
    eventSlotsName.spellings = ["eventSlots", "EventSlots"] ∧
    snakeCase "EventSlots" = "event_slots" ∧
    snakeCase (snakeCase "Event Slots_X") = snakeCase "Event Slots_X" ∧
    ∃ r ∈ venue.relations, r.name = "event_slots" ∧
      schema.resolve? venue "EventSlots" = some ⟨r, venue, eventSlot⟩ := by
  obtain ⟨hback, hstays, hfound⟩ := Schema.spellings_resolve
  have htext : eventSlotsName.text = "event_slots" := by decide
  have hspelling : "EventSlots" ∈ eventSlotsName.spellings := by decide
  refine ⟨htext, by decide, (hback eventSlotsName _ hspelling).trans htext, hstays _ (by simp),
    ⟨"event_slots", "EventSlot", .many "venue_id" "id" true⟩, by decide, rfl, ?_⟩
  exact hfound schema venue (by decide) _ (by decide) eventSlot (by decide) eventSlotsName
    htext.symm "EventSlots" hspelling (by decide)

end Library

end Records
