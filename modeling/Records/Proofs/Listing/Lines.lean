import Records.Library.Resources
import Records.Proofs.Listing.Logged
import Records.Proofs.Log.Lines

/-!
What a developer sees of the log of a listing. An entry is on one line unless a text in its data
breaks it; such a text is a name that the filter or the sort asks for, or a parameter or a value of
the filter as it was cut.
-/
namespace Records

open Records.Calendar (Moment)

/-- Whether a developer sees every entry that a computation makes on one line. -/
def Reported.Lines {ε α : Type} (time : Moment) (x : Reported ε α) : Prop :=
  ∀ e ∈ x.log, IsLine (e.record time).development

/-- Whether what an entry consists of is on one line, texts in its data aside. -/
def LogEntry.Formed (e : LogEntry) : Prop :=
  IsLine e.message ∧ ∀ d ∈ e.data, IsLine d.1 ∧ d.2.Says fun _ => True

section Formed
variable {time : Moment}

/-- A text is displayed as it is and a number on one line. -/
theorem Value.isLine_display_iff {v : Value} (h : v.Says fun _ => True) :
    IsLine v.display ↔ v.Says IsLine := by
  cases v with
  | text t => exact Iff.rfl
  | int n => exact iff_of_true (isLine_int n) trivial
  | _ => exact h.elim

theorem LogEntry.Formed.isLine_iff {e : LogEntry} (h : e.Formed) :
    IsLine (e.record time).development ↔ e.Says IsLine := by
  have hlogger : IsLine e.reporter.logger := by cases e.reporter <;> decide
  rw [LogRecord.isLine_development rfl]
  constructor
  · rintro ⟨-, -, hdata⟩ d hd
    exact (Value.isLine_display_iff (h.2 d hd).2).1 (hdata d hd).2
  · intro hsaid
    refine ⟨hlogger, h.1, fun d hd => ⟨(h.2 d hd).1, ?_⟩⟩
    exact (Value.isLine_display_iff (h.2 d hd).2).2 (hsaid d hd)

theorem Reported.lines_iff_says_of_formed {ε α : Type} {x : Reported ε α}
    (h : x.Logs LogEntry.Formed) : x.Lines time ↔ x.Says IsLine :=
  forall₂_congr fun e he => (h e he).isLine_iff

theorem LogEntry.formed_pair {level : Level} {reporter : Reporter} {message a b : String}
    {v w : Value} (hmessage : IsLine message) (ha : IsLine a) (hb : IsLine b)
    (hv : v.Says fun _ => True) (hw : w.Says fun _ => True) :
    (⟨level, reporter, message, [(a, v), (b, w)]⟩ : LogEntry).Formed :=
  ⟨hmessage, List.forall_mem_cons.2 ⟨⟨ha, hv⟩, List.forall_mem_singleton.2 ⟨hb, hw⟩⟩⟩

theorem LogEntry.formed_singleton {level : Level} {reporter : Reporter} {message a : String}
    {v : Value} (hmessage : IsLine message) (ha : IsLine a) (hv : v.Says fun _ => True) :
    (⟨level, reporter, message, [(a, v)]⟩ : LogEntry).Formed :=
  ⟨hmessage, List.forall_mem_singleton.2 ⟨ha, hv⟩⟩

theorem Value.Says.mono {P Q : String → Prop} {v : Value} (h : v.Says P) (hPQ : ∀ t, P t → Q t) :
    v.Says Q := by
  cases v with
  | text t => exact hPQ t h
  | int n => trivial
  | _ => exact h.elim

end Formed

section Cut
variable {t : String}

/-- A text that is cut is on one line exactly if what is kept of it is. -/
theorem isLine_truncatedText :
    IsLine (truncatedText maxLoggedLength t) ↔ '\n' ∉ t.toList.take maxLoggedLength := by
  unfold truncatedText
  split
  · rename_i hshort
    rw [List.take_of_length_le (by rw [String.length_toList]; exact_mod_cast hshort)]
    exact Iff.rfl
  · have hdots : IsLine "..." := by decide
    rw [isLine_append, and_iff_left hdots, isLine_ofList]
    exact Iff.rfl

theorem IsLine.truncatedText (h : IsLine t) : IsLine (truncatedText maxLoggedLength t) :=
  isLine_truncatedText.2 fun hmem => h (List.mem_of_mem_take hmem)

/-- Only a text can break the line that tells it cut. -/
theorem Value.says_truncated_of_text {v : Value} (h : ∀ t, v = .text t → IsLine t) :
    v.truncated.Says IsLine := by
  cases v with
  | text t => exact (h t rfl).truncatedText
  | _ => exact (isLine_literal _).truncatedText

end Cut

namespace Filter

mutual

/-- The texts in a filter: the keys of its objects and its values, at any depth. -/
def texts : Value → List String
  | .text t => [t]
  | .list xs => itemTexts xs
  | .tuple xs => itemTexts xs
  | .object es => entryTexts es
  | _ => []

def itemTexts : List Value → List String
  | [] => []
  | x :: xs => texts x ++ itemTexts xs

def entryTexts : List (String × Value) → List String
  | [] => []
  | (key, x) :: es => key :: (texts x ++ entryTexts es)

end

mutual

theorem covers_of_texts (v : Value) (hv : ∀ t ∈ texts v, IsLine t) :
    Covers IsLine (·.truncated.Says IsLine) v := by
  have hother (h : ∀ t, v ≠ .text t) : v.truncated.Says IsLine :=
    Value.says_truncated_of_text fun t ht => absurd ht (h t)
  match v with
  | .list xs | .tuple xs => exact ⟨hother (by simp), itemsCover_of_texts xs hv⟩
  | .object es => exact ⟨hother (by simp), entriesCover_of_texts es hv⟩
  | .text t => exact IsLine.truncatedText (hv t (List.mem_singleton_self t))
  | .null | .bool _ | .int _ | .float _ | .bytes _ | .date _ | .moment _ => exact hother (by simp)
termination_by structural v

theorem itemsCover_of_texts (xs : List Value) (hxs : ∀ t ∈ itemTexts xs, IsLine t) :
    ItemsCover IsLine (·.truncated.Says IsLine) xs := by
  match xs with
  | [] => exact trivial
  | x :: xs =>
    rw [itemTexts, List.forall_mem_append] at hxs
    exact ⟨covers_of_texts x hxs.1, itemsCover_of_texts xs hxs.2⟩
termination_by structural xs

theorem entriesCover_of_texts (es : List (String × Value))
    (hes : ∀ t ∈ entryTexts es, IsLine t) :
    EntriesCover IsLine (·.truncated.Says IsLine) es := by
  match es with
  | [] => exact trivial
  | (key, x) :: es =>
    rw [entryTexts, List.forall_mem_cons, List.forall_mem_append] at hes
    exact ⟨hes.1, covers_of_texts x hes.2.1, entriesCover_of_texts es hes.2.2⟩
termination_by structural es

end

/-- An entry that is found among others is covered as they are. -/
theorem EntriesCover.self_of_lookup {F : String → Prop} {V : Value → Prop} (hnull : V .null)
    {es : List (String × Value)} (h : EntriesCover F V es) (key : String) :
    V ((Value.lookup? key es).getD .null) := by
  induction es with
  | nil => exact hnull
  | cons e es ih =>
    unfold Value.lookup? at ih ⊢
    rw [List.find?_cons]
    split
    · exact h.2.1.self
    · exact ih h.2.2

theorem Reports.formed {s : Schema} {F : String → Prop} {V : Value → Prop} {e : LogEntry}
    (h : Reports s F V e) : e.Formed := by
  have hsaid {v : Value} (hv : v.Says F) : v.Says fun _ => True := hv.mono fun _ _ => trivial
  cases h with
  | column hm hf =>
    exact LogEntry.formed_pair (by decide) (by decide) (by decide) trivial (hsaid hf)
  | relation hm hn =>
    exact LogEntry.formed_pair (by decide) (by decide) (by decide) trivial (hsaid hn)
  | range hf hv =>
    exact LogEntry.formed_pair (by decide) (by decide) (by decide) (hsaid hf) trivial
  | unreadable hm hc hv =>
    refine LogEntry.formed_pair ?_ (by decide) (by decide) trivial trivial
    exact (IsLine.append (by decide) (isLine_ite (by decide) (by decide))).append (by decide)

end Filter

namespace Listing
variable {time : Moment}

theorem Reports.formed {V : Value → Prop} {e : LogEntry} (h : Reports V e) : e.Formed := by
  cases h with
  | notObject hv | malformed hv | sort hv =>
    exact LogEntry.formed_singleton (by decide) (by decide) trivial

/-- Entries that are all about one parameter are on one line if it is, once it is cut. -/
theorem lines_iff_of_logs {ε α : Type} {x : Reported ε α} {t : String}
    (h : x.Logs (Reports (· = .text t))) :
    x.Lines time ↔ x.log = [] ∨ '\n' ∉ t.toList.take maxLoggedLength := by
  have hsaid (e : LogEntry) (he : e ∈ x.log) :
      e.Says IsLine ↔ '\n' ∉ t.toList.take maxLoggedLength := by
    rw [← isLine_truncatedText]
    cases h e he with
    | notObject hv | malformed hv | sort hv =>
      subst hv
      exact List.forall_mem_singleton
  rw [Reported.lines_iff_says_of_formed (h.imp fun _ => Reports.formed)]
  constructor
  · intro hx
    cases hlog : x.log with
    | nil => exact .inl rfl
    | cons e es =>
      have he : e ∈ x.log := hlog ▸ List.mem_cons_self
      exact .inr ((hsaid e he).1 (hx e he))
  · rintro (hnil | ht) e he
    · rw [hnil] at he
      exact nomatch he
    · exact (hsaid e he).2 ht

/-- One entry about a name, which the model beside it does not know. -/
theorem lines_iff_of_log_named {ε α : Type} {x : Reported ε α} {level : Level}
    {reporter : Reporter} {message key name : String} {m : Model}
    (hlog : x.log = [⟨level, reporter, message, [("model", .text m.name), (key, .text name)]⟩])
    (hmessage : IsLine message) (hkey : IsLine key) (hm : IsLine m.name) :
    x.Lines time ↔ IsLine name := by
  have hformed : x.Logs LogEntry.Formed := by
    intro e he
    rw [hlog, List.mem_singleton] at he
    rw [he]
    exact LogEntry.formed_pair hmessage (by decide) hkey trivial trivial
  rw [Reported.lines_iff_says_of_formed hformed]
  constructor
  · intro hx
    have hlast : (key, Value.text name) ∈ [("model", Value.text m.name), (key, .text name)] :=
      List.mem_cons_of_mem _ (List.mem_singleton_self _)
    exact hx _ (hlog ▸ List.mem_singleton_self _) _ hlast
  · intro hname e he
    rw [hlog, List.mem_singleton] at he
    rw [he]
    exact LogEntry.says_pair hm hname

section Whole
variable {s : Schema} {m : Model}

theorem lines_readParams (raw : Value) :
    (readParams raw).Lines time ↔ (readParams raw).Says IsLine := by
  have hlogs : (readParams raw).Logs (Reports fun _ => True) :=
    logs_readParams raw fun _ _ _ => trivial
  exact Reported.lines_iff_says_of_formed (hlogs.imp fun _ => Reports.formed)

theorem lines_compileAll (hm : m ∈ s.models) (es : List (String × Value)) :
    (Filter.compileAll s m es).Lines time ↔ (Filter.compileAll s m es).Says IsLine := by
  have hcover := Filter.entriesCover_of_names (P := fun _ => True) es fun _ _ => trivial
  exact Reported.lines_iff_says_of_formed
    ((Filter.logs_compileAll hm es hcover).imp fun _ => Filter.Reports.formed)

/-- Where the texts of the parameters and of the filter have no line end, no entry has one. -/
theorem lines_of_texts (hs : s.Names IsLine) (hm : m ∈ s.models) {es : List (String × Value)}
    (hes : ∀ t ∈ Filter.entryTexts es, IsLine t) :
    (readParams (.object es)).Lines time ∧ (Filter.compileAll s m es).Lines time := by
  have hcover := Filter.entriesCover_of_texts es hes
  rw [lines_readParams, lines_compileAll hm]
  constructor
  · have hnull : Value.null.truncated.Says IsLine :=
      Value.says_truncated_of_text fun _ ht => nomatch ht
    refine (logs_readParams (.object es) fun es' key h => ?_).imp fun _ =>
      Reports.says_cut fun _ hv => hv
    cases h
    exact hcover.self_of_lookup hnull key
  · exact (Filter.logs_compileAll hm es hcover).imp fun _ =>
      Filter.Reports.says_names hs fun _ hv => hv

theorem lines_applySort {ε : Type} {q : Query} {sort : SortSpec} (hm : IsLine q.model.name) :
    (applySort q (some sort) : Reported ε _).Lines time ↔
      q.model.hasColumn sort.field ∨ IsLine sort.field := by
  have hlog := log_applySort (ε := ε) q sort
  by_cases hcolumn : q.model.hasColumn sort.field
  · rw [if_pos hcolumn] at hlog
    refine iff_of_true (fun e he => ?_) (.inl hcolumn)
    rw [hlog] at he
    exact nomatch he
  · rw [if_neg hcolumn] at hlog
    rw [lines_iff_of_log_named hlog (by decide) (by decide) hm]
    exact (or_iff_right hcolumn).symm

/-- What a listing logs is seen on one line for each entry, exactly if no text in the data of an
entry has a line end. None has where the texts of the parameters and of the filter have none. But
a name that is no column or relation is shown as it is, and so is the beginning of a parameter that
is ignored: a line end in it ends the line. -/
theorem lines_unless_texts_break (hs : s.Names IsLine) (hm : m ∈ s.models) (time : Moment) :
    (∀ raw, (readParams raw).Lines time ↔ (readParams raw).Says IsLine) ∧
    (∀ es, (Filter.compileAll s m es).Lines time ↔ (Filter.compileAll s m es).Says IsLine) ∧
    (∀ es, (∀ t ∈ Filter.entryTexts es, IsLine t) →
      (readParams (.object es)).Lines time ∧ (Filter.compileAll s m es).Lines time) ∧
    (∀ name v, Filter.Operator.ofKey? name = none → m.column? name = none → v.isPresent →
      ((Filter.compileAll s m [(name, v)]).Lines time ↔ IsLine name)) ∧
    (∀ name inner, s.resolve? m name = none → inner ≠ [] →
      ((Filter.compileAll s m [("relation", .object [(name, .object inner)])]).Lines time ↔
        IsLine name)) ∧
    (∀ (q : Query) (sort : SortSpec), q.model = m →
      ((applySort q (some sort) : Reported ParamsError _).Lines time ↔
        m.hasColumn sort.field ∨ IsLine sort.field)) ∧
    (∀ t, (readFilter (.text t)).Lines time ↔
      (readFilter (.text t)).log = [] ∨ '\n' ∉ t.toList.take maxLoggedLength) ∧
    ∀ t, (readSort (.text t) : Reported ParamsError _).Lines time ↔
      (readSort (.text t) : Reported ParamsError _).log = [] ∨
        '\n' ∉ t.toList.take maxLoggedLength := by
  refine ⟨lines_readParams, lines_compileAll hm, fun es hes => lines_of_texts hs hm hes,
    fun name v hop hc hv => ?_, fun name inner hr hi => ?_, fun q sort hq => ?_, fun t => ?_,
    fun t => ?_⟩
  · have hlog : (Filter.compileAll s m [(name, v)]).log = [Filter.unknownColumn m name] := by
      rw [Filter.log_compileAll_singleton, Filter.log_compile_of_none hop hc hv]
    exact lines_iff_of_log_named hlog (by decide) (by decide) (hs.model m hm)
  · have hlog : (Filter.compileAll s m [("relation", .object [(name, .object inner)])]).log =
        [Filter.unknownRelation m name] := by
      rw [Filter.log_compileAll_singleton, Filter.log_relation_of_none hr hi]
    exact lines_iff_of_log_named hlog (by decide) (by decide) (hs.model m hm)
  · subst hq
    exact lines_applySort (hs.model q.model hm)
  · exact lines_iff_of_logs (logs_readFilter rfl)
  · exact lines_iff_of_logs (logs_readSort rfl)

end Whole

theorem library_names_are_lines : Library.schema.Names IsLine := ⟨by decide, by decide⟩

/-- A name that ends its line and goes on with what another entry would be. -/
def forgedName : String :=
  "nme\n12:00:00 ERROR    resource_service.services.base_service: Transaction failed"

/-- As a column it is seen on two lines; without the line end it would be seen on one. -/
theorem library_breaks_forgedName :
    let time := (Library.visit Library.catalogue).now
    let compiled (name : String) :=
      Filter.compileAll Library.schema Library.author [(name, .text "a")]
    ¬(compiled forgedName).Lines time ∧ (compiled "nme").Lines time := by
  intro time compiled
  have hauthor : Library.author ∈ Library.schema.models := by decide
  have h := lines_unless_texts_break library_names_are_lines hauthor time
  constructor
  · rw [h.2.2.2.1 forgedName (.text "a") (by decide) (by decide) (by decide)]
    decide
  · exact (h.2.2.1 [("nme", .text "a")] (by decide)).2

end Listing

end Records
