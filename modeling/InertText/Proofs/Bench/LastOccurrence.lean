import InertText.Proofs.Bench.Settings
import Mathlib.Data.List.Induction

/-!
# The last occurrence counts

Each option has the value that the last argument gives to it, among those arguments for it
that are allowed, and its default if there is none. So arguments without a meaning may stand
anywhere, and only the order among arguments for one option matters.
-/
namespace InertText.Bench

/-- The value of the last argument that has one, or the default if no argument has one. -/
inductive LastValue {α : Type} (Gives : Text → α → Prop) (arguments : List Text) (default : α) :
    α → Prop where
  | last {before since : List Text} {argument : Text} {x : α}
    (h : arguments = before ++ argument :: since) (hgives : Gives argument x)
    (hsince : ∀ a ∈ since, ∀ y, ¬ Gives a y) : LastValue Gives arguments default x
  | default (h : ∀ a ∈ arguments, ∀ y, ¬ Gives a y) : LastValue Gives arguments default default

/-- The argument is one for the option that is allowed. -/
def Kind.Accepts (kind : Kind) (argument : Text) : Prop := ∃ s, kind.Makes argument s

instance (kind : Kind) (argument : Text) : Decidable (kind.Accepts argument) :=
  decidable_of_iff ((kind.setting? argument).isSome = true) (by
    simp only [Option.isSome_iff_exists, Kind.setting?_eq_some_iff, Kind.Accepts])

/-- The options are set by the arguments. Counts are brought into their bounds. -/
structure Options.SetBy (o : Options) (arguments : List Text) : Prop where
  iterations : ∃ n,
    LastValue (fun a n => Kind.iterations.Makes a (.iterations n)) arguments 20000 n ∧
      o.iterations = max 1 (min n 2000000)
  warmup : ∃ n, LastValue (fun a n => Kind.warmup.Makes a (.warmup n)) arguments 2000 n ∧
    o.warmup = max 0 (min n 200000)
  format : LastValue (fun a f => Kind.format.Makes a (.format f)) arguments .table o.format
  selection : LastValue (fun a sel => Kind.mode.Makes a (.selection sel)) arguments .both
    o.selection
  contexts : LastValue (fun a cs => Kind.contexts.Makes a (.contexts cs)) arguments
    [.htmlContent, .xmlContent, .scriptInHtml, .jsonValue, .uriComponent, .cdataContent]
    o.contexts

section LastValue

variable {α : Type} {Gives : Text → α → Prop} {read : Text → Option α} {arguments : List Text}
  {a : Text} {d x : α}

lemma lastValue_nil_iff : LastValue Gives [] d x ↔ d = x := by
  constructor
  · intro h
    cases h with
    | last h _ _ => simp at h
    | default _ => rfl
  · rintro rfl
    exact .default (by simp)

/-- An argument more decides alone if it gives a value, and otherwise not at all. -/
lemma lastValue_concat_iff : LastValue Gives (arguments ++ [a]) d x ↔
    Gives a x ∨ (∀ y, ¬ Gives a y) ∧ LastValue Gives arguments d x := by
  constructor
  · intro h
    cases h with
    | @last before since argument _ h hgives hsince =>
      rcases List.eq_nil_or_concat' since with rfl | ⟨since, b, rfl⟩
      · obtain ⟨rfl, hsingle⟩ := List.append_inj' h rfl
        rw [List.singleton_inj.mp hsingle]
        exact .inl hgives
      · rw [← List.cons_append, ← List.append_assoc] at h
        obtain ⟨rfl, hsingle⟩ := List.append_inj' h rfl
        rw [List.singleton_inj.mp hsingle]
        refine .inr ⟨hsince b (by simp), .last rfl hgives fun c hc => hsince c ?_⟩
        exact List.mem_append_left _ hc
    | default h =>
      exact .inr ⟨h a (by simp), .default fun b hb => h b (List.mem_append_left _ hb)⟩
  · rintro (hgives | ⟨hnone, h⟩)
    · exact .last rfl hgives (by simp)
    · cases h with
      | @last before since argument _ h hgives hsince =>
        have hsplit : arguments ++ [a] = before ++ argument :: (since ++ [a]) := by
          rw [h, List.append_assoc, List.cons_append]
        refine .last hsplit hgives (List.forall_mem_append.mpr ⟨hsince, ?_⟩)
        exact List.forall_mem_singleton.mpr hnone
      | default h =>
        refine .default (List.forall_mem_append.mpr ⟨h, ?_⟩)
        exact List.forall_mem_singleton.mpr hnone

lemma lastValue_iff (hread : ∀ a x, read a = some x ↔ Gives a x) :
    LastValue Gives arguments d x ↔ (arguments.filterMap read).getLast?.getD d = x := by
  induction arguments using List.reverseRecOn with
  | nil => exact lastValue_nil_iff
  | append_singleton arguments a ih =>
    rw [lastValue_concat_iff, ih, List.filterMap_append]
    simp only [← hread]
    cases h : read a with
    | none => simp [h]
    | some y => simp [h]

end LastValue

/-- A field of the options, with the settings that decide it. -/
structure Field (α β : Type) where
  kind : Kind
  value : Options → β
  make : α → Setting
  pick : Setting → Option α
  initial : α
  bound : α → β
  kind_make : ∀ x, (make x).kind = kind := by intro x; rfl
  pick_eq_some_iff : ∀ s x, pick s = some x ↔ s = make x := by intro s x; cases s <;> simp
  value_set : ∀ o s, value (o.set s) = ((pick s).map bound).getD (value o) := by
    intro o s; cases s <;> rfl
  value_default : value .default = bound initial := by rfl

namespace Field

variable {α β : Type} (F : Field α β) {a : Text} {x : α} {y : β} {arguments arguments' : List Text}

/-- What an argument gives to the field. -/
def read (a : Text) : Option α := (Setting.ofArgument? a).bind F.pick

lemma read_eq_some_iff : F.read a = some x ↔ F.kind.Makes a (F.make x) := by
  simp only [read, Option.bind_eq_some_iff, F.pick_eq_some_iff, Setting.ofArgument?_eq_some_iff,
    exists_eq_right]
  exact ⟨fun ⟨_, h⟩ => by rwa [← F.kind_make x, h.kind_eq], fun h => ⟨_, h⟩⟩

/-- After some settings the field has the value of the last one for it. -/
lemma value_foldl_set (settings : List Setting) (o : Options) :
    F.value (settings.foldl Options.set o) =
      ((settings.filterMap F.pick).getLast?.map F.bound).getD (F.value o) := by
  induction settings using List.reverseRecOn with
  | nil => rfl
  | append_singleton settings s ih =>
    rw [List.foldl_append, List.foldl_cons, List.foldl_nil, F.value_set, ih, List.filterMap_append]
    cases h : F.pick s <;> simp [h]

lemma value_ofArguments (arguments : List Text) : F.value (Options.ofArguments arguments) =
    F.bound ((arguments.filterMap F.read).getLast?.getD F.initial) := by
  rw [Options.ofArguments, value_foldl_set, List.filterMap_filterMap, F.value_default,
    Option.getD_map]
  rfl

lemma value_eq_iff : F.value (Options.ofArguments arguments) = y ↔
    ∃ x, LastValue (fun a x => F.kind.Makes a (F.make x)) arguments F.initial x ∧
      y = F.bound x := by
  simp only [lastValue_iff fun a x => F.read_eq_some_iff, exists_eq_left', F.value_ofArguments]
  exact eq_comm

/-- A field without bounds has the value itself. -/
lemma value_eq_iff_of_bound (F : Field α α) (hbound : ∀ x, F.bound x = x) {y : α} :
    F.value (Options.ofArguments arguments) = y ↔
      LastValue (fun a x => F.kind.Makes a (F.make x)) arguments F.initial y := by
  simp only [value_eq_iff, hbound, exists_eq_right']

/-- Only the allowed arguments for its option decide a field. -/
lemma filterMap_read_filter (arguments : List Text) :
    (arguments.filter (F.kind.Accepts ·)).filterMap F.read = arguments.filterMap F.read := by
  rw [List.filterMap_filter]
  refine List.filterMap_congr fun a _ => ?_
  cases h : F.read a with
  | none => exact ite_self _
  | some x =>
    have haccepts : F.kind.Accepts a := ⟨_, F.read_eq_some_iff.mp h⟩
    exact if_pos (decide_eq_true haccepts)

lemma value_congr
    (h : arguments'.filter (F.kind.Accepts ·) = arguments.filter (F.kind.Accepts ·)) :
    F.value (Options.ofArguments arguments') = F.value (Options.ofArguments arguments) := by
  rw [value_ofArguments, value_ofArguments, ← F.filterMap_read_filter arguments', h,
    F.filterMap_read_filter]

def iterations : Field ℕ ℕ where
  kind := .iterations
  value := Options.iterations
  make := .iterations
  pick
    | .iterations n => some n
    | _ => none
  initial := 20000
  bound n := max 1 (min n 2000000)

def warmup : Field ℕ ℕ where
  kind := .warmup
  value := Options.warmup
  make := .warmup
  pick
    | .warmup n => some n
    | _ => none
  initial := 2000
  bound n := max 0 (min n 200000)
  value_set o s := by cases s <;> simp [Options.set, Options.maxWarmup]

def format : Field Format Format where
  kind := .format
  value := Options.format
  make := .format
  pick
    | .format f => some f
    | _ => none
  initial := .table
  bound f := f

def selection : Field Selection Selection where
  kind := .mode
  value := Options.selection
  make := .selection
  pick
    | .selection sel => some sel
    | _ => none
  initial := .both
  bound sel := sel

def contexts : Field (List Context) (List Context) where
  kind := .contexts
  value := Options.contexts
  make := .contexts
  pick
    | .contexts cs => some cs
    | _ => none
  initial :=
    [.htmlContent, .xmlContent, .scriptInHtml, .jsonValue, .uriComponent, .cdataContent]
  bound cs := cs

end Field

namespace Options

variable {o o' : Options} {arguments arguments' : List Text}

lemma eq_of_values (hiterations : o.iterations = o'.iterations) (hwarmup : o.warmup = o'.warmup)
    (hformat : o.format = o'.format) (hselection : o.selection = o'.selection)
    (hcontexts : o.contexts = o'.contexts) : o = o' := by
  obtain ⟨_, _, _, _, _⟩ := o
  obtain ⟨_, _, _, _, _⟩ := o'
  simp_all

lemma ofArguments_eq_iff : ofArguments arguments = o ↔ o.SetBy arguments := by
  constructor
  · rintro rfl
    exact {
      iterations := Field.iterations.value_eq_iff.mp rfl
      warmup := Field.warmup.value_eq_iff.mp rfl
      format := (Field.format.value_eq_iff_of_bound fun _ => rfl).mp rfl
      selection := (Field.selection.value_eq_iff_of_bound fun _ => rfl).mp rfl
      contexts := (Field.contexts.value_eq_iff_of_bound fun _ => rfl).mp rfl }
  · intro h
    exact eq_of_values (Field.iterations.value_eq_iff.mpr h.iterations)
      (Field.warmup.value_eq_iff.mpr h.warmup)
      ((Field.format.value_eq_iff_of_bound fun _ => rfl).mpr h.format)
      ((Field.selection.value_eq_iff_of_bound fun _ => rfl).mpr h.selection)
      ((Field.contexts.value_eq_iff_of_bound fun _ => rfl).mpr h.contexts)

lemma ofArguments_congr (h : ∀ kind : Kind,
    arguments'.filter (kind.Accepts ·) = arguments.filter (kind.Accepts ·)) :
    ofArguments arguments' = ofArguments arguments :=
  eq_of_values (Field.iterations.value_congr (h _)) (Field.warmup.value_congr (h _))
    (Field.format.value_congr (h _)) (Field.selection.value_congr (h _))
    (Field.contexts.value_congr (h _))

/-- Of the allowed arguments for an option only the last one counts. So arguments that are
allowed for none may be put in anywhere, and arguments for different options may change
places. -/
theorem ofArguments_last_counts (arguments : List Text) :
    (∀ o, ofArguments arguments = o ↔ o.SetBy arguments) ∧
      (∀ before others since, arguments = before ++ since →
        (∀ a ∈ others, ∀ kind : Kind, ¬ kind.Accepts a) →
          ofArguments (before ++ others ++ since) = ofArguments arguments) ∧
      ∀ arguments', (∀ kind : Kind,
        arguments'.filter (kind.Accepts ·) = arguments.filter (kind.Accepts ·)) →
          ofArguments arguments' = ofArguments arguments := by
  refine ⟨fun o => ofArguments_eq_iff, ?_, fun arguments' => ofArguments_congr⟩
  rintro before others since rfl hothers
  refine ofArguments_congr fun kind => ?_
  have hnone : others.filter (kind.Accepts ·) = [] :=
    List.filter_eq_nil_iff.mpr fun a ha haccepts =>
      hothers a ha kind (of_decide_eq_true haccepts)
  rw [List.filter_append, List.filter_append, hnone, List.append_nil, List.filter_append]

/-- An unknown layout and a number without digits are allowed for no option, and the mode may
come before the two numbers of runs, which keep their order. -/
theorem ofArguments_last_counts_mixed :
    (∀ kind : Kind, ¬ kind.Accepts (units "--format=xml")) ∧
      (∀ kind : Kind, ¬ kind.Accepts (units "--warmup=")) ∧
      ofArguments [units "--iterations=7", units "--format=xml", units "--warmup=",
        units "--iterations=0", units "--mode=filter"] =
          ofArguments [units "--iterations=7", units "--iterations=0", units "--mode=filter"] ∧
      (∀ kind : Kind, [units "--mode=filter", units "--iterations=7",
          units "--iterations=0"].filter (kind.Accepts ·) =
        [units "--iterations=7", units "--iterations=0",
          units "--mode=filter"].filter (kind.Accepts ·)) ∧
      ofArguments [units "--mode=filter", units "--iterations=7", units "--iterations=0"] =
        ofArguments [units "--iterations=7", units "--iterations=0", units "--mode=filter"] := by
  have hformat : ∀ kind : Kind, ¬ kind.Accepts (units "--format=xml") := by
    intro kind
    cases kind <;> decide
  have hwarmup : ∀ kind : Kind, ¬ kind.Accepts (units "--warmup=") := by
    intro kind
    cases kind <;> decide
  have hmoved : ∀ kind : Kind, [units "--mode=filter", units "--iterations=7",
        units "--iterations=0"].filter (kind.Accepts ·) =
      [units "--iterations=7", units "--iterations=0",
        units "--mode=filter"].filter (kind.Accepts ·) := by
    intro kind
    cases kind <;> decide +kernel
  obtain ⟨-, hinsert, hmove⟩ := ofArguments_last_counts
    [units "--iterations=7", units "--iterations=0", units "--mode=filter"]
  refine ⟨hformat, hwarmup, ?_, hmoved, hmove _ hmoved⟩
  refine hinsert [units "--iterations=7"] [units "--format=xml", units "--warmup="] _ rfl ?_
  exact List.forall_mem_cons.mpr ⟨hformat, List.forall_mem_singleton.mpr hwarmup⟩

/-- An unknown context does not keep a list from counting, as an unknown layout would. -/
example : (ofArguments [units "--contexts=all", units "--contexts=Html"]).contexts = [] := by
  decide

end Options

end InertText.Bench
