import InertText.Bench.Options
import InertText.Proofs.Context.Names
import InertText.Proofs.Number.Overflow
import InertText.Proofs.Text.Written

/-!
# The setting that an argument makes

An argument makes a setting if it begins with the opening of an option and goes on with a
value that the option allows. What is allowed differs from option to option: the name of a
layout or of a selection has to be known, and an unknown context is only left out of a list.
-/
namespace InertText

/-- The two ways to take a text apart at a unit agree. -/
lemma Text.splitOn_eq (u : CodeUnit) (t : Text) : splitOn u t = List.splitOn u t := by
  induction t with
  | nil => rfl
  | cons v t ih =>
    have hcons : List.splitOn u (v :: t) = if v == u then [] :: List.splitOn u t
        else (List.splitOn u t).modifyHead (v :: ·) := List.splitOnP_cons_eq_if_modifyHead v t
    obtain ⟨part, parts, hparts⟩ := List.exists_cons_of_ne_nil (splitOn_ne_nil u t)
    rw [splitOn, hcons, ← ih, hparts]
    simp only [beq_iff_eq, List.headD_cons, List.tail_cons, List.modifyHead_cons]

namespace Bench

/-- The options that a command line can set. -/
inductive Kind where
  | iterations
  | warmup
  | format
  | mode
  | contexts
  deriving DecidableEq

/-- What an argument for the option begins with. -/
def Kind.opening : Kind → Text
  | .iterations => units "--iterations="
  | .warmup => units "--warmup="
  | .format => units "--format="
  | .mode => units "--mode="
  | .contexts => units "--contexts="

/-- The value is a number in decimal digits that does not overflow. -/
def IsCount (value : Text) (n : ℕ) : Prop :=
  value ≠ [] ∧ (∀ u ∈ value, u.isDigit = true) ∧ Text.number value = n ∧
    Number.ofDecimal false n 0 ≠ .infinite false

/-- The contexts are those that the parts name, in the same order. A part that names none
stands for none. -/
inductive Named : List Text → List Context → Prop where
  | nil : Named [] []
  | context {parts : List Text} {cs : List Context} (c : Context) (h : Named parts cs) :
    Named (units c.name :: parts) (c :: cs)
  | unknown {part : Text} {parts : List Text} {cs : List Context}
    (hpart : ¬ Context.IsBuiltin part) (h : Named parts cs) : Named (part :: parts) cs

/-- The value stands on one line and lists the contexts, or is the word for all of them. -/
def IsContextList (value : Text) (cs : List Context) : Prop :=
  value ≠ [] ∧ (∀ u ∈ value, u ≠ 0x0a ∧ u ≠ 0x0d ∧ u ≠ 0x2028 ∧ u ≠ 0x2029) ∧
    if value = units "all" then cs = Context.all else Named (List.splitOn (unit ',') value) cs

/-- The value is allowed for the option and makes the setting. -/
inductive Kind.Allows : Kind → Text → Setting → Prop where
  | iterations {value : Text} {n : ℕ} (h : IsCount value n) :
    Allows .iterations value (.iterations n)
  | warmup {value : Text} {n : ℕ} (h : IsCount value n) : Allows .warmup value (.warmup n)
  | format (f : Format) : Allows .format (units f.name) (.format f)
  | mode (s : Selection) : Allows .mode (units s.name) (.selection s)
  | contexts {value : Text} {cs : List Context} (h : IsContextList value cs) :
    Allows .contexts value (.contexts cs)

/-- The option that a setting is for. -/
def Setting.kind : Setting → Kind
  | .iterations _ => .iterations
  | .warmup _ => .warmup
  | .format _ => .format
  | .selection _ => .mode
  | .contexts _ => .contexts

/-- The argument is one for the option and makes the setting. -/
def Kind.Makes (kind : Kind) (argument : Text) (s : Setting) : Prop :=
  ∃ value, argument = kind.opening ++ value ∧ kind.Allows value s

variable {value argument : Text} {n : ℕ} {f : Format} {sel : Selection} {cs : List Context}
  {parts : List Text} {s : Setting} {kind : Kind}

lemma Format.ofName?_eq_some_iff {t : Text} : ofName? t = some f ↔ units f.name = t :=
  find?_name_eq_some_iff fun f => by cases f <;> decide

lemma Selection.ofName?_eq_some_iff {t : Text} : ofName? t = some sel ↔ units sel.name = t :=
  find?_name_eq_some_iff fun sel => by
    cases sel with
    | both => decide
    | only mode => cases mode <;> decide

lemma filterMap_ofName?_eq_iff : parts.filterMap Context.ofName? = cs ↔ Named parts cs := by
  constructor
  · rintro rfl
    induction parts with
    | nil => exact .nil
    | cons part parts ih =>
      cases hname : Context.ofName? part with
      | none =>
        rw [List.filterMap_cons_none hname]
        exact .unknown (Context.ofName?_eq_none_iff.mp hname) ih
      | some c =>
        rw [List.filterMap_cons_some hname, ← Context.ofName?_eq_some_iff.mp hname]
        exact .context c ih
  · intro h
    induction h with
    | nil => rfl
    | context c _ ih => rw [List.filterMap_cons_some (Context.ofName?_name c), ih]
    | unknown hpart _ ih =>
      rw [List.filterMap_cons_none (Context.ofName?_eq_none_iff.mpr hpart), ih]

namespace Setting

lemma count?_eq_some_iff : count? value = some n ↔ IsCount value n := by
  have hfinite : Number.ofDecimal false n 0 ≠ .infinite false ↔ n < Number.leastInfinite :=
    Number.ofDecimal_eq_infinite_iff.not.trans Nat.not_le
  rw [count?, Option.filter_eq_some_iff, Text.toNat?_eq_some_iff, IsCount, decide_eq_true_eq,
    hfinite, and_assoc, and_assoc]

lemma contextList?_eq_some_iff : contextList? value = some cs ↔ IsContextList value cs := by
  have hline : value.any isLineEnd = false ↔
      ∀ u ∈ value, u ≠ 0x0a ∧ u ≠ 0x0d ∧ u ≠ 0x2028 ∧ u ≠ 0x2029 := by
    simp [isLineEnd, and_assoc]
  have hempty : value.isEmpty = false ↔ value ≠ [] := List.isEmpty_eq_false_iff
  rw [IsContextList, ← hempty, ← hline, ← filterMap_ofName?_eq_iff, ← Text.splitOn_eq,
    contextList?]
  cases value.isEmpty <;> cases value.any isLineEnd <;> simp
  split_ifs <;> simp [eq_comm]

end Setting

lemma Kind.Makes.kind_eq (h : kind.Makes argument s) : s.kind = kind := by
  obtain ⟨value, -, hallows⟩ := h
  cases hallows <;> rfl

/-- The setting that a value makes for an option. -/
def Kind.read : Kind → Text → Option Setting
  | .iterations, value => (Setting.count? value).map .iterations
  | .warmup, value => (Setting.count? value).map .warmup
  | .format, value => (Format.ofName? value).map .format
  | .mode, value => (Selection.ofName? value).map .selection
  | .contexts, value => (Setting.contextList? value).map .contexts

lemma Kind.read_eq_some_iff : kind.read value = some s ↔ kind.Allows value s := by
  constructor
  · intro h
    cases kind with
    | iterations =>
      obtain ⟨n, hn, rfl⟩ := Option.map_eq_some_iff.mp h
      exact .iterations (Setting.count?_eq_some_iff.mp hn)
    | warmup =>
      obtain ⟨n, hn, rfl⟩ := Option.map_eq_some_iff.mp h
      exact .warmup (Setting.count?_eq_some_iff.mp hn)
    | format =>
      obtain ⟨f, hf, rfl⟩ := Option.map_eq_some_iff.mp h
      rw [← Format.ofName?_eq_some_iff.mp hf]
      exact .format f
    | mode =>
      obtain ⟨sel, hsel, rfl⟩ := Option.map_eq_some_iff.mp h
      rw [← Selection.ofName?_eq_some_iff.mp hsel]
      exact .mode sel
    | contexts =>
      obtain ⟨cs, hcs, rfl⟩ := Option.map_eq_some_iff.mp h
      exact .contexts (Setting.contextList?_eq_some_iff.mp hcs)
  · intro h
    cases h with
    | iterations h => rw [read, Setting.count?_eq_some_iff.mpr h, Option.map_some]
    | warmup h => rw [read, Setting.count?_eq_some_iff.mpr h, Option.map_some]
    | format f => rw [read, Format.ofName?_eq_some_iff.mpr rfl, Option.map_some]
    | mode sel => rw [read, Selection.ofName?_eq_some_iff.mpr rfl, Option.map_some]
    | contexts h => rw [read, Setting.contextList?_eq_some_iff.mpr h, Option.map_some]

/-- The setting that an argument makes for an option, if it is one for the option. -/
def Kind.setting? (kind : Kind) (argument : Text) : Option Setting :=
  (Text.dropPrefix? kind.opening argument).bind kind.read

lemma Kind.setting?_eq_some_iff : kind.setting? argument = some s ↔ kind.Makes argument s := by
  simp only [setting?, Option.bind_eq_some_iff, Text.dropPrefix?_eq_some_iff, read_eq_some_iff,
    Makes]

/-- The openings exclude each other. -/
lemma Kind.dropPrefix?_opening (kind kind' : Kind) (value : Text) :
    Text.dropPrefix? kind'.opening (kind.opening ++ value) =
      if kind' = kind then some value else none := by
  cases kind <;> cases kind' <;> rfl

lemma Kind.setting?_eq_none {kind' : Kind} (h : kind.Makes argument s) (hne : kind' ≠ kind) :
    kind'.setting? argument = none := by
  obtain ⟨value, rfl, -⟩ := h
  rw [setting?, dropPrefix?_opening, if_neg hne, Option.bind_none]

namespace Setting

/-- The options are tried one after the other. -/
lemma ofArgument?_eq (argument : Text) : ofArgument? argument =
    (Kind.iterations.setting? argument).or ((Kind.warmup.setting? argument).or
      ((Kind.format.setting? argument).or ((Kind.mode.setting? argument).or
        (Kind.contexts.setting? argument)))) := by
  simp only [ofArgument?, Option.map_bind, Option.orElse_eq_or, Option.orElse_eq_orElse]
  rfl

/-- An argument makes a setting if it makes one for some option. -/
theorem ofArgument?_eq_some_iff :
    ofArgument? argument = some s ↔ ∃ kind : Kind, kind.Makes argument s := by
  simp only [← Kind.setting?_eq_some_iff]
  constructor
  · intro h
    simp only [ofArgument?_eq, Option.or_eq_some_iff] at h
    obtain h | ⟨-, h | ⟨-, h | ⟨-, h | ⟨-, h⟩⟩⟩⟩ := h <;> exact ⟨_, h⟩
  · rintro ⟨kind, h⟩
    have hnone {kind' : Kind} (hne : kind' ≠ kind) : kind'.setting? argument = none :=
      Kind.setting?_eq_none (Kind.setting?_eq_some_iff.mp h) hne
    rw [ofArgument?_eq]
    cases kind <;> simp [h, hnone]

end Setting

end Bench

end InertText
