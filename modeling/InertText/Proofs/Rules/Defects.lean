import InertText.Proofs.Rules.Extension
import InertText.Proofs.Rules.PropertyOrder
import InertText.Proofs.Rules.Spelling
import Mathlib.Tactic.SplitIfs

/-!
# Defects of proposals

A policy or a threshold may be left open, and what is given has to be the name of a policy
or an integer that is a unit. A fallback has to be given. What is wrong is shown in the
error, and where it cannot be spelled, that is the error. A record of entities has the defect
of the property that offends and is listed before all others that do.
-/
namespace InertText

open Properties (value? listed Precedes pairwise_listed)

section Failing

variable {ε α β : Type} {x : Except ε α} {f : α → Except ε β} {e : ε}

lemma bind_eq_error_iff :
    x >>= f = .error e ↔ x = .error e ∨ ∃ a, x = .ok a ∧ f a = .error e := by
  cases x <;> simp [bind, Except.bind]

lemma exists_ok_iff : (∃ a, x = .ok a) ↔ ∀ e, x ≠ .error e := by
  cases x <;> simp

/-- What fails for a defect succeeds without one. -/
lemma exists_ok_iff_of_error {P : β → Prop} {cause : β → ε}
    (h : ∀ e, x = .error e ↔ ∃ b, P b ∧ e = cause b) : (∃ a, x = .ok a) ↔ ∀ b, ¬ P b := by
  rw [exists_ok_iff]
  constructor
  · exact fun hok b hb => hok _ ((h _).mpr ⟨b, hb, rfl⟩)
  · intro hnone e he
    obtain ⟨b, hb, -⟩ := (h e).mp he
    exact hnone b hb

/-- A list is read up to the first member that fails. -/
lemma mapM_eq_error_iff {f : α → Except ε β} {l : List α} :
    l.mapM f = .error e ↔ ∃ front a back, l = front ++ a :: back ∧
      (∀ x ∈ front, ∃ b, f x = .ok b) ∧ f a = .error e := by
  induction l with
  | nil => simp [pure, Except.pure]
  | cons y l ih =>
    have hrest : ∀ b, (l.mapM f >>= fun bs => pure (b :: bs)) = .error e ↔ l.mapM f = .error e := by
      simp [bind_eq_error_iff, pure, Except.pure]
    rw [List.mapM_cons, bind_eq_error_iff]
    simp only [hrest, ih]
    constructor
    · rintro (hy | ⟨b, hy, front, a, back, rfl, hfront, ha⟩)
      · exact ⟨[], y, l, rfl, by simp, hy⟩
      · exact ⟨y :: front, a, back, rfl, List.forall_mem_cons.mpr ⟨⟨b, hy⟩, hfront⟩, ha⟩
    · rintro ⟨front, a, back, hl, hfront, ha⟩
      cases front with
      | nil =>
        obtain ⟨rfl, rfl⟩ := List.cons.inj hl
        exact .inl ha
      | cons x front =>
        obtain ⟨rfl, rfl⟩ := List.cons.inj hl
        obtain ⟨⟨b, hy⟩, hfront⟩ := List.forall_mem_cons.mp hfront
        exact .inr ⟨b, hy, front, a, back, rfl, hfront, ha⟩

/-- A search that has to succeed. -/
lemma elim_eq_ok_iff {o : Option α} {a : α} :
    o.elim (.error e) .ok = Except.ok a ↔ o = some a := by
  cases o <;> simp

lemma elim_eq_error_iff {o : Option α} {e' : ε} :
    o.elim (.error e) .ok = (Except.error e' : Except ε α) ↔ (∀ a, o ≠ some a) ∧ e = e' := by
  cases o <;> simp

end Failing

lemma ControlPolicy.ofName?_eq_some_iff {t : Text} {policy : ControlPolicy} :
    ofName? t = some policy ↔ units policy.name = t :=
  find?_name_eq_some_iff fun policy => by cases policy <;> decide

lemma Fallback.ofName?_eq_some_iff {t : Text} {fallback : Fallback} :
    ofName? t = some fallback ↔ units fallback.name = t :=
  find?_name_eq_some_iff fun fallback => by cases fallback <;> decide

/-- The error that comes of showing a value, which cannot be spelled perhaps. -/
inductive Shows (v : Value) (error : Text → RuleError) : RuleError → Prop where
  | spelled {t : Text} (h : v.spelling? = some t) : Shows v error (error t)
  | unspellable (h : v.Unspellable) : Shows v error .unspellable

namespace RuleError

@[simp] lemma showing_text (error : Text → RuleError) (t : Text) :
    showing error (.text t) = error t := by
  rw [showing, Value.spelling?, Option.elim_some]

@[simp] lemma showing_number (error : Text → RuleError) (n : Number) :
    showing error (.number n) = error n.text := by
  rw [showing, Value.spelling?, Option.elim_some]

lemma eq_showing_iff {e : RuleError} {error : Text → RuleError} {v : Value} :
    e = showing error v ↔ Shows v error e := by
  rw [showing]
  constructor
  · rintro rfl
    cases h : v.spelling? with
    | none => exact .unspellable (Value.spelling?_eq_none_iff.mp h)
    | some t => exact .spelled h
  · rintro (h | h)
    · rw [h, Option.elim_some]
    · rw [Value.spelling?_eq_none_iff.mpr h, Option.elim_none]

/-- Only what cannot be spelled keeps an error from being one of arguments. -/
lemma kind_eq_argument_iff {e : RuleError} : e.kind = .argument ↔ e ≠ .unspellable := by
  cases e <;> simp [kind]

end RuleError

/-- The number is the integer, with whatever sign if it is zero. -/
def Number.Is (n : Number) (k : ℕ) : Prop :=
  n = .finite false (k * quantaInOne) ∨ (k = 0 ∧ n = .finite true 0)

/-- The part of a proposal has a value. A part that is missing or null is left open. -/
def Given (part : Option Value) (v : Value) : Prop := part = some v ∧ v ≠ .null

/-- The value is no integer from zero to the greatest unit. -/
def NoUnit (v : Value) : Prop := ∀ n (u : CodeUnit), v = .number n → ¬ n.Is u.toNat

/-- The error of a property that is no entity. The key is looked at before the value. -/
inductive Offence (key : Text) (v : Value) : RuleError → Prop where
  | key (h : key.length ≠ 1) : Offence key v (.keyNotOneUnit key)
  | value (hkey : key.length = 1) (h : ∀ t, v ≠ .text t) : Offence key v (.replacementNotText key)

variable {part : Option Value} {v : Value} {e : RuleError} {policy : ControlPolicy}
  {fallback : Fallback} {threshold : Option CodeUnit} {pairs : List (Text × Value)}

lemma readPolicy_eq_ok_iff : readPolicy part = .ok policy ↔
    (policy = .keep ∧ ∀ v, ¬ Given part v) ∨ Given part (.text (units policy.name)) := by
  match part with
  | none | some .null => simp [readPolicy, Given, eq_comm]
  | some (.text t) =>
    rw [readPolicy, elim_eq_ok_iff, ControlPolicy.ofName?_eq_some_iff]
    simp [Given, eq_comm]
  | some (.boolean _) | some (.number _) | some (.list _) | some (.record _) =>
    simp [readPolicy, Given]

lemma readPolicy_eq_error_iff : readPolicy part = .error e ↔
    ∃ v, (Given part v ∧ ∀ policy : ControlPolicy, v ≠ .text (units policy.name)) ∧
      e = .showing .unknownPolicy v := by
  match part with
  | none | some .null => simp [readPolicy, Given]
  | some (.text t) =>
    rw [readPolicy, elim_eq_error_iff]
    simp only [ne_eq, ControlPolicy.ofName?_eq_some_iff]
    simp [Given, eq_comm]
  | some (.boolean _) | some (.number _) | some (.list _) | some (.record _) =>
    simp [readPolicy, Given, eq_comm]

lemma readFallback_eq_ok_iff :
    readFallback part = .ok fallback ↔ part = some (.text (units fallback.name)) := by
  match part with
  | some (.text t) =>
    rw [readFallback, elim_eq_ok_iff, Fallback.ofName?_eq_some_iff]
    simp [eq_comm]
  | none | some .null | some (.boolean _) | some (.number _) | some (.list _)
  | some (.record _) => simp [readFallback]

lemma readFallback_eq_error_iff : readFallback part = .error e ↔
    (∀ fallback : Fallback, part ≠ some (.text (units fallback.name))) ∧
      e = part.elim (.unknownFallback (units "undefined")) (.showing .unknownFallback) := by
  match part with
  | some (.text t) =>
    rw [readFallback, elim_eq_error_iff]
    simp only [ne_eq, Fallback.ofName?_eq_some_iff]
    simp [eq_comm]
  | none | some .null | some (.boolean _) | some (.number _) | some (.list _)
  | some (.record _) => simp [readFallback, eq_comm]

namespace Number

lemma quantaInOne_pos : 0 < quantaInOne := by
  unfold quantaInOne
  generalize 1074 = k
  exact Nat.two_pow_pos k

/-- A number of quanta is that of an integer if it is a multiple of those in one. -/
lemma toInt?_eq_some_natCast_iff {n : Number} {k : ℕ} : n.toInt? = some (k : ℤ) ↔ n.Is k := by
  have hpos := quantaInOne_pos
  cases n with
  | infinite negative => simp [toInt?, Is]
  | finite negative quanta =>
    rw [toInt?, Is, Option.ite_none_right_eq_some, Number.finite.injEq, Number.finite.injEq,
      Option.some_inj]
    generalize quantaInOne = q at hpos ⊢
    have hdiv : ∀ m, quanta % q = 0 ∧ quanta / q = m ↔ quanta = m * q := by
      intro m
      constructor
      · rintro ⟨hmod, rfl⟩
        exact (Nat.div_mul_cancel (Nat.dvd_of_mod_eq_zero hmod)).symm
      · rintro rfl
        exact ⟨Nat.mul_mod_left m q, Nat.mul_div_cancel m hpos⟩
    cases negative with
    | false =>
      have hvalue : (quanta / q : ℤ) = k ↔ quanta / q = k := by norm_cast
      simp [hvalue, hdiv]
    | true =>
      have hvalue : -(quanta / q : ℤ) = k ↔ k = 0 ∧ quanta / q = 0 := by
        have hcast : (quanta / q : ℤ) = (quanta / q : ℕ) := by norm_cast
        rw [hcast]
        generalize quanta / q = m
        omega
      have hzero := hdiv 0
      rw [Nat.zero_mul] at hzero
      simp only [if_true, hvalue, and_left_comm, hzero, true_and, false_and,
        false_or, Bool.true_eq_false]

lemma Is.unique {n : Number} {k l : ℕ} (h : n.Is k) (h' : n.Is l) : k = l := by
  have hcast := toInt?_eq_some_natCast_iff.mpr h
  rw [toInt?_eq_some_natCast_iff.mpr h', Option.some_inj] at hcast
  exact Int.natCast_inj.mp hcast.symm

end Number

lemma readThreshold_number (n : Number) :
    (∃ u : CodeUnit, readThreshold (some (.number n)) = .ok (some u) ∧ n.Is u.toNat) ∨
      readThreshold (some (.number n)) = .error (.thresholdOutOfRange n.text) ∧
        NoUnit (.number n) := by
  have hunit : ∀ (n' : Number) (u : CodeUnit), Value.number n = .number n' → n'.Is u.toNat →
      n.toInt? = some (u.toNat : ℤ) := by
    rintro n' u hn h
    rw [Value.number.inj hn]
    exact Number.toInt?_eq_some_natCast_iff.mpr h
  rw [readThreshold]
  cases hint : n.toInt? with
  | none =>
    refine .inr ⟨rfl, fun n' u hn h => ?_⟩
    rw [hunit n' u hn h] at hint
    cases hint
  | some i =>
    by_cases hrange : 0 ≤ i ∧ i ≤ 0xffff
    · have hnat : (UInt16.ofNat i.toNat).toNat = i.toNat := by
        rw [UInt16.toNat_ofNat']
        omega
      refine .inl ⟨.ofNat i.toNat, if_pos hrange, ?_⟩
      rw [hnat, ← Number.toInt?_eq_some_natCast_iff, hint, Int.toNat_of_nonneg hrange.1]
    · refine .inr ⟨if_neg hrange, fun n' u hn h => hrange ?_⟩
      have hi : (u.toNat : ℤ) = i := Option.some.inj ((hunit n' u hn h).symm.trans hint)
      have hlt := u.toNat_lt
      omega

lemma readThreshold_eq_ok_iff : readThreshold part = .ok threshold ↔
    (threshold = none ∧ ∀ v, ¬ Given part v) ∨
      ∃ n u, threshold = some u ∧ Given part (.number n) ∧ n.Is u.toNat := by
  match part with
  | none | some .null => simp [readThreshold, Given, eq_comm]
  | some (.number n) =>
    have hgiven : ∀ n', Given (some (.number n)) (.number n') ↔ n' = n := by
      simp [Given, eq_comm]
    have hopen : ¬ ∀ v, ¬ Given (some (.number n)) v := fun h => h _ ⟨rfl, by simp⟩
    simp only [hgiven, hopen, and_false, false_or]
    rcases readThreshold_number n with ⟨u, hread, hn⟩ | ⟨hread, hn⟩
    · rw [hread, Except.ok.injEq]
      constructor
      · rintro rfl
        exact ⟨n, u, rfl, rfl, hn⟩
      · rintro ⟨n', u', rfl, rfl, hn'⟩
        rw [UInt16.toNat_inj.mp (hn.unique hn')]
    · rw [hread]
      constructor
      · intro h
        cases h
      · rintro ⟨n', u', rfl, rfl, hn'⟩
        exact absurd hn' (hn n' u' rfl)
  | some (.boolean _) | some (.text _) | some (.list _) | some (.record _) =>
    simp [readThreshold, Given]

lemma readThreshold_eq_error_iff : readThreshold part = .error e ↔
    ∃ v, (Given part v ∧ NoUnit v) ∧ e = .showing .thresholdOutOfRange v := by
  match part with
  | none | some .null => simp [readThreshold, Given]
  | some (.number n) =>
    have hgiven : ∀ v, Given (some (.number n)) v ↔ v = .number n := by
      simp [Given, eq_comm]
    simp only [hgiven, and_assoc, exists_eq_left]
    rcases readThreshold_number n with ⟨u, hread, hn⟩ | ⟨hread, hn⟩
    · have hunit : ¬ NoUnit (.number n) := fun h => h n u rfl hn
      simp [hread, hunit]
    · simp [hread, hn, eq_comm]
  | some (.boolean _) | some (.text _) | some (.list _) | some (.record _) =>
    simp [readThreshold, Given, NoUnit, eq_comm]

lemma exists_offence_iff {key : Text} {v : Value} : (∃ e, Offence key v e) ↔ Offends key v := by
  constructor
  · rintro ⟨e, h⟩
    cases h with
    | key h => exact .inl h
    | value _ h => exact .inr h
  · intro h
    by_cases hkey : key.length = 1
    · exact ⟨_, .value hkey (h.resolve_left (not_not.mpr hkey))⟩
    · exact ⟨_, .key hkey⟩

lemma readEntity_eq_error_iff {property : Text × Value} :
    readEntity property = .error e ↔ Offence property.1 property.2 e := by
  have hkey {key : Text} (h : key.length ≠ 1) :
      RuleError.keyNotOneUnit key = e ↔ Offence key property.2 e := by
    constructor
    · rintro rfl
      exact .key h
    · intro ho
      cases ho with
      | key _ => rfl
      | value hone _ => exact absurd hone h
  have hvalue {u : CodeUnit} {v : Value} (h : ∀ t, v ≠ .text t) :
      RuleError.replacementNotText [u] = e ↔ Offence [u] v e := by
    constructor
    · rintro rfl
      exact .value rfl h
    · intro ho
      cases ho with
      | key hne => exact absurd rfl hne
      | value _ _ => rfl
  obtain ⟨key, v⟩ := property
  match key, v with
  | [], v | _ :: _ :: _, v => exact (iff_of_eq (Except.error.injEq _ _)).trans (hkey (by simp))
  | [u], .text t =>
    have hnone : ¬ Offence [u] (.text t) e := by
      intro ho
      cases ho with
      | key hne => exact hne rfl
      | value _ h => exact h t rfl
    simp [readEntity, hnone]
  | [u], .null | [u], .boolean _ | [u], .number _ | [u], .list _ | [u], .record _ =>
    exact (iff_of_eq (Except.error.injEq _ _)).trans (hvalue (by simp))

/-- The error is that of the property that offends and is listed before all others that do. -/
theorem readEntities_eq_error_iff : readEntities pairs = .error e ↔
    ∃ key v, value? pairs key = some v ∧ Offence key v e ∧ ∀ key' v', value? pairs key' = some v' →
      Offends key' v' → key' ≠ key → Precedes pairs key key' := by
  rw [readEntities, mapM_eq_error_iff]
  have horder := pairwise_listed pairs
  constructor
  · rintro ⟨front, ⟨key, v⟩, back, hl, hfront, he⟩
    rw [hl, List.map_append, List.map_cons, List.pairwise_append, List.pairwise_cons] at horder
    refine ⟨key, v, Properties.mem_listed_iff.mp (by simp [hl]), readEntity_eq_error_iff.mp he, ?_⟩
    intro key' v' hv' hoffends hne
    have hmem := Properties.mem_listed_iff.mpr hv'
    rw [hl, List.mem_append, List.mem_cons] at hmem
    rcases hmem with hmem | hmem | hmem
    · obtain ⟨e', he'⟩ := exists_offence_iff.mpr hoffends
      exact absurd (readEntity_eq_error_iff.mpr he') (exists_ok_iff.mp (hfront _ hmem) e')
    · exact absurd (Prod.mk.inj hmem).1 hne
    · exact horder.2.1.1 key' (List.mem_map_of_mem hmem)
  · rintro ⟨key, v, hv, ho, hfirst⟩
    obtain ⟨front, back, hl⟩ := List.append_of_mem (Properties.mem_listed_iff.mpr hv)
    refine ⟨front, (key, v), back, hl, ?_, readEntity_eq_error_iff.mpr ho⟩
    rintro ⟨key', v'⟩ hmem
    refine exists_ok_iff.mpr fun e' he' => ?_
    have hlisted : (key', v') ∈ listed pairs := hl ▸ List.mem_append_left _ hmem
    have hoffends := exists_offence_iff.mp ⟨e', readEntity_eq_error_iff.mp he'⟩
    rw [hl, List.map_append, List.map_cons, List.pairwise_append] at horder
    have hbefore : Precedes pairs key' key :=
      horder.2.2 key' (List.mem_map_of_mem hmem) key List.mem_cons_self
    have hne : key' ≠ key := by
      rintro rfl
      exact hbefore.asymm hbefore
    exact hbefore.asymm (hfirst key' v' (Properties.mem_listed_iff.mp hlisted) hoffends hne)

/-- The table of a record that is accepted has the entities that the record gives. -/
lemma ofList_readEntities_iff {table : EntityTable} :
    (∃ entities, readEntities pairs = .ok entities ∧ table = .ofList entities) ↔
      (∀ u t, table.find? u = some t ↔ value? pairs [u] = some (.text t)) ∧
        ∀ key v, value? pairs key = some v → ¬ Offends key v := by
  have hfind {entities : List (CodeUnit × Text)} (hread : readEntities pairs = .ok entities)
      (u : CodeUnit) (t : Text) :
      (EntityTable.ofList entities).find? u = some t ↔ value? pairs [u] = some (.text t) := by
    rw [EntityTable.ofList, EntityTable.find?_insertAll, EntityTable.find?_empty, Option.or_none,
      value?_of_readEntities hread]
    simp
  constructor
  · rintro ⟨entities, hread, rfl⟩
    exact ⟨hfind hread, exists_readEntities_iff.mp ⟨entities, hread⟩⟩
  · rintro ⟨htable, hentities⟩
    obtain ⟨entities, hread⟩ := exists_readEntities_iff.mpr hentities
    refine ⟨entities, hread, EntityTable.ext_of_find? fun u => Option.ext fun t => ?_⟩
    rw [htable, hfind hread]

end InertText
