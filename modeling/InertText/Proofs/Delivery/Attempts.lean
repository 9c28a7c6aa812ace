import InertText.Proofs.Delivery.Chunks

/-!
# Attempts to hand over chunks

What becomes of a chunk depends on what its writer says about itself at that time
and on the number of the call. The relation `Offered` says so without the order in
which a delivery asks. A delivery offers its chunks one after the other and stops at
the first one that fails, so of its attempts only the last can be a failed one.
-/
namespace InertText

lemma Value.isTrue_iff {v : Value} : v.isTrue = true ↔ v = .boolean true := by
  cases v <;> simp [Value.isTrue]

lemma Value.any_isTrue_iff {v : Option Value} :
    v.any Value.isTrue = true ↔ v = some (.boolean true) := by
  cases v with
  | none => simp
  | some v => rw [Option.any_some, isTrue_iff, Option.some_inj]

/-- A chunk that a writer was offered, with the error if that failed. -/
structure Attempt where
  chunk : Text
  error : Option WriteError

/-- Whether the writer was called with the chunk. -/
def Attempt.isCall (a : Attempt) : Bool :=
  match a.error with
  | some (.refused _) => false
  | some (.thrown _) | none => true

lemma Attempt.isCall_of_error_eq_none {a : Attempt} (h : a.error = none) : a.isCall = true := by
  rw [isCall, h]

namespace Writer

variable {w w' : Writer} {chunk : Text} {chunks : List Text} {attempts : List Attempt}
  {error : Option WriteError} {fault : Fault}

/-- Whether the writer reports no fault that counts as true. -/
def Sound (w : Writer) : Prop := ∀ fault, w.errored = some fault → fault.isTruthy = false

/-- The reasons for which a writer takes no chunk. Of several the first one counts. -/
inductive Refuses (w : Writer) : Fault → Prop where
  | errored {fault : Fault} (h : w.errored = some fault) (htruthy : fault.isTruthy = true) :
    Refuses w fault
  | destroyed (hsound : w.Sound) (h : w.destroyed = some (.boolean true)) :
    Refuses w (.error (units "Cannot write to a destroyed stream"))
  | ended (hsound : w.Sound) (hdestroyed : w.destroyed ≠ some (.boolean true))
    (h : w.ended = some (.boolean true)) : Refuses w (.error (units "Cannot write after end"))

/-- The next call of the writer throws. -/
def Throws (w : Writer) (fault : Fault) : Prop :=
  w.throwing (w.received.length + 1) = some fault

lemma refuses_iff : w.Refuses fault ↔ w.refusal? = some fault := by
  have hfilter : w.Sound ↔ w.errored.filter Fault.isTruthy = none := by
    rw [Sound, Option.filter_eq_none_iff]
    simp
  unfold refusal?
  constructor
  · intro h
    cases h with
    | errored h htruthy => simp [h, htruthy, Option.filter_some]
    | destroyed hsound h => simp [hfilter.mp hsound, Value.any_isTrue_iff.mpr h]
    | ended hsound hdestroyed h =>
      have hnot : w.destroyed.any Value.isTrue = false :=
        Bool.eq_false_iff.mpr fun hany => hdestroyed (Value.any_isTrue_iff.mp hany)
      simp [hfilter.mp hsound, hnot, Value.any_isTrue_iff.mpr h]
  · intro h
    split at h
    · rename_i fault' herrored
      obtain rfl := Option.some.inj h
      obtain ⟨herr, htruthy⟩ := Option.filter_eq_some_iff.mp herrored
      exact .errored herr htruthy
    · rename_i herrored
      have hsound := hfilter.mpr herrored
      split_ifs at h with hdestroyed hended
      · obtain rfl := Option.some.inj h
        exact .destroyed hsound (Value.any_isTrue_iff.mp hdestroyed)
      · obtain rfl := Option.some.inj h
        exact .ended hsound (fun hd => hdestroyed (Value.any_isTrue_iff.mpr hd))
          (Value.any_isTrue_iff.mp hended)

/-- What becomes of a chunk: the error if there is one, and the writer afterwards. -/
inductive Offered (w : Writer) (chunk : Text) : Option WriteError → Writer → Prop where
  | refused {fault : Fault} (h : w.Refuses fault) : Offered w chunk (some (.refused fault)) w
  | thrown {fault : Fault} (hopen : ∀ fault, ¬ w.Refuses fault) (h : w.Throws fault) :
    Offered w chunk (some (.thrown fault)) (w.write chunk).2
  | taken (hopen : ∀ fault, ¬ w.Refuses fault) (hcalm : ∀ fault, ¬ w.Throws fault) :
    Offered w chunk none (w.write chunk).2

lemma offered_take (w : Writer) (chunk : Text) :
    w.Offered chunk (w.take chunk).1 (w.take chunk).2 := by
  unfold take
  cases hrefusal : w.refusal? with
  | some fault => exact .refused (refuses_iff.mpr hrefusal)
  | none =>
    have hopen : ∀ fault, ¬ w.Refuses fault := by
      intro fault h
      simp [refuses_iff.mp h] at hrefusal
    cases hthrown : (w.write chunk).1 with
    | some fault => exact .thrown hopen hthrown
    | none =>
      refine .taken hopen fun fault h => ?_
      cases h.symm.trans hthrown

/-- Attempts one after the other, each on the writer that the one before it left. -/
inductive Attempts : Writer → List Attempt → Writer → Prop where
  | nil (w : Writer) : Attempts w [] w
  | cons {w v w' : Writer} {a : Attempt} {attempts : List Attempt}
    (h : w.Offered a.chunk a.error v) (hs : Attempts v attempts w') :
    Attempts w (a :: attempts) w'

lemma Offered.received (h : w.Offered chunk error w') : w'.received =
    w.received ++ (if (Attempt.mk chunk error).isCall then [chunk] else []) := by
  cases h with
  | refused => simp [Attempt.isCall]
  | thrown => rfl
  | taken => rfl

lemma Offered.callable_eq (h : w.Offered chunk error w') : w'.callable = w.callable := by
  cases h <;> rfl

lemma Attempts.callable_eq (h : w.Attempts attempts w') : w'.callable = w.callable := by
  induction h with
  | nil w => rfl
  | cons h _ ih => rw [ih, h.callable_eq]

/-- A writer keeps the chunks that it was called with. -/
lemma Attempts.received (h : w.Attempts attempts w') :
    w'.received = w.received ++ (attempts.filter Attempt.isCall).map Attempt.chunk := by
  induction h with
  | nil w => simp
  | cons h _ ih =>
    rw [ih, h.received, List.append_assoc, List.filter_cons]
    split_ifs <;> rfl

/-- The attempts of handing over chunks: the chunks in order, up to the first one
that fails. -/
structure HandsOver (w : Writer) (chunks : List Text) (attempts : List Attempt)
    (error : Option WriteError) (w' : Writer) : Prop where
  made : w.Attempts attempts w'
  in_order : attempts.map Attempt.chunk <+: chunks
  taken_before_last : ∀ a ∈ attempts.dropLast, a.error = none
  error_eq : error = attempts.getLast?.bind Attempt.error
  complete : error = none → attempts.map Attempt.chunk = chunks

namespace HandsOver

lemma nil (w : Writer) : w.HandsOver [] [] none w :=
  ⟨.nil w, List.prefix_refl [], by simp, rfl, fun _ => rfl⟩

lemma failed {e : WriteError} (h : w.Offered chunk (some e) w') :
    w.HandsOver (chunk :: chunks) [⟨chunk, some e⟩] (some e) w' where
  made := .cons h (.nil w')
  in_order := List.prefix_append [chunk] chunks
  taken_before_last := by simp
  error_eq := rfl
  complete := nofun

lemma cons_taken {v : Writer} (h : w.Offered chunk none v)
    (hs : v.HandsOver chunks attempts error w') :
    w.HandsOver (chunk :: chunks) (⟨chunk, none⟩ :: attempts) error w' where
  made := .cons h hs.made
  in_order := List.cons_prefix_cons.mpr ⟨rfl, hs.in_order⟩
  taken_before_last := by
    cases attempts with
    | nil => simp
    | cons a attempts =>
      rw [List.dropLast_cons_of_ne_nil (List.cons_ne_nil a attempts)]
      exact List.forall_mem_cons.mpr ⟨rfl, hs.taken_before_last⟩
  error_eq := by
    have herror := hs.error_eq
    cases attempts with
    | nil => exact herror
    | cons a attempts => rwa [List.getLast?_cons_cons]
  complete herror := by rw [List.map_cons, hs.complete herror]

/-- Where only the last attempt can fail, all of them succeed unless it does. -/
lemma error_eq_none_iff (h : w.HandsOver chunks attempts error w') :
    error = none ↔ ∀ a ∈ attempts, a.error = none := by
  rw [h.error_eq]
  rcases attempts.eq_nil_or_concat with rfl | ⟨front, last, rfl⟩
  · simp
  · have hfront := h.taken_before_last
    rw [List.concat_eq_append, List.dropLast_concat] at hfront
    rw [List.concat_eq_append, List.getLast?_concat, Option.bind_some]
    constructor
    · intro hlast a ha
      rcases List.mem_append.mp ha with ha | ha
      · exact hfront a ha
      · rw [List.mem_singleton.mp ha, hlast]
    · intro hall
      exact hall last (List.mem_append_right front (List.mem_singleton_self last))

/-- The writer is called with every chunk that it is offered, but for the last one if
it refuses that. -/
lemma calls_prefix (h : w.HandsOver chunks attempts error w') :
    (attempts.filter Attempt.isCall).map Attempt.chunk <+: chunks := by
  have hcalls : attempts.filter Attempt.isCall <+: attempts := by
    rcases attempts.eq_nil_or_concat with rfl | ⟨front, last, rfl⟩
    · simp
    · have hfront := h.taken_before_last
      rw [List.concat_eq_append, List.dropLast_concat] at hfront
      have hself : front.filter Attempt.isCall = front :=
        List.filter_eq_self.mpr fun a ha => Attempt.isCall_of_error_eq_none (hfront a ha)
      rw [List.concat_eq_append, List.filter_append, hself, List.prefix_append_right_inj,
        List.filter_cons]
      split_ifs <;> simp
  exact (hcalls.map Attempt.chunk).trans h.in_order

lemma calls_eq (h : w.HandsOver chunks attempts error w') (herror : error = none) :
    (attempts.filter Attempt.isCall).map Attempt.chunk = chunks := by
  have hall := h.error_eq_none_iff.mp herror
  have hself : attempts.filter Attempt.isCall = attempts :=
    List.filter_eq_self.mpr fun a ha => Attempt.isCall_of_error_eq_none (hall a ha)
  rw [hself, h.complete herror]

end HandsOver

/-- Handing chunks over is a sequence of attempts. -/
theorem exists_handsOver_takeAll (w : Writer) (chunks : List Text) :
    ∃ attempts, w.HandsOver chunks attempts (w.takeAll chunks).1 (w.takeAll chunks).2 := by
  induction chunks generalizing w with
  | nil => exact ⟨[], .nil w⟩
  | cons chunk chunks ih =>
    have hoffered := w.offered_take chunk
    rw [takeAll]
    cases htake : w.take chunk with
    | mk error v =>
      rw [htake] at hoffered
      cases error with
      | none =>
        obtain ⟨attempts, hattempts⟩ := ih v
        exact ⟨_, .cons_taken hoffered hattempts⟩
      | some e => exact ⟨_, .failed hoffered⟩

end Writer

end InertText
