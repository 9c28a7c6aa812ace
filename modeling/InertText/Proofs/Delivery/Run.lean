import InertText.Proofs.Context.Output
import InertText.Proofs.Delivery.Attempts
import InertText.Proofs.Delivery.Streaming

/-!
# Runs of calls on one writer

Calls share nothing but their writer, which goes on to the next call as the one
before left it, also after an error. Each call hands over its own chunks in order
until the first that fails, and nothing that it had gathered outlives it. So it
returns only when the writer has received its whole output, and whatever a writer
has received of a run is put together from beginnings of the outputs.
-/
namespace InertText.Delivery

open Batch (Grouping)

/-- A call that delivers the output for its input, if there is any. -/
structure Call where
  source : Provided
  mode : Mode
  input : Option Text

/-- The chunks that the output of a call is gathered into. -/
def Call.chunks (call : Call) : List Text :=
  call.input.elim [] fun t =>
    (Batch.grouping (call.source.sanitizer.emit call.mode t).pieces).chunks

/-- A call that was made, with its error and the writer before and after it. -/
structure Made where
  call : Call
  before : Writer
  error : Option CallError
  after : Writer

def Call.make (call : Call) (w : Writer) : Made :=
  let delivered := call.source.sanitizer.deliver call.mode call.input (some w)
  ⟨call, w, delivered.error, delivered.writer.getD w⟩

def run : Writer → List Call → List Made
  | _, [] => []
  | w, call :: calls => call.make w :: run (call.make w).after calls

def writerAfter (w : Writer) (calls : List Call) : Writer :=
  calls.foldl (fun w call => (call.make w).after) w

/-- The chunks that the writer was called with during a call. -/
def Made.recorded (m : Made) : List Text := m.after.received.drop m.before.received.length

/-- What a call does to its writer, and what the caller gets to know of it. -/
structure Accounted (m : Made) : Prop where
  /-- Absent input is no reason to look at the writer. -/
  absent : m.call.input = none → m.error = none ∧ m.after = m.before
  received : m.after.received = m.before.received ++ m.recorded
  /-- The writer receives no text of another call. -/
  own : m.recorded <+: m.call.chunks
  /-- The call makes attempts with its chunks up to the first that fails, whose error
  is its own. It returns normally if none fails, and then all of its output has been
  received, else a beginning of it. -/
  present : ∀ t, m.call.input = some t → ∃ out attempts error,
    m.call.source.sanitizer.text m.call.mode (some t) = .ok (some out) ∧
    m.error = error.map .write ∧
    m.before.HandsOver m.call.chunks attempts error m.after ∧
    m.recorded = (attempts.filter Attempt.isCall).map Attempt.chunk ∧
    (m.error = none ↔ ∀ a ∈ attempts, a.error = none) ∧
    (m.error = none → m.recorded.flatten = out) ∧
    m.recorded.flatten <+: out

variable {w : Writer} {call : Call} {t : Text}

lemma make_of_absent (h : call.input = none) (w : Writer) :
    call.make w = ⟨call, w, none, w⟩ := by
  simp [Call.make, h, Sanitizer.deliver]

lemma chunks_of_present (h : call.input = some t) :
    call.chunks = (Batch.grouping (call.source.sanitizer.emit call.mode t).pieces).chunks := by
  rw [Call.chunks, h, Option.elim_some]

lemma make_of_present (h : call.input = some t) (hw : w.callable = true) :
    call.make w =
      ⟨call, w, (w.takeAll call.chunks).1.map .write, (w.takeAll call.chunks).2⟩ := by
  have hdeliver := Emission.deliver_eq_takeAll (call.source.failure_emit call.mode t) w
  rw [← chunks_of_present h] at hdeliver
  simp only [Call.make, h, Sanitizer.deliver, Option.filter_some, hw, if_true, hdeliver,
    Option.getD_some]

lemma flatten_chunks_of_present (h : call.input = some t) :
    call.chunks.flatten = call.source.output call.mode t := by
  rw [chunks_of_present h, Grouping.flatten_chunks]
  rfl

lemma recorded_of_received {m : Made} {chunks : List Text}
    (h : m.after.received = m.before.received ++ chunks) : m.recorded = chunks := by
  rw [Made.recorded, h, List.drop_left]

/-- Every single call is accounted for, whatever its writer has been through. -/
lemma accounted_make (hw : w.callable = true) (call : Call) : Accounted (call.make w) := by
  cases hinput : call.input with
  | none =>
    have hmake := make_of_absent hinput w
    have hrecorded : (call.make w).recorded = [] := by
      rw [hmake]
      exact recorded_of_received (List.append_nil _).symm
    rw [hmake] at hrecorded ⊢
    refine ⟨fun _ => ⟨rfl, rfl⟩, ?_, ?_, ?_⟩
    · rw [hrecorded, List.append_nil]
    · rw [hrecorded]
      exact List.nil_prefix
    · intro t ht
      simp [hinput] at ht
  | some t =>
    obtain ⟨attempts, hattempts⟩ := w.exists_handsOver_takeAll call.chunks
    have hflatten := flatten_chunks_of_present hinput
    have hmake := make_of_present hinput hw
    have hreceived := hattempts.made.received
    have hrecorded :
        (call.make w).recorded = (attempts.filter Attempt.isCall).map Attempt.chunk := by
      rw [hmake]
      exact recorded_of_received hreceived
    rw [hmake] at hrecorded ⊢
    refine ⟨?_, ?_, ?_, ?_⟩
    · intro habsent
      simp [hinput] at habsent
    · rw [hrecorded]
      exact hreceived
    · rw [hrecorded]
      exact hattempts.calls_prefix
    · intro t' ht
      obtain rfl := Option.some.inj (hinput.symm.trans ht)
      have herror : (w.takeAll call.chunks).1.map CallError.write = none ↔
          ∀ a ∈ attempts, a.error = none := by
        rw [Option.map_eq_none_iff, hattempts.error_eq_none_iff]
      refine ⟨_, attempts, _, call.source.text_sanitizer call.mode t, rfl, hattempts, hrecorded,
        herror, ?_, ?_⟩
      · intro hnone
        rw [hrecorded, hattempts.calls_eq (Option.map_eq_none_iff.mp hnone), hflatten]
      · rw [hrecorded, ← hflatten]
        exact hattempts.calls_prefix.flatten

lemma callable_make (hw : w.callable = true) (call : Call) :
    (call.make w).after.callable = true := by
  cases hinput : call.input with
  | none => rwa [make_of_absent hinput]
  | some t =>
    obtain ⟨attempts, hattempts⟩ := w.exists_handsOver_takeAll call.chunks
    rw [make_of_present hinput hw, hattempts.made.callable_eq, hw]

lemma accounted_of_mem_run (hw : w.callable = true) (calls : List Call) :
    ∀ m ∈ run w calls, Accounted m := by
  induction calls generalizing w with
  | nil => exact fun m hm => absurd hm List.not_mem_nil
  | cons call calls ih =>
    rw [run, List.forall_mem_cons]
    exact ⟨accounted_make hw call, ih (callable_make hw call)⟩

lemma received_writerAfter (hw : w.callable = true) (calls : List Call) :
    (writerAfter w calls).received =
      w.received ++ ((run w calls).map Made.recorded).flatten := by
  induction calls generalizing w with
  | nil => simp [writerAfter, run]
  | cons call calls ih =>
    have hreceived := (accounted_make hw call).received
    have hrest := ih (callable_make hw call)
    rw [writerAfter, List.foldl_cons, ← writerAfter, hrest, hreceived, run, List.map_cons,
      List.flatten_cons, List.append_assoc]
    rfl

/-- On one writer with any faults and plans every call of a run is made and accounted
for, whatever calls came before it, and the writer has received what was recorded
during the calls and nothing else. -/
theorem accounted_of_run (hw : w.callable = true) (calls : List Call) :
    (run w calls).map Made.call = calls ∧
    (∀ m ∈ run w calls, Accounted m) ∧
    (writerAfter w calls).received =
      w.received ++ ((run w calls).map Made.recorded).flatten := by
  have hcalls : ∀ w : Writer, (run w calls).map Made.call = calls := by
    induction calls with
    | nil => exact fun _ => rfl
    | cons call calls ih => exact fun w => congrArg (call :: ·) (ih _)
  exact ⟨hcalls w, accounted_of_mem_run hw calls, received_writerAfter hw calls⟩

/-- Calls of several kinds on a writer that throws on every other call and has ended after the
third. What is thrown counts as false, and is the cause of the error all the same. -/
theorem accounted_of_run_throwing :
    let w : Writer := ⟨true, none, none, none,
      fun call => if call % 2 = 1 then some .notANumber else none, some 3, []⟩
    let calls : List Call := [
      ⟨.context .htmlContent, .encode, some (units "<")⟩,
      ⟨.cdata [], .filter, some (units "]]]>")⟩,
      ⟨.ofRules Uri.component [], .encode, none⟩,
      ⟨.context .jsonValue, .filter, some (units "x")⟩,
      ⟨.context .xmlContent, .encode, some (units "y")⟩]
    w.callable = true ∧ (∀ m ∈ run w calls, Accounted m) ∧
    (run w calls).map Made.error = [some (.write (.thrown .notANumber)), none, none,
      some (.write (.thrown .notANumber)),
      some (.write (.refused (.error (units "Cannot write after end"))))] ∧
    (writerAfter w calls).received = [units "&lt;", units "]", units "x"] := by
  refine ⟨rfl, (accounted_of_run rfl _).2.1, rfl, rfl⟩

end InertText.Delivery
