import InertText.Proofs.Context.Halves
import InertText.Proofs.Delivery.Streaming

/-!
# Where chunks end

A chunk ends with the piece that brings it to the capacity, which is a number of
units and knows nothing of characters. So the two halves of a pair come apart where
the first of them happens to fill a chunk, and a writer that converts its chunks one
by one makes other octets of them than those of the whole text. Everywhere else the
chunks hold whole characters.
-/
namespace InertText

namespace Batch

variable {held pieces before after : List Text} {group : List Text} {p chunk : Text}
  {u : CodeUnit}

/-- A group is closed by a piece behind which nothing is held. -/
lemma exists_prefix_of_mem_gather (h : group ∈ (gather held pieces).1) :
    ∃ front back, pieces = front ++ back ∧ (gather held front).2 = [] ∧
      ∃ before, held ++ front = before ++ group := by
  induction pieces generalizing held with
  | nil => exact absurd h List.not_mem_nil
  | cons piece pieces ih =>
    rw [gather] at h
    split_ifs at h with hfull
    · rcases List.mem_cons.mp h with rfl | h
      · refine ⟨[piece], pieces, rfl, ?_, [], rfl⟩
        rw [gather, if_pos hfull]
        rfl
      · obtain ⟨front, back, rfl, hnothing, before, hbefore⟩ := ih h
        refine ⟨piece :: front, back, rfl, ?_, held ++ [piece] ++ before, ?_⟩
        · rw [gather, if_pos hfull]
          exact hnothing
        · rw [List.append_assoc, ← hbefore]
          simp
    · obtain ⟨front, back, rfl, hnothing, before, hbefore⟩ := ih h
      refine ⟨piece :: front, back, rfl, ?_, before, ?_⟩
      · rw [gather, if_neg hfull]
        exact hnothing
      · rw [← hbefore]
        simp

/-- A group is closed by text, so its last piece is not empty. -/
lemma Closed.exists_last (h : Closed group) :
    ∃ front p u, group = front ++ [p ++ [u]] ∧ group.flatten.getLast? = some u := by
  have hne : group ≠ [] := by
    rintro rfl
    exact absurd h.full (by decide)
  have hgroup := List.dropLast_append_getLast hne
  have hlast : group.getLast hne ≠ [] := by
    intro hnil
    have hflatten := congrArg List.flatten hgroup
    rw [hnil, List.flatten_concat, List.append_nil] at hflatten
    have hopen := h.open_before
    rw [hflatten] at hopen
    exact absurd h.full (Nat.not_le.mpr hopen)
  have hpiece := List.dropLast_append_getLast hlast
  refine ⟨group.dropLast, (group.getLast hne).dropLast, (group.getLast hne).getLast hlast, ?_, ?_⟩
  · rw [hpiece, hgroup]
  · nth_rewrite 1 [← hgroup, List.flatten_concat, ← hpiece]
    rw [← List.append_assoc, List.getLast?_concat]

/-- A chunk that is not the last one ends where a piece leaves nothing to hold. -/
lemma exists_piece_of_getLast? (hchunk : chunk ∈ (grouping pieces).chunks)
    (hlast : chunk.getLast? = some u) :
    pieces.flatten.getLast? = some u ∨ ∃ before p after,
      pieces = before ++ (p ++ [u]) :: after ∧ (gather [] (before ++ [p ++ [u]])).2 = [] := by
  rw [chunks_grouping, List.mem_append] at hchunk
  rcases hchunk with hclosed | hopen
  · obtain ⟨group, hgroup, rfl⟩ := List.mem_map.mp hclosed
    have hclosed := closed_of_mem_gather (by decide) pieces group hgroup
    obtain ⟨front, p, v, hpiece, hv⟩ := hclosed.exists_last
    obtain rfl : u = v := Option.some.inj (hlast.symm.trans hv)
    obtain ⟨pre, post, rfl, hnothing, before, hbefore⟩ := exists_prefix_of_mem_gather hgroup
    rw [List.nil_append, hpiece, ← List.append_assoc] at hbefore
    subst hbefore
    exact .inr ⟨before ++ front, p, post, by simp, hnothing⟩
  · have hflatten := congrArg List.flatten (flatten_gather [] pieces)
    split_ifs at hopen with hnil
    · exact absurd hopen List.not_mem_nil
    · rw [List.mem_singleton] at hopen
      rw [List.nil_append, List.flatten_append, ← hopen] at hflatten
      refine .inl ?_
      rw [← hflatten, List.getLast?_append, hlast, Option.some_or]

/-- Where a piece leaves nothing to hold a chunk ends, whatever follows. -/
lemma exists_chunk_of_gather (h : (gather [] (before ++ [p ++ [u]])).2 = []) (after : List Text) :
    ∃ chunk ∈ (grouping (before ++ (p ++ [u]) :: after)).chunks, chunk.getLast? = some u := by
  have hflatten := flatten_gather [] (before ++ [p ++ [u]])
  rw [h, List.append_nil, List.nil_append] at hflatten
  obtain hnil | ⟨groups, group, hgroups⟩ :=
    List.eq_nil_or_concat' (gather [] (before ++ [p ++ [u]])).1
  · simp [hnil] at hflatten
  · have hmem : group ∈ (gather [] (before ++ [p ++ [u]])).1 := by simp [hgroups]
    obtain ⟨-, -, v, -, hv⟩ := (closed_of_mem_gather (by decide) _ _ hmem).exists_last
    have hend : (before ++ [p ++ [u]]).flatten.getLast? = some u := by
      rw [List.flatten_concat, ← List.append_assoc, List.getLast?_concat]
    rw [← hflatten, hgroups, List.flatten_concat, List.flatten_append, List.getLast?_append, hv,
      Option.some_or] at hend
    refine ⟨group.flatten, ?_, hv.trans hend⟩
    have hpieces : before ++ (p ++ [u]) :: after = before ++ [p ++ [u]] ++ after := by simp
    rw [chunks_grouping, hpieces, gather_append, List.map_append, List.append_assoc]
    exact List.mem_append_left _ (List.mem_map_of_mem hmem)

/-- Nothing is held behind a piece with text exactly if all chunks up to it are full. -/
lemma gather_eq_nil_iff : (gather [] (before ++ [p ++ [u]])).2 = [] ↔
    ∀ chunk ∈ (grouping (before ++ [p ++ [u]])).chunks, capacity ≤ chunk.length := by
  have hempty : ([] : List Text).flatten.length < capacity := by decide
  rw [chunks_grouping]
  constructor
  · intro h chunk hchunk
    rw [h, List.flatten_nil, if_pos rfl, List.append_nil] at hchunk
    obtain ⟨group, hgroup, rfl⟩ := List.mem_map.mp hchunk
    exact (closed_of_mem_gather hempty _ group hgroup).full
  · intro h
    have hlt := length_flatten_gather_lt hempty (before ++ [p ++ [u]])
    have hopen : (gather [] (before ++ [p ++ [u]])).2.flatten = [] := by
      by_contra hne
      refine absurd (h _ ?_) (Nat.not_le.mpr hlt)
      rw [if_neg hne]
      exact List.mem_append_right _ (List.mem_singleton_self _)
    obtain hnil | ⟨front, piece, hheld⟩ :=
      List.eq_nil_or_concat' (gather [] (before ++ [p ++ [u]])).2
    · exact hnil
    · have hflatten := flatten_gather [] (before ++ [p ++ [u]])
      rw [hheld, List.nil_append, ← List.append_assoc] at hflatten
      obtain ⟨-, rfl⟩ := List.append_singleton_inj.mp hflatten
      simp [hheld] at hopen

end Batch

namespace Context

open Text (EndsInHigh Paired)

variable {c : Context} {mode : Mode} {t : Text}

/-- The chunks in which the output for a text is delivered. -/
def chunks (c : Context) (mode : Mode) (t : Text) : List Text :=
  (Batch.grouping (c.sanitizer.emit mode t).pieces).chunks

/-- A pair of the text is kept, and the output up to its first half fills its chunks. -/
def SplitsPair (c : Context) (mode : Mode) (t : Text) : Prop :=
  ∃ front high low back, t = front ++ high :: low :: back ∧
    high.isHighSurrogate = true ∧ low.isLowSurrogate = true ∧ c.output mode [high] = [high] ∧
    ∀ chunk ∈ c.chunks mode (front ++ [high]), Batch.capacity ≤ chunk.length

lemma flatten_chunks (c : Context) (mode : Mode) (t : Text) :
    (c.chunks mode t).flatten = c.output mode t :=
  Batch.Grouping.flatten_chunks _

lemma exists_received {w : Writer} (hw : w.NeverFails) (c : Context) (mode : Mode) (t : Text) :
    ∃ w' : Writer, c.sanitizer.deliver mode (some t) (some w) = ⟨none, some w'⟩ ∧
      w'.received = w.received ++ c.chunks mode t :=
  have hdeliver := Sanitizer.deliver_of_neverFails (c.completes_sanitizer mode t) hw
  ⟨_, hdeliver, Sanitizer.received_of_neverFails (c.completes_sanitizer mode t) hw hdeliver⟩

/-- A chunk that ends in the middle of a pair shows which pair of the text is split. -/
lemma splitsPair_of_endsInHigh (ht : Paired t) {chunk : Text} (hchunk : chunk ∈ c.chunks mode t)
    (hends : EndsInHigh chunk) : c.SplitsPair mode t := by
  obtain ⟨high, hlast, hhigh⟩ := hends
  have hsurrogate := CodeUnit.isSurrogate_of_high hhigh
  rcases c.keepsHalves_or_loses mode with ⟨σ, start, pieces, hkeeps, hpieces⟩ | hnone
  · rcases Batch.exists_piece_of_getLast? hchunk hlast with
      hend | ⟨before, p, after, hp, hgather⟩
    · exact absurd ⟨high, hend, hhigh⟩ (c.paired_output mode ht).not_endsInHigh
    · rw [hpieces] at hp
      obtain ⟨front, back, rfl, hfront⟩ := hkeeps.exists_half hsurrogate hp
      obtain ⟨low, back, rfl, hlow⟩ := ht.exists_low hhigh
      refine ⟨front, high, low, back, rfl, hhigh, hlow, ?_, ?_⟩
      · rw [output, Emission.text, hpieces, hkeeps.half_start high hsurrogate, hkeeps.nil_start]
        rfl
      · rw [chunks, hpieces, hfront]
        exact Batch.gather_eq_nil_iff.mp hgather
  · have hmem : high ∈ c.output mode t := by
      rw [← c.flatten_chunks]
      exact List.mem_flatten.mpr ⟨chunk, hchunk, List.mem_of_getLast? hlast⟩
    simp [hnone t high hmem] at hsurrogate

/-- Where a pair of the text is split a chunk ends in the middle of it. -/
lemma SplitsPair.exists_endsInHigh (h : c.SplitsPair mode t) :
    ∃ chunk ∈ c.chunks mode t, EndsInHigh chunk := by
  obtain ⟨front, high, low, back, rfl, hhigh, -, hself, hfull⟩ := h
  have hsurrogate := CodeUnit.isSurrogate_of_high hhigh
  rcases c.keepsHalves_or_loses mode with ⟨σ, start, pieces, hkeeps, hpieces⟩ | hnone
  · obtain ⟨before, p, hfront, hrest⟩ := hkeeps.pieces_append hsurrogate start front
    rw [chunks, hpieces, hfront] at hfull
    have hgather := Batch.gather_eq_nil_iff.mpr hfull
    obtain ⟨chunk, hchunk, hlast⟩ :=
      Batch.exists_chunk_of_gather hgather (pieces start (low :: back))
    rw [← hrest, ← hpieces] at hchunk
    exact ⟨chunk, hchunk, high, hlast, hhigh⟩
  · have hmem : high ∈ c.output mode [high] := by
      rw [hself]
      exact List.mem_singleton_self high
    simp [hnone [high] high hmem] at hsurrogate

/-- The output for a well-formed text is the text of a string, and a writer that never
fails receives all of it. Every single chunk is well-formed exactly if no pair of the
text is split, and exactly then the chunks give the octets of that string when they
are converted one by one. -/
theorem whole_chunks_iff {w : Writer} (hw : w.NeverFails) (c : Context) (mode : Mode)
    (ht : t.isWellFormed = true) :
    ∃ (w' : Writer) (s : String),
      c.sanitizer.deliver mode (some t) (some w) = ⟨none, some w'⟩ ∧
      w'.received = w.received ++ c.chunks mode t ∧
      (c.output mode t).toString? = some s ∧
      ((∀ chunk ∈ c.chunks mode t, chunk.isWellFormed = true) ↔ ¬ c.SplitsPair mode t) ∧
      (((c.chunks mode t).flatMap Text.utf8).toByteArray = s.toUTF8 ↔ ¬ c.SplitsPair mode t) := by
  have hpaired := Text.isWellFormed_iff_paired.mp ht
  have houtput := c.paired_output mode hpaired
  obtain ⟨w', hdeliver, hreceived⟩ := exists_received hw c mode t
  have hends : (∀ chunk ∈ c.chunks mode t, ¬ EndsInHigh chunk) ↔ ¬ c.SplitsPair mode t := by
    constructor
    · intro hnone hsplits
      obtain ⟨chunk, hchunk, hchunkends⟩ := hsplits.exists_endsInHigh
      exact hnone chunk hchunk hchunkends
    · exact fun hnot chunk hchunk h => hnot (splitsPair_of_endsInHigh hpaired hchunk h)
  have hchunks : Paired (c.chunks mode t).flatten := by rwa [flatten_chunks]
  refine ⟨w', _, hdeliver, hreceived, houtput.toString?_eq, ?_, ?_⟩
  · rw [← hends, ← hchunks.forall_chunk_iff]
    exact forall₂_congr fun _ _ => Text.isWellFormed_iff_paired
  · have hutf8 : (String.ofList (Text.characters (c.output mode t))).toUTF8 =
        (Text.utf8 (c.output mode t)).toByteArray := String.toByteArray_ofList
    rw [← hends, ← hchunks.flatMap_utf8_eq_iff, hutf8, List.toByteArray_inj, flatten_chunks]

/-- A writer without faults and plans, a reference and a pair in one chunk. -/
theorem whole_chunks_iff_htmlContent :
    let w : Writer := ⟨true, none, none, none, fun _ => none, none, []⟩
    let t : Text := units "<" ++ [0xd83d, 0xde00]
    w.NeverFails ∧ t.isWellFormed = true ∧ ∃ w' : Writer,
      htmlContent.sanitizer.deliver .encode (some t) (some w) = ⟨none, some w'⟩ ∧
      w'.received = [units "&lt;" ++ [0xd83d, 0xde00]] ∧ ¬ htmlContent.SplitsPair .encode t := by
  have hw : Writer.NeverFails ⟨true, none, none, none, fun _ => none, none, []⟩ :=
    Writer.neverFails_of_no_plan rfl rfl (fun _ => rfl) rfl
  have ht : Text.isWellFormed (units "<" ++ [0xd83d, 0xde00]) = true := by decide
  obtain ⟨w', -, hdeliver, hreceived, -, hwhole, -⟩ :=
    whole_chunks_iff hw htmlContent .encode ht
  have hchunks : htmlContent.chunks .encode (units "<" ++ [0xd83d, 0xde00]) =
      [units "&lt;" ++ [0xd83d, 0xde00]] := by
    rw [chunks, Batch.chunks_grouping]
    decide
  rw [hchunks] at hreceived hwhole
  exact ⟨hw, ht, w', hdeliver, hreceived, hwhole.mp (List.all_iff_forall_prop.mp (by decide))⟩

/-- After 8191 letters the next unit fills the chunk, so a pair that follows them is
split. -/
theorem split_chunks_htmlContent :
    let w : Writer := ⟨true, none, none, none, fun _ => none, none, []⟩
    let t : Text := List.replicate 8191 (unit 'a') ++ [0xd83d, 0xde00]
    w.NeverFails ∧ t.isWellFormed = true ∧ ∃ w' : Writer,
      htmlContent.sanitizer.deliver .encode (some t) (some w) = ⟨none, some w'⟩ ∧
      w'.received = [List.replicate 8191 (unit 'a') ++ [0xd83d], [0xde00]] ∧
      (¬ ∀ chunk ∈ w'.received, chunk.isWellFormed = true) ∧
      w'.received.flatMap Text.utf8 ≠ Text.utf8 t := by
  intro w t
  have hw : w.NeverFails := Writer.neverFails_of_no_plan rfl rfl (fun _ => rfl) rfl
  have hletters : ∀ v ∈ List.replicate 8191 (unit 'a'), v.isSurrogate = false := by
    intro v hv
    rw [List.eq_of_mem_replicate hv]
    decide
  have hpaired : Paired t :=
    (Text.paired_of_not_surrogate hletters).append (.pair (by decide) (by decide) .nil)
  have hone : (Html.content.replacement 0xd83d).length = 1 := by decide
  have hchunks : htmlContent.chunks .encode t =
      [List.replicate 8191 (unit 'a') ++ [0xd83d], [0xde00]] :=
    RuleSet.chunks_of_fills (u := 0xd83d) (by decide) (by decide) (by rw [hone]; decide) [0xde00]
  have hflatten : (htmlContent.chunks .encode t).flatten = t := by
    rw [hchunks, List.flatten_cons, List.flatten_singleton, List.append_assoc]
    rfl
  have hwhole : Paired (htmlContent.chunks .encode t).flatten := by rwa [hflatten]
  have hends : ¬ ∀ chunk ∈ htmlContent.chunks .encode t, ¬ EndsInHigh chunk := by
    rw [hchunks]
    exact fun h => h _ List.mem_cons_self (Text.endsInHigh_concat (by decide) _)
  obtain ⟨w', hdeliver, hreceived⟩ := exists_received hw htmlContent .encode t
  rw [List.nil_append] at hreceived
  refine ⟨hw, Text.isWellFormed_iff_paired.mpr hpaired, w', hdeliver, hreceived.trans hchunks,
    ?_, ?_⟩
  · rw [hreceived]
    exact fun h => hends (hwhole.forall_chunk_iff.mp fun chunk hchunk =>
      Text.isWellFormed_iff_paired.mp (h chunk hchunk))
  · rw [hreceived]
    exact fun h =>
      hends (hwhole.flatMap_utf8_eq_iff.mp (h.trans (congrArg Text.utf8 hflatten.symm)))

end Context

end InertText
