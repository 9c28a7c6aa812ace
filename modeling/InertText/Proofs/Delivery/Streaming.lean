import InertText.Proofs.Delivery.Chunks
import InertText.Proofs.Rules.Length

/-!
# Delivered chunks and the returned text

A writer that never fails receives the text that the other form of the call would
return, cut into chunks only between pieces. For a rule set this means that the
input itself can be cut in such a way that every chunk is the output for one slice.
-/
namespace InertText

open Batch (Grouping capacity chunks_grouping gather_of_fills grouping)

namespace Batch.Grouping

variable {pieces : List Text}

/-- Nothing is lost between the groups or behind them. -/
lemma flatten_chunks (g : Grouping pieces) : g.chunks.flatten = pieces.flatten := by
  have hrest : g.rest.flatten = [] := List.flatten_eq_nil_iff.mpr g.rest_empty
  calc g.chunks.flatten = g.groups.flatten.flatten := List.flatten_flatten.symm
    _ = (g.groups.flatten ++ g.rest).flatten := by rw [List.flatten_append, hrest, List.append_nil]
    _ = pieces.flatten := by rw [g.flatten_append_rest]

lemma chunks_eq_nil (g : Grouping pieces) (h : pieces.flatten = []) : g.chunks = [] := by
  rw [chunks, List.map_eq_nil_iff, List.eq_nil_iff_forall_not_mem]
  intro group hgroup
  rw [← g.flatten_chunks, List.flatten_eq_nil_iff] at h
  exact g.nonempty group hgroup (h _ (List.mem_map_of_mem hgroup))

/-- Only its last piece can take a chunk past the capacity. -/
lemma length_le_of_mem_chunks (g : Grouping pieces) {n : ℕ} (h : ∀ p ∈ pieces, p.length ≤ n)
    {chunk : Text} (hchunk : chunk ∈ g.chunks) : chunk.length < 8192 + n := by
  obtain ⟨group, hgroup, rfl⟩ := List.mem_map.mp hchunk
  have hne : group ≠ [] := by
    rintro rfl
    exact g.nonempty [] hgroup rfl
  have hlast : (group.getLast hne).length ≤ n := by
    refine h _ ?_
    rw [← g.flatten_append_rest]
    exact List.mem_append_left _ (List.mem_flatten.mpr ⟨group, hgroup, List.getLast_mem hne⟩)
  have hopen := g.open_before_last group hgroup
  rw [← List.dropLast_append_getLast hne, List.flatten_concat, List.length_append]
  omega

end Batch.Grouping

/-- Where every element gives at most one piece, groups of the pieces are the pieces
of slices. -/
lemma exists_slices {α β : Type} {f : α → Option β} {t : List α} {groups : List (List β)}
    {rest : List β} (h : t.filterMap f = groups.flatten ++ rest) :
    ∃ (slices : List (List α)) (back : List α), t = slices.flatten ++ back ∧
      slices.map (List.filterMap f) = groups ∧ back.filterMap f = rest := by
  induction groups generalizing t with
  | nil => exact ⟨[], t, rfl, rfl, h⟩
  | cons group groups ih =>
    rw [List.flatten_cons, List.append_assoc, List.filterMap_eq_append_iff] at h
    obtain ⟨front, tail, rfl, hfront, htail⟩ := h
    obtain ⟨slices, back, rfl, hslices, hback⟩ := ih htail
    refine ⟨front :: slices, back, ?_, ?_, hback⟩
    · rw [List.flatten_cons, List.append_assoc]
    · rw [List.map_cons, hfront, hslices]

namespace RuleSet

/-- The piece that a unit gives. Filtering gives none for a unit that it leaves out. -/
def piece? (rules : RuleSet) (mode : Mode) (u : CodeUnit) : Option Text :=
  match mode with
  | .encode => some (rules.replacement u)
  | .filter => if rules.keeps u then some [u] else none

lemma pieces_ofRules (rules : RuleSet) (mode : Mode) (t : Text) :
    ((Sanitizer.ofRules rules).emit mode t).pieces = t.filterMap (rules.piece? mode) := by
  cases mode with
  | encode => exact (congrFun List.filterMap_eq_map' t).symm
  | filter =>
    have hkept : ((Sanitizer.ofRules rules).emit .filter t).pieces =
        (t.filter rules.keeps).map fun u => [u] := rfl
    rw [hkept, ← List.filterMap_eq_map, List.filterMap_filter]
    rfl

lemma length_le_of_mem_pieces {rules : RuleSet} {mode : Mode} {t piece : Text}
    (h : ∀ u, (rules.replacement u).length ≤ 9)
    (hpiece : piece ∈ ((Sanitizer.ofRules rules).emit mode t).pieces) : piece.length ≤ 9 := by
  rw [pieces_ofRules] at hpiece
  obtain ⟨u, -, hu⟩ := List.mem_filterMap.mp hpiece
  cases mode with
  | encode =>
    rw [← Option.some.inj hu]
    exact h u
  | filter =>
    simp only [piece?, Option.ite_none_right_eq_some, Option.some.injEq] at hu
    rw [← hu.2, List.length_singleton]
    decide

/-- The input can be cut where the chunks are: each chunk is the output for a slice,
and nothing is put out for what follows the last slice. -/
lemma exists_slices_of_grouping {rules : RuleSet} {mode : Mode} {t : Text}
    (g : Grouping ((Sanitizer.ofRules rules).emit mode t).pieces) :
    ∃ (slices : List Text) (rest : Text), t = slices.flatten ++ rest ∧
      g.chunks = slices.map (fun slice => ((Sanitizer.ofRules rules).emit mode slice).text) ∧
      ((Sanitizer.ofRules rules).emit mode rest).text = [] := by
  have hpieces : t.filterMap (rules.piece? mode) = g.groups.flatten ++ g.rest := by
    rw [← pieces_ofRules, g.flatten_append_rest]
  obtain ⟨slices, rest, ht, hgroups, hrest⟩ := exists_slices hpieces
  refine ⟨slices, rest, ht, ?_, ?_⟩
  · rw [Grouping.chunks, ← hgroups, List.map_map]
    refine List.map_congr_left fun slice _ => ?_
    rw [Emission.text, pieces_ofRules, Function.comp_apply]
  · rw [Emission.text, pieces_ofRules, hrest]
    exact List.flatten_eq_nil_iff.mpr g.rest_empty

/-- Letters that stand for themselves are gathered up to the unit whose replacement fills the
chunk. -/
lemma chunks_of_fills {rules : RuleSet} {letter u : CodeUnit} {n : ℕ}
    (hletter : rules.replacement letter = [letter]) (hn : n < capacity)
    (hfull : capacity ≤ n + (rules.replacement u).length) (rest : Text) :
    (grouping ((Sanitizer.ofRules rules).emit .encode
        (List.replicate n letter ++ u :: rest)).pieces).chunks =
      (List.replicate n letter ++ rules.replacement u) ::
        (grouping ((Sanitizer.ofRules rules).emit .encode rest).pieces).chunks := by
  have hpieces : ((Sanitizer.ofRules rules).emit .encode
      (List.replicate n letter ++ u :: rest)).pieces =
        List.replicate n [letter] ++ rules.replacement u ::
          ((Sanitizer.ofRules rules).emit .encode rest).pieces := by
    have hmap : ((Sanitizer.ofRules rules).emit .encode
        (List.replicate n letter ++ u :: rest)).pieces =
          (List.replicate n letter ++ u :: rest).map rules.replacement := rfl
    rw [hmap, List.map_append, List.map_replicate, hletter]
    rfl
  have hheld : (List.replicate n [letter]).flatten = List.replicate n letter :=
    List.flatten_replicate_singleton
  have hopen : (List.replicate n [letter]).flatten.length < capacity := by
    rwa [hheld, List.length_replicate]
  have hfull' : capacity ≤ (List.replicate n [letter] ++ [rules.replacement u]).flatten.length := by
    rwa [List.flatten_concat, hheld, List.length_append, List.length_replicate]
  rw [hpieces, chunks_grouping, gather_of_fills hopen hfull', chunks_grouping, List.map_cons,
    List.flatten_concat, hheld]
  rfl

end RuleSet

namespace Sanitizer

/-- A sanitizer that never gives up. -/
def Completes (s : Sanitizer) : Prop := ∀ mode t, (s.emit mode t).failure = none

lemma completes_ofRules (rules : RuleSet) (name : Text) :
    ((ofRules rules).rename name).Completes := by
  intro mode t
  cases mode <;> rfl

lemma completes_cdata (name : Text) : (cdata.rename name).Completes := fun _ _ => rfl

variable {s : Sanitizer} {mode : Mode} {t : Text} {w : Writer}

lemma text_of_failure_eq_none (h : (s.emit mode t).failure = none) :
    s.text mode (some t) = .ok (some (s.emit mode t).text) := by
  simp only [text, h]

lemma deliver_of_neverFails (h : (s.emit mode t).failure = none) (hw : w.NeverFails) :
    s.deliver mode (some t) (some w) =
      ⟨none, some (w.takeAll (Batch.grouping (s.emit mode t).pieces).chunks).2⟩ := by
  have hnone := hw.2 (Batch.grouping (s.emit mode t).pieces).chunks
  simp only [deliver, Option.filter_some, hw.1, if_true, Emission.deliver_eq_takeAll h, hnone,
    Option.map_none]

lemma received_of_neverFails {w' : Writer} (h : (s.emit mode t).failure = none)
    (hw : w.NeverFails) (hdeliver : s.deliver mode (some t) (some w) = ⟨none, some w'⟩) :
    w'.received = w.received ++ (Batch.grouping (s.emit mode t).pieces).chunks := by
  rw [deliver_of_neverFails h hw] at hdeliver
  obtain rfl := Option.some.inj (congrArg Delivered.writer hdeliver)
  exact Writer.received_takeAll (Prod.ext (hw.2 _) rfl)

end Sanitizer

lemma Context.completes_sanitizer (c : Context) : c.sanitizer.Completes := by
  intro mode t
  cases c <;> cases mode <;> rfl

lemma Context.exists_rules {c : Context} (h : c ≠ .cdataContent) :
    ∃ rules, c.sanitizer = .ofRules rules ∧ ∀ u, (rules.replacement u).length ≤ 9 := by
  cases hc : c.rules? with
  | none => exact absurd (rules?_eq_none_iff.mp hc) h
  | some rules => exact ⟨rules, sanitizer_eq_ofRules hc, Context.length_replacement_le hc⟩

/-- The built-in contexts, the sanitizers of rule sets and that of CDATA content
never give up. Whenever a sanitizer does not, a writer that never fails receives
the returned text in chunks, one for each group of consecutive pieces. All chunks
but the last reach the capacity, and none of them does without its last piece. No
chunk is empty, so nothing is received where the text is empty. For a rule set
every chunk is the output for a slice of the input, and in the built-in contexts
that have rules it has at most 8200 units. -/
theorem Sanitizer.exists_grouping_of_deliver :
    (∀ c : Context, c.sanitizer.Completes) ∧
    (∀ rules name, ((ofRules rules).rename name).Completes) ∧
    (∀ name, (cdata.rename name).Completes) ∧
    ∀ (s : Sanitizer) (mode : Mode) (t : Text) (w : Writer),
      (s.emit mode t).failure = none → w.NeverFails →
      ∃ (g : Grouping (s.emit mode t).pieces) (w' : Writer),
        s.deliver mode (some t) (some w) = ⟨none, some w'⟩ ∧
        w'.received = w.received ++ g.chunks ∧
        s.text mode (some t) = .ok (some g.chunks.flatten) ∧
        (s.text mode (some t) = .ok (some []) → w'.received = w.received) ∧
        (∀ rules name, s = (ofRules rules).rename name → ∃ (slices : List Text) (rest : Text),
          t = slices.flatten ++ rest ∧
          g.chunks = slices.map (fun slice => (s.emit mode slice).text) ∧
          (s.emit mode rest).text = []) ∧
        (∀ c : Context, c ≠ .cdataContent → s = c.sanitizer →
          ∀ chunk ∈ g.chunks, chunk.length ≤ 8200) := by
  refine ⟨Context.completes_sanitizer, completes_ofRules, completes_cdata, ?_⟩
  intro s mode t w hs hw
  have hdeliver := deliver_of_neverFails hs hw
  have htext := text_of_failure_eq_none hs
  have hreceived := received_of_neverFails hs hw hdeliver
  refine ⟨Batch.grouping (s.emit mode t).pieces, _, hdeliver, hreceived, ?_, ?_, ?_, ?_⟩
  · rw [htext, Grouping.flatten_chunks, Emission.text]
  · intro hempty
    rw [htext] at hempty
    have hnil := Option.some.inj (Except.ok.inj hempty)
    rw [hreceived, Grouping.chunks_eq_nil _ hnil, List.append_nil]
  · rintro rules name rfl
    exact RuleSet.exists_slices_of_grouping _
  · rintro c hc rfl chunk hchunk
    obtain ⟨rules, hrules, hlength⟩ := c.exists_rules hc
    have hpieces : ∀ p ∈ (c.sanitizer.emit mode t).pieces, p.length ≤ 9 := by
      rw [hrules]
      exact fun p hp => RuleSet.length_le_of_mem_pieces hlength hp
    exact Nat.le_of_lt_succ (Grouping.length_le_of_mem_chunks _ hpieces hchunk)

/-- A writer without faults and plans, and a tag opening that takes four units and closes a
chunk of 8195 with them. -/
theorem Sanitizer.exists_grouping_of_deliver_htmlContent :
    let w : Writer := ⟨true, none, none, none, fun _ => none, none, []⟩
    let t : Text := List.replicate 8191 (unit 'a') ++ units "<b"
    w.NeverFails ∧ ∃ (w' : Writer) (slices : List Text) (rest : Text),
      Context.htmlContent.sanitizer.deliver .encode (some t) (some w) = ⟨none, some w'⟩ ∧
      w'.received = [List.replicate 8191 (unit 'a') ++ units "&lt;", units "b"] ∧
      t = slices.flatten ++ rest ∧
      w'.received =
        slices.map (fun slice => (Context.htmlContent.sanitizer.emit .encode slice).text) ∧
      ∀ chunk ∈ w'.received, chunk.length ≤ 8200 := by
  intro w t
  have hw : w.NeverFails := Writer.neverFails_of_no_plan rfl rfl (fun _ => rfl) rfl
  have hcompletes := Context.completes_sanitizer .htmlContent .encode t
  obtain ⟨g, w', hdeliver, hreceived, -, -, hslices, hlength⟩ :=
    exists_grouping_of_deliver.2.2.2 Context.htmlContent.sanitizer .encode t w hcompletes hw
  obtain ⟨slices, rest, hinput, hchunks, -⟩ := hslices Html.content (units "HtmlContent") rfl
  rw [List.nil_append] at hreceived
  -- The division that a batch makes is known, and it is the one that was delivered.
  have hfour : (Html.content.replacement (unit '<')).length = 4 := by decide
  have hgrouping : (grouping (Context.htmlContent.sanitizer.emit .encode t).pieces).chunks =
      [List.replicate 8191 (unit 'a') ++ units "&lt;", units "b"] :=
    RuleSet.chunks_of_fills (u := unit '<') (by decide) (by decide) (by rw [hfour]; decide)
      (units "b")
  have hknown := received_of_neverFails hcompletes hw hdeliver
  refine ⟨hw, w', slices, rest, hdeliver, ?_, hinput, hreceived.trans hchunks, ?_⟩
  · rw [hknown, hgrouping, List.nil_append]
  · rw [hreceived]
    exact hlength .htmlContent (by decide) rfl

end InertText
