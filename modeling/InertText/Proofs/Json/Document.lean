import InertText.Proofs.Json.Reading
import InertText.Proofs.Text.Paired
import InertText.Text.Document

/-!
# Documents that are read back

A document is read by its first unit: a quotation mark opens a text, a bracket a list, a
brace a record, and everything else is a number or nothing at all. What is written for a
document is read as the document, whatever its texts hold, if its numbers are spelled with
the units of numbers.
-/
namespace InertText

namespace Text

lemma map_self_placed (t : Text) : t.placed.map Placed.self = t := by
  have hfrom : ∀ before, (placedFrom before t).map Placed.self = t := by
    induction t with
    | nil => exact fun _ => rfl
    | cons u t ih => exact fun _ => congrArg (u :: ·) (ih _)
  rw [placed_eq_placedFrom, hfrom]

lemma length_le_length_join {separator t : Text} {ts : List Text} (h : t ∈ ts) :
    t.length ≤ (join separator ts).length := by
  have hflat := (List.infix_of_mem_flatten h).length_le
  cases ts with
  | nil => exact absurd h List.not_mem_nil
  | cons t' ts =>
    rw [length_join]
    exact hflat.trans (Nat.le_add_right _ _)

lemma length_le_length_join_succ (u : CodeUnit) (ts : List Text) :
    ts.length ≤ (join [u] ts).length + 1 := by
  cases ts with
  | nil => exact Nat.zero_le _
  | cons t ts =>
    rw [length_join, List.length_singleton, Nat.one_mul, List.length_cons, Nat.add_le_add_iff_right]
    exact Nat.le_add_left _ _

end Text

namespace Document

/-- The units that numbers are spelled with. -/
def isNumeral (u : CodeUnit) : Bool :=
  u.isDigit || u == unit '-' || u == unit '+' || u == unit '.' || u == unit 'e'

/-- The value of a string behind its opening mark, and what follows the closing one. -/
def body? (t : Text) : Option (Text × Text) :=
  if t.head? = some (unit '"') then some ([], t.tail)
  else match _h : Json.element? t with
    | none => none
    | some (value, rest) => (body? rest).map fun (more, rest) => (value ++ more, rest)
termination_by t.length
decreasing_by exact Json.length_lt_of_element? (by assumption)

section Items

variable {α : Type} (item? : Text → Option (α × Text)) (close : CodeUnit)

/-- Items with commas between them up to a closing unit, and what follows it. -/
def items? : ℕ → Text → Option (List α × Text)
  | 0, _ => none
  | fuel + 1, t =>
    match item? t with
    | none | some (_, []) => none
    | some (a, u :: rest) =>
      if u = close then some ([a], rest)
      else if u = unit ',' then (items? fuel rest).map fun (as, rest) => (a :: as, rest)
      else none

/-- The same, where there need not be any item. -/
def group? (fuel : ℕ) (t : Text) : Option (List α × Text) :=
  if t.head? = some close then some ([], t.tail) else items? item? close fuel t

end Items

/-- A key with the document behind its colon. -/
def field? (document? : Text → Option (Document × Text)) (t : Text) :
    Option ((Text × Document) × Text) :=
  match t with
  | [] => none
  | u :: t =>
    if u = unit '"' then
      match body? t with
      | some (key, v :: rest) =>
        if v = unit ':' then (document? rest).map fun (d, rest) => ((key, d), rest) else none
      | _ => none
    else none

/-- The document at the beginning of a text, and what follows it. -/
def front? : ℕ → Text → Option (Document × Text)
  | 0, _ | _, [] => none
  | fuel + 1, u :: t =>
    if u = unit '"' then (body? t).map fun (s, rest) => (text s, rest)
    else if u = unit '[' then
      (group? (front? fuel) (unit ']') fuel t).map fun (members, rest) => (list members, rest)
    else if u = unit '\x7b' then
      (group? (field? (front? fuel)) (unit '\x7d') fuel t).map fun (fields, rest) =>
        (record fields, rest)
    else if isNumeral u then
      some (number ((u :: t).takeWhile isNumeral), (u :: t).dropWhile isNumeral)
    else (Text.dropPrefix? (units "null") (u :: t)).map fun rest => (null, rest)

def read? (t : Text) : Option Document :=
  match front? t.length t with
  | some (d, []) => some d
  | _ => none

/-- What stands behind a key, if the document is a record with that key. -/
def get? (d : Document) (key : String) : Option Document :=
  match d with
  | record fields => fields.lookup (units key)
  | _ => none

def members? : Document → Option (List Document)
  | list members => some members
  | _ => none

/-- The text that a document is, or how its number is spelled. -/
def plain? : Document → Option Text
  | text t => some t
  | number spelling => some spelling
  | _ => none

/-- The numbers of the document are spelled with the units of numbers. -/
inductive Plain : Document → Prop where
  | null : Plain null
  | number {u : CodeUnit} {spelling : Text} (h : ∀ v ∈ u :: spelling, isNumeral v = true) :
    Plain (number (u :: spelling))
  | text (t : Text) : Plain (text t)
  | list {members : List Document} (h : ∀ d ∈ members, Plain d) : Plain (list members)
  | record {fields : List (Text × Document)} (h : ∀ field ∈ fields, Plain field.2) :
    Plain (record fields)

/-- A number that ends here does not go on. -/
def Stops (rest : Text) : Prop := ∀ u ∈ rest.head?, isNumeral u = false

variable {d : Document} {t rest : Text} {fuel : ℕ}

lemma element?_written (p : Text.Placed) (rest : Text) :
    Json.element? (Quoted.written p ++ rest) = some ([p.self], rest) := by
  have hshort {c : CodeUnit} (hc : (c, p.self) ∈ Json.shortEscapes) :
      Json.element? (unit '\\' :: c :: rest) = some ([p.self], rest) := Json.escape?_short hc rest
  unfold Quoted.written
  dsimp only
  split_ifs with hmark hb ht hn hf hr hdigits
  · rcases hmark with h | h <;> exact hshort (h ▸ by decide)
  · exact hshort (hb ▸ by decide)
  · exact hshort (ht ▸ by decide)
  · exact hshort (hn ▸ by decide)
  · exact hshort (hf ▸ by decide)
  · exact hshort (hr ▸ by decide)
  · exact Json.escape?_digits p.self rest
  · have hraw : Json.isRaw p.self = true := by
      simp only [not_or, Nat.not_lt] at hmark hdigits
      simp [Json.isRaw, hmark, hdigits.1]
    rw [List.singleton_append, Json.element?, if_neg fun h => hmark (.inr h), if_pos hraw]

lemma head?_cons_ne {u v : CodeUnit} (h : u ≠ v) (t : Text) : (u :: t).head? ≠ some v :=
  fun he => h (Option.some.inj he)

/-- A written form begins with a backslash, or it is the unit itself. -/
lemma head?_written_ne (p : Text.Placed) (rest : Text) :
    (Quoted.written p ++ rest).head? ≠ some (unit '"') := by
  have hback (t : Text) : (unit '\\' :: t).head? ≠ some (unit '"') := head?_cons_ne (by decide) t
  unfold Quoted.written
  dsimp only
  split_ifs with hmark
  · exact hback _
  · exact hback _
  · exact hback _
  · exact hback _
  · exact hback _
  · exact hback _
  · exact hback _
  · rw [List.singleton_append, List.head?_cons, ne_eq, Option.some_inj]
    exact fun h => hmark (.inl h)

lemma body?_flatMap_written (ps : List Text.Placed) (rest : Text) :
    body? (ps.flatMap Quoted.written ++ unit '"' :: rest) =
      some (ps.map Text.Placed.self, rest) := by
  induction ps with
  | nil =>
    rw [body?, List.flatMap_nil, List.nil_append, List.head?_cons, if_pos rfl]
    rfl
  | cons p ps ih =>
    rw [List.flatMap_cons, List.append_assoc, body?, if_neg (head?_written_ne p _)]
    split
    · rename_i h
      simp [element?_written] at h
    · rename_i value rest' h
      rw [element?_written, Option.some_inj, Prod.mk.injEq] at h
      obtain ⟨rfl, rfl⟩ := h
      rw [ih]
      rfl

lemma body?_quote (t rest : Text) :
    body? ((Quoted.quote t).tail ++ rest) = some (t, rest) := by
  rw [Quoted.quote, List.tail_cons, List.append_assoc, List.singleton_append,
    body?_flatMap_written, Text.map_self_placed]

section Items

variable {α : Type} {item? : Text → Option (α × Text)} {close : CodeUnit} {write : α → Text}
  {items : List α}

/-- Items are read back together if they are read back one by one. -/
lemma items?_join (hclose : isNumeral close = false) (hcomma : unit ',' ≠ close)
    (hitem : ∀ a ∈ items, ∀ rest, Stops rest → item? (write a ++ rest) = some (a, rest))
    (hne : items ≠ []) (hfuel : items.length ≤ fuel) (rest : Text) :
    items? item? close fuel (Text.join [unit ','] (items.map write) ++ close :: rest) =
      some (items, rest) := by
  have hstops {u : CodeUnit} (hu : isNumeral u = false) (rest : Text) : Stops (u :: rest) := by
    rintro v hv
    rwa [← Option.some.inj hv]
  induction items generalizing fuel with
  | nil => exact absurd rfl hne
  | cons a items ih =>
    obtain ⟨ha, hitems⟩ := List.forall_mem_cons.mp hitem
    cases fuel with
    | zero => exact absurd hfuel (Nat.not_succ_le_zero _)
    | succ fuel =>
      cases items with
      | nil =>
        have hlast := ha (close :: rest) (hstops hclose rest)
        simp only [List.map_cons, List.map_nil, Text.join_singleton, items?, hlast, if_pos]
      | cons b items =>
        have hrest := ih hitems (List.cons_ne_nil b items) (Nat.le_of_succ_le_succ hfuel)
        have hfirst := ha (unit ',' :: (Text.join [unit ','] ((b :: items).map write) ++
          close :: rest)) (hstops (by decide) _)
        rw [List.map_cons, List.map_cons, Text.join_cons_cons, ← List.map_cons, List.append_assoc,
          List.append_assoc, List.singleton_append, items?, hfirst]
        dsimp only
        rw [if_neg hcomma, if_pos rfl, hrest, Option.map_some]

lemma group?_join (hclose : isNumeral close = false) (hcomma : unit ',' ≠ close)
    (hitem : ∀ a ∈ items, ∀ rest, Stops rest → item? (write a ++ rest) = some (a, rest))
    (hhead : ∀ a ∈ items, ∀ rest, (write a ++ rest).head? ≠ some close)
    (hfuel : (Text.join [unit ','] (items.map write)).length < fuel) (rest : Text) :
    group? item? close fuel (Text.join [unit ','] (items.map write) ++ close :: rest) =
      some (items, rest) := by
  have hlength : items.length ≤ fuel := by
    have hjoin := Text.length_le_length_join_succ (unit ',') (items.map write)
    rw [List.length_map] at hjoin
    omega
  rw [group?]
  cases items with
  | nil => exact if_pos rfl
  | cons a items =>
    have hfirst : (Text.join [unit ','] ((a :: items).map write) ++ close :: rest).head? ≠
        some close := by
      cases items with
      | nil =>
        rw [List.map_singleton, Text.join_singleton]
        exact hhead a List.mem_cons_self _
      | cons b items =>
        rw [List.map_cons, List.map_cons, Text.join_cons_cons, List.append_assoc]
        exact hhead a List.mem_cons_self _
    rw [if_neg hfirst, items?_join hclose hcomma hitem (List.cons_ne_nil a items) hlength]

end Items

/-- A document does not begin like the end of a list. -/
lemma Plain.head?_write_ne (h : Plain d) (rest : Text) :
    (d.write ++ rest).head? ≠ some (unit ']') := by
  cases h with
  | null => exact head?_cons_ne (by decide) _
  | number hspelling =>
    refine head?_cons_ne ?_ _
    rintro rfl
    exact absurd (hspelling _ List.mem_cons_self) (by decide)
  | text t => exact head?_cons_ne (by decide) _
  | list _ => exact head?_cons_ne (by decide) _
  | record _ => exact head?_cons_ne (by decide) _

lemma Plain.write_ne_nil (h : Plain d) : d.write ≠ [] := by
  cases h <;> exact List.cons_ne_nil _ _

lemma takeWhile_numeral {spelling : Text} (h : ∀ u ∈ spelling, isNumeral u = true)
    (hrest : Stops rest) : (spelling ++ rest).takeWhile isNumeral = spelling ∧
      (spelling ++ rest).dropWhile isNumeral = rest := by
  have hstop : rest.takeWhile isNumeral = [] ∧ rest.dropWhile isNumeral = rest := by
    cases rest with
    | nil => exact ⟨rfl, rfl⟩
    | cons u rest => simp [hrest u rfl]
  rw [List.takeWhile_append_of_pos h, List.dropWhile_append_of_pos h, hstop.1, hstop.2,
    List.append_nil]
  exact ⟨rfl, rfl⟩

/-- A field is read back if its document is. -/
lemma field?_writeField {document? : Text → Option (Document × Text)} {field : Text × Document}
    (h : document? (field.2.write ++ rest) = some (field.2, rest)) :
    field? document? (writeField field ++ rest) = some (field, rest) := by
  have hkey := body?_quote field.1 (unit ':' :: (field.2.write ++ rest))
  rw [writeField, List.append_assoc, List.cons_append]
  change field? document? (unit '"' :: ((Quoted.quote field.1).tail ++ _)) = _
  rw [field?, if_pos rfl, hkey]
  dsimp only
  rw [if_pos rfl, h]
  rfl

/-- What is written for a document is read as the document, whatever follows that does not go on
with a number. The fuel has to last for the nested documents, which are written in less. -/
theorem front?_write (h : Plain d) (hfuel : d.write.length ≤ fuel) (hrest : Stops rest) :
    front? fuel (d.write ++ rest) = some (d, rest) := by
  induction fuel generalizing d rest with
  | zero => exact absurd (List.length_eq_zero_iff.mp (Nat.le_zero.mp hfuel)) h.write_ne_nil
  | succ fuel ih =>
    cases h with
    | null =>
      have hnull : Text.dropPrefix? (units "null") (units "null" ++ rest) = some rest :=
        Text.dropPrefix?_eq_some_iff.mpr rfl
      change front? (fuel + 1) (unit 'n' :: (units "ull" ++ rest)) = _
      rw [front?, if_neg (by decide), if_neg (by decide), if_neg (by decide), if_neg (by decide)]
      exact congrArg (Option.map _) hnull
    | number hspelling =>
      have hu := hspelling _ List.mem_cons_self
      obtain ⟨htake, hdrop⟩ := takeWhile_numeral hspelling hrest
      rw [write, List.cons_append, front?, if_neg, if_neg, if_neg, if_pos hu, ← List.cons_append,
        htake, hdrop]
      all_goals
        rintro rfl
        exact absurd hu (by decide)
    | text t =>
      change front? (fuel + 1) (unit '"' :: ((Quoted.quote t).tail ++ rest)) = _
      rw [front?, if_pos rfl, body?_quote, Option.map_some]
    | @list members hmembers =>
      rw [write, writeMembers_eq_map] at hfuel ⊢
      rw [List.length_cons, List.length_append, List.length_singleton,
        Nat.add_le_add_iff_right] at hfuel
      have hmember : ∀ d ∈ members, ∀ rest, Stops rest →
          front? fuel (d.write ++ rest) = some (d, rest) := by
        intro d hd rest hrest
        have hle : d.write.length ≤ (Text.join [unit ','] (members.map write)).length :=
          Text.length_le_length_join (List.mem_map_of_mem hd)
        exact ih (hmembers d hd) (hle.trans (Nat.le_of_succ_le hfuel)) hrest
      have hgroup := group?_join (by decide) (by decide) hmember
        (fun d hd => (hmembers d hd).head?_write_ne) hfuel rest
      rw [List.cons_append, List.append_assoc, List.singleton_append, front?,
        if_neg (by decide), if_pos rfl, hgroup, Option.map_some]
    | @record fields hfields =>
      rw [write, writeFields_eq_map] at hfuel ⊢
      rw [List.length_cons, List.length_append, List.length_singleton,
        Nat.add_le_add_iff_right] at hfuel
      have hfield : ∀ field ∈ fields, ∀ rest, Stops rest →
          field? (front? fuel) (writeField field ++ rest) = some (field, rest) := by
        intro field hmem rest hrest
        have hle : (writeField field).length ≤
            (Text.join [unit ','] (fields.map writeField)).length :=
          Text.length_le_length_join (List.mem_map_of_mem hmem)
        rw [writeField, List.length_append, List.length_cons] at hle
        exact field?_writeField (ih (hfields field hmem) (by omega) hrest)
      have hclose : isNumeral (unit '\x7d') = false := by decide
      have hgroup := group?_join hclose (by decide) hfield
        (fun field _ _ => head?_cons_ne (by decide) _) hfuel rest
      rw [List.cons_append, List.append_assoc, List.singleton_append, front?,
        if_neg (by decide), if_neg (by decide), if_pos rfl, hgroup, Option.map_some]

theorem read?_write (h : Plain d) : read? d.write = some d := by
  have hstops : Stops [] := fun u hu => absurd hu (Option.not_mem_none u)
  have hfront := front?_write h le_rfl hstops
  rw [List.append_nil] at hfront
  rw [read?, hfront]

end Document

end InertText
