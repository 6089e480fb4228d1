import Archivist.Proofs.Json.Parts
import Archivist.Proofs.Json.Tokens

/-!
Printed text is read back. Compact and indented text are two spacings of one spelling, and reading
passes over the blanks of either. Main statement: the text of a document without floats is read as that
document if no more containers nest in it than may be open at once, and has no reading otherwise.
-/

set_option autoImplicit false

namespace Archivist

namespace Json

/-- The blanks of a text: what stands before an item, a field or a closing bracket of a level, and what
stands after a colon. -/
structure Spacing where
  line : Nat → List Char
  gap : List Char

namespace Spacing

def compact : Spacing := ⟨fun _ => [], []⟩

def indented : Spacing := ⟨newLine, [' ']⟩

structure IsBlank (s : Spacing) : Prop where
  line (level : Nat) : Blank (s.line level)
  gap : Blank s.gap

theorem isBlank_compact : compact.IsBlank := ⟨fun _ => nofun, nofun⟩

theorem isBlank_indented : indented.IsBlank where
  line level := by
    intro c hc
    rcases List.mem_cons.1 hc with rfl | hc
    · rfl
    · rw [(List.mem_replicate.1 hc).2]
      rfl
  gap := by simp [Blank, indented, isBlank]

end Spacing

variable {s : Spacing}

mutual

/-- The text of a document with given blanks. -/
def spell (s : Spacing) (level : Nat) : Json → List Char
  | .array (item :: rest) =>
    '[' :: (s.line (level + 1) ++ (spell s (level + 1) item ++ spellItems s level rest))
  | .object ((name, value) :: rest) =>
    '\x7b' :: (s.line (level + 1) ++ (printString name ++ ':' ::
      (s.gap ++ (spell s (level + 1) value ++ spellFields s level rest))))
  | d => print d

def spellItems (s : Spacing) (level : Nat) : List Json → List Char
  | [] => s.line level ++ [']']
  | item :: rest => ',' :: (s.line (level + 1) ++ (spell s (level + 1) item ++ spellItems s level rest))

def spellFields (s : Spacing) (level : Nat) : List (String × Json) → List Char
  | [] => s.line level ++ ['\x7d']
  | (name, value) :: rest =>
    ',' :: (s.line (level + 1) ++ (printString name ++ ':' ::
      (s.gap ++ (spell s (level + 1) value ++ spellFields s level rest))))

end

mutual

theorem spell_compact (level : Nat) (d : Json) : spell .compact level d = print d := by
  match d with
  | .array (item :: rest) =>
    rw [spell, print, spell_compact (level + 1) item, spellItems_compact level rest]
    rfl
  | .object ((name, value) :: rest) =>
    rw [spell, print, spell_compact (level + 1) value, spellFields_compact level rest]
    rfl
  | .null | .bool _ | .int _ | .float _ | .string _ | .array [] | .object [] => rfl

theorem spellItems_compact (level : Nat) (items : List Json) :
    spellItems .compact level items = printItems items := by
  match items with
  | [] => rfl
  | item :: rest =>
    rw [spellItems, printItems, spell_compact (level + 1) item, spellItems_compact level rest]
    rfl

theorem spellFields_compact (level : Nat) (fields : List (String × Json)) :
    spellFields .compact level fields = printFields fields := by
  match fields with
  | [] => rfl
  | (name, value) :: rest =>
    rw [spellFields, printFields, spell_compact (level + 1) value, spellFields_compact level rest]
    rfl

end

mutual

theorem spell_indented (level : Nat) (d : Json) : spell .indented level d = printIndented level d := by
  match d with
  | .array (item :: rest) =>
    simp only [spell, printIndented, spell_indented (level + 1) item, spellItems_indented level rest,
      List.append_assoc]
    rfl
  | .object ((name, value) :: rest) =>
    simp only [spell, printIndented, spell_indented (level + 1) value, spellFields_indented level rest,
      List.append_assoc]
    rfl
  | .null | .bool _ | .int _ | .float _ | .string _ | .array [] | .object [] => rfl

theorem spellItems_indented (level : Nat) (items : List Json) :
    spellItems .indented level items = indentItems level items := by
  match items with
  | [] => rfl
  | item :: rest =>
    simp only [spellItems, indentItems, spell_indented (level + 1) item, spellItems_indented level rest,
      List.append_assoc]
    rfl

theorem spellFields_indented (level : Nat) (fields : List (String × Json)) :
    spellFields .indented level fields = indentFields level fields := by
  match fields with
  | [] => rfl
  | (name, value) :: rest =>
    simp only [spellFields, indentFields, spell_indented (level + 1) value, spellFields_indented level rest,
      List.append_assoc]
    rfl

end

theorem toList_render (indented : Bool) (d : Json) :
    (d.render indented).toList = d.spell (if indented then .indented else .compact) 0 := by
  cases indented <;> simp [render, spell_indented, spell_compact]

/-! Reading one value, by its first character. -/

theorem readValue_append_blanks {blanks : List Char} (h : Blank blanks) (fuel room : Nat) (cs : List Char) :
    readValue fuel room (blanks ++ cs) = readValue fuel room cs := by
  cases fuel with
  | zero => rfl
  | succ fuel => rw [readValue, readValue, skipBlanks_append h]

theorem readItems_append_blanks {blanks : List Char} (h : Blank blanks) (fuel room : Nat) (cs : List Char) :
    readItems fuel room (blanks ++ cs) = readItems fuel room cs := by
  cases fuel with
  | zero => rfl
  | succ fuel => rw [readItems, readItems, readValue_append_blanks h]

theorem readFields_append_blanks {blanks : List Char} (h : Blank blanks) (fuel room : Nat) (cs : List Char) :
    readFields fuel room (blanks ++ cs) = readFields fuel room cs := by
  cases fuel with
  | zero => rfl
  | succ fuel => rw [readFields, readFields, skipBlanks_append h]

theorem readValue_string (fuel room : Nat) (text : String) (rest : List Char) :
    readValue (fuel + 1) room (printString text ++ rest) = some (.string text, rest) := by
  rw [printString, List.cons_append, List.append_assoc, readValue, skipBlanks_cons (by decide)]
  simp only [List.cons_append, List.nil_append, readString_print, Option.map_some]

theorem readValue_minus (fuel room : Nat) (cs : List Char) :
    readValue (fuel + 1) room ('-' :: cs) = readNumber true cs := by
  rw [readValue, skipBlanks_cons (by decide)]
  rfl

theorem not_isBlank_of_isDigit {c : Char} (h : c.isDigit = true) : isBlank c = false := by
  rw [← Bool.not_eq_true]
  intro hb
  simp only [isBlank, Bool.or_eq_true, beq_iff_eq] at hb
  rcases hb with ((rfl | rfl) | rfl) | rfl <;> exact absurd h (by decide)

theorem readValue_digit {c : Char} (h : c.isDigit = true) (fuel room : Nat) (cs : List Char) :
    readValue (fuel + 1) room (c :: cs) = readNumber false (c :: cs) := by
  rw [readValue, skipBlanks_cons (not_isBlank_of_isDigit h)]
  split
  case h_8 => rfl
  all_goals
    -- no other character that a value may start with is a digit
    rename_i heq
    cases heq
    exact absurd h (by decide)

theorem readValue_int {n : Int} (hn : (Json.int n).Proper) (fuel room : Nat) {rest : List Char}
    (hr : EndsNumber rest) : readValue (fuel + 1) room (printInt n ++ rest) = some (.int n, rest) := by
  unfold printInt
  split
  · rename_i hneg
    rw [List.cons_append, readValue_minus, readNumber_of_neg hneg hn.1 hr]
  · rename_i hneg
    obtain ⟨c, digits, hc⟩ := List.exists_cons_of_ne_nil (Nat.toDigits_ne_nil (n := n.natAbs) (b := 10))
    have hdigit : c.isDigit = true :=
      Nat.isDigit_of_mem_toDigits (by decide) (by decide) (hc ▸ List.mem_cons_self)
    rw [hc, List.cons_append, readValue_digit hdigit, ← List.cons_append, ← hc,
      readNumber_of_nonneg (Int.not_lt.1 hneg) hn.2 hr]

theorem readValue_bracket {c : Char} (hb : isBlank c = false) (hc : c ≠ ']') (fuel room : Nat)
    {blanks : List Char} (h : Blank blanks) (cs : List Char) :
    readValue (fuel + 1) room ('[' :: (blanks ++ c :: cs)) =
      if room = 0 then none
      else (readItems fuel (room - 1) (c :: cs)).map fun (items, left) => (.array items, left) := by
  rw [readValue, skipBlanks_cons (by decide)]
  simp only [skipBlanks_append h, skipBlanks_cons hb]
  split
  · rfl
  · split
    · simp_all
    · rfl

theorem readValue_brace (fuel room : Nat) {blanks : List Char} (h : Blank blanks) (cs : List Char) :
    readValue (fuel + 1) room ('\x7b' :: (blanks ++ '"' :: cs)) =
      if room = 0 then none
      else (readFields fuel (room - 1) ('"' :: cs)).map fun (fields, left) =>
        (.object (Fields.ofEntries fields), left) := by
  rw [readValue, skipBlanks_cons (by decide)]
  simp only [skipBlanks_append h, skipBlanks_cons (show isBlank '"' = false by decide)]
  rfl

/-! Items and fields, by what follows the value that is read first. -/

section

variable {fuel room : Nat} {cs left blanks : List Char} {item : Json}

theorem readItems_of_none (h : readValue fuel room cs = none) : readItems (fuel + 1) room cs = none := by
  rw [readItems, h]
  rfl

theorem readItems_of_bracket (h : readValue fuel room cs = some (item, blanks ++ ']' :: left))
    (hb : Blank blanks) : readItems (fuel + 1) room cs = some ([item], left) := by
  simp only [readItems, h, Option.bind_eq_bind, Option.bind_some, skipBlanks_append hb,
    skipBlanks_cons (show isBlank ']' = false by decide)]

theorem readItems_of_comma (h : readValue fuel room cs = some (item, ',' :: left)) :
    readItems (fuel + 1) room cs =
      (readItems fuel room left).map fun (items, left) => (item :: items, left) := by
  simp only [readItems, h, Option.bind_eq_bind, Option.bind_some,
    skipBlanks_cons (show isBlank ',' = false by decide)]
  cases readItems fuel room left <;> rfl

theorem readFields_of_none (name : String) (h : readValue fuel room cs = none) :
    readFields (fuel + 1) room (printString name ++ ':' :: cs) = none := by
  simp only [printString, List.cons_append, List.append_assoc, List.nil_append, readFields,
    skipBlanks_cons (show isBlank '"' = false by decide), readString_print, Option.bind_eq_bind,
    Option.bind_some, skipBlanks_cons (show isBlank ':' = false by decide), h, Option.bind_none]

theorem readFields_of_brace (name : String) (h : readValue fuel room cs = some (item, blanks ++ '\x7d' :: left))
    (hb : Blank blanks) :
    readFields (fuel + 1) room (printString name ++ ':' :: cs) = some ([(name, item)], left) := by
  simp only [printString, List.cons_append, List.append_assoc, List.nil_append, readFields,
    skipBlanks_cons (show isBlank '"' = false by decide), readString_print, Option.bind_eq_bind,
    Option.bind_some, skipBlanks_cons (show isBlank ':' = false by decide), h, skipBlanks_append hb,
    skipBlanks_cons (show isBlank '\x7d' = false by decide)]

theorem readFields_of_comma (name : String) (h : readValue fuel room cs = some (item, ',' :: left)) :
    readFields (fuel + 1) room (printString name ++ ':' :: cs) =
      (readFields fuel room left).map fun (fields, left) => ((name, item) :: fields, left) := by
  simp only [printString, List.cons_append, List.append_assoc, List.nil_append, readFields,
    skipBlanks_cons (show isBlank '"' = false by decide), readString_print, Option.bind_eq_bind,
    Option.bind_some, skipBlanks_cons (show isBlank ':' = false by decide), h,
    skipBlanks_cons (show isBlank ',' = false by decide)]
  cases readFields fuel room left <;> rfl

end

/-- A document is read from its text, as far as there is room for its containers. -/
def Reads (s : Spacing) (d : Json) : Prop :=
  ∀ (fuel room level : Nat) (rest : List Char), d.weight ≤ fuel → EndsNumber rest →
    readValue fuel room (d.spell s level ++ rest) = if d.depth ≤ room then some (d, rest) else none

theorem endsNumber_append {blanks : List Char} (h : Blank blanks) {c : Char} {cs : List Char}
    (hc : EndsNumber (c :: cs)) : EndsNumber (blanks ++ c :: cs) := by
  cases blanks with
  | nil => exact hc
  | cons b blanks =>
    have hb := h b List.mem_cons_self
    simp only [isBlank, Bool.or_eq_true, beq_iff_eq] at hb
    refine endsNumber_cons ?_ _
    rcases hb with ((rfl | rfl) | rfl) | rfl <;> decide

section

variable (s) (level : Nat) (rest : List Char)

theorem spellItems_nil_append : spellItems s level [] ++ rest = s.line level ++ ']' :: rest := by
  simp [spellItems]

theorem spellItems_cons_append (item : Json) (items : List Json) :
    spellItems s level (item :: items) ++ rest =
      ',' :: (s.line (level + 1) ++ (item.spell s (level + 1) ++ (spellItems s level items ++ rest))) := by
  simp [spellItems]

theorem spellFields_nil_append : spellFields s level [] ++ rest = s.line level ++ '\x7d' :: rest := by
  simp [spellFields]

theorem spellFields_cons_append (name : String) (value : Json) (fields : List (String × Json)) :
    spellFields s level ((name, value) :: fields) ++ rest =
      ',' :: (s.line (level + 1) ++ (printString name ++ ':' ::
        (s.gap ++ (value.spell s (level + 1) ++ (spellFields s level fields ++ rest))))) := by
  simp [spellFields]

end

theorem endsNumber_spellItems (hs : s.IsBlank) (level : Nat) (items : List Json) (rest : List Char) :
    EndsNumber (spellItems s level items ++ rest) := by
  cases items with
  | nil =>
    rw [spellItems_nil_append]
    exact endsNumber_append (hs.line level) (endsNumber_cons (by decide) rest)
  | cons item items => exact endsNumber_cons (by decide) _

theorem endsNumber_spellFields (hs : s.IsBlank) (level : Nat) (fields : List (String × Json))
    (rest : List Char) : EndsNumber (spellFields s level fields ++ rest) := by
  cases fields with
  | nil =>
    rw [spellFields_nil_append]
    exact endsNumber_append (hs.line level) (endsNumber_cons (by decide) rest)
  | cons field fields => exact endsNumber_cons (by decide) _

theorem readItems_spell (hs : s.IsBlank) {item : Json} {items : List Json} (hi : item.Reads s)
    (h : ∀ item ∈ items, item.Reads s) {fuel : Nat} (hf : weightItems (item :: items) ≤ fuel)
    (room level : Nat) (rest : List Char) :
    readItems fuel room (item.spell s (level + 1) ++ (spellItems s level items ++ rest)) =
      if depthItems (item :: items) ≤ room then some (item :: items, rest) else none := by
  induction items generalizing item fuel with
  | nil =>
    simp only [weightItems] at hf
    obtain ⟨fuel, rfl⟩ := Nat.exists_eq_succ_of_ne_zero (show fuel ≠ 0 by omega)
    have hv := hi fuel room (level + 1) _ (by omega) (endsNumber_spellItems hs level [] rest)
    rw [spellItems_nil_append] at hv ⊢
    simp only [depthItems, Nat.max_zero]
    split <;> rename_i hd
    · rw [if_pos hd] at hv
      exact readItems_of_bracket hv (hs.line level)
    · rw [if_neg hd] at hv
      exact readItems_of_none hv
  | cons next items ih =>
    simp only [weightItems] at hf
    obtain ⟨fuel, rfl⟩ := Nat.exists_eq_succ_of_ne_zero (show fuel ≠ 0 by omega)
    have hv := hi fuel room (level + 1) _ (by omega) (endsNumber_spellItems hs level (next :: items) rest)
    have hrest := ih (h next List.mem_cons_self) (fun i hi => h i (List.mem_cons_of_mem _ hi))
      (show weightItems (next :: items) ≤ fuel by simp only [weightItems]; omega)
    rw [spellItems_cons_append] at hv ⊢
    rw [depthItems]
    by_cases hd : item.depth ≤ room
    · rw [if_pos hd] at hv
      rw [readItems_of_comma hv, readItems_append_blanks (hs.line _), hrest]
      simp only [Nat.max_le, hd, true_and]
      split <;> rfl
    · rw [if_neg hd] at hv
      rw [readItems_of_none hv, if_neg fun hm => hd (Nat.max_le.1 hm).1]

theorem readFields_spell (hs : s.IsBlank) (name : String) {value : Json} {fields : List (String × Json)}
    (hi : value.Reads s) (h : ∀ field ∈ fields, field.2.Reads s) {fuel : Nat}
    (hf : weightFields ((name, value) :: fields) ≤ fuel) (room level : Nat) (rest : List Char) :
    readFields fuel room (printString name ++ ':' ::
        (s.gap ++ (value.spell s (level + 1) ++ (spellFields s level fields ++ rest)))) =
      if depthFields ((name, value) :: fields) ≤ room then some ((name, value) :: fields, rest) else none := by
  induction fields generalizing name value fuel with
  | nil =>
    simp only [weightFields] at hf
    obtain ⟨fuel, rfl⟩ := Nat.exists_eq_succ_of_ne_zero (show fuel ≠ 0 by omega)
    have hv := hi fuel room (level + 1) _ (by omega) (endsNumber_spellFields hs level [] rest)
    rw [← readValue_append_blanks hs.gap] at hv
    rw [spellFields_nil_append] at hv ⊢
    simp only [depthFields, Nat.max_zero]
    split <;> rename_i hd
    · rw [if_pos hd] at hv
      exact readFields_of_brace name hv (hs.line level)
    · rw [if_neg hd] at hv
      exact readFields_of_none name hv
  | cons next fields ih =>
    obtain ⟨key, content⟩ := next
    simp only [weightFields] at hf
    obtain ⟨fuel, rfl⟩ := Nat.exists_eq_succ_of_ne_zero (show fuel ≠ 0 by omega)
    have hv := hi fuel room (level + 1) _ (by omega)
      (endsNumber_spellFields hs level ((key, content) :: fields) rest)
    have hrest := ih key (h (key, content) List.mem_cons_self)
      (fun i hi => h i (List.mem_cons_of_mem _ hi))
      (show weightFields ((key, content) :: fields) ≤ fuel by simp only [weightFields]; omega)
    rw [← readValue_append_blanks hs.gap] at hv
    rw [spellFields_cons_append] at hv ⊢
    rw [depthFields]
    by_cases hd : value.depth ≤ room
    · rw [if_pos hd] at hv
      rw [readFields_of_comma name hv, readFields_append_blanks (hs.line _), hrest]
      simp only [Nat.max_le, hd, true_and]
      split <;> rfl
    · rw [if_neg hd] at hv
      rw [readFields_of_none name hv, if_neg fun hm => hd (Nat.max_le.1 hm).1]

theorem exists_cons_spell {d : Json} (h : d.isFloat = false) (level : Nat) :
    ∃ c cs, d.spell s level = c :: cs ∧ isBlank c = false ∧ c ≠ ']' := by
  match d with
  | .null => exact ⟨_, _, rfl, by decide, by decide⟩
  | .bool true => exact ⟨_, _, rfl, by decide, by decide⟩
  | .bool false => exact ⟨_, _, rfl, by decide, by decide⟩
  | .string text => exact ⟨_, _, rfl, by decide, by decide⟩
  | .array [] => exact ⟨_, _, rfl, by decide, by decide⟩
  | .array (item :: rest) => exact ⟨_, _, rfl, by decide, by decide⟩
  | .object [] => exact ⟨_, _, rfl, by decide, by decide⟩
  | .object ((name, value) :: rest) => exact ⟨_, _, rfl, by decide, by decide⟩
  | .int n =>
    rw [spell, print, printInt]
    · split
      · exact ⟨_, _, rfl, by decide, by decide⟩
      · obtain ⟨c, digits, hc⟩ := List.exists_cons_of_ne_nil (Nat.toDigits_ne_nil (n := n.natAbs) (b := 10))
        have hdigit : c.isDigit = true :=
          Nat.isDigit_of_mem_toDigits (by decide) (by decide) (hc ▸ List.mem_cons_self)
        refine ⟨c, digits, hc, not_isBlank_of_isDigit hdigit, ?_⟩
        rintro rfl
        exact absurd hdigit (by decide)
    · exact nofun
    · exact nofun

theorem reads_array (hs : s.IsBlank) {items : List Json} (h : ∀ item ∈ items, item.Reads s)
    (hf : ∀ item ∈ items, item.isFloat = false) : (Json.array items).Reads s := by
  intro fuel room level rest hfuel hr
  simp only [weight] at hfuel
  obtain ⟨fuel, rfl⟩ := Nat.exists_eq_succ_of_ne_zero (show fuel ≠ 0 by omega)
  cases items with
  | nil =>
    cases room with
    | zero => rfl
    | succ room => simp [depth, depthItems]; rfl
  | cons item items =>
    obtain ⟨hi, h⟩ := List.forall_mem_cons.1 h
    obtain ⟨c, cs, hc, hblank, hclose⟩ := exists_cons_spell (s := s) (hf item List.mem_cons_self) (level + 1)
    have hitems := readItems_spell hs hi h (show weightItems (item :: items) ≤ fuel by omega) (room - 1) level rest
    rw [hc, List.cons_append] at hitems
    rw [spell, List.cons_append, hc]
    simp only [List.append_assoc, List.cons_append]
    rw [readValue_bracket hblank hclose fuel room (hs.line _), hitems, depth]
    cases room with
    | zero => rfl
    | succ room =>
      simp only [Nat.add_one_sub_one, Nat.add_le_add_iff_right, Nat.add_one_ne_zero, if_false]
      split <;> rfl

theorem reads_object (hs : s.IsBlank) {fields : Fields} (h : ∀ field ∈ fields, field.2.Reads s)
    (hn : fields.names.Nodup) : (Json.object fields).Reads s := by
  intro fuel room level rest hfuel hr
  simp only [weight] at hfuel
  obtain ⟨fuel, rfl⟩ := Nat.exists_eq_succ_of_ne_zero (show fuel ≠ 0 by omega)
  cases fields with
  | nil =>
    cases room with
    | zero => rfl
    | succ room => simp [depth, depthFields]; rfl
  | cons field fields =>
    obtain ⟨name, value⟩ := field
    obtain ⟨hi, h⟩ := List.forall_mem_cons.1 h
    have hfields := readFields_spell hs name hi h
      (show weightFields ((name, value) :: fields) ≤ fuel by omega) (room - 1) level rest
    simp only [printString, List.append_assoc, List.cons_append] at hfields
    simp only [spell, printString, List.append_assoc, List.cons_append]
    rw [readValue_brace fuel room (hs.line _), hfields, depth]
    cases room with
    | zero => rfl
    | succ room =>
      simp only [Nat.add_one_sub_one, Nat.add_le_add_iff_right, Nat.add_one_ne_zero, if_false]
      split
      · simp only [Option.map_some, Fields.ofEntries_of_nodup hn]
      · rfl

theorem reads_of_leaf {d : Json} (hd : d.depth = 0)
    (h : ∀ (fuel room : Nat) (rest : List Char), EndsNumber rest →
      readValue (fuel + 1) room (print d ++ rest) = some (d, rest)) : d.Reads s := by
  intro fuel room level rest hfuel hr
  have hspell : d.spell s level = print d := by
    unfold spell
    split
    · cases hd
    · cases hd
    · rfl
  have hpos : 0 < d.weight := by
    unfold weight
    split <;> omega
  obtain ⟨fuel, rfl⟩ := Nat.exists_eq_succ_of_ne_zero (show fuel ≠ 0 by omega)
  rw [hspell, h fuel room rest hr, hd, if_pos (Nat.zero_le room)]

mutual

theorem reads (hs : s.IsBlank) (d : Json) (hv : d.Valid) (hf : d.FloatFree) : d.Reads s := by
  match d with
  | .null | .bool true | .bool false => exact reads_of_leaf rfl fun fuel room rest hr => rfl
  | .int n => exact reads_of_leaf rfl fun fuel room rest hr => readValue_int (hv _ (mem_parts_self _)) fuel room hr
  | .float x => exact absurd (hf _ (mem_parts_self _)) (by simp [isFloat])
  | .string text => exact reads_of_leaf rfl fun fuel room rest hr => readValue_string fuel room text rest
  | .array items =>
    obtain ⟨-, hv⟩ := forall_parts_array.1 hv
    obtain ⟨-, hf⟩ := forall_parts_array.1 hf
    exact reads_array hs (reads_items hs items hv hf) fun item hi => hf item hi item (mem_parts_self item)
  | .object fields =>
    obtain ⟨hn, hv⟩ := forall_parts_object.1 hv
    obtain ⟨-, hf⟩ := forall_parts_object.1 hf
    exact reads_object hs (reads_fields hs fields hv hf) hn

theorem reads_items (hs : s.IsBlank) (items : List Json) (hv : ∀ item ∈ items, item.Valid)
    (hf : ∀ item ∈ items, item.FloatFree) : ∀ item ∈ items, item.Reads s := by
  match items with
  | [] => exact nofun
  | item :: rest =>
    obtain ⟨hv, hvs⟩ := List.forall_mem_cons.1 hv
    obtain ⟨hf, hfs⟩ := List.forall_mem_cons.1 hf
    exact List.forall_mem_cons.2 ⟨reads hs item hv hf, reads_items hs rest hvs hfs⟩

theorem reads_fields (hs : s.IsBlank) (fields : List (String × Json)) (hv : ∀ field ∈ fields, field.2.Valid)
    (hf : ∀ field ∈ fields, field.2.FloatFree) : ∀ field ∈ fields, field.2.Reads s := by
  match fields with
  | [] => exact nofun
  | (name, value) :: rest =>
    obtain ⟨hv, hvs⟩ := List.forall_mem_cons.1 hv
    obtain ⟨hf, hfs⟩ := List.forall_mem_cons.1 hf
    exact List.forall_mem_cons.2 ⟨reads hs value hv hf, reads_fields hs rest hvs hfs⟩

end

/-! The fuel of reading: every value and every field of a document takes up a character of its own. -/

mutual

theorem weight_le_length_spell (d : Json) (hf : d.FloatFree) (level : Nat) :
    d.weight ≤ (d.spell s level).length := by
  obtain ⟨c, cs, hc, -⟩ := exists_cons_spell (s := s) (hf d (mem_parts_self d)) level
  match d with
  | .null | .bool _ | .int _ | .float _ | .string _ | .array [] | .object [] =>
    rw [hc]
    simp [weight, weightItems, weightFields]
  | .array (item :: rest) =>
    obtain ⟨hi, hr⟩ := List.forall_mem_cons.1 (forall_parts_array.1 hf).2
    have := weight_le_length_spell item hi (level + 1)
    have := weightItems_lt_length_spellItems rest hr level
    simp only [weight, weightItems, spell, List.length_cons, List.length_append]
    omega
  | .object ((name, value) :: rest) =>
    obtain ⟨hi, hr⟩ := List.forall_mem_cons.1 (forall_parts_object.1 hf).2
    have := weight_le_length_spell value hi (level + 1)
    have := weightFields_lt_length_spellFields rest hr level
    simp only [weight, weightFields, spell, List.length_cons, List.length_append]
    omega

theorem weightItems_lt_length_spellItems (items : List Json) (hf : ∀ item ∈ items, item.FloatFree)
    (level : Nat) : weightItems items < (spellItems s level items).length := by
  match items with
  | [] => simp [weightItems, spellItems]
  | item :: rest =>
    obtain ⟨hi, hr⟩ := List.forall_mem_cons.1 hf
    have := weight_le_length_spell item hi (level + 1)
    have := weightItems_lt_length_spellItems rest hr level
    simp only [weightItems, spellItems, List.length_cons, List.length_append]
    omega

theorem weightFields_lt_length_spellFields (fields : List (String × Json))
    (hf : ∀ field ∈ fields, field.2.FloatFree) (level : Nat) :
    weightFields fields < (spellFields s level fields).length := by
  match fields with
  | [] => simp [weightFields, spellFields]
  | (name, value) :: rest =>
    obtain ⟨hi, hr⟩ := List.forall_mem_cons.1 hf
    have := weight_le_length_spell value hi (level + 1)
    have := weightFields_lt_length_spellFields rest hr level
    simp only [weightFields, spellFields, List.length_cons, List.length_append]
    omega

end

theorem parse?_render (indented : Bool) {d : Json} (hv : d.Valid) (hf : d.FloatFree) :
    parse? (d.render indented) = if d.depth ≤ maxDepth then some d else none := by
  have hs : (if indented then Spacing.indented else .compact).IsBlank := by
    cases indented
    · exact Spacing.isBlank_compact
    · exact Spacing.isBlank_indented
  have hweight := weight_le_length_spell (s := if indented then .indented else .compact) d hf 0
  have hread := reads hs d hv hf (2 * (d.render indented).toList.length + 1) maxDepth 0 []
    (by rw [toList_render]; omega) endsNumber_nil
  rw [List.append_nil, ← toList_render] at hread
  simp only [parse?, hread]
  split <;> rfl

end Json

end Archivist
