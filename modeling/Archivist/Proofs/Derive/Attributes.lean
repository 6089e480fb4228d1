import Archivist.Derive.Expansion
import Archivist.Proofs.Derive.FirstFault

/-!
The attributes of a declaration as one list of places, which are gone through in order, and what their items
ask for. Main statements: `TypeOptions.read_firstFault` and `FieldOptions.readAll_firstFault`. Reading stops at the
first place where something is wrong, and without faults it gives the options that the items ask for, whichever
attributes they are spread over.
-/

set_option autoImplicit false

namespace Archivist.Derive

open Source (Attribute Delimiter Fault PathExpr TextLiteral)

/-- A place in attributes where something can be wrong. -/
inductive Place where
  /-- An attribute without a list of items. -/
  | unlisted (fault : Fault)
  | item (item : Item)
  /-- The end of a list of items. -/
  | listEnd (items : List Item)

def placesOf (a : Attribute) : List Place :=
  match Item.ofAttribute a with
  | .error fault => [.unlisted fault]
  | .ok items => items.map .item ++ [.listEnd items]

def places (attributes : List Attribute) : List Place :=
  (attributes.filter (·.name? = some attributeName)).flatMap placesOf

def itemsIn (l : List Place) : List Item :=
  l.filterMap fun
    | .item i => some i
    | _ => none

/-- The items of all attributes that are meant for the derivation. -/
def itemsOf (attributes : List Attribute) : List Item := itemsIn (places attributes)

theorem itemsIn_append (l more : List Place) : itemsIn (l ++ more) = itemsIn l ++ itemsIn more :=
  List.filterMap_append

section Reading

variable {σ : Type} (step : σ → Item → Except Refusal σ)

def visit (s : σ) : Place → Except Refusal σ
  | .unlisted fault => .error (.malformed fault)
  | .item item => step s item
  | .listEnd items =>
    match items.findSome? Item.left? with
    | some delimiter => .error (.malformed (.unclosed delimiter))
    | none => .ok s

theorem foldlM_visit_items (items : List Item) (s : σ) :
    (items.map Place.item).foldlM (visit step) s = items.foldlM step s := by
  rw [List.foldlM_map]
  rfl

theorem readItems_eq (a : Attribute) (s : σ) : readItems step s a = (placesOf a).foldlM (visit step) s := by
  unfold readItems placesOf
  cases Item.ofAttribute a with
  | error fault => rfl
  | ok items =>
    simp only [List.foldlM_append, foldlM_visit_items]
    congr 1
    funext s
    simp only [List.foldlM_cons, List.foldlM_nil, visit]
    cases items.findSome? Item.left? <;> rfl

theorem readAttributes_eq (attributes : List Attribute) (s : σ) :
    readAttributes step s attributes = (places attributes).foldlM (visit step) s := by
  unfold readAttributes places
  induction attributes.filter (·.name? = some attributeName) generalizing s with
  | nil => rfl
  | cons a rest ih =>
    rw [List.flatMap_cons, List.foldlM_append, List.foldlM_cons, readItems_eq]
    congr 1
    funext s
    exact ih s

/-- What is wrong at a place, where it is known what is wrong with an item that follows others. -/
inductive PlaceFault (wrong : List Item → Item → Refusal → Prop) (before : List Place) : Place → Refusal → Prop
  | unlisted {fault : Fault} : PlaceFault wrong before (.unlisted fault) (.malformed fault)
  | item {i : Item} {r : Refusal} (h : wrong (itemsIn before) i r) : PlaceFault wrong before (.item i) r
  /-- Groups that go on too long count when their attribute ends. -/
  | listEnd {items : List Item} {delimiter : Delimiter} (h : items.findSome? Item.left? = some delimiter) :
      PlaceFault wrong before (.listEnd items) (.malformed (.unclosed delimiter))

variable {step} {ofItems : List Item → σ} {wrong : List Item → Item → Refusal → Prop}

theorem placeFault_item_iff {before : List Place} {i : Item} {r : Refusal} :
    PlaceFault wrong before (.item i) r ↔ wrong (itemsIn before) i r := by
  refine ⟨fun h => ?_, .item⟩
  cases h with
  | item h => exact h

theorem visit_eq_error_iff (error : ∀ {items i r}, step (ofItems items) i = .error r ↔ wrong items i r)
    {before : List Place} {x : Place} {r : Refusal} :
    visit step (ofItems (itemsIn before)) x = .error r ↔ PlaceFault wrong before x r := by
  cases x with
  | unlisted fault =>
    constructor
    · rintro ⟨⟩
      exact .unlisted
    · rintro ⟨⟩
      rfl
  | item i => exact error.trans placeFault_item_iff.symm
  | listEnd items =>
    simp only [visit]
    split
    · rename_i delimiter hl
      constructor
      · rintro ⟨⟩
        exact .listEnd hl
      · intro h
        cases h with
        | listEnd hl' =>
          cases hl.symm.trans hl'
          rfl
    · rename_i hl
      refine ⟨nofun, fun h => ?_⟩
      cases h with
      | listEnd hl' => cases hl.symm.trans hl'

theorem visit_eq_ok (ok : ∀ {items i s}, step (ofItems items) i = .ok s → s = ofItems (items ++ [i]))
    {before : List Place} {x : Place} {s : σ} (h : visit step (ofItems (itemsIn before)) x = .ok s) :
    s = ofItems (itemsIn (before ++ [x])) := by
  rw [itemsIn_append]
  cases x with
  | unlisted fault => cases h
  | item i => exact ok h
  | listEnd items =>
    simp only [visit] at h
    split at h <;> cases h
    exact congrArg ofItems (List.append_nil _).symm

/-- Reading attributes stops at the first fault, and otherwise gives what all their items ask for. -/
theorem readAttributes_firstFault (ofItems : List Item → σ)
    (ok : ∀ {items i s}, step (ofItems items) i = .ok s → s = ofItems (items ++ [i]))
    (error : ∀ {items i r}, step (ofItems items) i = .error r ↔ wrong items i r) (attributes : List Attribute) :
    FailsFirst (PlaceFault wrong) [] (places attributes) (readAttributes step (ofItems []) attributes) ∧
      ∀ s, readAttributes step (ofItems []) attributes = .ok s → s = ofItems (itemsOf attributes) := by
  rw [readAttributes_eq]
  exact foldlM_firstFault (visit_eq_ok ok) (visit_eq_error_iff error) [] (places attributes)

end Reading

def isGiven (word : String) (items : List Item) : Bool := items.any (·.key = .word word)

def Item.text? (i : Item) : Option TextLiteral :=
  match i.argument with
  | .text literal => some literal
  | _ => none

def Item.path? (i : Item) : Option PathExpr :=
  match i.argument with
  | .dynamic path _ => some path
  | _ => none

def texts (word : String) (items : List Item) : List TextLiteral :=
  (items.filter (·.key = .word word)).filterMap Item.text?

def paths (word : String) (items : List Item) : List PathExpr :=
  (items.filter (·.key = .word word)).filterMap Item.path?

@[simp] theorem isGiven_append (word : String) (items more : List Item) :
    isGiven word (items ++ more) = (isGiven word items || isGiven word more) :=
  List.any_append

@[simp] theorem isGiven_singleton (word : String) (i : Item) : isGiven word [i] = decide (i.key = .word word) := by
  simp [isGiven]

@[simp] theorem texts_append (word : String) (items more : List Item) :
    texts word (items ++ more) = texts word items ++ texts word more := by
  simp [texts]

@[simp] theorem texts_singleton (word : String) (i : Item) :
    texts word [i] = if i.key = .word word then i.text?.toList else [] := by
  by_cases h : i.key = .word word <;> cases ht : i.text? <;> simp [texts, h, ht]

@[simp] theorem paths_append (word : String) (items more : List Item) :
    paths word (items ++ more) = paths word items ++ paths word more := by
  simp [paths]

@[simp] theorem paths_singleton (word : String) (i : Item) :
    paths word [i] = if i.key = .word word then i.path?.toList else [] := by
  by_cases h : i.key = .word word <;> cases hp : i.path? <;> simp [paths, h, hp]

/-- What the items of a type ask for. Of several roots the last one counts. -/
def TypeOptions.ofItems (items : List Item) : TypeOptions where
  tag := (texts "tag" items).head?
  bases := paths "base" items
  polymorphic := isGiven "polymorphic" items
  root := ((texts "crate" items).filterMap fun literal => (PathExpr.parse literal.value).toOption).getLast?

/-- What the items of a field ask for. Of several names the last one counts. -/
def FieldOptions.ofItems (items : List Item) : FieldOptions where
  rename := (texts "rename" items).getLast?
  optional := isGiven "optional" items
  skip := isGiven "skip" items
  flatten := isGiven "flatten" items

/-- Something else than a comma follows an item. -/
def unseparated : Refusal := .malformed (.expected ["`,`"] false)

namespace Item

variable {α : Type} {i : Item} {r : Refusal}

/-- Reads an item that gives a text, of which something is asked. -/
def readText (check : TextLiteral → Except Refusal α) (i : Item) : Except Refusal α := do
  let literal ← i.text
  let result ← check literal
  i.close
  return result

def readPath (i : Item) : Except Refusal PathExpr := do
  let path ← i.dynamic
  i.close
  return path

/-- What is wrong with an item that has to give a text. -/
inductive TextFault (refuses : TextLiteral → Refusal → Prop) (i : Item) : Refusal → Prop
  | missing {r : Refusal} (h : i.text = .error r) : TextFault refuses i r
  | refused {literal : TextLiteral} {r : Refusal} (ha : i.argument = .text literal) (h : refuses literal r) :
      TextFault refuses i r
  | followed {literal : TextLiteral} (ha : i.argument = .text literal) (h : ∀ r, ¬ refuses literal r)
      (hf : i.isFollowed = true) : TextFault refuses i unseparated

inductive PathFault (i : Item) : Refusal → Prop
  | missing {r : Refusal} (h : i.dynamic = .error r) : PathFault i r
  | followed {path : PathExpr} {left? : Option Delimiter} (ha : i.argument = .dynamic path left?)
      (hf : i.isFollowed = true) : PathFault i unseparated

inductive WordFault (i : Item) : Refusal → Prop
  | argument (ha : i.argument ≠ .none) : WordFault i unseparated

/--
What is wrong with an item that should have one of some words, where it is known what is wrong with an item of
each of them.
-/
inductive KeyFault (words : List String) (unknown : Refusal) (wrong : String → Refusal → Prop) (i : Item) :
    Refusal → Prop
  | key {fault : Fault} (h : i.key = .fault fault) : KeyFault words unknown wrong i (.malformed fault)
  | unknown (h : ∀ fault, i.key ≠ .fault fault) (hw : ∀ word ∈ words, i.key ≠ .word word) :
      KeyFault words unknown wrong i unknown
  | word {word : String} {r : Refusal} (hm : word ∈ words) (h : i.key = .word word) (hr : wrong word r) :
      KeyFault words unknown wrong i r

section Words

variable {words : List String} {unknown : Refusal} {wrong : String → Refusal → Prop}
  {known : String → Option (Except Refusal α)}

theorem key_cases (words : List String) (i : Item) :
    (∃ fault, i.key = .fault fault) ∨ (∃ word ∈ words, i.key = .word word) ∨
      (∀ fault, i.key ≠ .fault fault) ∧ ∀ word ∈ words, i.key ≠ .word word := by
  by_cases hf : ∃ fault, i.key = .fault fault
  · exact .inl hf
  · by_cases hw : ∃ word ∈ words, i.key = .word word
    · exact .inr (.inl hw)
    · exact .inr (.inr ⟨fun fault h => hf ⟨fault, h⟩, fun word hm h => hw ⟨word, hm, h⟩⟩)

theorem byWord_fault {fault : Fault} (h : i.key = .fault fault) :
    i.byWord unknown known = .error (.malformed fault) := by
  simp only [byWord, h]

theorem byWord_unknown (hknown : ∀ word ∉ words, known word = none) (h : ∀ fault, i.key ≠ .fault fault)
    (hw : ∀ word ∈ words, i.key ≠ .word word) : i.byWord unknown known = .error unknown := by
  unfold byWord
  split
  · rename_i hk
    exact absurd hk (h _)
  · rename_i word hk
    have hm : word ∉ words := fun hm => hw word hm hk
    rw [hknown word hm, Option.getD_none]
  · rfl

theorem byWord_word {word : String} {x : Except Refusal α} (h : i.key = .word word) (hx : known word = some x) :
    i.byWord unknown known = x := by
  simp only [byWord, h, hx, Option.getD_some]

theorem keyFault_key {fault : Fault} (h : i.key = .fault fault) :
    i.KeyFault words unknown wrong r ↔ r = .malformed fault := by
  refine ⟨fun hf => ?_, fun hr => hr ▸ .key h⟩
  cases hf <;> simp_all

theorem keyFault_unknown (h : ∀ fault, i.key ≠ .fault fault) (hw : ∀ word ∈ words, i.key ≠ .word word) :
    i.KeyFault words unknown wrong r ↔ r = unknown := by
  refine ⟨fun hf => ?_, fun hr => hr ▸ .unknown h hw⟩
  cases hf with
  | key hk => exact absurd hk (h _)
  | unknown => rfl
  | word hm hk => exact absurd hk (hw _ hm)

theorem keyFault_word {word : String} (hm : word ∈ words) (h : i.key = .word word) :
    i.KeyFault words unknown wrong r ↔ wrong word r := by
  refine ⟨fun hf => ?_, .word hm h⟩
  cases hf with
  | key hk => cases hk.symm.trans h
  | unknown _ hw => exact absurd h (hw _ hm)
  | word _ hk hr =>
    cases hk.symm.trans h
    exact hr

/-- An item is free of faults when its word is one of those to have and nothing is wrong with an item of it. -/
theorem keyFault_free_iff : (∀ r, ¬ i.KeyFault words unknown wrong r) ↔
    ∃ word ∈ words, i.key = .word word ∧ ∀ r, ¬ wrong word r := by
  rcases i.key_cases words with ⟨fault, h⟩ | ⟨word, hm, h⟩ | ⟨hf, hw⟩
  · refine ⟨fun hfree => absurd (.key h) (hfree _), ?_⟩
    rintro ⟨word, -, hk, -⟩
    cases h.symm.trans hk
  · simp only [keyFault_word hm h]
    refine ⟨fun hfree => ⟨word, hm, h, hfree⟩, ?_⟩
    rintro ⟨word, -, hk, hfree⟩
    cases h.symm.trans hk
    exact hfree
  · refine ⟨fun hfree => absurd (.unknown hf hw) (hfree _), ?_⟩
    rintro ⟨word, hm, hk, -⟩
    exact absurd hk (hw word hm)

/-- Reading by words fails as is wrong with the key or with an item of the word, where it knows just the words. -/
theorem byWord_eq_error_iff (hnone : ∀ word ∉ words, known word = none)
    (hsome : ∀ word ∈ words, ∃ x, known word = some x ∧ ∀ r, x = .error r ↔ wrong word r) :
    i.byWord unknown known = .error r ↔ i.KeyFault words unknown wrong r := by
  rcases i.key_cases words with ⟨fault, h⟩ | ⟨word, hm, h⟩ | ⟨hf, hw⟩
  · rw [byWord_fault h, keyFault_key h]
    simp [eq_comm]
  · obtain ⟨x, hx, hfails⟩ := hsome word hm
    rw [byWord_word h hx, keyFault_word hm h, hfails]
  · rw [byWord_unknown hnone hf hw, keyFault_unknown hf hw]
    simp [eq_comm]

theorem byWord_eq_ok {result : α} (hnone : ∀ word ∉ words, known word = none)
    (h : i.byWord unknown known = .ok result) :
    ∃ word ∈ words, i.key = .word word ∧ known word = some (.ok result) := by
  rcases i.key_cases words with ⟨fault, hk⟩ | ⟨word, hm, hk⟩ | ⟨hf, hw⟩
  · rw [byWord_fault hk] at h
    cases h
  · refine ⟨word, hm, hk, ?_⟩
    simp only [byWord, hk] at h
    cases hx : known word with
    | none => simp [hx] at h
    | some x => simpa [hx] using h
  · rw [byWord_unknown hnone hf hw] at h
    cases h

end Words

theorem text_eq_ok_iff {literal : TextLiteral} : i.text = .ok literal ↔ i.argument = .text literal := by
  unfold text
  split <;> rename_i ha <;> simp_all [expected]

theorem dynamic_eq_ok_iff {path : PathExpr} :
    i.dynamic = .ok path ↔ ∃ left?, i.argument = .dynamic path left? := by
  unfold dynamic
  split <;> rename_i ha <;> simp_all [expected]

theorem close_eq_ok_iff : i.close = .ok () ↔ i.isFollowed = false := by
  unfold close
  cases i.isFollowed <;> simp [expected]

theorem close_eq_error_iff : i.close = .error r ↔ i.isFollowed = true ∧ r = unseparated := by
  unfold close
  cases i.isFollowed <;> simp [expected, unseparated, eq_comm]

theorem closeWord_eq_ok_iff : i.closeWord = .ok () ↔ i.argument = .none := by
  unfold closeWord
  split <;> simp_all [expected]

theorem closeWord_eq_error_iff : i.closeWord = .error r ↔ i.WordFault r := by
  unfold closeWord
  split
  · rename_i ha
    exact ⟨nofun, fun ⟨h⟩ => absurd ha h⟩
  · rename_i ha
    constructor
    · rintro ⟨⟩
      exact .argument ha
    · rintro ⟨-⟩
      rfl

theorem readText_eq_ok_iff {check : TextLiteral → Except Refusal α} {result : α} :
    i.readText check = .ok result ↔
      ∃ literal, i.argument = .text literal ∧ check literal = .ok result ∧ i.isFollowed = false := by
  simp only [readText, bind_eq_ok_iff, text_eq_ok_iff]
  constructor
  · rintro ⟨literal, ha, _, hc, ⟨⟩, hf, ⟨⟩⟩
    exact ⟨literal, ha, hc, close_eq_ok_iff.1 hf⟩
  · rintro ⟨literal, ha, hc, hf⟩
    exact ⟨literal, ha, result, hc, (), close_eq_ok_iff.2 hf, rfl⟩

theorem readText_eq_error_iff {check : TextLiteral → Except Refusal α} :
    i.readText check = .error r ↔ i.TextFault (fun literal r => check literal = .error r) r := by
  simp only [readText, bind_eq_error_iff, text_eq_ok_iff, close_eq_error_iff]
  constructor
  · rintro (h | ⟨literal, ha, hc | ⟨result, hc, ⟨hf, rfl⟩ | ⟨-, -, ⟨⟩⟩⟩⟩)
    · exact .missing h
    · exact .refused ha hc
    · exact .followed ha (by simp [hc]) hf
  · intro h
    cases h with
    | missing h => exact .inl h
    | refused ha h => exact .inr ⟨_, ha, .inl h⟩
    | @followed literal ha h hf =>
      cases hc : check literal with
      | error e => exact absurd hc (h e)
      | ok result => exact .inr ⟨literal, ha, .inr ⟨result, hc, .inl ⟨hf, rfl⟩⟩⟩

theorem readPath_eq_ok_iff {path : PathExpr} :
    i.readPath = .ok path ↔ (∃ left?, i.argument = .dynamic path left?) ∧ i.isFollowed = false := by
  simp only [readPath, bind_eq_ok_iff, dynamic_eq_ok_iff]
  constructor
  · rintro ⟨_, ha, ⟨⟩, hf, ⟨⟩⟩
    exact ⟨ha, close_eq_ok_iff.1 hf⟩
  · rintro ⟨ha, hf⟩
    exact ⟨path, ha, (), close_eq_ok_iff.2 hf, rfl⟩

theorem readPath_eq_error_iff : i.readPath = .error r ↔ i.PathFault r := by
  simp only [readPath, bind_eq_error_iff, dynamic_eq_ok_iff, close_eq_error_iff]
  constructor
  · rintro (h | ⟨path, ⟨left?, ha⟩, ⟨hf, rfl⟩ | ⟨-, -, ⟨⟩⟩⟩)
    · exact .missing h
    · exact .followed ha hf
  · intro h
    cases h with
    | missing h => exact .inl h
    | followed ha hf => exact .inr ⟨_, ⟨_, ha⟩, .inl ⟨hf, rfl⟩⟩

end Item

namespace TypeOptions

variable {o : TypeOptions} {i : Item} {r : Refusal}

def RefusesTag (literal : TextLiteral) (r : Refusal) : Prop :=
  (literal.value = "" ∨ literal.value = unknownTag) ∧ r = .reservedTag literal.value

def RefusesRoot (literal : TextLiteral) (r : Refusal) : Prop :=
  ∃ fault, PathExpr.parse literal.value = .error fault ∧ r = .malformed fault

def words : List String := ["tag", "base", "polymorphic", "crate"]

/-- What is wrong with an item of a word. A tag can be given once. -/
def WordFault (tagged : Prop) (i : Item) : String → Refusal → Prop
  | "tag", r => tagged ∧ r = .duplicateTag ∨ ¬ tagged ∧ i.TextFault RefusesTag r
  | "base", r => i.PathFault r
  | "polymorphic", r => i.WordFault r
  | "crate", r => i.TextFault RefusesRoot r
  | _, _ => False

/-- What is wrong with an item of a type. -/
def ItemFault (tagged : Prop) (i : Item) : Refusal → Prop :=
  i.KeyFault words .unknownTypeItem (WordFault tagged i)

def checkTag (literal : TextLiteral) : Except Refusal TextLiteral :=
  if literal.value = "" ∨ literal.value = unknownTag then .error (.reservedTag literal.value) else .ok literal

def checkRoot (literal : TextLiteral) : Except Refusal PathExpr :=
  match PathExpr.parse literal.value with
  | .ok path => .ok path
  | .error fault => .error (.malformed fault)

theorem checkTag_eq_error_iff {literal : TextLiteral} : checkTag literal = .error r ↔ RefusesTag literal r := by
  unfold checkTag RefusesTag
  split
  · rename_i h
    constructor
    · rintro ⟨⟩
      exact ⟨h, rfl⟩
    · rintro ⟨-, rfl⟩
      rfl
  · rename_i h
    exact ⟨nofun, fun hr => absurd hr.1 h⟩

theorem checkTag_eq_ok_iff {literal tag : TextLiteral} :
    checkTag literal = .ok tag ↔ literal = tag ∧ literal.value ≠ "" ∧ literal.value ≠ unknownTag := by
  unfold checkTag
  split
  · rename_i h
    exact ⟨nofun, fun hr => absurd h (not_or.2 hr.2)⟩
  · rename_i h
    simp [not_or.1 h]

theorem checkRoot_eq_ok_iff {literal : TextLiteral} {path : PathExpr} :
    checkRoot literal = .ok path ↔ PathExpr.parse literal.value = .ok path := by
  unfold checkRoot
  cases PathExpr.parse literal.value <;> simp

theorem checkRoot_eq_error_iff {literal : TextLiteral} : checkRoot literal = .error r ↔ RefusesRoot literal r := by
  unfold checkRoot RefusesRoot
  cases PathExpr.parse literal.value <;> simp [eq_comm]

theorem readWord_tag : o.readWord i "tag" = some
    (if o.tag.isSome then .error .duplicateTag
    else (i.readText checkTag).map fun tag => { o with tag := some tag }) := by
  simp only [readWord, Item.readText, checkTag, Option.some.injEq]
  split
  · rfl
  · cases i.text with
    | error e => rfl
    | ok literal =>
      simp only [bind, Except.bind]
      split
      · rfl
      · cases i.close <;> rfl

theorem readWord_base :
    o.readWord i "base" = some (i.readPath.map fun base => { o with bases := o.bases ++ [base] }) := by
  simp only [readWord, Item.readPath, Option.some.injEq]
  cases i.dynamic with
  | error e => rfl
  | ok base => cases i.close <;> rfl

theorem readWord_polymorphic :
    o.readWord i "polymorphic" = some (i.closeWord.map fun _ => { o with polymorphic := true }) := by
  simp only [readWord, Option.some.injEq]
  cases i.closeWord <;> rfl

theorem readWord_root :
    o.readWord i "crate" = some ((i.readText checkRoot).map fun root => { o with root := some root }) := by
  simp only [readWord, Item.readText, checkRoot, Option.some.injEq]
  cases i.text with
  | error e => rfl
  | ok literal =>
    simp only [bind, Except.bind]
    cases PathExpr.parse literal.value with
    | error fault => rfl
    | ok path => cases i.close <;> rfl

theorem readWord_eq_none {word : String} (h : word ∉ words) : o.readWord i word = none := by
  unfold readWord
  split <;> simp_all [words]

theorem forall_mem_words {p : String → Prop} :
    (∀ word ∈ words, p word) ↔ p "tag" ∧ p "base" ∧ p "polymorphic" ∧ p "crate" := by
  simp [words]

theorem readItem_eq_error_iff : o.readItem i = .error r ↔ ItemFault (o.tag.isSome = true) i r := by
  refine Item.byWord_eq_error_iff (fun _ hm => readWord_eq_none hm) (forall_mem_words.2 ⟨?_, ?_, ?_, ?_⟩)
  · refine ⟨_, readWord_tag, fun r => ?_⟩
    simp only [WordFault]
    split
    · rename_i ht
      simp [ht, eq_comm]
    · rename_i ht
      simp [ht, map_eq_error_iff, Item.readText_eq_error_iff, checkTag_eq_error_iff]
  · exact ⟨_, readWord_base, fun r => map_eq_error_iff.trans Item.readPath_eq_error_iff⟩
  · exact ⟨_, readWord_polymorphic, fun r => map_eq_error_iff.trans Item.closeWord_eq_error_iff⟩
  · refine ⟨_, readWord_root, fun r => ?_⟩
    simp only [WordFault, map_eq_error_iff, Item.readText_eq_error_iff, checkRoot_eq_error_iff]

theorem readItem_eq_ok {items : List Item} (h : (ofItems items).readItem i = .ok o) : o = ofItems (items ++ [i]) := by
  obtain ⟨word, hm, hk, h⟩ := Item.byWord_eq_ok (fun _ hm => readWord_eq_none hm) h
  revert word
  refine forall_mem_words.2 ⟨?_, ?_, ?_, ?_⟩ <;> intro hk h
  · rw [readWord_tag, Option.some.injEq] at h
    split at h
    · cases h
    · rename_i ht
      obtain ⟨tag, hl, rfl⟩ := map_eq_ok_iff.1 h
      obtain ⟨literal, ha, hc, -⟩ := Item.readText_eq_ok_iff.1 hl
      obtain ⟨rfl, -, -⟩ := checkTag_eq_ok_iff.1 hc
      -- no tag was given before, so this one is the first
      have hnone : texts "tag" items = [] := by simpa [ofItems] using ht
      simp [ofItems, hk, Item.text?, ha, hnone]
  · rw [readWord_base, Option.some.injEq] at h
    obtain ⟨base, hp, rfl⟩ := map_eq_ok_iff.1 h
    obtain ⟨⟨left?, ha⟩, -⟩ := Item.readPath_eq_ok_iff.1 hp
    simp [ofItems, hk, Item.path?, ha]
  · rw [readWord_polymorphic, Option.some.injEq] at h
    obtain ⟨_, -, rfl⟩ := map_eq_ok_iff.1 h
    simp [ofItems, hk]
  · rw [readWord_root, Option.some.injEq] at h
    obtain ⟨root, hl, rfl⟩ := map_eq_ok_iff.1 h
    obtain ⟨literal, ha, hc, -⟩ := Item.readText_eq_ok_iff.1 hl
    have hparse := checkRoot_eq_ok_iff.1 hc
    simp [ofItems, hk, Item.text?, ha, hparse, Except.toOption]

theorem read_firstFault (attributes : List Attribute) :
    FailsFirst (PlaceFault fun items => ItemFault (texts "tag" items ≠ [])) [] (places attributes) (read attributes) ∧
      ∀ o, read attributes = .ok o → o = ofItems (itemsOf attributes) := by
  refine readAttributes_firstFault ofItems readItem_eq_ok (fun {items i r} => ?_) attributes
  rw [readItem_eq_error_iff]
  simp [ofItems]

end TypeOptions

namespace FieldOptions

variable {o : FieldOptions} {i : Item} {r : Refusal}

def words : List String := ["rename", "optional", "skip", "flatten"]

def WordFault (i : Item) : String → Refusal → Prop
  | "rename", r => i.TextFault (fun _ _ => False) r
  | _, r => i.WordFault r

/-- What is wrong with an item of a field. -/
def ItemFault (i : Item) : Refusal → Prop :=
  i.KeyFault words .unknownFieldItem (WordFault i)

def mark (o : FieldOptions) (word : String) : FieldOptions where
  rename := o.rename
  optional := o.optional || word = "optional"
  skip := o.skip || word = "skip"
  flatten := o.flatten || word = "flatten"

theorem readWord_rename :
    o.readWord i "rename" = some ((i.readText .ok).map fun rename => { o with rename := some rename }) := by
  simp only [readWord, Item.readText, Option.some.injEq]
  cases i.text with
  | error e => rfl
  | ok literal =>
    simp only [bind, Except.bind]
    cases i.close <;> rfl

theorem readWord_mark {word : String} (hm : word ∈ ["optional", "skip", "flatten"]) :
    o.readWord i word = some (i.closeWord.map fun _ => o.mark word) := by
  simp only [List.mem_cons, List.not_mem_nil, or_false] at hm
  rcases hm with rfl | rfl | rfl <;> simp only [readWord, mark] <;> cases i.closeWord <;>
    simp [bind, Except.bind, Except.map, pure, Except.pure]

theorem readWord_eq_none {word : String} (h : word ∉ words) : o.readWord i word = none := by
  unfold readWord
  split <;> simp_all [words]

theorem ne_rename {word : String} (hm : word ∈ ["optional", "skip", "flatten"]) : word ≠ "rename" := by
  rintro rfl
  simp at hm

theorem wordFault_mark {word : String} (hm : word ∈ ["optional", "skip", "flatten"]) :
    WordFault i word r ↔ i.WordFault r := by
  unfold WordFault
  split
  · exact absurd rfl (ne_rename hm)
  · rfl

theorem readItem_eq_error_iff : o.readItem i = .error r ↔ ItemFault i r := by
  refine Item.byWord_eq_error_iff (fun _ hm => readWord_eq_none hm) fun word hm => ?_
  rcases List.mem_cons.1 hm with rfl | hm
  · refine ⟨_, readWord_rename, fun r => ?_⟩
    rw [map_eq_error_iff, Item.readText_eq_error_iff]
    simp [WordFault]
  · refine ⟨_, readWord_mark hm, fun r => ?_⟩
    rw [map_eq_error_iff, Item.closeWord_eq_error_iff, wordFault_mark hm]

theorem readItem_eq_ok {items : List Item} (h : (ofItems items).readItem i = .ok o) : o = ofItems (items ++ [i]) := by
  obtain ⟨word, hm, hk, h⟩ := Item.byWord_eq_ok (fun _ hm => readWord_eq_none hm) h
  rcases List.mem_cons.1 hm with rfl | hm
  · rw [readWord_rename, Option.some.injEq] at h
    obtain ⟨rename, hl, rfl⟩ := map_eq_ok_iff.1 h
    obtain ⟨literal, ha, ⟨⟩, -⟩ := Item.readText_eq_ok_iff.1 hl
    simp [ofItems, hk, Item.text?, ha]
  · rw [readWord_mark hm, Option.some.injEq] at h
    obtain ⟨_, -, rfl⟩ := map_eq_ok_iff.1 h
    simp [ofItems, mark, hk, ne_rename hm]

theorem readAll_firstFault (attributes : List Attribute) :
    FailsFirst (PlaceFault fun _ => ItemFault) [] (places attributes) (readAttributes readItem {} attributes) ∧
      ∀ o, readAttributes readItem {} attributes = .ok o → o = ofItems (itemsOf attributes) :=
  readAttributes_firstFault ofItems readItem_eq_ok readItem_eq_error_iff attributes

end FieldOptions

end Archivist.Derive
