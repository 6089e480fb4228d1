import Archivist.Proofs.Derive.Attributes

/-!
Attributes with which nothing is wrong. Main statements: `TypeOptions.faultless_iff` and `FieldOptions.faultless_iff`.
An attribute has a list of items, each item is one of those that are allowed, and a type has at most one tag.
-/

set_option autoImplicit false

namespace Archivist.Derive

open Source (Attribute PathExpr TextLiteral)

/-- Items that a type can have. -/
inductive AllowedOnType (i : Item) : Prop
  | tag {literal : TextLiteral} (hk : i.key = .word "tag") (ha : i.argument = .text literal)
      (he : literal.value ≠ "") (hu : literal.value ≠ unknownTag) (hf : i.isFollowed = false) : AllowedOnType i
  | base {path : PathExpr} (hk : i.key = .word "base") (ha : i.argument = .dynamic path none)
      (hf : i.isFollowed = false) : AllowedOnType i
  | polymorphic (hk : i.key = .word "polymorphic") (ha : i.argument = .none) : AllowedOnType i
  | root {literal : TextLiteral} {path : PathExpr} (hk : i.key = .word "crate") (ha : i.argument = .text literal)
      (hp : PathExpr.parse literal.value = .ok path) (hf : i.isFollowed = false) : AllowedOnType i

inductive AllowedOnField (i : Item) : Prop
  | rename {literal : TextLiteral} (hk : i.key = .word "rename") (ha : i.argument = .text literal)
      (hf : i.isFollowed = false) : AllowedOnField i
  | mark {word : String} (hm : word ∈ ["optional", "skip", "flatten"]) (hk : i.key = .word word)
      (ha : i.argument = .none) : AllowedOnField i

/-- The attributes that are meant for the derivation have lists of items. -/
def Listed (attributes : List Attribute) : Prop :=
  ∀ a ∈ attributes, a.name? = some attributeName → ∃ tokens, a.arguments = .list tokens

theorem exists_ok_iff {ε α : Type} {x : Except ε α} : (∃ a, x = .ok a) ↔ ∀ e, x ≠ .error e := by
  cases x <;> simp

theorem ofAttribute_listed_iff {a : Attribute} :
    (∃ items, Item.ofAttribute a = .ok items) ↔ ∃ tokens, a.arguments = .list tokens := by
  unfold Item.ofAttribute
  cases a.arguments <;> simp

section Places

variable {wrong : Item → Refusal → Prop} {attributes : List Attribute}

theorem mem_places_iff {p : Place} :
    p ∈ places attributes ↔ ∃ a ∈ attributes, a.name? = some attributeName ∧ p ∈ placesOf a := by
  simp [places, and_assoc]

theorem mem_itemsIn_iff {i : Item} {l : List Place} : i ∈ itemsIn l ↔ .item i ∈ l := by
  unfold itemsIn
  rw [List.mem_filterMap]
  constructor
  · rintro ⟨p, hp, h⟩
    cases p <;> cases h
    exact hp
  · exact fun h => ⟨_, h, rfl⟩

theorem placesOf_faultless_iff {a : Attribute} :
    (∀ p ∈ placesOf a, ∀ r, ¬ PlaceFault (fun _ => wrong) [] p r) ↔
      ∃ items, Item.ofAttribute a = .ok items ∧ ∀ i ∈ items, (∀ r, ¬ wrong i r) ∧ i.left? = none := by
  unfold placesOf
  cases Item.ofAttribute a with
  | error fault =>
    simp only [List.mem_singleton, forall_eq, reduceCtorEq, false_and, exists_false, iff_false]
    exact fun h => h _ .unlisted
  | ok items =>
    simp only [Except.ok.injEq, exists_eq_left']
    constructor
    · intro h i hi
      refine ⟨fun r hr => h (.item i) (by simp [hi]) r (.item hr), ?_⟩
      -- what goes on too long would count at the end of the list
      have hend : items.findSome? Item.left? = none := by
        cases hl : items.findSome? Item.left? with
        | none => rfl
        | some delimiter => exact absurd (.listEnd hl) (h (.listEnd items) (by simp) _)
      exact List.findSome?_eq_none_iff.1 hend i hi
    · intro h p hp r hr
      rcases List.mem_append.1 hp with hp | hp
      · obtain ⟨i, hi, rfl⟩ := List.mem_map.1 hp
        cases hr with
        | item hr => exact (h i hi).1 r hr
      · cases List.mem_singleton.1 hp
        cases hr with
        | listEnd hl => simp [List.findSome?_eq_none_iff.2 fun i hi => (h i hi).2] at hl

theorem mem_itemsOf_iff {i : Item} : i ∈ itemsOf attributes ↔
    ∃ a ∈ attributes, a.name? = some attributeName ∧ ∃ items, Item.ofAttribute a = .ok items ∧ i ∈ items := by
  unfold itemsOf
  rw [mem_itemsIn_iff, mem_places_iff]
  refine exists_congr fun a => and_congr_right fun _ => and_congr_right fun _ => ?_
  unfold placesOf
  cases Item.ofAttribute a <;> simp

theorem places_faultless_iff :
    (∀ p ∈ places attributes, ∀ r, ¬ PlaceFault (fun _ => wrong) [] p r) ↔
      Listed attributes ∧ ∀ i ∈ itemsOf attributes, (∀ r, ¬ wrong i r) ∧ i.left? = none := by
  have hplaces : (∀ p ∈ places attributes, ∀ r, ¬ PlaceFault (fun _ => wrong) [] p r) ↔
      ∀ a ∈ attributes, a.name? = some attributeName →
        ∃ items, Item.ofAttribute a = .ok items ∧ ∀ i ∈ items, (∀ r, ¬ wrong i r) ∧ i.left? = none := by
    simp only [← placesOf_faultless_iff, mem_places_iff]
    exact ⟨fun h a ha hn p hp => h p ⟨a, ha, hn, hp⟩, fun h p ⟨a, ha, hn, hp⟩ => h a ha hn p hp⟩
  rw [hplaces]
  constructor
  · intro h
    constructor
    · intro a ha hn
      obtain ⟨items, hi, -⟩ := h a ha hn
      exact ofAttribute_listed_iff.1 ⟨items, hi⟩
    · intro i hi
      obtain ⟨a, ha, hn, items, hitems, hi⟩ := mem_itemsOf_iff.1 hi
      obtain ⟨items', hitems', h⟩ := h a ha hn
      cases hitems.symm.trans hitems'
      exact h i hi
  · rintro ⟨hl, h⟩ a ha hn
    obtain ⟨items, hitems⟩ := ofAttribute_listed_iff.2 (hl a ha hn)
    exact ⟨items, hitems, fun i hi => h i (mem_itemsOf_iff.2 ⟨a, ha, hn, items, hitems, hi⟩)⟩

theorem placeFault_anywhere {before : List Place} {p : Place} {r : Refusal} :
    PlaceFault (fun _ => wrong) before p r ↔ PlaceFault (fun _ => wrong) [] p r := by
  constructor <;> intro h <;> cases h with
  | unlisted => exact .unlisted
  | item h => exact .item h
  | listEnd h => exact .listEnd h

theorem faultless_places_iff {before l : List Place} :
    Faultless (PlaceFault fun _ => wrong) before l ↔ ∀ p ∈ l, ∀ r, ¬ PlaceFault (fun _ => wrong) [] p r := by
  induction l generalizing before with
  | nil => simp [faultless_nil]
  | cons p rest ih => simp only [faultless_cons, ih, placeFault_anywhere (p := p), List.forall_mem_cons]

end Places

namespace Item

variable {α : Type} {i : Item}

theorem textFault_free_iff {check : TextLiteral → Except Refusal α} :
    (∀ r, ¬ i.TextFault (fun literal r => check literal = .error r) r) ↔
      ∃ literal, i.argument = .text literal ∧ (∃ result, check literal = .ok result) ∧ i.isFollowed = false := by
  simp only [← readText_eq_error_iff]
  rw [← exists_ok_iff]
  simp only [readText_eq_ok_iff]
  exact ⟨fun ⟨result, literal, ha, hc, hf⟩ => ⟨literal, ha, ⟨result, hc⟩, hf⟩,
    fun ⟨literal, ha, ⟨result, hc⟩, hf⟩ => ⟨result, literal, ha, hc, hf⟩⟩

theorem pathFault_free_iff :
    (∀ r, ¬ i.PathFault r) ↔ ∃ path left?, i.argument = .dynamic path left? ∧ i.isFollowed = false := by
  simp only [← readPath_eq_error_iff]
  rw [← exists_ok_iff]
  simp only [readPath_eq_ok_iff, exists_and_right]

theorem wordFault_free_iff : (∀ r, ¬ i.WordFault r) ↔ i.argument = .none := by
  simp only [← closeWord_eq_error_iff]
  rw [← exists_ok_iff]
  exact ⟨fun ⟨(), h⟩ => closeWord_eq_ok_iff.1 h, fun h => ⟨(), closeWord_eq_ok_iff.2 h⟩⟩

theorem left?_eq_none_of_ne {i : Item} (h : ∀ path left?, i.argument ≠ .dynamic path left?) : i.left? = none := by
  unfold left?
  split
  · rename_i ha
    exact absurd ha (h _ _)
  · rfl

end Item

namespace TypeOptions

variable {i : Item} {r : Refusal}

theorem itemFault_tag {tagged : Prop} (h : i.key = .word "tag") :
    ItemFault tagged i r ↔ tagged ∧ r = .duplicateTag ∨ ¬ tagged ∧ i.TextFault RefusesTag r :=
  Item.keyFault_word (by decide) h

theorem wordFault_of_ne {tagged : Prop} {word : String} (h : word ≠ "tag") :
    WordFault tagged i word = WordFault False i word := by
  unfold WordFault
  funext r
  split <;> first | rfl | exact absurd rfl h

theorem itemFault_free_iff {tagged : Prop} :
    (∀ r, ¬ ItemFault tagged i r) ↔ (∀ r, ¬ ItemFault False i r) ∧ (i.key = .word "tag" → ¬ tagged) := by
  by_cases hk : i.key = .word "tag"
  · simp only [itemFault_tag hk, hk]
    by_cases ht : tagged <;> simp [ht]
  · simp only [ItemFault, Item.keyFault_free_iff, hk, false_imp_iff, and_true]
    refine exists_congr fun word => and_congr_right fun _ => and_congr_right fun hword => ?_
    have hne : word ≠ "tag" := fun h => hk (h ▸ hword)
    rw [wordFault_of_ne hne]

theorem tagFault_free_iff : (∀ r, ¬ i.TextFault RefusesTag r) ↔
    ∃ literal, i.argument = .text literal ∧ (literal.value ≠ "" ∧ literal.value ≠ unknownTag) ∧
      i.isFollowed = false := by
  have h := @Item.textFault_free_iff _ i checkTag
  simpa only [checkTag_eq_error_iff, checkTag_eq_ok_iff, exists_eq_left'] using h

theorem rootFault_free_iff : (∀ r, ¬ i.TextFault RefusesRoot r) ↔
    ∃ literal, i.argument = .text literal ∧ (∃ path, PathExpr.parse literal.value = .ok path) ∧
      i.isFollowed = false := by
  have h := @Item.textFault_free_iff _ i checkRoot
  simpa only [checkRoot_eq_error_iff, checkRoot_eq_ok_iff] using h

theorem allowedOnType_iff : AllowedOnType i ↔ (∀ r, ¬ ItemFault False i r) ∧ i.left? = none := by
  rw [ItemFault, Item.keyFault_free_iff]
  constructor
  · intro h
    cases h with
    | tag hk ha he hu hf =>
      refine ⟨⟨"tag", by decide, hk, ?_⟩, Item.left?_eq_none_of_ne (by simp [ha])⟩
      simpa [WordFault] using tagFault_free_iff.2 ⟨_, ha, ⟨he, hu⟩, hf⟩
    | base hk ha hf =>
      exact ⟨⟨"base", by decide, hk, Item.pathFault_free_iff.2 ⟨_, _, ha, hf⟩⟩, by simp [Item.left?, ha]⟩
    | polymorphic hk ha =>
      exact ⟨⟨"polymorphic", by decide, hk, Item.wordFault_free_iff.2 ha⟩, Item.left?_eq_none_of_ne (by simp [ha])⟩
    | root hk ha hp hf =>
      exact ⟨⟨"crate", by decide, hk, rootFault_free_iff.2 ⟨_, ha, ⟨_, hp⟩, hf⟩⟩,
        Item.left?_eq_none_of_ne (by simp [ha])⟩
  · rintro ⟨⟨word, hm, hk, h⟩, hl⟩
    revert word
    refine forall_mem_words.2 ⟨?_, ?_, ?_, ?_⟩ <;> intro hk h
    · simp only [WordFault, false_and, false_or, not_false_eq_true, true_and, tagFault_free_iff] at h
      obtain ⟨literal, ha, ⟨he, hu⟩, hf⟩ := h
      exact .tag hk ha he hu hf
    · obtain ⟨path, left?, ha, hf⟩ := Item.pathFault_free_iff.1 h
      obtain rfl : left? = none := by simpa [Item.left?, ha] using hl
      exact .base hk ha hf
    · exact .polymorphic hk (Item.wordFault_free_iff.1 h)
    · obtain ⟨literal, ha, ⟨path, hp⟩, hf⟩ := rootFault_free_iff.1 h
      exact .root hk ha hp hf

theorem length_texts_tag (h : ∀ r, ¬ ItemFault False i r) :
    (texts "tag" [i]).length = if i.key = .word "tag" then 1 else 0 := by
  by_cases hk : i.key = .word "tag"
  · simp only [itemFault_tag hk, false_and, false_or, not_false_eq_true, true_and, tagFault_free_iff] at h
    obtain ⟨literal, ha, -⟩ := h
    simp [hk, Item.text?, ha]
  · simp [hk]

theorem placeFault_free_iff {before : List Place} {p : Place} (h : (texts "tag" (itemsIn before)).length ≤ 1) :
    (∀ r, ¬ PlaceFault (fun items => ItemFault (texts "tag" items ≠ [])) before p r) ↔
      (∀ r, ¬ PlaceFault (fun _ => ItemFault False) [] p r) ∧
        (texts "tag" (itemsIn (before ++ [p]))).length ≤ 1 := by
  cases p with
  | unlisted fault => exact ⟨fun hp => absurd .unlisted (hp _), fun hp => absurd .unlisted (hp.1 _)⟩
  | item i =>
    have hitems : itemsIn (before ++ [.item i]) = itemsIn before ++ [i] := itemsIn_append before [.item i]
    simp only [placeFault_item_iff, hitems, texts_append, List.length_append]
    rw [itemFault_free_iff, and_congr_right_iff]
    intro hfree
    rw [length_texts_tag hfree]
    by_cases hk : i.key = .word "tag"
    · simp [hk]
    · simpa [hk] using h
  | listEnd items =>
    have hitems : itemsIn (before ++ [.listEnd items]) = itemsIn before := by simp [itemsIn]
    rw [hitems]
    refine ⟨fun hp => ⟨fun r hr => ?_, h⟩, fun hp r hr => ?_⟩
    · cases hr with
      | listEnd hl => exact hp _ (.listEnd hl)
    · cases hr with
      | listEnd hl => exact hp.1 _ (.listEnd hl)

theorem faultless_iff_tags {before l : List Place} (h : (texts "tag" (itemsIn before)).length ≤ 1) :
    Faultless (PlaceFault fun items => ItemFault (texts "tag" items ≠ [])) before l ↔
      (∀ p ∈ l, ∀ r, ¬ PlaceFault (fun _ => ItemFault False) [] p r) ∧
        (texts "tag" (itemsIn (before ++ l))).length ≤ 1 := by
  induction l generalizing before with
  | nil => simpa [faultless_nil] using h
  | cons p rest ih =>
    rw [faultless_cons, placeFault_free_iff h, List.forall_mem_cons, List.append_cons before p rest]
    constructor
    · rintro ⟨⟨hp, ht⟩, hrest⟩
      obtain ⟨hrest, ht⟩ := (ih ht).1 hrest
      exact ⟨⟨hp, hrest⟩, ht⟩
    · rintro ⟨⟨hp, hrest⟩, ht⟩
      -- at most one tag in all of them is at most one up to here
      have hfirst : (texts "tag" (itemsIn (before ++ [p]))).length ≤ 1 := by
        rw [itemsIn_append, texts_append, List.length_append] at ht
        omega
      exact ⟨⟨hp, hfirst⟩, (ih hfirst).2 ⟨hrest, ht⟩⟩

theorem faultless_iff (attributes : List Attribute) :
    Faultless (PlaceFault fun items => ItemFault (texts "tag" items ≠ [])) [] (places attributes) ↔
      Listed attributes ∧ (∀ i ∈ itemsOf attributes, AllowedOnType i) ∧
        (texts "tag" (itemsOf attributes)).length ≤ 1 := by
  rw [faultless_iff_tags (by decide), places_faultless_iff, and_assoc]
  simp only [allowedOnType_iff, itemsOf, List.nil_append]

end TypeOptions

namespace FieldOptions

variable {i : Item} {r : Refusal}

theorem renameFault_free_iff : (∀ r, ¬ i.TextFault (fun _ _ => False) r) ↔
    ∃ literal, i.argument = .text literal ∧ i.isFollowed = false := by
  have h := @Item.textFault_free_iff _ i (.ok : TextLiteral → Except Refusal TextLiteral)
  simpa using h

theorem allowedOnField_iff : AllowedOnField i ↔ (∀ r, ¬ ItemFault i r) ∧ i.left? = none := by
  rw [ItemFault, Item.keyFault_free_iff]
  constructor
  · intro h
    cases h with
    | rename hk ha hf =>
      exact ⟨⟨"rename", by decide, hk, renameFault_free_iff.2 ⟨_, ha, hf⟩⟩, Item.left?_eq_none_of_ne (by simp [ha])⟩
    | mark hm hk ha =>
      refine ⟨⟨_, List.mem_cons_of_mem _ hm, hk, ?_⟩, Item.left?_eq_none_of_ne (by simp [ha])⟩
      simpa only [wordFault_mark hm] using Item.wordFault_free_iff.2 ha
  · rintro ⟨⟨word, hm, hk, h⟩, -⟩
    rcases List.mem_cons.1 hm with rfl | hm
    · obtain ⟨literal, ha, hf⟩ := renameFault_free_iff.1 h
      exact .rename hk ha hf
    · simp only [wordFault_mark hm] at h
      exact .mark hm hk (Item.wordFault_free_iff.1 h)

theorem faultless_iff {before : List Place} (attributes : List Attribute) :
    Faultless (PlaceFault fun _ => ItemFault) before (places attributes) ↔
      Listed attributes ∧ ∀ i ∈ itemsOf attributes, AllowedOnField i := by
  rw [faultless_places_iff, places_faultless_iff]
  simp only [allowedOnField_iff]

end FieldOptions

end Archivist.Derive
