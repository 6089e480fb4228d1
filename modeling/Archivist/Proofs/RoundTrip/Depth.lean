import Mathlib.Data.List.Perm.Subperm
import Archivist.Proofs.RoundTrip.Fits

/-!
How deep values reach within one node. Main statement: the steps that loading is given within a node
suffice for every value of the type. Records that lie within each other by flattened fields have
different names, since otherwise a value would contain a value of its own depth.
-/

set_option autoImplicit false

namespace Archivist

namespace Value

variable (S : Schema)

mutual

/-- How many steps it takes to load the value within its node. -/
def need : Value → Nat
  | .present item => item.need + 1
  | .record name fields => needAmong (S.fieldsOf name) fields + 1
  | .ref declared item => if S.isPolymorphic declared then 1 else item.need + 1
  | _ => 1

def needAmong (declared : List Field) : List Value → Nat
  | [] => 0
  | item :: rest =>
    match declared with
    | [] => 0
    | field :: declared =>
      if field.mode = .flattened then max item.need (needAmong declared rest)
      else needAmong declared rest

end

mutual

/-- How many records with fields lie within each other in one node. -/
def layers : Value → Nat
  | .present item => item.layers
  | .record name fields =>
    match S.fieldsOf name with
    | [] => 0
    | field :: declared => layersAmong (field :: declared) fields + 1
  | .ref declared item => if S.isPolymorphic declared then 0 else item.layers
  | _ => 0

def layersAmong (declared : List Field) : List Value → Nat
  | [] => 0
  | item :: rest =>
    match declared with
    | [] => 0
    | field :: declared =>
      if field.mode = .flattened then max item.layers (layersAmong declared rest)
      else layersAmong declared rest

end

variable {S} {declared : List Field} {items others : List Value}

theorem need_pos (v : Value) : 0 < v.need S := by
  cases v with
  | ref declared item =>
    simp only [need]
    split <;> omega
  | _ => simp [need]

theorem need_le_needAmong {x : Field × Value} (h : x ∈ declared.zip items) (hm : x.1.mode = .flattened) :
    x.2.need S ≤ needAmong S declared items := by
  induction items generalizing declared with
  | nil => simp at h
  | cons item rest ih =>
    cases declared with
    | nil => simp at h
    | cons field declared =>
      simp only [needAmong]
      rcases List.mem_cons.1 h with rfl | h
      · rw [if_pos hm]
        exact Nat.le_max_left _ _
      · have := ih h
        split <;> omega

theorem needAmong_le {c : Nat} (h : ∀ x ∈ declared.zip items, x.1.mode = .flattened →
    x.2.need S ≤ c + 2 * x.2.layers S) : needAmong S declared items ≤ c + 2 * layersAmong S declared items := by
  induction items generalizing declared with
  | nil => simp [needAmong]
  | cons item rest ih =>
    cases declared with
    | nil => simp [needAmong]
    | cons field declared =>
      have hrest := ih fun x hx => h x (List.mem_cons_of_mem _ hx)
      simp only [needAmong, layersAmong]
      split
      · have hi := h (field, item) (by simp) (by assumption)
        simp only at hi
        omega
      · exact hrest

theorem layersAmong_congr (hl : items.length = others.length)
    (h : ∀ x ∈ declared.zip (items.zip others), x.1.mode = .flattened →
      x.2.1.layers S = x.2.2.layers S) :
    layersAmong S declared items = layersAmong S declared others := by
  induction items generalizing declared others with
  | nil =>
    cases others with
    | nil => rfl
    | cons _ _ => cases hl
  | cons item rest ih =>
    cases others with
    | nil => cases hl
    | cons other others =>
      cases declared with
      | nil => rfl
      | cons field declared =>
        have hrest := ih (Nat.succ.inj hl) fun x hx => h x (List.mem_cons_of_mem _ hx)
        simp only [layersAmong, hrest]
        split
        · rw [h (field, item, other) (by simp) (by assumption)]
        · rfl

theorem layersAmong_cases (declared : List Field) (items : List Value) : layersAmong S declared items = 0 ∨
    ∃ x ∈ declared.zip items, x.1.mode = .flattened ∧ x.2.layers S = layersAmong S declared items := by
  induction items generalizing declared with
  | nil => exact .inl rfl
  | cons item rest ih =>
    cases declared with
    | nil => exact .inl rfl
    | cons field declared =>
      simp only [layersAmong]
      split
      · rename_i hm
        rcases Nat.le_total (layersAmong S declared rest) (item.layers S) with hle | hle
        · exact .inr ⟨(field, item), by simp, hm, by simp [hle]⟩
        · rw [Nat.max_eq_right hle]
          rcases ih declared with h0 | ⟨x, hx, hf, hm⟩
          · exact .inl h0
          · exact .inr ⟨x, by simp [hx], hf, hm⟩
      · rcases ih declared with h0 | ⟨x, hx, hf, hm⟩
        · exact .inl h0
        · exact .inr ⟨x, by simp [hx], hf, hm⟩

end Value

section Zip

variable {α β γ : Type} {as : List α} {bs : List β} {cs : List γ}

theorem mem_zip_zip {x : α × β × γ} (h : x ∈ as.zip (bs.zip cs)) :
    (x.1, x.2.1) ∈ as.zip bs ∧ (x.1, x.2.2) ∈ as.zip cs := by
  induction as generalizing bs cs with
  | nil => cases h
  | cons a as ih =>
    cases bs with
    | nil => cases h
    | cons b bs =>
      cases cs with
      | nil => cases h
      | cons c cs =>
        simp only [List.zip_cons_cons, List.mem_cons] at h ⊢
        rcases h with rfl | h
        · exact ⟨.inl rfl, .inl rfl⟩
        · exact ⟨.inr (ih h).1, .inr (ih h).2⟩

theorem exists_mem_zip (hl : bs.length = cs.length) {x : α × γ} (h : x ∈ as.zip cs) :
    ∃ b, (x.1, b, x.2) ∈ as.zip (bs.zip cs) := by
  induction as generalizing bs cs with
  | nil => cases h
  | cons a as ih =>
    cases cs with
    | nil => cases h
    | cons c cs =>
      cases bs with
      | nil => cases hl
      | cons b bs =>
        simp only [List.zip_cons_cons, List.mem_cons] at h ⊢
        rcases h with rfl | h
        · exact ⟨b, .inl rfl⟩
        · obtain ⟨b', hb⟩ := ih (Nat.succ.inj hl) h
          exact ⟨b', .inr hb⟩

end Zip

theorem Schema.length_le_span (S : Schema) : S.records.length ≤ S.span := by
  unfold Schema.span
  induction S.records with
  | nil => simp
  | cons r records ih =>
    simp only [List.length_cons, List.foldr_cons]
    omega

namespace Exchange

variable {E : Exchange}

theorem isPolymorphic_of_plain {target : Target} (h : E.schema.identity target = .plain) :
    E.schema.isPolymorphic target = false := by
  simp [Schema.isPolymorphic, h, Identity.isPolymorphic]

theorem isPolymorphic_of_tagged {target : Target} (h : (E.schema.identity target).isTagged = true) :
    E.schema.isPolymorphic target = true := by
  unfold Schema.isPolymorphic
  cases hi : E.schema.identity target with
  | tagged tag => rfl
  | _ => simp [hi, Identity.isTagged] at h

theorem isPolymorphic_base {base : String} : E.schema.isPolymorphic (.base base) = true := rfl

namespace Fits

variable {prior prior' v v' : Value} {type : Ty}

theorem need_le_of_canFlatten (hf : type.canFlatten = true) (h : E.Fits prior type v)
    (hn : v.need E.schema ≤ type.height + 2 * v.layers E.schema) :
    v.need E.schema ≤ 2 + 2 * v.layers E.schema := by
  cases type with
  | record name =>
    simp only [Ty.height] at hn
    omega
  | ref kind target => exact hn
  | map kind key item =>
    cases h
    simp only [Value.need]
    omega
  | _ => cases hf

theorem height_of_ty? {target : Target} (h : target.ty? = some type) : type.height = 1 := by
  cases target <;> cases h <;> rfl

theorem need_le (h : E.Fits prior type v) : v.need E.schema ≤ type.height + 2 * v.layers E.schema := by
  induction h with
  | atom _ =>
    simp only [Value.need, Ty.height]
    omega
  | absent =>
    simp only [Value.need, Ty.height]
    omega
  | present _ _ ih =>
    simp only [Value.need, Value.layers, Ty.height]
    omega
  | list _ _ =>
    simp only [Value.need, Ty.height]
    omega
  | array _ _ _ =>
    simp only [Value.need, Ty.height]
    omega
  | map _ _ _ _ =>
    simp only [Value.need, Ty.height]
    omega
  | @record name priors vs hp hv _ loaded flat _ ih =>
    have hi : ∀ x ∈ (E.schema.fieldsOf name).zip vs, x.1.mode = .flattened →
        x.2.need E.schema ≤ 2 + 2 * x.2.layers E.schema := by
      intro x hx hm
      obtain ⟨p, hz⟩ := exists_mem_zip (hp.trans hv.symm) hx
      have hs : x.1.mode ≠ .skipped := by simp [hm]
      exact need_le_of_canFlatten (flat x.1 (List.of_mem_zip hx).1 hm) (loaded _ hz hs) (ih _ hz hs)
    have hn := Value.needAmong_le hi
    simp only [Value.need, Value.layers, Ty.height]
    cases hd : E.schema.fieldsOf name with
    | nil =>
      rw [hd] at hv
      rw [List.length_eq_zero_iff.1 hv, Value.needAmong]
      omega
    | cons field declared =>
      rw [hd] at hn
      simp only
      omega
  | plain hi ht _ ih =>
    have := height_of_ty? ht
    simp only [Value.need, Value.layers, isPolymorphic_of_plain hi, Bool.false_eq_true, ↓reduceIte, Ty.height]
    omega
  | tagged hi _ _ _ =>
    simp only [Value.need, isPolymorphic_of_tagged hi, ↓reduceIte, Ty.height]
    omega
  | base _ _ _ =>
    simp only [Value.need, isPolymorphic_base, ↓reduceIte, Ty.height]
    omega

theorem layers_eq (h : E.Fits prior type v) (hf : type.canFlatten = true) (h' : E.Fits prior' type v') :
    v.layers E.schema = v'.layers E.schema := by
  induction h generalizing prior' v' with
  | @record name priors vs hp hv _ loaded flat _ ih =>
    cases h' with
    | @record _ priors' vs' hp' hv' _ loaded' _ _ =>
      have hl : Value.layersAmong E.schema (E.schema.fieldsOf name) vs =
          Value.layersAmong E.schema (E.schema.fieldsOf name) vs' := by
        refine Value.layersAmong_congr (hv.trans hv'.symm) fun x hx hm => ?_
        have hs : x.1.mode ≠ .skipped := by simp [hm]
        obtain ⟨hl, hr⟩ := mem_zip_zip hx
        obtain ⟨p, hz⟩ := exists_mem_zip (hp.trans hv.symm) hl
        obtain ⟨p', hz'⟩ := exists_mem_zip (hp'.trans hv'.symm) hr
        exact ih _ hz hs (flat x.1 (List.of_mem_zip hl).1 hm) (loaded' _ hz' hs)
      simp only [Value.layers]
      cases hd : E.schema.fieldsOf name with
      | nil => rfl
      | cons field declared =>
        rw [hd] at hl
        simp only [hl]
  | map _ _ _ _ =>
    cases h'
    rfl
  | @plain _ v kind target type hi ht _ ih =>
    have hp := isPolymorphic_of_plain hi
    cases h' with
    | plain hi' ht' hv' =>
      rw [ht] at ht'
      cases ht'
      simp only [Value.layers, hp, Bool.false_eq_true, ↓reduceIte]
      cases target with
      | atom _ => cases hf
      | record name =>
        cases ht
        exact ih rfl hv'
      | base name => cases ht
    | tagged hi' _ _ =>
      rw [isPolymorphic_of_tagged hi'] at hp
      cases hp
    | base _ _ =>
      rw [isPolymorphic_base] at hp
      cases hp
  | tagged hi _ _ _ =>
    have hp := isPolymorphic_of_tagged hi
    cases h' <;> simp only [Value.layers, hp, ↓reduceIte]
  | base _ _ _ => cases h' <;> simp only [Value.layers, isPolymorphic_base, ↓reduceIte]
  | _ => cases hf

/-- The records with fields that lie within each other in the node of a value: each is met once. -/
theorem exists_chain (h : E.Fits prior type v) : ∃ chain : List String,
    chain.length = v.layers E.schema ∧ chain.Nodup ∧ ∀ name ∈ chain, E.schema.fieldsOf name ≠ [] ∧
      ∃ p w, E.Fits p (.record name) w ∧ w.layers E.schema ≤ v.layers E.schema := by
  induction h with
  | present _ _ ih => exact ih
  | @record name priors vs hp hv skipped loaded flat last ih =>
    have hfit := Fits.record hp hv skipped loaded flat last
    cases hd : E.schema.fieldsOf name with
    | nil => exact ⟨[], by simp [Value.layers, hd], List.nodup_nil, by simp⟩
    | cons field declared =>
      have hl : (Value.record name vs).layers E.schema =
          Value.layersAmong E.schema (E.schema.fieldsOf name) vs + 1 := by
        simp only [Value.layers, hd]
      have hself : E.schema.fieldsOf name ≠ [] ∧ ∃ p w, E.Fits p (.record name) w ∧
          w.layers E.schema ≤ (Value.record name vs).layers E.schema :=
        ⟨by simp [hd], _, _, hfit, Nat.le_refl _⟩
      rcases Value.layersAmong_cases (S := E.schema) (E.schema.fieldsOf name) vs with
        h0 | ⟨x, hx, hm, hdeep⟩
      · exact ⟨[name], by simp [hl, h0], by simp, by simpa using hself⟩
      · obtain ⟨p, hz⟩ := exists_mem_zip (hp.trans hv.symm) hx
        obtain ⟨chain, hlen, hnodup, hmem⟩ := ih _ hz (by simp [hm])
        simp only [hdeep] at hlen hmem
        refine ⟨name :: chain, by simp [hl, hlen], List.nodup_cons.2 ⟨fun hn => ?_, hnodup⟩, ?_⟩
        · -- a record of the same name further down would have as many layers as this one
          obtain ⟨-, p', w, hw, hle⟩ := hmem name hn
          have := hfit.layers_eq rfl hw
          omega
        · intro other ho
          rcases List.mem_cons.1 ho with rfl | ho
          · exact hself
          · obtain ⟨hne, p', w, hw, hle⟩ := hmem other ho
            exact ⟨hne, p', w, hw, by omega⟩
  | plain hi _ _ ih =>
    simp only [Value.layers, isPolymorphic_of_plain hi, Bool.false_eq_true, ↓reduceIte]
    exact ih
  | tagged hi _ _ _ => exact ⟨[], by simp [Value.layers, isPolymorphic_of_tagged hi], List.nodup_nil, by simp⟩
  | base _ _ _ => exact ⟨[], by simp [Value.layers, isPolymorphic_base], List.nodup_nil, by simp⟩
  | _ => exact ⟨[], by simp [Value.layers], List.nodup_nil, by simp⟩

theorem layers_le (h : E.Fits prior type v) : v.layers E.schema ≤ E.schema.records.length := by
  obtain ⟨chain, hlen, hnodup, hmem⟩ := h.exists_chain
  have hsub : chain ⊆ E.schema.records.map Record.name := by
    intro name hn
    have hne := (hmem name hn).1
    unfold Schema.fieldsOf at hne
    cases hr : E.schema.record? name with
    | none => simp [hr] at hne
    | some r =>
      have hname : r.name = name := by simpa using List.find?_some hr
      exact List.mem_map.2 ⟨r, List.mem_of_find?_eq_some hr, hname⟩
  calc v.layers E.schema = chain.length := hlen.symm
    _ ≤ (E.schema.records.map Record.name).length := (hnodup.subperm hsub).length_le
    _ = E.schema.records.length := List.length_map _

theorem need_le_steps (h : E.Fits prior type v) : v.need E.schema ≤ E.loading.steps type := by
  have hn := h.need_le
  have hl := h.layers_le
  have hs := E.schema.length_le_span
  simp only [Loading.steps, loading]
  omega

end Fits

end Exchange

end Archivist
