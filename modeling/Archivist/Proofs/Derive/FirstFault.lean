/-!
Places that are gone through in order until something is wrong with one of them. Main statement: steps along a
list fail with the error of the first fault, if each step fails with what is wrong at its place.
-/

set_option autoImplicit false

namespace Archivist.Derive

variable {α β ε σ : Type}

theorem bind_eq_error_iff {x : Except ε α} {f : α → Except ε β} {e : ε} :
    x >>= f = .error e ↔ x = .error e ∨ ∃ a, x = .ok a ∧ f a = .error e := by
  cases x <;> simp [bind, Except.bind]

theorem bind_eq_ok_iff {x : Except ε α} {f : α → Except ε β} {b : β} :
    x >>= f = .ok b ↔ ∃ a, x = .ok a ∧ f a = .ok b := by
  cases x <;> simp [bind, Except.bind]

theorem map_eq_error_iff {x : Except ε α} {f : α → β} {e : ε} : x.map f = .error e ↔ x = .error e := by
  cases x <;> simp [Except.map]

theorem map_eq_ok_iff {x : Except ε α} {f : α → β} {b : β} : x.map f = .ok b ↔ ∃ a, x = .ok a ∧ f a = b := by
  cases x <;> simp [Except.map]

theorem ite_eq_error_iff {c : Prop} [Decidable c] {a : α} {e e' : ε} :
    (if c then .error e' else .ok a : Except ε α) = .error e ↔ c ∧ e' = e := by
  split <;> simp_all

/-- The error of the first place of a list at which something is wrong. What is wrong with a place can depend
on the places before it. -/
inductive FirstFault (wrong : List α → α → ε → Prop) : List α → List α → ε → Prop
  | here {before : List α} {x : α} {rest : List α} {e : ε} (h : wrong before x e) :
      FirstFault wrong before (x :: rest) e
  | later {before : List α} {x : α} {rest : List α} {e : ε} (h : ∀ e', ¬ wrong before x e')
      (hr : FirstFault wrong (before ++ [x]) rest e) : FirstFault wrong before (x :: rest) e

variable {wrong : List α → α → ε → Prop} {before : List α}

theorem firstFault_nil {e : ε} : ¬ FirstFault wrong before [] e := nofun

theorem firstFault_cons {x : α} {rest : List α} {e : ε} :
    FirstFault wrong before (x :: rest) e ↔
      wrong before x e ∨ (∀ e', ¬ wrong before x e') ∧ FirstFault wrong (before ++ [x]) rest e := by
  constructor
  · intro h
    cases h with
    | here h => exact .inl h
    | later h hr => exact .inr ⟨h, hr⟩
  · rintro (h | ⟨h, hr⟩)
    · exact .here h
    · exact .later h hr

theorem firstFault_singleton {x : α} {e : ε} : FirstFault wrong before [x] e ↔ wrong before x e := by
  rw [firstFault_cons]
  exact or_iff_left fun h => firstFault_nil h.2

def Faultless (wrong : List α → α → ε → Prop) (before l : List α) : Prop := ∀ e, ¬ FirstFault wrong before l e

theorem faultless_nil : Faultless wrong before [] := fun _ => firstFault_nil

theorem faultless_cons {x : α} {rest : List α} :
    Faultless wrong before (x :: rest) ↔ (∀ e, ¬ wrong before x e) ∧ Faultless wrong (before ++ [x]) rest := by
  constructor
  · intro h
    have hx : ∀ e, ¬ wrong before x e := fun e hw => h e (.here hw)
    exact ⟨hx, fun e hr => h e (.later hx hr)⟩
  · rintro ⟨hx, hr⟩ e h
    cases h with
    | here h => exact hx e h
    | later _ h => exact hr e h

theorem firstFault_append {l more : List α} {e : ε} :
    FirstFault wrong before (l ++ more) e ↔
      FirstFault wrong before l e ∨ Faultless wrong before l ∧ FirstFault wrong (before ++ l) more e := by
  induction l generalizing before with
  | nil => simp [firstFault_nil, faultless_nil]
  | cons x rest ih =>
    rw [List.cons_append, firstFault_cons, firstFault_cons, faultless_cons, ih, List.append_assoc,
      List.singleton_append, and_or_left, or_assoc, and_assoc]

theorem faultless_append {l more : List α} :
    Faultless wrong before (l ++ more) ↔ Faultless wrong before l ∧ Faultless wrong (before ++ l) more := by
  induction l generalizing before with
  | nil => simp [faultless_nil]
  | cons x rest ih =>
    rw [List.cons_append, faultless_cons, faultless_cons, ih, List.append_assoc, List.singleton_append, and_assoc]

/-- A step that fails with exactly the error of the first fault of a list. -/
def FailsFirst (wrong : List α → α → ε → Prop) (before l : List α) (x : Except ε β) : Prop :=
  ∀ e, x = .error e ↔ FirstFault wrong before l e

theorem FailsFirst.isOk_iff {l : List α} {x : Except ε β} (h : FailsFirst wrong before l x) :
    (∃ b, x = .ok b) ↔ Faultless wrong before l := by
  cases x with
  | error e => simpa [Faultless] using ⟨e, (h e).1 rfl⟩
  | ok b => simpa [Faultless] using fun e hf => nomatch (h e).2 hf

theorem FailsFirst.bind {γ : Type} {l more : List α} {x : Except ε β} {f : β → Except ε γ}
    (hx : FailsFirst wrong before l x) (hf : ∀ b, x = .ok b → FailsFirst wrong (before ++ l) more (f b)) :
    FailsFirst wrong before (l ++ more) (x >>= f) := by
  intro e
  rw [bind_eq_error_iff, firstFault_append, hx e, ← hx.isOk_iff]
  refine or_congr_right ⟨?_, ?_⟩
  · rintro ⟨b, hb, he⟩
    exact ⟨⟨b, hb⟩, (hf b hb e).1 he⟩
  · rintro ⟨⟨b, hb⟩, he⟩
    exact ⟨b, hb, (hf b hb e).2 he⟩

theorem FailsFirst.cons {a : α} {l : List α} {x : Except ε β} (ha : ∀ e, ¬ wrong before a e)
    (h : FailsFirst wrong (before ++ [a]) l x) : FailsFirst wrong before (a :: l) x := by
  intro e
  rw [h e, firstFault_cons]
  simp [ha]

theorem failsFirst_nil {b : β} : FailsFirst wrong before [] (.ok b) :=
  fun _ => ⟨nofun, fun h => absurd h firstFault_nil⟩

theorem failsFirst_singleton {a : α} {x : Except ε β} (h : ∀ e, x = .error e ↔ wrong before a e) :
    FailsFirst wrong before [a] x := fun e => (h e).trans firstFault_singleton.symm

/-- Steps along a list, of which each depends on a summary of those before. -/
theorem foldlM_firstFault {f : σ → α → Except ε σ} {summary : List α → σ}
    (ok : ∀ {before x s}, f (summary before) x = .ok s → s = summary (before ++ [x]))
    (error : ∀ {before x e}, f (summary before) x = .error e ↔ wrong before x e) (before l : List α) :
    FailsFirst wrong before l (l.foldlM f (summary before)) ∧
      ∀ s, l.foldlM f (summary before) = .ok s → s = summary (before ++ l) := by
  induction l generalizing before with
  | nil =>
    refine ⟨failsFirst_nil, fun s hs => ?_⟩
    cases hs
    rw [List.append_nil]
  | cons x rest ih =>
    have hrest : ∀ s, f (summary before) x = .ok s →
        FailsFirst wrong (before ++ [x]) rest (rest.foldlM f s) ∧
          ∀ s', rest.foldlM f s = .ok s' → s' = summary (before ++ x :: rest) := by
      intro s hs
      have hnext := ih (before ++ [x])
      rwa [← ok hs, List.append_assoc, List.singleton_append] at hnext
    rw [List.foldlM_cons]
    constructor
    · exact (failsFirst_singleton fun e => error).bind fun s hs => (hrest s hs).1
    · intro s' hs'
      obtain ⟨s, hs, hs'⟩ := bind_eq_ok_iff.1 hs'
      exact (hrest s hs).2 s' hs'

theorem mapM_eq_ok {f : α → Except ε β} {g : α → β} (hf : ∀ {a b}, f a = .ok b → b = g a) {l : List α} {bs : List β}
    (h : l.mapM f = .ok bs) : bs = l.map g := by
  induction l generalizing bs with
  | nil =>
    cases h
    rfl
  | cons a rest ih =>
    rw [List.mapM_cons] at h
    obtain ⟨b, hb, h⟩ := bind_eq_ok_iff.1 h
    obtain ⟨bs, hbs, h⟩ := bind_eq_ok_iff.1 h
    cases h
    rw [hf hb, ih hbs]
    rfl

theorem FailsFirst.mapM {γ : Type} {f : γ → Except ε β} {places : γ → List α}
    (hf : ∀ before c, FailsFirst wrong before (places c) (f c)) (before : List α) (l : List γ) :
    FailsFirst wrong before (l.flatMap places) (l.mapM f) := by
  induction l generalizing before with
  | nil => exact failsFirst_nil
  | cons c rest ih =>
    rw [List.mapM_cons, List.flatMap_cons]
    refine (hf before c).bind fun b _ => ?_
    rw [← List.append_nil (rest.flatMap places)]
    exact (ih _).bind fun bs _ => failsFirst_nil

section Renaming

variable {γ : Type} {g : γ → α} {wrong' : List γ → γ → ε → Prop}

theorem firstFault_map (hw : ∀ {between c e}, wrong (before ++ between.map g) (g c) e ↔ wrong' between c e)
    (between l : List γ) (e : ε) :
    FirstFault wrong (before ++ between.map g) (l.map g) e ↔ FirstFault wrong' between l e := by
  induction l generalizing between with
  | nil => exact ⟨fun h => absurd h firstFault_nil, fun h => absurd h firstFault_nil⟩
  | cons c rest ih =>
    have hnext := ih (between ++ [c])
    rw [List.map_append, ← List.append_assoc] at hnext
    rw [List.map_cons, firstFault_cons, firstFault_cons]
    simp only [hw]
    exact or_congr_right (and_congr_right fun _ => hnext)

theorem FailsFirst.map (hw : ∀ {between c e}, wrong (before ++ between.map g) (g c) e ↔ wrong' between c e)
    {l : List γ} {x : Except ε β} (h : FailsFirst wrong' [] l x) : FailsFirst wrong before (l.map g) x := by
  intro e
  have hmap := firstFault_map hw [] l e
  rw [List.map_nil, List.append_nil] at hmap
  exact (h e).trans hmap.symm

theorem faultless_map (hw : ∀ {between c e}, wrong (before ++ between.map g) (g c) e ↔ wrong' between c e)
    {l : List γ} : Faultless wrong before (l.map g) ↔ Faultless wrong' [] l := by
  refine forall_congr' fun e => not_congr ?_
  have hmap := firstFault_map hw [] l e
  rwa [List.map_nil, List.append_nil] at hmap

end Renaming

theorem faultless_flatMap {γ : Type} {places : γ → List α} {P : γ → Prop}
    (h : ∀ {before c}, Faultless wrong before (places c) ↔ P c) {before : List α} {l : List γ} :
    Faultless wrong before (l.flatMap places) ↔ ∀ c ∈ l, P c := by
  induction l generalizing before with
  | nil => simp [faultless_nil]
  | cons c rest ih => rw [List.flatMap_cons, faultless_append, h, ih, List.forall_mem_cons]

end Archivist.Derive
