import Archivist.Proofs.Loading.Locality

/-!
Which loader a node is given to makes no difference. Main statement: all loaders for nodes heavier than
the current one load it alike.
-/

set_option autoImplicit false

namespace Archivist

/-- Steps that do the same wherever the current node is lighter than `n`. -/
def Agree {σ α : Type} (V : View σ) (n : Nat) (x y : Attempt σ α) : Prop :=
  ∀ s, (V.reader s).weight < n → x s = y s

namespace Agree

open ReadState

section Generic

variable {σ α β : Type} {V : View σ} {n : Nat} {x y : Attempt σ α} {f g : α → Attempt σ β}

theorem refl (x : Attempt σ α) : Agree V n x x := fun _ _ => rfl

theorem mono {m : Nat} (h : Agree V n x y) (hm : m ≤ n) : Agree V m x y :=
  fun s hs => h s (Nat.lt_of_lt_of_le hs hm)

theorem bind (hx : Local V x) (h : Agree V n x y) (hf : ∀ a, Agree V n (f a) (g a)) :
    Agree V n (x >>= f) (y >>= g) := by
  intro s hs
  have hxy := h s hs
  rcases ha : x s with ⟨e | a, t⟩
  · rw [Attempt.bind_of_eq_error ha, Attempt.bind_of_eq_error (hxy.symm.trans ha)]
  · rw [Attempt.bind_of_eq_ok ha, Attempt.bind_of_eq_ok (hxy.symm.trans ha)]
    exact hf a t (Nat.lt_of_le_of_lt (hx ha).weight_le hs)

theorem bind_left (h : Agree V n x y) (f : α → Attempt σ β) : Agree V n (x >>= f) (y >>= f) := by
  intro s hs
  simp only [Attempt.bind_apply, h s hs]

theorem descend (hx : ∀ {s t a}, x s = (.ok a, t) → (V.reader t).weight < (V.reader s).weight)
    (hf : ∀ a, Agree V n (f a) (g a)) : Agree V (n + 1) (x >>= f) (x >>= g) := by
  intro s hs
  rcases ha : x s with ⟨e | a, t⟩
  · rw [Attempt.bind_of_eq_error ha, Attempt.bind_of_eq_error ha]
  · rw [Attempt.bind_of_eq_ok ha, Attempt.bind_of_eq_ok ha]
    exact hf a t (by have := hx ha; omega)

end Generic

variable {α β ρ : Type} {n : Nat}

theorem inField (name : String) {x y : Attempt ReadState α} (h : Agree .whole n x y) :
    Agree .whole (n + 1) (inField name x) (inField name y) :=
  descend (fun hs => (Reader.startField_enters (Local.onReader_eq_ok hs)).weight_lt) fun _ => h.bind_left _

theorem inElement {x y : Attempt ReadState α} (h : Agree .whole n x y) :
    Agree .whole (n + 1) (inElement x) (inElement y) :=
  descend (fun hs => (Reader.startElement_enters (Local.onReader_eq_ok hs)).weight_lt) fun _ => h.bind_left _

theorem aroundIn (enter : Attempt Reader Unit) (he : ∀ {r r'}, enter r = (.ok (), r') → r.Enters r')
    {x y : Attempt (Slot α) Unit} (h : Agree (.slot α) n x y) :
    Agree (.slot α) (n + 1)
      (Slot.lift (onReader enter) >>= fun _ => x >>= fun _ => Slot.lift (onReader Reader.finishNode))
      (Slot.lift (onReader enter) >>= fun _ => y >>= fun _ => Slot.lift (onReader Reader.finishNode)) :=
  descend (fun hs => (he (Local.onReader_eq_ok (Local.lift_eq_ok hs))).weight_lt) fun _ => h.bind_left _

theorem lift {x y : Attempt ReadState ρ} (h : Agree .whole n x y) :
    Agree (.slot α) n (Slot.lift x) (Slot.lift y) := by
  intro slot hs
  simp only [Slot.lift, Attempt.on, h slot.state hs]

theorem assign {x y : Attempt ReadState α} (h : Agree .whole n x y) :
    Agree (.slot α) n (Slot.assign x) (Slot.assign y) := by
  intro slot hs
  simp only [Slot.assign, h slot.state hs]

theorem fresh (initial : α) {x y : Attempt (Slot α) Unit} (h : Agree (.slot α) n x y) :
    Agree .whole n (Slot.fresh initial x) (Slot.fresh initial y) := by
  intro s hs
  simp only [Slot.fresh, h ⟨s, initial⟩ hs]

theorem within (content : α → β) (make : β → α) {x y : Attempt (Slot β) ρ} (h : Agree (.slot β) n x y) :
    Agree (.slot α) n (Slot.within content make x) (Slot.within content make y) := by
  intro slot hs
  simp only [Slot.within, h ⟨slot.state, content slot.value⟩ hs]

theorem each {ι : Type} {is : List ι} {f g : ι → Attempt (Slot α) Unit}
    (hl : ∀ i, Local (.slot α) (f i)) (h : ∀ i, Agree (.slot α) n (f i) (g i)) {s : ReadState}
    (hs : s.reader.weight < n) (vs : List α) :
    Slot.each s (is.map f) vs = Slot.each s (is.map g) vs := by
  induction is generalizing s vs with
  | nil => rfl
  | cons i is ih =>
    cases vs with
    | nil => simp
    | cons v vs =>
      have hi := h i ⟨s, v⟩ hs
      rcases hx : f i ⟨s, v⟩ with ⟨e | _, slot⟩
      · rw [List.map_cons, List.map_cons, Slot.each_cons_of_eq_error hx,
          Slot.each_cons_of_eq_error (hi.symm.trans hx)]
      · have hw : slot.state.reader.weight ≤ s.reader.weight := (hl i hx).weight_le
        rcases hr : Slot.each slot.state (is.map f) vs with ⟨res, rest⟩
        have hr' := (ih (Nat.lt_of_le_of_lt hw hs) vs).symm.trans hr
        rw [List.map_cons, List.map_cons, Slot.each_cons_of_eq_ok hx hr,
          Slot.each_cons_of_eq_ok (hi.symm.trans hx) hr']

theorem inOrder {ι : Type} (is : List ι) {f g : ι → Attempt (Slot α) Unit}
    (hl : ∀ i, Local (.slot α) (f i)) (h : ∀ i, Agree (.slot α) n (f i) (g i)) :
    Agree (.slot (List α)) n (Slot.inOrder (is.map f)) (Slot.inOrder (is.map g)) :=
  fun slot hs => each hl h hs slot.value

end Agree

namespace Loading

open ReadState

variable {n : Nat}

theorem local_checkSize (length : Nat) : Local .whole (checkSize length) := by
  refine Local.bind (Local.onReader Reader.readSize_within) fun found => ?_
  split
  · exact Local.pure _
  · exact Local.fail _

section Sequences

variable {x y : Attempt ReadState Value} (hl : Local .whole x) (h : Agree .whole n x y)

include h

theorem agree_readOption : Agree .whole n (readOption x) (readOption y) := by
  refine .bind (Local.onReader Reader.isNull_within) (.refl _) fun null => ?_
  cases null with
  | true => exact .refl _
  | false => exact h.bind_left _

include hl

theorem agree_appendItems (count : Nat) :
    Agree (.slot _) (n + 1) (appendItems x count) (appendItems y count) := by
  induction count with
  | zero => exact .refl _
  | succ count ih =>
    refine .bind (Local.lift (Local.around _ Reader.startElement_enters hl)) h.inElement.lift fun value => ?_
    exact .bind (Local.update _) (.refl _) fun _ => ih

theorem agree_fillList : Agree (.slot _) (n + 1) (fillList x) (fillList y) :=
  .within _ _ (.bind (Local.lift (Local.onReader Reader.readSize_within)) (.refl _) fun count =>
    agree_appendItems hl h count)

theorem agree_readArray (length : Nat) :
    Agree .whole (n + 1) (readArray length x) (readArray length y) :=
  .bind (local_checkSize length) (.refl _) fun _ => (agree_fillList hl h).fresh _

end Sequences

theorem agree_fillArray {x y : Attempt (Slot Value) Unit} (hl : Local (.slot Value) x)
    (h : Agree (.slot Value) n x y) (length : Nat) :
    Agree (.slot Value) (n + 1) (fillArray length x) (fillArray length y) := by
  refine .within _ _ (.bind (Local.lift (local_checkSize length)) (.refl _) fun _ => ?_)
  have hi := Agree.inOrder (List.replicate length ())
    (fun _ => Local.aroundIn Reader.startElement Reader.startElement_enters hl)
    (fun _ => Agree.aroundIn Reader.startElement Reader.startElement_enters h)
  simpa only [List.map_replicate] using hi

section Maps

variable {κ ν α : Type} {x y : Attempt ReadState ν} (hl : Local .whole x) (h : Agree .whole n x y)
  (insert : κ → ν → α → α)

include hl h

theorem agree_addNamed (ofField : String → Option κ) (count : Nat) :
    Agree (.slot α) (n + 1) (addNamed ofField x insert count) (addNamed ofField y insert count) := by
  induction count with
  | zero => exact .refl _
  | succ count ih =>
    refine .bind (Local.lift (Local.onReader Reader.nextFieldName_within)) (.refl _) fun next => ?_
    cases next with
    | none => exact .refl _
    | some name =>
      refine .bind (Local.lift (Local.around _ Reader.startField_enters hl)) (h.inField name).lift
        fun value => ?_
      cases ofField name with
      | none => exact .refl _
      | some key => exact .bind (Local.update _) (.refl _) fun _ => ih

theorem agree_addPairs {read : Attempt ReadState κ} (hr : Local .whole read) (count : Nat) :
    Agree (.slot α) (n + 1) (addPairs read x insert count) (addPairs read y insert count) := by
  have hp {β γ : Type} {x : Attempt ReadState β} {f : β → Attempt ReadState γ} (name : String) (hx : Local .whole x)
      (hf : ∀ a, Local .whole (f a)) : Local .whole (inField name x >>= f) :=
    Local.bind (Local.around _ Reader.startField_enters hx) hf
  induction count with
  | zero => exact .refl _
  | succ count ih =>
    refine .bind (Local.lift (Local.around _ Reader.startElement_enters ?_)) (Agree.lift ?_) fun entry => ?_
    · exact hp _ hr fun _ => hp _ hl fun _ => Local.pure _
    · refine Agree.descend
        (fun hs => (Reader.startElement_enters (Local.onReader_eq_ok hs)).weight_lt) fun _ => ?_
      refine Agree.bind_left (Agree.bind (Local.around _ Reader.startField_enters hr) (.refl _) fun k => ?_) _
      exact ((h.inField valueField).mono (by omega)).bind_left _
    · exact .bind (Local.update _) (.refl _) fun _ => ih

theorem agree_addMap {keys : KeyReader κ} (hk : ∀ read, keys = .beside read → Local .whole read) :
    Agree (.slot α) (n + 1) (addMap keys x insert) (addMap keys y insert) := by
  cases keys with
  | names ofField => exact fun slot hs => agree_addNamed hl h insert ofField _ slot hs
  | beside read =>
    exact .bind (Local.lift (Local.onReader Reader.readSize_within)) (.refl _) fun count =>
      agree_addPairs hl h insert (hk read rfl) count

end Maps

theorem agree_fillMap (env : Loading) {x y : Attempt ReadState Value} (hl : Local .whole x)
    (h : Agree .whole n x y) (kind : MapKind) (key : KeyTy) :
    Agree (.slot Value) (n + 1) (env.fillMap kind key x) (env.fillMap kind key y) := by
  refine .within _ _ (agree_addMap hl h _ fun read hr => ?_)
  cases key with
  | atom type =>
    cases hr
    exact (Local.stepwise env.schema).readAtom type
  | text => cases hr
  | named name => cases hr

section Records

variable (env : Loading) {deep deep' flat flat' : Ty → Attempt (Slot Value) Unit}

theorem agree_fillField (hd : ∀ type, Agree (.slot Value) n (deep type) (deep' type)) (field : Field)
    (hm : field.mode ≠ .flattened) :
    Agree (.slot Value) (n + 1) (fillField deep field) (fillField deep' field) := by
  unfold fillField
  split
  · exact .refl _
  · exact absurd (by assumption) hm
  · exact .aroundIn _ Reader.startField_enters (hd _)
  · intro slot hs
    rcases ho : Slot.lift (enterOptional field.name) slot with ⟨e | entered, t⟩
    · rw [Attempt.bind_of_eq_error ho, Attempt.bind_of_eq_error ho]
    · rw [Attempt.bind_of_eq_ok ho, Attempt.bind_of_eq_ok ho]
      have he := Local.enterOptional_eq_ok (Local.lift_eq_ok ho)
      cases entered with
      | false => rfl
      | true => exact (hd _).bind_left _ t (Nat.lt_of_lt_of_le he.weight_lt (Nat.le_of_lt_succ hs))

theorem agree_fillRecord (name : String) (ld : ∀ type, Local (.slot Value) (deep type))
    (lf : ∀ type, Local (.slot Value) (flat type))
    (hd : ∀ type, Agree (.slot Value) n (deep type) (deep' type))
    (hf : ∀ type, Agree (.slot Value) (n + 1) (flat type) (flat' type)) :
    Agree (.slot Value) (n + 1) (env.fillRecord name deep flat) (env.fillRecord name deep' flat') := by
  have hp := Local.stepwise env.schema
  refine .within _ _ (Agree.inOrder _ (fun field => ?_) fun field => ?_)
  · split
    · exact hp.fillField lf field
    · exact hp.fillField ld field
  · split
    · rename_i hm
      simp only [fillField, hm]
      exact hf _
    · exact agree_fillField hd field (by assumption)

end Records

section References

variable (env : Loading) {deep deep' flat flat' : Ty → Attempt ReadState Value}

theorem resolve_weight_lt {target : Target} {s t : ReadState} {found : String × Target × Ty}
    (h : env.resolve target s = (.ok found, t)) : t.reader.weight < s.reader.weight := by
  have hp := Local.stepwise env.schema
  obtain ⟨⟨⟩, t₁, h₁, h⟩ := Attempt.bind_eq_ok h
  obtain ⟨tag, t₂, h₂, h⟩ := Attempt.bind_eq_ok h
  have hw : t₁.reader.weight ≤ s.reader.weight := (hp.warmUp env target h₁).weight_le
  have ht : t₂ = t := by
    cases hb : env.bound? t₂.registry tag with
    | none => simp [withRegistry, hb] at h
    | some bound =>
      simp only [withRegistry, hb, Attempt.pure_apply] at h
      cases h
      rfl
  subst ht
  exact Nat.lt_of_lt_of_le (Local.readTag_eq_ok h₂).2 hw

theorem agree_readRef (kind : RefKind) (target : Target)
    (hd : ∀ type, Agree .whole n (deep type) (deep' type))
    (hf : ∀ type, Agree .whole (n + 1) (flat type) (flat' type)) :
    Agree .whole (n + 1) (env.readRef kind target deep flat) (env.readRef kind target deep' flat') := by
  unfold readRef
  split
  · exact .descend (env.resolve_weight_lt) fun found => (hd _).bind_left _
  · refine Agree.bind_left ?_ _
    unfold readPlain
    split
    · exact hf _
    · exact .refl _

end References

section Loaders

variable (env : Loading) {lighter lighter' : Loader}

theorem agree_step {flat flat' : Loader} (ln : ∀ type, Local .whole (lighter.new type))
    (li : ∀ type, Local (.slot Value) (lighter.into type)) (lf : ∀ type, Local (.slot Value) (flat.into type))
    (hn : ∀ type, Agree .whole n (lighter.new type) (lighter'.new type))
    (hi : ∀ type, Agree (.slot Value) n (lighter.into type) (lighter'.into type))
    (hf : ∀ type, Agree .whole (n + 1) (flat.new type) (flat'.new type) ∧
      Agree (.slot Value) (n + 1) (flat.into type) (flat'.into type)) (type : Ty) :
    Agree .whole (n + 1) (env.stepNew lighter flat type) (env.stepNew lighter' flat' type) ∧
      Agree (.slot Value) (n + 1) (env.stepInto lighter flat type) (env.stepInto lighter' flat' type) := by
  cases type with
  | atom type => exact ⟨.refl _, .refl _⟩
  | option item =>
    have ho := agree_readOption (hf item).1
    exact ⟨ho, ho.assign⟩
  | list kind item =>
    have hl := agree_fillList (ln item) (hn item)
    exact ⟨hl.fresh _, hl⟩
  | array item length =>
    exact ⟨agree_readArray (ln item) (hn item) length, agree_fillArray (li item) (hi item) length⟩
  | map kind key item =>
    have hm := agree_fillMap env (ln item) (hn item) kind key
    exact ⟨hm.fresh _, hm⟩
  | record name =>
    have hr := agree_fillRecord env name li lf hi fun type => (hf type).2
    exact ⟨hr.fresh _, hr⟩
  | ref kind target =>
    have hr := agree_readRef env kind target hn fun type => (hf type).1
    exact ⟨hr, hr.assign⟩

theorem agree_within (ln : ∀ type, Local .whole (lighter.new type))
    (li : ∀ type, Local (.slot Value) (lighter.into type))
    (hn : ∀ type, Agree .whole n (lighter.new type) (lighter'.new type))
    (hi : ∀ type, Agree (.slot Value) n (lighter.into type) (lighter'.into type)) (steps : Nat) :
    ∀ type,
      Agree .whole (n + 1) (env.newWithin lighter steps type) (env.newWithin lighter' steps type) ∧
      Agree (.slot Value) (n + 1) (env.intoWithin lighter steps type)
        (env.intoWithin lighter' steps type) := by
  induction steps with
  | zero =>
    intro type
    exact ⟨.refl _, .refl _⟩
  | succ steps ih =>
    intro type
    simp only [newWithin_succ, intoWithin_succ]
    have lf := (Local.stepwise env.schema).within_steps env ln li steps
    exact env.agree_step ln li (fun type => (lf type).2) hn hi ih type

theorem agree_loader {k j : Nat} (hk : k ≤ j) : ∀ type,
    Agree .whole k ((env.loader j).new type) ((env.loader k).new type) ∧
    Agree (.slot Value) k ((env.loader j).into type) ((env.loader k).into type) := by
  induction k generalizing j with
  | zero => exact fun _ => ⟨fun _ hs => absurd hs (Nat.not_lt_zero _), fun _ hs => absurd hs (Nat.not_lt_zero _)⟩
  | succ k ih =>
    cases j with
    | zero => omega
    | succ j =>
      have hl := (Local.stepwise env.schema).loader env j
      have ih := ih (Nat.le_of_succ_le_succ hk)
      exact fun type => agree_within env hl.1 hl.2 (fun type => (ih type).1) (fun type => (ih type).2) _ type

/-- Any loader for nodes heavier than the current one reads it as a new value alike. -/
theorem loader_new_eq {k : Nat} {s : ReadState} (hs : s.reader.weight < k) (type : Ty) :
    (env.loader k).new type s = env.loadNew type s :=
  (agree_loader env hs type).1 s (Nat.lt_succ_self _)

theorem loader_into_eq {k : Nat} {slot : Slot Value} (hs : slot.state.reader.weight < k) (type : Ty) :
    (env.loader k).into type slot = env.load type slot :=
  (agree_loader env hs type).2 slot (Nat.lt_succ_self _)

end Loaders

end Loading

end Archivist
