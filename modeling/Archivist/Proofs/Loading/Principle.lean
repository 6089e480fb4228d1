import Archivist.Loading
import Archivist.Proofs.Registry.Growth

/-!
Properties of all loads at once. A property of steps that every way of putting loads together keeps is
a property of the loader, whatever the weight, the number of steps and the type.
-/

set_option autoImplicit false

namespace Archivist

namespace Attempt

variable {σ α β : Type} {x : Attempt σ α} {f : α → Attempt σ β} {s u : σ} {b : β}

theorem bind_eq_ok (h : (x >>= f) s = (.ok b, u)) :
    ∃ a t, x s = (.ok a, t) ∧ f a t = (.ok b, u) := by
  rw [bind_apply] at h
  rcases hx : x s with ⟨e | a, t⟩
  · simp [hx] at h
  · rw [hx] at h
    exact ⟨a, t, rfl, h⟩

theorem bind_of_eq_ok {a : α} {t : σ} (h : x s = (.ok a, t)) : (x >>= f) s = f a t := by
  simp [h]

theorem bind_of_eq_error {e : Error} {t : σ} (h : x s = (.error e, t)) :
    (x >>= f) s = (.error e, t) := by
  simp [h]

end Attempt

theorem ReadState.onReader_of_eq {α : Type} {x : Attempt Reader α} {s : ReadState} {a : Except Error α}
    {t : Reader} (h : x s.reader = (a, t)) : onReader x s = (a, { s with reader := t }) := by
  simp [onReader, Attempt.on, h]

namespace Slot

variable {α β ρ : Type} {slot : Slot α}

theorem lift_of_eq {x : Attempt ReadState ρ} {a : Except Error ρ} {t : ReadState}
    (h : x slot.state = (a, t)) : lift x slot = (a, ⟨t, slot.value⟩) := by
  simp [lift, Attempt.on, h]

theorem assign_of_eq_ok {x : Attempt ReadState α} {a : α} {t : ReadState}
    (h : x slot.state = (.ok a, t)) : assign x slot = (.ok (), ⟨t, a⟩) := by
  simp [assign, h]

theorem assign_of_eq_error {x : Attempt ReadState α} {e : Error} {t : ReadState}
    (h : x slot.state = (.error e, t)) : assign x slot = (.error e, ⟨t, slot.value⟩) := by
  simp [assign, h]

theorem fresh_of_eq_ok {x : Attempt (Slot α) Unit} {s : ReadState} {a : α}
    (h : x ⟨s, a⟩ = (.ok (), slot)) : fresh a x s = (.ok slot.value, slot.state) := by
  simp [fresh, h]

theorem fresh_of_eq_error {x : Attempt (Slot α) Unit} {s : ReadState} {a : α} {e : Error}
    (h : x ⟨s, a⟩ = (.error e, slot)) : fresh a x s = (.error e, slot.state) := by
  simp [fresh, h]

theorem state_assign (x : Attempt ReadState α) (slot : Slot α) :
    (assign x slot).2.state = (x slot.state).2 := by
  rcases hx : x slot.state with ⟨e | a, t⟩
  · rw [assign_of_eq_error hx]
  · rw [assign_of_eq_ok hx]

theorem state_fresh (initial : α) (x : Attempt (Slot α) Unit) (s : ReadState) :
    (fresh initial x s).2 = (x ⟨s, initial⟩).2.state := by
  rcases hx : x ⟨s, initial⟩ with ⟨e | _, slot⟩
  · rw [fresh_of_eq_error hx]
  · rw [fresh_of_eq_ok hx]

theorem within_of_eq {content : α → β} {make : β → α} {x : Attempt (Slot β) ρ} {a : Except Error ρ}
    {inner : Slot β} (h : x ⟨slot.state, content slot.value⟩ = (a, inner)) :
    within content make x slot = (a, ⟨inner.state, make inner.value⟩) := by
  simp [within, h]

theorem fresh_within_eq_ok {content : α → β} {make : β → α} {x : Attempt (Slot β) Unit} {initial v : α}
    {s t : ReadState} (h : fresh initial (within content make x) s = (.ok v, t)) : ∃ b, v = make b := by
  rcases hx : x ⟨s, content initial⟩ with ⟨e | _, inner⟩
  · rw [fresh_of_eq_error (within_of_eq hx)] at h
    cases h
  · rw [fresh_of_eq_ok (within_of_eq hx)] at h
    cases h
    exact ⟨inner.value, rfl⟩

section Each

variable {s : ReadState} {x : Attempt (Slot α) Unit} {xs : List (Attempt (Slot α) Unit)} {v : α}
  {vs : List α}

theorem each_cons_of_eq_ok {r : Except Error Unit} {rest : Slot (List α)}
    (h : x ⟨s, v⟩ = (.ok (), slot)) (hr : each slot.state xs vs = (r, rest)) :
    each s (x :: xs) (v :: vs) = (r, ⟨rest.state, slot.value :: rest.value⟩) := by
  simp [each, h, hr]

theorem each_cons_of_eq_error {e : Error} (h : x ⟨s, v⟩ = (.error e, slot)) :
    each s (x :: xs) (v :: vs) = (.error e, ⟨slot.state, slot.value :: vs⟩) := by
  simp [each, h]

@[simp] theorem each_nil : each s [] vs = (.ok (), ⟨s, vs⟩) := by simp [each]

@[simp] theorem each_of_nil : each s xs [] = (.ok (), ⟨s, []⟩) := by simp [each]

end Each

end Slot

namespace Loading

open ReadState

section Step

variable (env : Loading)

/-- One step of reading a new value, given how what lies below the node and what lies in it are loaded. -/
def stepNew (deep flat : Loader) : Ty → Attempt ReadState Value
  | .atom type => do return .atom (← readAtom type)
  | .option item => readOption (flat.new item)
  | .list _ item => Slot.fresh (.list []) (fillList (deep.new item))
  | .array item length => readArray length (deep.new item)
  | .map kind key item => Slot.fresh (.map key []) (env.fillMap kind key (deep.new item))
  | .record name => Slot.fresh (env.schema.initialOf name) (env.fillRecord name deep.into flat.into)
  | .ref kind target => env.readRef kind target deep.new flat.new

def stepInto (deep flat : Loader) : Ty → Attempt (Slot Value) Unit
  | .atom type => Slot.assign do return .atom (← readAtom type)
  | .option item => Slot.assign (readOption (flat.new item))
  | .list _ item => fillList (deep.new item)
  | .array item length => fillArray length (deep.into item)
  | .map kind key item => env.fillMap kind key (deep.new item)
  | .record name => env.fillRecord name deep.into flat.into
  | .ref kind target => Slot.assign (env.readRef kind target deep.new flat.new)

/-- How values are loaded from one node in so many steps. -/
def within (lighter : Loader) (steps : Nat) : Loader := ⟨env.newWithin lighter steps, env.intoWithin lighter steps⟩

theorem newWithin_succ (lighter : Loader) (steps : Nat) (type : Ty) :
    env.newWithin lighter (steps + 1) type = env.stepNew lighter (env.within lighter steps) type := by
  cases type <;> simp only [newWithin, stepNew, within]

theorem intoWithin_succ (lighter : Loader) (steps : Nat) (type : Ty) :
    env.intoWithin lighter (steps + 1) type = env.stepInto lighter (env.within lighter steps) type := by
  cases type <;> simp only [intoWithin, stepInto, within]

end Step

/-- Properties of steps that read (`P`) and of steps that load in place (`Q`) which hold of the
elementary steps, and of what is put together from steps that have them. What is entered is left again
within one step, and answers of the registry count only as far as a larger registry would give them. That
the steps are used up is no elementary step. -/
structure Composed (S : Schema) (P : {α : Type} → Attempt ReadState α → Prop)
    (Q : {α ρ : Type} → Attempt (Slot α) ρ → Prop) : Prop where
  pure {α : Type} (a : α) : P (Pure.pure a)
  reject {α : Type} (e : Error) (he : e ≠ .endless) : P (.fail e : Attempt ReadState α)
  bind {α β : Type} {x : Attempt ReadState α} {f : α → Attempt ReadState β} :
    P x → (∀ a, P (f a)) → P (x >>= f)
  readValue : P (onReader Reader.readValue)
  isNull : P (onReader Reader.isNull)
  readSize : P (onReader Reader.readSize)
  nextFieldName : P (onReader Reader.nextFieldName)
  inField {α : Type} {x : Attempt ReadState α} (name : String) : P x → P (ReadState.inField name x)
  inElement {α : Type} {x : Attempt ReadState α} : P x → P (ReadState.inElement x)
  readTag : P Loading.readTag
  ensure (t : Target) (a : Archive) : P (change (·.ensureInput (S.info t) a))
  ask {α γ : Type} {k : γ → Attempt ReadState α} (answer : Registry → Option γ) (e : Error) (he : e ≠ .endless)
    (lasting : ∀ {r r' c}, r.Extends r' → answer r = some c → answer r' = some c) :
    (∀ c, P (k c)) → P (withRegistry fun r => (answer r).elim (.fail e) k)
  fresh {α : Type} {x : Attempt (Slot α) Unit} (initial : α) : Q x → P (Slot.fresh initial x)
  pureIn {α ρ : Type} (a : ρ) : Q (Pure.pure a : Attempt (Slot α) ρ)
  rejectIn {α ρ : Type} (e : Error) (he : e ≠ .endless) : Q (.fail e : Attempt (Slot α) ρ)
  bindIn {α ρ τ : Type} {x : Attempt (Slot α) ρ} {f : ρ → Attempt (Slot α) τ} :
    Q x → (∀ a, Q (f a)) → Q (x >>= f)
  lift {α ρ : Type} {x : Attempt ReadState ρ} : P x → Q (Slot.lift x : Attempt (Slot α) ρ)
  update {α : Type} (f : α → α) : Q (Slot.update f)
  assign {α : Type} {x : Attempt ReadState α} : P x → Q (Slot.assign x)
  within {α β ρ : Type} {x : Attempt (Slot β) ρ} (content : α → β) (make : β → α) :
    Q x → Q (Slot.within content make x)
  inOrder {α : Type} {xs : List (Attempt (Slot α) Unit)} :
    (∀ x ∈ xs, Q x) → Q (Slot.inOrder xs)
  field {x : Attempt (Slot Value) Unit} (name : String) : Q x → Q do
    Slot.lift (onReader (Reader.startField name))
    x
    Slot.lift (onReader Reader.finishNode)
  optional {x : Attempt (Slot Value) Unit} (name : String) : Q x → Q do
    if ← Slot.lift (enterOptional name) then
      x
      Slot.lift (onReader Reader.finishNode)
  element {x : Attempt (Slot Value) Unit} : Q x → Q do
    Slot.lift (onReader Reader.startElement)
    x
    Slot.lift (onReader Reader.finishNode)
  count {α : Type} {f : Nat → Attempt (Slot α) Unit} : (∀ n, Q (f n)) → Q do
    let slot ← Attempt.get
    f (slot.state.reader.fieldCount + 1)

/-- Such properties that hold of every failure, also where the steps are used up. -/
structure Stepwise (S : Schema) (P : {α : Type} → Attempt ReadState α → Prop)
    (Q : {α ρ : Type} → Attempt (Slot α) ρ → Prop) : Prop extends Composed S P Q where
  fail {α : Type} (e : Error) : P (.fail e : Attempt ReadState α)
  failIn {α ρ : Type} (e : Error) : Q (.fail e : Attempt (Slot α) ρ)
  reject e _ := fail e
  rejectIn e _ := failIn e

namespace Composed

variable {P : {α : Type} → Attempt ReadState α → Prop}
  {Q : {α ρ : Type} → Attempt (Slot α) ρ → Prop}

section Steps

variable {S : Schema} (h : Composed S P Q)

include h

theorem readAtom (type : AtomTy) : P (Loading.readAtom type) := by
  refine h.bind h.readValue fun leaf => ?_
  split
  · exact h.pure _
  · exact h.reject _ (by simp)

theorem readOption {item : Attempt ReadState Value} (hi : P item) : P (Loading.readOption item) := by
  refine h.bind h.isNull fun null => ?_
  split
  · exact h.bind h.readValue fun _ => h.pure _
  · exact h.bind hi fun _ => h.pure _

theorem appendItems {item : Attempt ReadState Value} (hi : P item) (count : Nat) :
    Q (Loading.appendItems item count) := by
  induction count with
  | zero => exact h.pureIn _
  | succ count ih => exact h.bindIn (h.lift (h.inElement hi)) fun _ => h.bindIn (h.update _) fun _ => ih

theorem fillList {item : Attempt ReadState Value} (hi : P item) : Q (Loading.fillList item) :=
  h.within _ _ (h.bindIn (h.lift h.readSize) fun count => h.appendItems hi count)

theorem checkSize (length : Nat) : P (Loading.checkSize length) := by
  refine h.bind h.readSize fun found => ?_
  split
  · exact h.pure _
  · exact h.reject _ (by simp)

theorem readArray {item : Attempt ReadState Value} (length : Nat) (hi : P item) :
    P (Loading.readArray length item) :=
  h.bind (h.checkSize length) fun _ => h.fresh _ (h.fillList hi)

theorem fillArray {item : Attempt (Slot Value) Unit} (length : Nat) (hi : Q item) :
    Q (Loading.fillArray length item) := by
  refine h.within _ _ (h.bindIn (h.lift (h.checkSize length)) fun _ => h.inOrder fun x hx => ?_)
  rw [List.eq_of_mem_replicate hx]
  exact h.element hi

section Maps

variable {κ ν α : Type} {item : Attempt ReadState ν} (hi : P item) (insert : κ → ν → α → α)

include hi

theorem addNamed (ofField : String → Option κ) (count : Nat) : Q (Loading.addNamed ofField item insert count) := by
  induction count with
  | zero => exact h.pureIn _
  | succ count ih =>
    refine h.bindIn (h.lift h.nextFieldName) fun next => ?_
    cases next with
    | none => exact h.pureIn _
    | some name =>
      refine h.bindIn (h.lift (h.inField name hi)) fun value => ?_
      cases ofField name with
      | none => exact h.rejectIn _ (by simp)
      | some key => exact h.bindIn (h.update _) fun _ => ih

theorem addPairs {read : Attempt ReadState κ} (hr : P read) (count : Nat) :
    Q (Loading.addPairs read item insert count) := by
  induction count with
  | zero => exact h.pureIn _
  | succ count ih =>
    refine h.bindIn (h.lift (h.inElement ?_)) fun _ => h.bindIn (h.update _) fun _ => ih
    exact h.bind (h.inField _ hr) fun _ => h.bind (h.inField _ hi) fun _ => h.pure _

theorem addMap {keys : KeyReader κ} (hk : ∀ read, keys = .beside read → P read) :
    Q (Loading.addMap keys item insert) := by
  cases keys with
  | names ofField => exact h.count fun n => h.addNamed hi insert ofField n
  | beside read => exact h.bindIn (h.lift h.readSize) fun count => h.addPairs hi insert (hk read rfl) count

end Maps

theorem fillMap (env : Loading) {item : Attempt ReadState Value} (kind : MapKind) (key : KeyTy)
    (hi : P item) : Q (env.fillMap kind key item) := by
  refine h.within _ _ (h.addMap hi _ fun read hr => ?_)
  cases key with
  | atom type =>
    cases hr
    exact h.readAtom type
  | text => cases hr
  | named name => cases hr

theorem fillField {load : Ty → Attempt (Slot Value) Unit} (hl : ∀ type, Q (load type))
    (field : Field) : Q (Loading.fillField load field) := by
  unfold Loading.fillField
  split
  · exact h.pureIn _
  · exact hl _
  · exact h.field _ (hl _)
  · exact h.optional _ (hl _)

theorem fillRecord (env : Loading) {deep flat : Ty → Attempt (Slot Value) Unit} (name : String)
    (hd : ∀ type, Q (deep type)) (hf : ∀ type, Q (flat type)) :
    Q (env.fillRecord name deep flat) := by
  refine h.within _ _ (h.inOrder fun x hx => ?_)
  obtain ⟨field, -, rfl⟩ := List.mem_map.1 hx
  split
  · exact h.fillField hf field
  · exact h.fillField hd field

theorem require {α : Type} {c : Registry → Prop} [DecidablePred c] {x : Attempt ReadState α}
    (e : Error) (he : e ≠ .endless) (lasting : ∀ {r r'}, r.Extends r' → c r → c r') (hx : P x) :
    P (withRegistry fun r => if c r then x else .fail e) := by
  have hk := h.ask (fun r => if c r then some () else none) (k := fun _ => x) e he
    (fun hr hc => by
      split at hc
      · rename_i hp
        rw [if_pos (lasting hr hp)]
      · cases hc)
    fun _ => hx
  have heq : (fun r => if c r then x else .fail e) =
      fun r => (if c r then some () else none : Option Unit).elim (.fail e) fun _ => x := by
    funext r
    by_cases hp : c r <;> simp [hp]
  rwa [heq]

end Steps

variable (env : Loading) (h : Composed env.schema P Q)

include h

theorem warmUp (target : Target) : P (env.warmUp target) := by
  unfold Loading.warmUp
  split
  · exact h.ensure _ _
  · exact h.pure _

theorem resolve (target : Target) : P (env.resolve target) := by
  refine h.bind (h.warmUp env target) fun _ => h.bind h.readTag fun tag => ?_
  have ha := h.ask (env.bound? · tag) (k := fun found => Pure.pure (tag, found))
    (.unknownType tag) (by simp)
    (fun hr hc => by
      obtain ⟨bound, hb, ht⟩ := Option.bind_eq_some_iff.1 hc
      exact Option.bind_eq_some_iff.2 ⟨bound, hr.input hb, ht⟩)
    fun _ => h.pure _
  refine (congrArg P (congrArg withRegistry (funext fun r => ?_))).mpr ha
  cases env.bound? r tag <;> rfl

theorem readTagged {load : Ty → Attempt ReadState Value} (kind : RefKind)
    (target : Target) (hl : ∀ type, P (load type)) : P (env.readTagged kind target load) := by
  refine h.bind (h.resolve env target) fun found => h.bind (hl _) fun item =>
    h.require _ (by simp) (fun hr hc => ?_) (h.pure _)
  simp only [accepts, Bool.or_eq_true, Option.any_eq_true] at hc ⊢
  exact hc.imp_right fun ⟨up, hu, hp⟩ => ⟨up, hr.upcaster hu, hp⟩

theorem readRef {deep flat : Ty → Attempt ReadState Value} (kind : RefKind)
    (target : Target) (hd : ∀ type, P (deep type)) (hf : ∀ type, P (flat type)) :
    P (env.readRef kind target deep flat) := by
  unfold Loading.readRef
  split
  · exact h.readTagged env kind target hd
  · refine h.bind ?_ fun _ => h.pure _
    unfold Loading.readPlain
    split
    · exact hf _
    · exact h.reject _ (by simp)

theorem step {deep flat : Loader} (hn : ∀ type, P (deep.new type)) (hi : ∀ type, Q (deep.into type))
    (hf : ∀ type, P (flat.new type) ∧ Q (flat.into type)) (type : Ty) :
    P (env.stepNew deep flat type) ∧ Q (env.stepInto deep flat type) := by
  cases type with
  | atom type =>
    have ha := h.bind (h.readAtom type) fun a => h.pure (Value.atom a)
    exact ⟨ha, h.assign ha⟩
  | option item =>
    have ho := h.readOption (hf item).1
    exact ⟨ho, h.assign ho⟩
  | list kind item => exact ⟨h.fresh _ (h.fillList (hn item)), h.fillList (hn item)⟩
  | array item length => exact ⟨h.readArray length (hn item), h.fillArray length (hi item)⟩
  | map kind key item =>
    have hm := h.fillMap env kind key (hn item)
    exact ⟨h.fresh _ hm, hm⟩
  | record name =>
    have hr := h.fillRecord env name hi fun type => (hf type).2
    exact ⟨h.fresh _ hr, hr⟩
  | ref kind target =>
    have hr := h.readRef env kind target hn fun type => (hf type).1
    exact ⟨hr, h.assign hr⟩

end Composed

namespace Stepwise

variable {P : {α : Type} → Attempt ReadState α → Prop}
  {Q : {α ρ : Type} → Attempt (Slot α) ρ → Prop} (env : Loading) (h : Stepwise env.schema P Q)

include h

theorem within_steps {lighter : Loader} (hn : ∀ type, P (lighter.new type))
    (hi : ∀ type, Q (lighter.into type)) (steps : Nat) :
    ∀ type, P (env.newWithin lighter steps type) ∧ Q (env.intoWithin lighter steps type) := by
  induction steps with
  | zero =>
    intro type
    exact ⟨h.fail _, h.failIn _⟩
  | succ steps ih =>
    intro type
    rw [newWithin_succ, intoWithin_succ]
    exact h.step env hn hi ih type

theorem loader (weight : Nat) :
    (∀ type, P ((env.loader weight).new type)) ∧ ∀ type, Q ((env.loader weight).into type) := by
  induction weight with
  | zero => exact ⟨fun _ => h.fail _, fun _ => h.failIn _⟩
  | succ weight ih =>
    have hw := h.within_steps env ih.1 ih.2
    exact ⟨fun type => (hw _ type).1, fun type => (hw _ type).2⟩

end Stepwise

end Loading

end Archivist
