import Archivist.Proofs.Loading.Confinement

/-!
What a failed load in place leaves depends on the current node, the registry and the prior value alone, as what
a successful one gives does.
-/

set_option autoImplicit false

namespace Archivist

open ReadState Reader

/-- Failures leave the same value, in states that count as far as told. -/
def Slot.Stopping {α : Type} (F : Error → ReadState → Error → ReadState → Prop) (e : Error) (p : Slot α)
    (e' : Error) (q : Slot α) : Prop :=
  F e p.state e' q.state ∧ p.value = q.value

/-- A step in place that does the same to the current node, the registry and the value whatever the nodes
around, also if it fails. -/
def Framed {α ρ : Type} (x : Attempt (Slot α) ρ) : Prop :=
  ∀ rest rest', Coupled (Slot.Stopping FailsAlike) (Slot.Related (Amid rest rest') Eq)
    (Slot.Related (Amid rest rest') Eq) Eq x x

namespace Coupled

variable {α β ρ : Type} {F : Error → ReadState → Error → ReadState → Prop} {R R' : ReadState → ReadState → Prop}
  {A : ρ → ρ → Prop}

theorem failing {x y : Attempt (Slot α) ρ} {P Q : Slot α → Slot α → Prop}
    (h : Coupled (Slot.Stopping F) P Q A x y) : Coupled (Slot.Failing F) P Q A x y := by
  intro p q hp
  obtain ⟨a, b, s, t, hx, hy, ha, hs⟩ | ⟨e, e', s, t, hx, hy, hf⟩ := (h hp).cases
  · rw [hx, hy]
    exact .ok ha hs
  · rw [hx, hy]
    exact .error hf.1

theorem liftStopping {x y : Attempt ReadState ρ} (h : Coupled F R R' A x y) :
    Coupled (Slot.Stopping F) (Slot.Related R Eq) (Slot.Related R' Eq) A (Slot.lift x : Attempt (Slot α) ρ)
      (Slot.lift y) := by
  intro p q hp
  obtain ⟨a, b, s, t, hx, hy, ha, hs⟩ | ⟨e, e', s, t, hx, hy, hf⟩ := (h hp.1).cases
  · rw [Slot.lift_of_eq hx, Slot.lift_of_eq hy]
    exact .ok ha ⟨hs, hp.2⟩
  · rw [Slot.lift_of_eq hx, Slot.lift_of_eq hy]
    exact .error ⟨hf, hp.2⟩

theorem assignStopping {x y : Attempt ReadState α} (h : Coupled F R R' Eq x y) :
    Coupled (Slot.Stopping F) (Slot.Related R Eq) (Slot.Related R' Eq) Eq (Slot.assign x) (Slot.assign y) := by
  intro p q hp
  obtain ⟨a, b, s, t, hx, hy, ha, hs⟩ | ⟨e, e', s, t, hx, hy, hf⟩ := (h hp.1).cases
  · rw [Slot.assign_of_eq_ok hx, Slot.assign_of_eq_ok hy]
    exact .ok rfl ⟨hs, ha⟩
  · rw [Slot.assign_of_eq_error hx, Slot.assign_of_eq_error hy]
    exact .error ⟨hf, hp.2⟩

theorem withinStopping {x y : Attempt (Slot β) ρ} (content : α → β) (make : β → α)
    (h : Coupled (Slot.Stopping F) (Slot.Related R Eq) (Slot.Related R' Eq) A x y) :
    Coupled (Slot.Stopping F) (Slot.Related R Eq) (Slot.Related R' Eq) A (Slot.within content make x)
      (Slot.within content make y) := by
  intro p q hp
  have hi : Slot.Related R Eq ⟨p.state, content p.value⟩ ⟨q.state, content q.value⟩ :=
    ⟨hp.1, congrArg content hp.2⟩
  obtain ⟨a, b, p', q', hx, hy, ha, hpq⟩ | ⟨e, e', p', q', hx, hy, hf⟩ := (h hi).cases
  · rw [Slot.within_of_eq hx, Slot.within_of_eq hy]
    exact .ok ha ⟨hpq.1, congrArg make hpq.2⟩
  · rw [Slot.within_of_eq hx, Slot.within_of_eq hy]
    exact .error ⟨hf.1, congrArg make hf.2⟩

theorem inOrderStopping {xs ys : List (Attempt (Slot α) Unit)}
    (h : List.Forall₂ (Coupled (Slot.Stopping F) (Slot.Related R Eq) (Slot.Related R Eq) Eq) xs ys) :
    Coupled (Slot.Stopping F) (Slot.Related R Eq) (Slot.Related R Eq) Eq (Slot.inOrder xs) (Slot.inOrder ys) := by
  rintro ⟨s, vs⟩ ⟨t, ws⟩ ⟨hs, hv⟩
  obtain rfl : vs = ws := hv
  simp only [Slot.inOrder] at hs ⊢
  induction h generalizing s t vs with
  | nil =>
    simp only [Slot.each_nil]
    exact .ok rfl ⟨hs, rfl⟩
  | cons hfirst _ ih =>
    cases vs with
    | nil =>
      simp only [Slot.each_of_nil]
      exact .ok rfl ⟨hs, rfl⟩
    | cons v vs =>
      have hp : Slot.Related R Eq ⟨s, v⟩ ⟨t, v⟩ := ⟨hs, rfl⟩
      obtain ⟨_, _, p, q, hx, hy, -, hpq⟩ | ⟨e, e', p, q, hx, hy, hf⟩ := (hfirst hp).cases
      · obtain ⟨_, _, p', q', hr, hr', -, hpq'⟩ | ⟨e, e', p', q', hr, hr', hf⟩ :=
          (ih p.state vs q.state hpq.1).cases
        · rw [Slot.each_cons_of_eq_ok hx hr, Slot.each_cons_of_eq_ok hy hr']
          exact .ok rfl ⟨hpq'.1, by rw [hpq.2, hpq'.2]⟩
        · rw [Slot.each_cons_of_eq_ok hx hr, Slot.each_cons_of_eq_ok hy hr']
          exact .error ⟨hf.1, by rw [hpq.2, hf.2]⟩
      · rw [Slot.each_cons_of_eq_error hx, Slot.each_cons_of_eq_error hy]
        exact .error ⟨hf.1, by rw [hf.2]⟩

end Coupled

namespace Framed

variable {α β ρ τ : Type} {rest rest' : List Node}

theorem pure (a : ρ) : Framed (Pure.pure a : Attempt (Slot α) ρ) := fun _ _ => .pure rfl

theorem fail (e : Error) : Framed (.fail e : Attempt (Slot α) ρ) :=
  fun _ _ => .fail fun h => ⟨⟨rfl, h.1.registry_eq⟩, h.2⟩

theorem bind {x : Attempt (Slot α) ρ} {f : ρ → Attempt (Slot α) τ} (hx : Framed x) (hf : ∀ a, Framed (f a)) :
    Framed (x >>= f) :=
  fun rest rest' => (hx rest rest').bind fun a _ h => h ▸ hf a rest rest'

theorem lift {x : Attempt ReadState ρ} (hx : Confined x) : Framed (Slot.lift x : Attempt (Slot α) ρ) :=
  fun rest rest' => (hx rest rest').liftStopping

theorem update (f : α → α) : Framed (Slot.update f) :=
  fun _ _ _ _ hp => .ok rfl ⟨hp.1, congrArg f hp.2⟩

theorem assign {x : Attempt ReadState α} (hx : Confined x) : Framed (Slot.assign x) :=
  fun rest rest' => (hx rest rest').assignStopping

theorem fresh {x : Attempt (Slot α) Unit} (initial : α) (hx : Framed x) : Confined (Slot.fresh initial x) :=
  fun rest rest' => .fresh rfl (hx rest rest').failing

theorem within {x : Attempt (Slot β) ρ} (content : α → β) (make : β → α) (hx : Framed x) :
    Framed (Slot.within content make x) :=
  fun rest rest' => (hx rest rest').withinStopping content make

theorem inOrder {xs : List (Attempt (Slot α) Unit)} (hx : ∀ x ∈ xs, Framed x) : Framed (Slot.inOrder xs) :=
  fun rest rest' => .inOrderStopping (List.forall₂_same.2 fun x hm => hx x hm rest rest')

theorem inside {x : Attempt (Slot α) ρ} (hx : Framed x) :
    Coupled (Slot.Stopping FailsAlike) (Slot.Related (Inside rest rest') Eq)
      (Slot.Related (Inside rest rest') Eq) Eq x x := by
  rintro p q ⟨⟨m, h⟩, hv⟩
  obtain ⟨a, b, p', q', hp, hq, ha, h', hv'⟩ | ⟨e, e', p', q', hp, hq, h'⟩ := (hx _ _ ⟨h, hv⟩).cases
  · rw [hp, hq]
    exact .ok ha ⟨⟨m, h'⟩, hv'⟩
  · rw [hp, hq]
    exact .error h'

theorem around {enter : Attempt Reader Unit} (he : Opens enter) {x : Attempt (Slot α) Unit} (hx : Framed x) :
    Framed (Slot.lift (ReadState.onReader enter) >>= fun _ => x >>= fun _ =>
      Slot.lift (ReadState.onReader finishNode)) :=
  fun _ _ => (Confined.enter he).liftStopping.bind fun _ _ _ => hx.inside.bind fun _ _ _ =>
    Confined.leave.liftStopping

theorem optional {x : Attempt (Slot Value) Unit} (name : String) (hx : Framed x) :
    Framed (do
      if ← Slot.lift (Loading.enterOptional name) then
        x
        Slot.lift (ReadState.onReader finishNode)) := by
  intro rest rest' p q h
  obtain ⟨s', t', hs, ht, h'⟩ | ⟨s', t', hs, ht, h'⟩ | ⟨e, s', t', hs, ht, h'⟩ :=
    Confined.enterOptional_cases name h.1
  · rw [Attempt.bind_of_eq_ok (Slot.lift_of_eq hs), Attempt.bind_of_eq_ok (Slot.lift_of_eq ht)]
    exact (hx.inside.bind fun _ _ _ => Confined.leave.liftStopping) ⟨h', h.2⟩
  · rw [Attempt.bind_of_eq_ok (Slot.lift_of_eq hs), Attempt.bind_of_eq_ok (Slot.lift_of_eq ht)]
    exact .ok rfl ⟨h', h.2⟩
  · rw [Attempt.bind_of_eq_error (Slot.lift_of_eq hs), Attempt.bind_of_eq_error (Slot.lift_of_eq ht)]
    exact .error ⟨⟨rfl, h'⟩, h.2⟩

theorem stepwise (S : Schema) : Loading.Stepwise S Confined Framed where
  pure := .pure
  fail := .fail
  bind := .bind
  readValue := .onReader narrow_readValue
  isNull := .onReader narrow_isNull
  readSize := .onReader narrow_readSize
  nextFieldName := .onReader narrow_nextFieldName
  inField name hx := .around (opens_startField name) hx
  inElement hx := .around opens_startElement hx
  readTag := .readTag
  ensure t a := .change _
  ask _ e _ _ hk := .ask e hk
  fresh := fresh
  pureIn := pure
  failIn := fail
  bindIn := bind
  lift := lift
  update := update
  assign := assign
  within := within
  inOrder := inOrder
  field name hx := around (opens_startField name) hx
  optional := optional
  element hx := around opens_startElement hx
  count hf := by
    intro rest rest' p q h
    obtain ⟨n, hp, hq, -⟩ := h.1
    have hc : p.state.reader.fieldCount = q.state.reader.fieldCount := by rw [hp, hq]; rfl
    have hn := hf (p.state.reader.fieldCount + 1) rest rest' h
    nth_rewrite 2 [hc] at hn
    exact hn

end Framed

namespace Loading

variable (env : Loading)

theorem framed_load (type : Ty) : Framed (env.load type) := by
  intro rest rest' p q h
  have hw : p.state.reader.weight = q.state.reader.weight := by
    obtain ⟨n, hp, hq, -⟩ := h.1
    rw [hp, hq]
    rfl
  simp only [load, ← hw]
  exact ((Framed.stepwise env.schema).loader env (p.state.reader.weight + 1)).2 type rest rest' h

/-- Loads a value in place from a node on its own. -/
def loadAt (type : Ty) (n : Node) (registry : Registry) (prior : Value) : Except Error Unit × Slot Value :=
  env.load type ⟨⟨⟨[n]⟩, registry, []⟩, prior⟩

theorem load_cases (type : Ty) {s : ReadState} {n : Node} {rest : List Node} (hs : s.reader = ⟨n :: rest⟩)
    (prior : Value) :
    (∃ t u v m, env.load type ⟨s, prior⟩ = (.ok (), ⟨t, v⟩) ∧
      env.loadAt type n s.registry prior = (.ok (), ⟨u, v⟩) ∧
      t.reader = ⟨m :: rest⟩ ∧ u.reader = ⟨[m]⟩ ∧ t.registry = u.registry) ∨
    ∃ e t u v, env.load type ⟨s, prior⟩ = (.error e, ⟨t, v⟩) ∧
      env.loadAt type n s.registry prior = (.error e, ⟨u, v⟩) := by
  have hp : Slot.Related (Amid rest []) Eq ⟨s, prior⟩ ⟨⟨⟨[n]⟩, s.registry, []⟩, prior⟩ :=
    ⟨⟨n, hs, rfl, rfl⟩, rfl⟩
  obtain ⟨_, _, p, q, hx, hy, -, ⟨m, hm, hm', hr⟩, hv⟩ | ⟨e, _, p, q, hx, hy, ⟨rfl, -⟩, hv⟩ :=
    (env.framed_load type rest [] hp).cases
  · exact .inl ⟨p.state, q.state, q.value, m, hv ▸ hx, hy, hm, hm', hr⟩
  · exact .inr ⟨e, p.state, q.state, q.value, hv ▸ hx, hy⟩

end Loading

end Archivist
