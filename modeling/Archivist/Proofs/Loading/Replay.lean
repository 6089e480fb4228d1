import Archivist.Proofs.Loading.Advance

/-!
Loads that can be repeated. A load only adds to the registry, and what it read it reads again under
every registry that extends the one it left.
-/

set_option autoImplicit false

namespace Archivist

/-- A step that adds to the registry at most, and that gives its result again under every registry
that extends the one it left. It leaves such a registry alone. -/
structure Steady {σ α : Type} (V : View σ) (x : Attempt σ α) : Prop where
  grows : Advances Registry.Extends V x
  replays {s t : σ} {a : α} {r : Registry} (h : x s = (.ok a, t)) (hr : (V.registry t).Extends r)
    (log : Log) : ∃ log', x (V.under s r log) = (.ok a, V.under t r log')

namespace Steady

open Registry.Extends (advance)

section Generic

variable {σ α β : Type} {V : View σ}

theorem pure (a : α) : Steady V (Pure.pure a) where
  grows := advance.pure a
  replays h _ log := by
    cases h
    exact ⟨log, rfl⟩

theorem fail (e : Error) : Steady V (.fail e : Attempt σ α) where
  grows := advance.fail e
  replays h := nomatch h

theorem bind {x : Attempt σ α} {f : α → Attempt σ β} (hx : Steady V x) (hf : ∀ a, Steady V (f a)) :
    Steady V (x >>= f) where
  grows := advance.bind hx.grows fun a => (hf a).grows
  replays {s u b r} h hr log := by
    obtain ⟨a, t, ha, hb⟩ := Attempt.bind_eq_ok h
    have hg := (hf a).grows t
    rw [hb] at hg
    obtain ⟨log', hx'⟩ := hx.replays ha (hg.trans hr) log
    obtain ⟨log'', hf'⟩ := (hf a).replays hb hr log'
    exact ⟨log'', by rw [Attempt.bind_of_eq_ok hx', hf']⟩

end Generic

open ReadState

variable {α β ρ : Type}

theorem onReader (x : Attempt Reader α) : Steady .whole (onReader x) where
  grows := advance.onReader x
  replays {s t a r} h _ log := by
    rcases hx : x s.reader with ⟨res, reader⟩
    rw [onReader_of_eq hx] at h
    cases h
    exact ⟨log, onReader_of_eq hx⟩

theorem ensure (t : TypeInfo) (a : Archive) : Steady .whole (change (·.ensureInput t a)) where
  grows s := s.registry.extends_ensureInput t a
  replays {s u _ r} h hr log := by
    cases h
    -- the change left nothing to do for the type, so a larger registry stays as it is
    have hs := hr.isInputSettled (s.registry.isInputSettled_ensureInput t a)
    refine ⟨log ++ [], ?_⟩
    simp [change, Registry.ensureInput_of_settled r t a hs]

theorem ask {γ : Type} {answer : Registry → Option γ} {k : γ → Attempt ReadState α} (e : Error)
    (lasting : ∀ {r r' c}, r.Extends r' → answer r = some c → answer r' = some c)
    (hk : ∀ c, Steady .whole (k c)) :
    Steady .whole (withRegistry fun r => (answer r).elim (.fail e) k) where
  grows := advance.ask e fun c => (hk c).grows
  replays {s t b r} h hr log := by
    change (answer s.registry).elim (.fail e) k s = _ at h
    cases ha : answer s.registry with
    | none => simp [ha] at h
    | some c =>
      rw [ha, Option.elim_some] at h
      have hg := (hk c).grows s
      rw [h] at hg
      obtain ⟨log', h'⟩ := (hk c).replays h hr log
      refine ⟨log', ?_⟩
      change (answer r).elim (.fail e) k (View.whole.under s r log) = _
      rw [lasting (hg.trans hr) ha]
      exact h'

theorem enterOptional (name : String) : Steady .whole (Loading.enterOptional name) where
  grows := advance.enterOptional name
  replays {s t a r} h hr log := by
    rcases hx : Reader.startField name s.reader with ⟨e | _, reader⟩
    · simp only [Loading.enterOptional, onReader_of_eq hx] at h
      split at h
      · cases h
        refine ⟨log ++ [.fieldSkipped name], ?_⟩
        rename_i he
        simp [Loading.enterOptional, onReader_of_eq (s := ⟨s.reader, r, log⟩) hx, he, ReadState.note,
          Attempt.modify]
      · cases h
    · simp only [Loading.enterOptional, onReader_of_eq hx] at h
      cases h
      exact ⟨log, by simp [Loading.enterOptional, onReader_of_eq (s := ⟨s.reader, r, log⟩) hx]⟩

def startTag (reader : Reader) : Except Error Unit × Reader :=
  match Reader.startField tagField reader with
  | (.error (.fieldAbsent _), reader) => (.error (.malformed .noTag), reader)
  | r => r

theorem enterTag_eq : Loading.enterTag = ReadState.onReader startTag := by
  funext s
  rcases hx : Reader.startField tagField s.reader with ⟨e | _, reader⟩
  · cases e <;> simp [Loading.enterTag, ReadState.onReader, Attempt.on, startTag, hx]
  · simp [Loading.enterTag, ReadState.onReader, Attempt.on, startTag, hx]

theorem enterTag : Steady .whole Loading.enterTag := by
  rw [enterTag_eq]
  exact onReader _

theorem readTag : Steady .whole Loading.readTag := by
  refine enterTag.bind fun _ => (onReader _).bind fun leaf => ?_
  split
  · exact (onReader _).bind fun _ => pure _
  · exact fail _

theorem lift {x : Attempt ReadState ρ} (hx : Steady .whole x) :
    Steady (.slot α) (Slot.lift x) where
  grows := hx.grows.lift
  replays {s t a r} h hr log := by
    rcases hs : x s.state with ⟨res, u⟩
    rw [Slot.lift_of_eq hs] at h
    cases h
    obtain ⟨log', h'⟩ := hx.replays hs hr log
    exact ⟨log', Slot.lift_of_eq h'⟩

theorem assign {x : Attempt ReadState α} (hx : Steady .whole x) :
    Steady (.slot α) (Slot.assign x) where
  grows := hx.grows.assign
  replays {s t a r} h hr log := by
    rcases hs : x s.state with ⟨e | b, u⟩
    · rw [Slot.assign_of_eq_error hs] at h
      cases h
    · rw [Slot.assign_of_eq_ok hs] at h
      cases h
      obtain ⟨log', h'⟩ := hx.replays hs hr log
      exact ⟨log', Slot.assign_of_eq_ok h'⟩

theorem fresh {x : Attempt (Slot α) Unit} (initial : α) (hx : Steady (.slot α) x) :
    Steady .whole (Slot.fresh initial x) where
  grows := hx.grows.fresh initial
  replays {s t a r} h hr log := by
    rcases hs : x ⟨s, initial⟩ with ⟨e | _, u⟩
    · rw [Slot.fresh_of_eq_error hs] at h
      cases h
    · rw [Slot.fresh_of_eq_ok hs] at h
      cases h
      obtain ⟨log', h'⟩ := hx.replays hs hr log
      exact ⟨log', Slot.fresh_of_eq_ok h'⟩

theorem update (f : α → α) : Steady (.slot α) (Slot.update f) where
  grows _ := .refl _
  replays h _ log := by
    cases h
    exact ⟨log, rfl⟩

theorem within {x : Attempt (Slot β) ρ} (content : α → β) (make : β → α)
    (hx : Steady (.slot β) x) : Steady (.slot α) (Slot.within content make x) where
  grows := hx.grows.within content make
  replays {s t a r} h hr log := by
    rcases hs : x ⟨s.state, content s.value⟩ with ⟨res, u⟩
    rw [Slot.within_of_eq hs] at h
    cases h
    obtain ⟨log', h'⟩ := hx.replays hs hr log
    refine ⟨log', ?_⟩
    exact @Slot.within_of_eq α β ρ ((View.slot α).under s r log) content make x _ _ h'

theorem each_replays {xs : List (Attempt (Slot α) Unit)} (hx : ∀ x ∈ xs, Steady (.slot α) x)
    {s : ReadState} {vs : List α} {t : Slot (List α)} {r : Registry}
    (h : Slot.each s xs vs = (.ok (), t)) (hr : t.state.registry.Extends r) (log : Log) :
    ∃ log', Slot.each ⟨s.reader, r, log⟩ xs vs = (.ok (), ⟨⟨t.state.reader, r, log'⟩, t.value⟩) := by
  induction xs generalizing s vs t log with
  | nil =>
    simp only [Slot.each_nil] at h ⊢
    cases h
    exact ⟨log, rfl⟩
  | cons x xs ih =>
    cases vs with
    | nil =>
      simp only [Slot.each_of_nil] at h ⊢
      cases h
      exact ⟨log, rfl⟩
    | cons v vs =>
      rcases hs : x ⟨s, v⟩ with ⟨e | _, slot⟩
      · rw [Slot.each_cons_of_eq_error hs] at h
        cases h
      · rcases hrest : Slot.each slot.state xs vs with ⟨res, rest⟩
        rw [Slot.each_cons_of_eq_ok hs hrest] at h
        cases h
        have hxs : ∀ x ∈ xs, Steady (.slot α) x := fun x hm => hx x (by simp [hm])
        have hg := advance.each (fun x hm => (hxs x hm).grows) slot.state vs
        rw [hrest] at hg
        obtain ⟨log₁, h₁⟩ := (hx x (by simp)).replays hs (hg.trans hr) log
        obtain ⟨log₂, h₂⟩ := ih hxs hrest hr log₁
        exact ⟨log₂, Slot.each_cons_of_eq_ok h₁ h₂⟩

theorem inOrder {xs : List (Attempt (Slot α) Unit)} (hx : ∀ x ∈ xs, Steady (.slot α) x) :
    Steady (.slot (List α)) (Slot.inOrder xs) where
  grows s := advance.each (fun x hm => (hx x hm).grows) s.state s.value
  replays h hr log := each_replays hx h hr log

theorem count {f : Nat → Attempt (Slot α) Unit} (hf : ∀ n, Steady (.slot α) (f n)) :
    Steady (.slot α) do
      let slot ← Attempt.get
      f (slot.state.reader.fieldCount + 1) where
  grows s := (hf (s.state.reader.fieldCount + 1)).grows s
  replays {s _ _ _} h hr log := (hf (s.state.reader.fieldCount + 1)).replays h hr log

theorem stepwise (S : Schema) : Loading.Stepwise S (Steady .whole) (fun {α} => Steady (.slot α)) where
  pure := pure
  fail := fail
  bind := bind
  readValue := onReader _
  isNull := onReader _
  readSize := onReader _
  nextFieldName := onReader _
  inField _ hx := (onReader _).bind fun _ => hx.bind fun _ => (onReader _).bind fun _ => pure _
  inElement hx := (onReader _).bind fun _ => hx.bind fun _ => (onReader _).bind fun _ => pure _
  readTag := readTag
  ensure t := ensure (S.info t)
  ask _ e _ := ask e
  fresh := fresh
  pureIn := pure
  failIn := fail
  bindIn := bind
  lift := lift
  update := update
  assign := assign
  within := within
  inOrder := inOrder
  field _ hx := (lift (onReader _)).bind fun _ => hx.bind fun _ => lift (onReader _)
  optional name hx := by
    refine (lift (enterOptional name)).bind fun entered => ?_
    split
    · exact hx.bind fun _ => lift (onReader _)
    · exact pure _
  element hx := (lift (onReader _)).bind fun _ => hx.bind fun _ => lift (onReader _)
  count := count

theorem loadNew (env : Loading) (type : Ty) : Steady .whole (env.loadNew type) where
  grows s := (((stepwise env.schema).loader env (s.reader.weight + 1)).1 type).grows s
  replays {s _ _ _} h hr log :=
    (((stepwise env.schema).loader env (s.reader.weight + 1)).1 type).replays h hr log

end Steady

end Archivist
