import Archivist.Proofs.Loading.Aftermath
import Archivist.Proofs.Loading.Descent

/-!
Loading always ends. Main statement: where no record contains itself through flattened fields alone, no load runs
out of steps. There every load is given by well-founded recursion, on what is left of the document and then on
what the type holds within one node.
-/

set_option autoImplicit false

namespace Archivist

open Relation ReadState

namespace Attempt

/-- A step that never runs out of steps. -/
def Finishes {σ α : Type} (x : Attempt σ α) : Prop := ∀ s, (x s).1 ≠ .error .endless

namespace Finishes

section Generic

variable {σ τ α β : Type}

theorem pure (a : α) : Finishes (Pure.pure a : Attempt σ α) := by
  intro s h
  cases h

theorem fail {e : Error} (he : e ≠ .endless) : Finishes (.fail e : Attempt σ α) := by
  intro s h
  cases h
  exact he rfl

theorem modify (f : σ → σ) : Finishes (Attempt.modify f) := by
  intro s h
  cases h

theorem bind {x : Attempt σ α} {f : α → Attempt σ β} (hx : Finishes x) (hf : ∀ a, Finishes (f a)) :
    Finishes (x >>= f) := by
  intro s
  have hs := hx s
  rcases ha : x s with ⟨e | a, t⟩
  · rw [bind_of_eq_error ha]
    rw [ha] at hs
    exact fun h => hs (congrArg _ (Except.error.inj h))
  · rw [bind_of_eq_ok ha]
    exact hf a t

theorem on {x : Attempt τ α} (part : σ → τ) (put : σ → τ → σ) (hx : Finishes x) : Finishes (x.on part put) :=
  fun s => hx (part s)

end Generic

variable {α β ρ : Type}

theorem assign {x : Attempt ReadState α} (hx : Finishes x) : Finishes (Slot.assign x) := by
  intro slot
  have hs := hx slot.state
  rcases ha : x slot.state with ⟨e | a, t⟩
  · rw [Slot.assign_of_eq_error ha]
    rw [ha] at hs
    exact fun h => hs (congrArg _ (Except.error.inj h))
  · rw [Slot.assign_of_eq_ok ha]
    exact pure () t

theorem fresh {x : Attempt (Slot α) Unit} (initial : α) (hx : Finishes x) : Finishes (Slot.fresh initial x) := by
  intro s
  have hs := hx ⟨s, initial⟩
  rcases ha : x ⟨s, initial⟩ with ⟨e | _, slot⟩
  · rw [Slot.fresh_of_eq_error ha]
    rw [ha] at hs
    exact fun h => hs (congrArg _ (Except.error.inj h))
  · rw [Slot.fresh_of_eq_ok ha]
    exact pure slot.value s

theorem inOrder {xs : List (Attempt (Slot α) Unit)} (hx : ∀ x ∈ xs, Finishes x) : Finishes (Slot.inOrder xs) := by
  rintro ⟨s, vs⟩
  simp only [Slot.inOrder]
  induction xs generalizing s vs with
  | nil =>
    rw [Slot.each_nil]
    exact pure () s
  | cons x xs ih =>
    cases vs with
    | nil =>
      rw [Slot.each_of_nil]
      exact pure () s
    | cons v vs =>
      obtain ⟨hfirst, hrest⟩ := List.forall_mem_cons.1 hx
      have hs := hfirst ⟨s, v⟩
      rcases ha : x ⟨s, v⟩ with ⟨e | _, slot⟩
      · rw [Slot.each_cons_of_eq_error ha]
        rwa [ha] at hs
      · rcases hr : Slot.each slot.state xs vs with ⟨res, rest⟩
        have hres := ih hrest slot.state vs
        rw [Slot.each_cons_of_eq_ok ha hr]
        rwa [hr] at hres

end Finishes

end Attempt

open Attempt

namespace Reader

theorem finishes_top : Finishes top := by
  intro r
  unfold top
  split <;> intro h <;> cases h

theorem finishes_object : Finishes object := by
  intro r
  unfold object
  split <;> intro h <;> cases h

theorem finishes_array : Finishes array := by
  intro r
  unfold array
  split <;> intro h <;> cases h

theorem finishes_finishNode : Finishes finishNode := by
  intro r
  unfold finishNode
  split <;> intro h <;> cases h

theorem finishes_startField (name : String) : Finishes (startField name) := by
  refine finishes_object.bind fun ⟨fields, rest⟩ => ?_
  dsimp only
  split
  · exact .fail (by simp)
  · exact .modify _

theorem finishes_startElement : Finishes startElement := by
  refine finishes_array.bind fun ⟨items, length, rest⟩ => ?_
  dsimp only
  split
  · exact .fail (by simp)
  · exact .modify _

theorem finishes_readValue : Finishes readValue := by
  refine finishes_top.bind fun ⟨node, rest⟩ => ?_
  dsimp only
  split
  · split
    · exact (Finishes.modify _).bind fun _ => .pure _
    · exact .fail (by simp)
  · exact .fail (by simp)

theorem finishes_isNull : Finishes isNull := by
  refine finishes_top.bind fun ⟨node, rest⟩ => ?_
  dsimp only
  split <;> exact .pure _

end Reader

namespace Loading

section Finishing

variable {α ρ : Type}

theorem finishes_onReader {x : Attempt Reader α} (hx : Finishes x) : Finishes (onReader x) := hx.on _ _

theorem finishes_lift {x : Attempt ReadState ρ} (hx : Finishes x) : Finishes (Slot.lift x : Attempt (Slot α) ρ) :=
  hx.on _ _

theorem finishes_leave : Finishes (onReader Reader.finishNode) := finishes_onReader Reader.finishes_finishNode

theorem finishes_enterOptional (name : String) : Finishes (enterOptional name) := by
  intro s
  have hs := finishes_onReader (Reader.finishes_startField name) s
  rcases h : onReader (Reader.startField name) s with ⟨e | _, t⟩
  · simp only [enterOptional, h]
    rw [h] at hs
    split
    · exact Finishes.pure false t
    · exact fun he => hs (congrArg _ (Except.error.inj he))
  · simp only [enterOptional, h]
    exact Finishes.pure true t

theorem finishes_readTag : Finishes readTag := by
  have henter : Finishes enterTag := by
    intro s
    have hs := finishes_onReader (Reader.finishes_startField tagField) s
    unfold enterTag
    split
    · exact Finishes.fail (by simp) s
    · exact hs
  refine henter.bind fun _ => (finishes_onReader Reader.finishes_readValue).bind fun leaf => ?_
  split
  · exact finishes_leave.bind fun _ => .pure _
  · exact .fail (by simp)

theorem finishes_composed (S : Schema) : Composed S Finishes Finishes where
  pure := .pure
  reject _ := .fail
  bind := .bind
  readValue := finishes_onReader Reader.finishes_readValue
  isNull := finishes_onReader Reader.finishes_isNull
  readSize := finishes_onReader (Reader.finishes_array.bind fun _ => .pure _)
  nextFieldName := finishes_onReader (Reader.finishes_object.bind fun _ => .pure _)
  inField name hx := (finishes_onReader (Reader.finishes_startField name)).bind fun _ => hx.bind fun _ =>
    finishes_leave.bind fun _ => .pure _
  inElement hx := (finishes_onReader Reader.finishes_startElement).bind fun _ => hx.bind fun _ =>
    finishes_leave.bind fun _ => .pure _
  readTag := finishes_readTag
  ensure t a := fun s => Finishes.pure () s
  ask answer e he _ hk := by
    intro s
    simp only [withRegistry]
    cases answer s.registry with
    | none => exact Finishes.fail he s
    | some c => exact hk c s
  fresh := .fresh
  pureIn := .pure
  rejectIn _ := .fail
  bindIn := .bind
  lift := finishes_lift
  update f := .modify _
  assign := .assign
  within content make hx := fun slot => hx ⟨slot.state, content slot.value⟩
  inOrder := .inOrder
  field name hx := (finishes_lift (finishes_onReader (Reader.finishes_startField name))).bind fun _ =>
    hx.bind fun _ => finishes_lift finishes_leave
  optional name hx := by
    refine (finishes_lift (finishes_enterOptional name)).bind fun entered => ?_
    split
    · exact hx.bind fun _ => finishes_lift finishes_leave
    · exact .pure _
  element hx := (finishes_lift (finishes_onReader Reader.finishes_startElement)).bind fun _ =>
    hx.bind fun _ => finishes_lift finishes_leave
  count hf := fun slot => hf (slot.state.reader.fieldCount + 1) slot

end Finishing

end Loading

namespace Schema

variable {S : Schema} {type : Ty}

theorem EndsWithin.mono {k j : Nat} (h : S.EndsWithin k type) (hk : k ≤ j) : S.EndsWithin j type := by
  induction k generalizing j type with
  | zero => exact h.elim
  | succ k ih =>
    obtain ⟨j, rfl⟩ : ∃ i, j = i + 1 := ⟨j - 1, by omega⟩
    exact fun part hp => ih (h part hp) (Nat.le_of_succ_le_succ hk)

theorem exists_endsWithin (acyclic : ∀ name, ¬ TransGen S.Flat (.record name) (.record name)) (type : Ty) :
    ∃ k, S.EndsWithin k type := by
  have hd : (([] : List Record).map Record.name).Nodup := List.nodup_nil
  refine ⟨type.height + S.span, endsWithin_of_acyclic hd (List.nil_subset _) nofun (fun name _ => acyclic name) ?_⟩
  simp

theorem EndsWithin.acc {k : Nat} (h : S.EndsWithin k type) : Acc (fun part whole => S.Flat whole part) type := by
  induction k generalizing type with
  | zero => exact h.elim
  | succ k ih => exact .intro type fun part hp => ih (h part hp)

end Schema

namespace Loading

inductive Call where
  | new (type : Ty) (state : ReadState)
  | into (type : Ty) (slot : Slot Value)

namespace Call

def type : Call → Ty
  | .new type _ | .into type _ => type

def weight : Call → Nat
  | .new _ state => state.reader.weight
  | .into _ slot => slot.state.reader.weight

def Answer : Call → Type
  | .new _ _ => Except Error Value × ReadState
  | .into _ _ => Except Error Unit × Slot Value

def refuse (e : Error) : (c : Call) → c.Answer
  | .new _ state => (.error e, state)
  | .into _ slot => (.error e, slot)

def Finished : (c : Call) → c.Answer → Prop
  | .new _ _, answer => answer.1 ≠ .error .endless
  | .into _ _, answer => answer.1 ≠ .error .endless

/-- Less is left of the document, or no more and the load is one that another makes within its own node. -/
def Descends (S : Schema) (c' c : Call) : Prop :=
  c'.weight < c.weight ∨ c'.weight ≤ c.weight ∧ S.Flat c.type c'.type

theorem wellFounded_descends {S : Schema} (ends : ∀ type, ∃ k, S.EndsWithin k type) :
    WellFounded (Descends S) := by
  have hflat : WellFounded fun part whole => S.Flat whole part := by
    refine ⟨fun type => ?_⟩
    obtain ⟨k, hk⟩ := ends type
    exact hk.acc
  refine Subrelation.wf ?_ (InvImage.wf (fun c : Call => (c.weight, c.type)) (Nat.lt_wfRel.wf.prod_lex hflat))
  intro c' c h
  rcases h with hlt | ⟨hle, hp⟩
  · exact .left _ _ hlt
  · rcases Nat.lt_or_eq_of_le hle with hlt | heq
    · exact .left _ _ hlt
    · simp only [InvImage, heq]
      exact .right _ hp

end Call

namespace Loader

def answer (loader : Loader) : (c : Call) → c.Answer
  | .new type state => loader.new type state
  | .into type slot => loader.into type slot

def ofAnswers (answers : (c : Call) → c.Answer) : Loader :=
  ⟨fun type state => answers (.new type state), fun type slot => answers (.into type slot)⟩

theorem answer_ofAnswers (answers : (c : Call) → c.Answer) (c : Call) : (ofAnswers answers).answer c = answers c := by
  cases c <;> rfl

end Loader

variable (env : Loading)

def loads : Loader := ⟨env.loadNew, env.load⟩

/-- One step of every load, given how the parts are loaded. -/
def step (parts : Loader) : Loader := ⟨env.stepNew parts parts, env.stepInto parts parts⟩

open scoped Classical in
/-- One step of a load, given the answers to calls further down. Any other call would fail with the error. -/
noncomputable def answerBelow (e : Error) (c : Call) (below : (c' : Call) → c'.Descends env.schema c → c'.Answer) :
    c.Answer :=
  (env.step (.ofAnswers fun c' => if h : c'.Descends env.schema c then below c' h else c'.refuse e)).answer c

theorem local_loads (type : Ty) : Local .whole (env.loads.new type) ∧ Local (.slot Value) (env.loads.into type) :=
  have hl := (Local.stepwise env.schema).loader env
  ⟨fun s _ _ h => (hl (s.reader.weight + 1)).1 type h, fun slot _ _ h => (hl (slot.state.reader.weight + 1)).2 type h⟩

theorem within_eq_steps {k : Nat} {type : Ty} (lighter : Loader) (hk : env.schema.EndsWithin k type) :
    env.newWithin lighter k type = env.newWithin lighter (env.steps type) type ∧
      env.intoWithin lighter k type = env.intoWithin lighter (env.steps type) type := by
  have hsteps : env.schema.EndsWithin (env.steps type) type := hk.span.mono (by simp only [steps]; omega)
  obtain ⟨hnew, hinto⟩ := @within_eq env lighter _ _ _ hk (Nat.le_max_left k (env.steps type))
  obtain ⟨hnew', hinto'⟩ := @within_eq env lighter _ _ _ hsteps (Nat.le_max_right k (env.steps type))
  exact ⟨hnew.symm.trans hnew', hinto.symm.trans hinto'⟩

section Ending

variable {env} (ends : ∀ type, ∃ k, env.schema.EndsWithin k type)

include ends

theorem loads_eq_step (type : Ty) :
    env.loads.new type = (env.step env.loads).new type ∧ env.loads.into type = (env.step env.loads).into type := by
  obtain ⟨k, hk⟩ := ends type
  have hwhole : env.schema.EndsWithin (2 * env.schema.span + type.height + 1) type := hk.span.mono (by omega)
  have hagree : ∀ weight,
      Agree .whole (weight + 1) ((env.loader (weight + 1)).new type) ((env.step env.loads).new type) ∧
      Agree (.slot Value) (weight + 1) ((env.loader (weight + 1)).into type) ((env.step env.loads).into type) := by
    intro weight
    have hl := (Local.stepwise env.schema).loader env
    have hflat : ∀ part, env.schema.Flat type part → _ := fun part hp =>
      env.within_eq_steps (env.loader weight) (hwhole part hp)
    have hstep := @step_congr env (env.loader weight)
      (env.within (env.loader weight) (2 * env.schema.span + type.height)) (env.loader (weight + 1)) type hflat
    simp only [loader, steps, newWithin_succ, intoWithin_succ]
    rw [hstep.1, hstep.2]
    exact env.agree_step (hl weight).1 (hl weight).2 (hl (weight + 1)).2 (env.agree_loader_new weight)
      (env.agree_loader_into weight)
      (fun part => ⟨env.agree_loader_new (weight + 1) part, env.agree_loader_into (weight + 1) part⟩) type
  constructor
  · funext s
    exact (hagree s.reader.weight).1 s (Nat.lt_succ_self _)
  · funext slot
    exact (hagree slot.state.reader.weight).2 slot (Nat.lt_succ_self _)

open scoped Classical in
theorem answer_step {parts : Loader} {c : Call}
    (h : ∀ c', c'.Descends env.schema c → parts.answer c' = env.loads.answer c') :
    (env.step parts).answer c = env.loads.answer c := by
  -- the loads of what does not lie in the node of the type may be any
  let patched : Loader :=
    ⟨fun part => if env.schema.Flat c.type part then parts.new part else env.loads.new part,
     fun part => if env.schema.Flat c.type part then parts.into part else env.loads.into part⟩
  have hpatched := @step_congr env parts parts patched c.type fun part hp => by
    simp only [patched, hp, ↓reduceIte, and_self]
  have hdeep : (∀ type, Agree .whole c.weight (env.loads.new type) (parts.new type)) ∧
      ∀ type, Agree (.slot Value) c.weight (env.loads.into type) (parts.into type) :=
    ⟨fun type s hs => (h (.new type s) (.inl hs)).symm, fun type slot hs => (h (.into type slot) (.inl hs)).symm⟩
  have hflat : ∀ part, Agree .whole (c.weight + 1) (env.loads.new part) (patched.new part) ∧
      Agree (.slot Value) (c.weight + 1) (env.loads.into part) (patched.into part) := by
    intro part
    by_cases hp : env.schema.Flat c.type part
    · simp only [patched, hp, ↓reduceIte]
      exact ⟨fun s hs => (h (.new part s) (.inr ⟨Nat.le_of_lt_succ hs, hp⟩)).symm,
        fun slot hs => (h (.into part slot) (.inr ⟨Nat.le_of_lt_succ hs, hp⟩)).symm⟩
    · simp only [patched, hp, ↓reduceIte]
      exact ⟨.refl _, .refl _⟩
  have hstep := env.agree_step (fun type => (env.local_loads type).1) (fun type => (env.local_loads type).2)
    (fun type => (env.local_loads type).2) hdeep.1 hdeep.2 hflat c.type
  rw [← hpatched.1, ← hpatched.2] at hstep
  cases c with
  | new type s => exact ((congrFun (loads_eq_step ends type).1 s).trans (hstep.1 s (Nat.lt_succ_self _))).symm
  | into type slot => exact ((congrFun (loads_eq_step ends type).2 slot).trans (hstep.2 slot (Nat.lt_succ_self _))).symm

/-- Loads are given by recursion, whatever a call that is not further down would come to. -/
theorem answer_eq_fix (e : Error) (c : Call) :
    env.loads.answer c = (Call.wellFounded_descends ends).fix (env.answerBelow e) c := by
  induction c using (Call.wellFounded_descends ends).induction with
  | _ c ih =>
    rw [WellFounded.fix_eq]
    refine (answer_step ends fun c' hc => ?_).symm
    rw [Loader.answer_ofAnswers, dif_pos hc]
    exact (ih c' hc).symm

open scoped Classical in
theorem finished_answer (c : Call) : c.Finished (env.loads.answer c) := by
  induction c using (Call.wellFounded_descends ends).induction with
  | _ c ih =>
    let parts : Loader := .ofAnswers fun c' =>
      if c'.Descends env.schema c then env.loads.answer c' else c'.refuse (.malformed .noTag)
    have hfinished : ∀ c' : Call, c'.Finished (parts.answer c') := by
      intro c'
      simp only [parts, Loader.answer_ofAnswers]
      split
      · exact ih c' (by assumption)
      · cases c' <;> simp [Call.refuse, Call.Finished]
    have hparts : ∀ type, Finishes (parts.new type) ∧ Finishes (parts.into type) := fun type =>
      ⟨fun s => hfinished (.new type s), fun slot => hfinished (.into type slot)⟩
    have hstep := (finishes_composed env.schema).step env (fun type => (hparts type).1) (fun type => (hparts type).2)
      hparts
    have heq : (env.step parts).answer c = env.loads.answer c := answer_step ends fun c' hc => by
      simp only [parts, Loader.answer_ofAnswers, hc, ↓reduceIte]
    rw [← heq]
    cases c with
    | new type s => exact (hstep type).1 s
    | into type slot => exact (hstep type).2 slot

end Ending

theorem addNamed_rounds {κ α : Type} (ofField : String → Option κ) (insert : κ → Value → α → α) (item : Ty)
    {count : Nat} {slot : Slot α} (h : slot.state.reader.fieldCount < count) :
    addNamed ofField (env.loadNew item) insert count slot =
      addNamed ofField (env.loadNew item) insert (slot.state.reader.fieldCount + 1) slot := by
  induction count generalizing slot with
  | zero => cases h
  | succ count ih =>
    obtain ⟨⟨⟨nodes⟩, registry, log⟩, acc⟩ := slot
    cases nodes with
    | nil => rw [addNamed_of_error Reader.nextFieldName_nil, addNamed_of_error Reader.nextFieldName_nil]
    | cons n rest =>
      cases hn : n.fields? with
      | none =>
        have hnext : Reader.nextFieldName ⟨n :: rest⟩ = _ := Reader.nextFieldName_of_none hn
        rw [addNamed_of_error hnext, addNamed_of_error hnext]
      | some fields =>
        cases fields with
        | nil => rw [addNamed_nil rfl hn, addNamed_nil rfl hn]
        | cons field left =>
          obtain ⟨entry, t, -, ht, hround⟩ | ⟨e, t, -, hround⟩ :=
            addNamed_cons (env.confined_loadNew item) (s := ⟨⟨n :: rest⟩, registry, log⟩) rfl hn acc
          · have hleft : t.reader.fieldCount = left.length := by rw [ht]; rfl
            simp only [Reader.fieldCount_of_fields? hn, List.length_cons] at h ⊢
            have hrest := @ih ⟨t, insert entry.1 entry.2 acc⟩ (by simp only [hleft]; omega)
            rw [hround, hround, hrest, hleft]
          · rw [hround, hround]

/-- Where no record leads back to itself through flattened fields alone, through options and references without a
tag as well, every load ends: none runs out of steps, and all loads are given by recursion on what is left of the
document and then on what the type holds in its node, whatever a load that is not further down would come to. The
rounds in which a map is read are as many as it takes. -/
theorem loading_ends (env : Loading)
    (acyclic : ∀ name, ¬ TransGen env.schema.Flat (.record name) (.record name)) :
    (∀ type s, (env.loadNew type s).1 ≠ .error .endless) ∧
    (∀ type slot, (env.load type slot).1 ≠ .error .endless) ∧
    (∃ descent : WellFounded (Call.Descends env.schema),
      ∀ e c, env.loads.answer c = descent.fix (env.answerBelow e) c) ∧
    ∀ {κ α : Type} (ofField : String → Option κ) (insert : κ → Value → α → α) (item : Ty) (count : Nat)
      (slot : Slot α), slot.state.reader.fieldCount < count →
        addNamed ofField (env.loadNew item) insert count slot =
          addNamed ofField (env.loadNew item) insert (slot.state.reader.fieldCount + 1) slot := by
  have ends := fun type => Schema.exists_endsWithin acyclic type
  exact ⟨fun type s => finished_answer ends (.new type s), fun type slot => finished_answer ends (.into type slot),
    ⟨Call.wellFounded_descends ends, answer_eq_fix ends⟩,
    fun ofField insert item _ _ => env.addNamed_rounds ofField insert item⟩

end Loading

namespace Grove

def label : Field := ⟨"label", .atom .text, .required, .atom (.text "")⟩

def common : Field := ⟨"", .record "Common", .flattened, .record "Common" [.atom (.text "")]⟩

def branches : Field := ⟨"branches", .list .vector (.record "Tree"), .optional, .list []⟩

def next : Field := ⟨"next", .option (.ref .box (.record "Tree")), .optional, .absent⟩

def guest : Field := ⟨"guest", .option (.ref .shared (.base "Plant")), .optional, .absent⟩

def schema : Schema where
  path := "grove::"
  records := [⟨"Common", [label], .plain⟩, ⟨"Tree", [common, branches, next, guest], .tagged "Tree"⟩]
  bases := [.plain "Plant"]

def env : Loading := { schema }

theorem flat_tree {name : String} {part : Ty} (h : TransGen schema.Flat (.record name) part) :
    name = "Tree" ∧ part = .record "Common" := by
  have hflat : ∀ record ∈ schema.records, ∀ field ∈ record.fields, field.mode = .flattened →
      record.name = "Tree" ∧ field.type = .record "Common" := by decide
  induction h with
  | single hstep =>
    cases hstep with
    | field hf hm =>
      obtain ⟨record, hr, rfl, hfield⟩ := Schema.exists_declared hf
      exact hflat record hr _ hfield hm
  | tail _ hstep ih =>
    obtain ⟨-, rfl⟩ := ih
    cases hstep with
    | field hf hm =>
      obtain ⟨record, hr, hname, hfield⟩ := Schema.exists_declared hf
      exact absurd (hname.symm.trans (hflat record hr _ hfield hm).1) (by decide)

/-- A tree that is a guest of another, found by its tag, which has a branch of its own. -/
theorem tree_ends :
    let tree := fun fields : Fields => Json.object (("label", .string "oak") :: fields)
    let document := tree [("guest", .object [("type", .string "Tree"), ("label", .string "ivy"),
      ("branches", .array [tree []])])]
    (env.ofJson (.record "Tree") .empty document).result ≠ .error .endless := by
  intro tree document
  have hacyclic : ∀ name, ¬ TransGen env.schema.Flat (.record name) (.record name) := by
    intro name h
    obtain ⟨rfl, heq⟩ := flat_tree h
    exact absurd heq (by decide)
  exact (Loading.loading_ends env hacyclic).1 (.record "Tree") ⟨.ofJson document, .empty, []⟩

end Grove

end Archivist
