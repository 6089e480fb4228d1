import Archivist.Document
import Archivist.Proofs.Archive.Reader
import Archivist.Proofs.RoundTrip.Depth
import Archivist.Proofs.WriteBack.Outcome

/-!
What loading in place keeps of the value that was there. Main statement: a load depends on the prior value
through the optional and skipped fields that it reaches in place alone, and where there are none it comes to
the same as reading a new value.
-/

set_option autoImplicit false

namespace Archivist

namespace Slot

variable {α β ρ : Type}

@[simp] theorem fresh_pure (v : α) : fresh v (pure ()) = pure v := rfl

@[simp] theorem fresh_fail (v : α) (e : Error) : fresh v (.fail e) = .fail e := rfl

@[simp] theorem fresh_assign (v : α) (x : Attempt ReadState α) : fresh v (assign x) = x := by
  funext s
  rcases hx : x s with ⟨e | a, t⟩
  · exact fresh_of_eq_error (assign_of_eq_error hx)
  · exact fresh_of_eq_ok (assign_of_eq_ok hx)

theorem fresh_lift_bind (v : α) (y : Attempt ReadState ρ) (x : ρ → Attempt (Slot α) Unit) :
    fresh v (lift y >>= x) = y >>= fun a => fresh v (x a) := by
  funext s
  rcases hy : y s with ⟨e | a, t⟩
  · have hl : lift y ⟨s, v⟩ = (.error e, ⟨t, v⟩) := lift_of_eq hy
    rw [fresh_of_eq_error (Attempt.bind_of_eq_error hl), Attempt.bind_of_eq_error hy]
  · have hl : lift y ⟨s, v⟩ = (.ok a, ⟨t, v⟩) := lift_of_eq hy
    rw [Attempt.bind_of_eq_ok hy]
    simp only [fresh, Attempt.bind_of_eq_ok hl]

theorem fresh_bind_lift (v : α) (x : Attempt (Slot α) Unit) (y : Attempt ReadState Unit) :
    fresh v (do x; lift y) = do
      let a ← fresh v x
      y
      return a := by
  funext s
  rcases hx : x ⟨s, v⟩ with ⟨e | _, slot⟩
  · rw [fresh_of_eq_error (Attempt.bind_of_eq_error hx), Attempt.bind_of_eq_error (fresh_of_eq_error hx)]
  · rw [Attempt.bind_of_eq_ok (fresh_of_eq_ok hx)]
    rcases hy : y slot.state with ⟨e | _, t⟩
    · have hl : (do x; lift y) ⟨s, v⟩ = (.error e, ⟨t, slot.value⟩) := by
        rw [Attempt.bind_of_eq_ok hx, lift_of_eq hy]
      rw [Attempt.bind_of_eq_error hy, fresh_of_eq_error hl]
    · have hl : (do x; lift y) ⟨s, v⟩ = (.ok (), ⟨t, slot.value⟩) := by
        rw [Attempt.bind_of_eq_ok hx, lift_of_eq hy]
      rw [Attempt.bind_of_eq_ok hy, fresh_of_eq_ok hl]
      rfl

theorem fresh_within (v : α) (content : α → β) (make : β → α) (x : Attempt (Slot β) Unit) :
    fresh v (within content make x) = make <$> fresh (content v) x := by
  rw [map_eq_pure_bind]
  funext s
  rcases hx : x ⟨s, content v⟩ with ⟨e | _, inner⟩
  · rw [Attempt.bind_of_eq_error (fresh_of_eq_error hx), fresh_of_eq_error (within_of_eq hx)]
  · rw [Attempt.bind_of_eq_ok (fresh_of_eq_ok hx), fresh_of_eq_ok (within_of_eq hx)]
    rfl

@[simp] theorem fresh_inOrder_nil (vs : List α) : fresh vs (inOrder []) = pure vs := by
  funext s
  exact fresh_of_eq_ok (each_nil (s := s))

theorem fresh_inOrder_cons (v : α) (vs : List α) (x : Attempt (Slot α) Unit) (xs : List (Attempt (Slot α) Unit)) :
    fresh (v :: vs) (inOrder (x :: xs)) = do
      let a ← fresh v x
      let as ← fresh vs (inOrder xs)
      return a :: as := by
  funext s
  rcases hx : x ⟨s, v⟩ with ⟨e | _, slot⟩
  · have he : inOrder (x :: xs) ⟨s, v :: vs⟩ = (.error e, ⟨slot.state, slot.value :: vs⟩) :=
      each_cons_of_eq_error hx
    rw [Attempt.bind_of_eq_error (fresh_of_eq_error hx), fresh_of_eq_error he]
  · rw [Attempt.bind_of_eq_ok (fresh_of_eq_ok hx)]
    rcases hr : each slot.state xs vs with ⟨e | _, rest⟩
    · have hf : fresh vs (inOrder xs) slot.state = (.error e, rest.state) := fresh_of_eq_error hr
      have he : inOrder (x :: xs) ⟨s, v :: vs⟩ = (.error e, ⟨rest.state, slot.value :: rest.value⟩) :=
        each_cons_of_eq_ok hx hr
      rw [Attempt.bind_of_eq_error hf, fresh_of_eq_error he]
    · have hf : fresh vs (inOrder xs) slot.state = (.ok rest.value, rest.state) := fresh_of_eq_ok hr
      have he : inOrder (x :: xs) ⟨s, v :: vs⟩ = (.ok (), ⟨rest.state, slot.value :: rest.value⟩) :=
        each_cons_of_eq_ok hx hr
      rw [Attempt.bind_of_eq_ok hf, fresh_of_eq_ok he]
      rfl

theorem fresh_inOrder_congr {xs : List (Attempt (Slot α) Unit)} {vs ws : List α} (hv : vs.length = xs.length)
    (hw : ws.length = xs.length) (h : ∀ x ∈ xs.zip (vs.zip ws), fresh x.2.1 x.1 = fresh x.2.2 x.1) :
    fresh vs (inOrder xs) = fresh ws (inOrder xs) := by
  induction xs generalizing vs ws with
  | nil =>
    rw [List.length_eq_zero_iff.1 hv, List.length_eq_zero_iff.1 hw]
  | cons x xs ih =>
    obtain ⟨v, vs, rfl⟩ := List.exists_cons_of_length_eq_add_one hv
    obtain ⟨w, ws, rfl⟩ := List.exists_cons_of_length_eq_add_one hw
    obtain ⟨hfirst, hrest⟩ := List.forall_mem_cons.1 h
    rw [fresh_inOrder_cons, fresh_inOrder_cons, hfirst,
      ih (Nat.succ.inj hv) (Nat.succ.inj hw) hrest]

end Slot

namespace Schema

variable (S : Schema)

/-- Values with as many elements and fields as their type has, wherever loading in place looks into them. -/
inductive Shaped : Ty → Value → Prop where
  | replaced {type : Ty} {v : Value} (h : type.isReplaced = true) : Shaped type v
  | array {item : Ty} {length : Nat} {vs : List Value} (hl : vs.length = length)
    (items : ∀ v ∈ vs, Shaped item v) : Shaped (.array item length) (.list vs)
  | record {name : String} {vs : List Value} (hl : vs.length = (S.fieldsOf name).length)
    (fields : ∀ x ∈ (S.fieldsOf name).zip vs, x.1.mode ≠ .skipped → Shaped x.1.type x.2) :
    Shaped (.record name) (.record name vs)

/-- `S.InPlace root type`: loading a value of the root type in place loads a value of the type in place, whatever
the document. -/
inductive InPlace (root : Ty) : Ty → Prop where
  | root : InPlace root root
  | item {item : Ty} {length : Nat} (h : InPlace root (.array item length)) : InPlace root item
  | field {name : String} {field : Field} (h : InPlace root (.record name)) (hf : field ∈ S.fieldsOf name)
    (hm : field.mode = .required ∨ field.mode = .flattened) : InPlace root field.type

/-- No field that is loaded in place is optional or skipped. -/
def Forgetful (type : Ty) : Prop :=
  ∀ ⦃name : String⦄, S.InPlace type (.record name) → ∀ field ∈ S.fieldsOf name,
    field.mode = .required ∨ field.mode = .flattened

/-- Every field that is loaded starts with a value of its type. -/
def Initialised : Prop :=
  ∀ ⦃name : String⦄, ∀ field ∈ S.fieldsOf name, field.mode ≠ .skipped → S.Shaped field.type field.initial

/-- Values of a type with the same optional and skipped fields, wherever loading in place looks into them. -/
inductive Agree : Ty → Value → Value → Prop where
  | replaced {type : Ty} {v w : Value} (h : type.isReplaced = true) : Agree type v w
  | array {item : Ty} {length : Nat} {vs ws : List Value} (hv : vs.length = length) (hw : ws.length = length)
    (items : ∀ x ∈ vs.zip ws, Agree item x.1 x.2) : Agree (.array item length) (.list vs) (.list ws)
  | record {name : String} {vs ws : List Value} (hv : vs.length = (S.fieldsOf name).length)
    (hw : ws.length = (S.fieldsOf name).length)
    (kept : ∀ x ∈ (S.fieldsOf name).zip (vs.zip ws), x.1.mode = .optional ∨ x.1.mode = .skipped → x.2.1 = x.2.2)
    (loaded : ∀ x ∈ (S.fieldsOf name).zip (vs.zip ws), x.1.mode = .required ∨ x.1.mode = .flattened →
      Agree x.1.type x.2.1 x.2.2) : Agree (.record name) (.record name vs) (.record name ws)

variable {S} {type : Ty} {v w : Value}

theorem InPlace.trans {a b c : Ty} (hab : S.InPlace a b) (hbc : S.InPlace b c) : S.InPlace a c := by
  induction hbc with
  | root => exact hab
  | item _ ih => exact .item ih
  | field _ hf hm ih => exact .field ih hf hm

theorem Forgetful.inPlace {inner : Ty} (h : S.Forgetful type) (hi : S.InPlace type inner) : S.Forgetful inner :=
  fun _ hn => h (hi.trans hn)

theorem exists_declared {name : String} {field : Field} (h : field ∈ S.fieldsOf name) :
    ∃ record ∈ S.records, record.name = name ∧ field ∈ record.fields := by
  unfold fieldsOf at h
  split at h
  · rename_i record hr
    exact ⟨record, List.mem_of_find?_eq_some hr, by simpa using List.find?_some hr, h⟩
  · cases h

theorem shaped_initialOf (h : S.Initialised) (name : String) : S.Shaped (.record name) (S.initialOf name) := by
  refine .record (by simp) fun x hx hm => ?_
  obtain ⟨i, hi, rfl⟩ := List.getElem_of_mem hx
  simp only [List.getElem_zip, List.getElem_map] at hm ⊢
  exact h _ (List.getElem_mem _) hm

theorem Shaped.exists_fields {name : String} (h : S.Shaped (.record name) v) :
    ∃ vs, v = .record name vs ∧
      List.Forall₂ (fun field w => field.mode ≠ .skipped → S.Shaped field.type w) (S.fieldsOf name) vs := by
  cases h with
  | replaced hr => cases hr
  | record hlength hfields => exact ⟨_, rfl, List.forall₂_iff_zip.2 ⟨hlength.symm, fun hx => hfields _ hx⟩⟩

theorem Forgetful.agree (h : S.Forgetful type) (hv : S.Shaped type v) (hw : S.Shaped type w) :
    S.Agree type v w := by
  induction hv generalizing w with
  | replaced hr => exact .replaced hr
  | array hl _ ih =>
    cases hw with
    | replaced hr => cases hr
    | array hl' items =>
      refine .array hl hl' fun x hx => ?_
      obtain ⟨hx₁, hx₂⟩ := List.of_mem_zip hx
      exact ih _ hx₁ (h.inPlace (.item .root)) (items _ hx₂)
  | record hl _ ih =>
    cases hw with
    | replaced hr => cases hr
    | record hl' fields =>
      refine .record hl hl' (fun x hx hm => ?_) fun x hx hm => ?_
      · rcases h .root _ (List.of_mem_zip hx).1 with hm' | hm' <;> simp [hm'] at hm
      · have hs : x.1.mode ≠ .skipped := by rcases hm with hm | hm <;> simp [hm]
        obtain ⟨hx₁, hx₂⟩ := mem_zip_zip hx
        exact ih _ hx₁ hs (h.inPlace (.field .root (List.of_mem_zip hx).1 hm)) (fields _ hx₂ hs)

end Schema

namespace Loading

open ReadState

def readItems (item : Attempt ReadState Value) : Nat → Attempt ReadState (List Value)
  | 0 => pure []
  | count + 1 => do
    let v ← inElement item
    let vs ← readItems item count
    return v :: vs

theorem fresh_appendItems (item : Attempt ReadState Value) (count : Nat) (acc : List Value) :
    Slot.fresh acc (appendItems item count) = (acc ++ ·) <$> readItems item count := by
  induction count generalizing acc with
  | zero => simp [appendItems, readItems]
  | succ count ih =>
    have hu : ∀ v, Slot.fresh acc (do Slot.update (· ++ [v]); appendItems item count) =
        Slot.fresh (acc ++ [v]) (appendItems item count) := fun _ => rfl
    simp [appendItems, readItems, Slot.fresh_lift_bind, hu, ih]

theorem fresh_fillList (v : Value) (item : Attempt ReadState Value) :
    Slot.fresh v (fillList item) = do
      let count ← onReader Reader.readSize
      return .list (← readItems item count) := by
  simp [fillList, Slot.fresh_within, Slot.fresh_lift_bind, fresh_appendItems]

theorem fresh_fillMap (env : Loading) (v w : Value) (kind : MapKind) (key : KeyTy) (item : Attempt ReadState Value) :
    Slot.fresh v (env.fillMap kind key item) = Slot.fresh w (env.fillMap kind key item) := by
  simp only [fillMap, Slot.fresh_within]

abbrev elementOf (item : Attempt (Slot Value) Unit) : Attempt (Slot Value) Unit := do
  Slot.lift (onReader Reader.startElement)
  item
  Slot.lift (onReader Reader.finishNode)

theorem fresh_fillArray (vs : List Value) (length : Nat) (item : Attempt (Slot Value) Unit) :
    Slot.fresh (.list vs) (fillArray length item) = do
      checkSize length
      return .list (← Slot.fresh vs (Slot.inOrder (List.replicate length (elementOf item)))) := by
  simp [fillArray, Slot.fresh_within, Slot.fresh_lift_bind, Value.items]

theorem fresh_elementOf (v : Value) (item : Attempt (Slot Value) Unit) :
    Slot.fresh v (elementOf item) = inElement (Slot.fresh v item) := by
  simp [elementOf, inElement, Slot.fresh_lift_bind, Slot.fresh_bind_lift]

theorem fresh_replicate {item : Attempt (Slot Value) Unit} {new : Attempt ReadState Value} {vs : List Value}
    (h : ∀ v ∈ vs, Slot.fresh v item = new) :
    Slot.fresh vs (Slot.inOrder (List.replicate vs.length (elementOf item))) = readItems new vs.length := by
  induction vs with
  | nil => simp [readItems]
  | cons v vs ih =>
    obtain ⟨hfirst, hrest⟩ := List.forall_mem_cons.1 h
    rw [List.length_cons, List.replicate_succ, Slot.fresh_inOrder_cons, ih hrest, fresh_elementOf, hfirst, readItems]

theorem readSize_twice {r t : Reader} {found : Nat} (h : Reader.readSize r = (.ok found, t)) :
    Reader.readSize t = (.ok found, t) := by
  obtain ⟨_ | ⟨n, rest⟩⟩ := r
  · cases h
  · cases hn : n.items? with
    | none => cases (Reader.readSize_of_none hn).symm.trans h
    | some found =>
      cases (Reader.readSize_of_items? hn).symm.trans h
      exact Reader.readSize_of_items? rfl

theorem readSize_of_checkSize {length : Nat} {s t : ReadState} (h : checkSize length s = (.ok (), t)) :
    onReader Reader.readSize t = (.ok length, t) := by
  obtain ⟨found, u, hr, hc⟩ := Attempt.bind_eq_ok h
  split at hc
  · cases hc
    rename_i heq
    subst heq
    rcases hread : Reader.readSize s.reader with ⟨e | n, r⟩
    · cases (onReader_of_eq hread).symm.trans hr
    · cases (onReader_of_eq hread).symm.trans hr
      exact onReader_of_eq (readSize_twice hread)
  · cases hc

theorem checkSize_readSize {α : Type} (length : Nat) (k : Nat → Attempt ReadState α) :
    (do checkSize length; k (← onReader Reader.readSize)) = (do checkSize length; k length) := by
  funext s
  rcases hc : checkSize length s with ⟨e | _, t⟩
  · rw [Attempt.bind_of_eq_error hc, Attempt.bind_of_eq_error hc]
  · rw [Attempt.bind_of_eq_ok hc, Attempt.bind_of_eq_ok hc, Attempt.bind_of_eq_ok (readSize_of_checkSize hc)]

theorem fresh_fillArray_eq {item : Attempt (Slot Value) Unit} {new : Attempt ReadState Value} {vs : List Value}
    (h : ∀ v ∈ vs, Slot.fresh v item = new) :
    Slot.fresh (.list vs) (fillArray vs.length item) = readArray vs.length new := by
  rw [fresh_fillArray, fresh_replicate h, readArray, fresh_fillList, checkSize_readSize]

variable (env : Loading)

theorem fresh_fillRecord (name : String) (vs : List Value) (deep flat : Ty → Attempt (Slot Value) Unit) :
    Slot.fresh (.record name vs) (env.fillRecord name deep flat) =
      .record name <$> Slot.fresh vs (Slot.inOrder ((env.schema.fieldsOf name).map fun field =>
        fillField (if field.mode = .flattened then flat else deep) field)) :=
  Slot.fresh_within _ _ _ _

theorem fresh_fillField {load : Ty → Attempt (Slot Value) Unit} {field : Field} {v w : Value}
    (kept : field.mode = .optional ∨ field.mode = .skipped → v = w)
    (loaded : field.mode = .required ∨ field.mode = .flattened →
      Slot.fresh v (load field.type) = Slot.fresh w (load field.type)) :
    Slot.fresh v (fillField load field) = Slot.fresh w (fillField load field) := by
  cases hm : field.mode with
  | skipped => rw [kept (.inr hm)]
  | optional => rw [kept (.inl hm)]
  | flattened =>
    simp only [fillField, hm]
    exact loaded (.inr hm)
  | required =>
    simp only [fillField, hm, Slot.fresh_lift_bind, Slot.fresh_bind_lift, loaded (.inl hm)]

theorem fresh_intoWithin {lighter : Loader} (deep : ∀ {type v w}, env.schema.Agree type v w →
      Slot.fresh v (lighter.into type) = Slot.fresh w (lighter.into type)) (steps : Nat) {type : Ty} {v w : Value}
    (h : env.schema.Agree type v w) :
    Slot.fresh v (env.intoWithin lighter steps type) = Slot.fresh w (env.intoWithin lighter steps type) := by
  induction steps generalizing type v w with
  | zero => rfl
  | succ steps ih =>
    cases h with
    | replaced hr =>
      cases type with
      | atom _ | option _ | ref _ _ => simp only [intoWithin, Slot.fresh_assign]
      | list _ item => simp only [intoWithin, fresh_fillList]
      | map kind key item => exact env.fresh_fillMap v w kind key _
      | array _ _ | record _ => cases hr
    | @array item length vs ws hv hw items =>
      simp only [intoWithin, fresh_fillArray]
      rw [Slot.fresh_inOrder_congr (by simpa using hv) (by simpa using hw) fun x hx => ?_]
      obtain ⟨hx₁, hx₂⟩ := List.of_mem_zip hx
      rw [List.eq_of_mem_replicate hx₁, fresh_elementOf, fresh_elementOf, deep (items _ hx₂)]
    | @record name vs ws hv hw kept loaded =>
      simp only [intoWithin, fresh_fillRecord]
      rw [Slot.fresh_inOrder_congr (by simpa using hv) (by simpa using hw) fun x hx => ?_]
      rw [List.zip_map_left, List.mem_map] at hx
      obtain ⟨⟨field, v, w⟩, hx, rfl⟩ := hx
      refine fresh_fillField (kept _ hx) fun hm => ?_
      have ha := loaded _ hx hm
      split
      · exact ih ha
      · exact deep ha

/-- A load in place sees nothing of the prior value but the fields that it keeps. -/
theorem fresh_loader (weight : Nat) {type : Ty} {v w : Value} (h : env.schema.Agree type v w) :
    Slot.fresh v ((env.loader weight).into type) = Slot.fresh w ((env.loader weight).into type) := by
  induction weight generalizing type v w with
  | zero => rfl
  | succ weight ih => exact env.fresh_intoWithin ih _ h

theorem fresh_loader_eq_new (hS : env.schema.Initialised) (weight : Nat) {type : Ty} {v : Value}
    (hf : env.schema.Forgetful type) (hv : env.schema.Shaped type v) :
    Slot.fresh v ((env.loader weight).into type) = (env.loader weight).new type := by
  induction weight generalizing type v with
  | zero => rfl
  | succ weight ih =>
    simp only [loader, steps]
    cases hv with
    | replaced hr =>
      cases type with
      | atom _ | option _ | ref _ _ => simp only [intoWithin, newWithin, Slot.fresh_assign]
      | list _ item => simp only [intoWithin, newWithin, fresh_fillList]
      | map kind key item => exact env.fresh_fillMap _ _ kind key _
      | array _ _ | record _ => cases hr
    | @array item length vs hl items =>
      subst hl
      exact fresh_fillArray_eq fun v hv => ih (hf.inPlace (.item .root)) (items v hv)
    | @record name vs hl fields =>
      exact env.fresh_intoWithin (env.fresh_loader weight) _
        (hf.agree (.record hl fields) (Schema.shaped_initialOf hS name))

/-- What a run of a load comes to. -/
def outcome (run : Except Error Value × ReadState) : Loaded := ⟨run.1, run.2.registry, run.2.log⟩

/-- What loading a document into a value comes to: the value, or the error. -/
def reload (type : Ty) (registry : Registry) (document : Json) (prior : Value) : Loaded :=
  match env.intoJson type registry document prior with
  | (value, saved, registry) => ⟨saved.result.map fun _ => value, registry, saved.log⟩

theorem reload_eq (type : Ty) (r : Registry) (d : Json) (prior : Value) :
    env.reload type r d prior = outcome (Slot.fresh prior (env.load type) ⟨.ofJson d, r, []⟩) := by
  simp only [reload, intoJson, Slot.fresh]
  rcases env.load type ⟨⟨.ofJson d, r, []⟩, prior⟩ with ⟨e | _, slot⟩ <;> rfl

/-- Loading in place forgets the prior value, but for the optional and skipped fields that it reaches in place:
where there are none it reads what a new value would be, with the same error if it fails, and in any case
prior values that agree on those fields come to the same. -/
theorem reload_forgets_prior (type : Ty) (r : Registry) (d : Json) :
    (env.schema.Initialised → env.schema.Forgetful type → ∀ prior, env.schema.Shaped type prior →
      env.reload type r d prior = env.ofJson type r d) ∧
    ∀ prior other, env.schema.Agree type prior other →
      env.reload type r d prior = env.reload type r d other := by
  constructor
  · intro hS hf prior hp
    rw [reload_eq]
    exact congrArg outcome (congrFun (env.fresh_loader_eq_new hS _ hf hp) _)
  · intro prior other h
    rw [reload_eq, reload_eq]
    exact congrArg outcome (congrFun (env.fresh_loader _ h) _)

end Loading

namespace Atlas

theorem shaped_point (v w : Value) : schema.Shaped (.record "Point") (.record "Point" [v, w]) := by
  refine .record rfl (List.forall_mem_cons.2 ⟨fun _ => .replaced rfl, ?_⟩)
  exact List.forall_mem_singleton.2 fun _ => .replaced rfl

theorem initialised : schema.Initialised := by
  intro name field hf hm
  obtain ⟨record, hr, -, hf⟩ := Schema.exists_declared hf
  simp only [schema, List.mem_cons, List.not_mem_nil, or_false] at hr
  rcases hr with rfl | rfl | rfl
  · simp only [List.mem_cons, List.not_mem_nil, or_false] at hf
    rcases hf with rfl | rfl <;> exact .replaced rfl
  · simp only [frameFields, List.mem_cons, List.not_mem_nil, or_false] at hf
    rcases hf with rfl | rfl
    · exact shaped_point _ _
    · exact .replaced rfl
  · simp only [chartFields, List.mem_cons, List.not_mem_nil, or_false] at hf
    rcases hf with rfl | rfl | rfl | rfl | rfl | rfl
    · exact .replaced rfl
    · exact .replaced rfl
    · exact .replaced rfl
    · exact @Schema.Shaped.array _ (.atom (.int .i16)) 2 _ rfl fun _ _ => .replaced rfl
    · exact .replaced rfl
    · exact .replaced rfl

theorem forgetful_points : schema.Forgetful (.array (.record "Point") 2) := by
  have hreach : ∀ {type}, schema.InPlace (.array (.record "Point") 2) type →
      type ∈ [.array (.record "Point") 2, .record "Point", .atom (.float .double)] := by
    intro type h
    induction h with
    | root => simp
    | @item item length _ ih =>
      have hi : item = .record "Point" ∧ length = 2 := by simpa using ih
      simp [hi.1]
    | field _ hf _ ih =>
      obtain rfl : _ = "Point" := by simpa using ih
      have hfields : ∀ field ∈ schema.fieldsOf "Point", field.type = .atom (.float .double) := by decide
      simp [hfields _ hf]
  intro name h
  obtain rfl : name = "Point" := by simpa using hreach h
  decide

/-- Points are read anew. Of a frame the scale is kept, since the document lacks it, and the origin is not. -/
theorem prior_forgotten :
    let d : Json := .object [("y", .int 2), ("x", .int 1)]
    let other : Value := .record "Point" [.atom (.bool true), .absent]
    let scale : Value := .atom (.float .single (.finite false 3 0))
    env.reload (.array (.record "Point") 2) .empty (.array [d, d]) (.list [point, other]) =
        env.ofJson (.array (.record "Point") 2) .empty (.array [d, d]) ∧
      env.reload (.record "Frame") .empty (.object [("origin", d)]) (.record "Frame" [point, scale]) =
        env.reload (.record "Frame") .empty (.object [("origin", d)]) (.record "Frame" [other, scale]) := by
  intro d other scale
  have hpoints : schema.Shaped (.array (.record "Point") 2) (.list [point, other]) := by
    refine .array rfl (List.forall_mem_cons.2 ⟨shaped_point _ _, ?_⟩)
    exact List.forall_mem_singleton.2 (shaped_point _ _)
  have horigin : schema.Agree (.record "Point") point other := by
    refine .record rfl rfl ?_ (List.forall_mem_cons.2 ⟨fun _ => .replaced rfl, ?_⟩)
    · exact List.forall_mem_cons.2 ⟨nofun, List.forall_mem_singleton.2 nofun⟩
    · exact List.forall_mem_singleton.2 fun _ => .replaced rfl
  have hframe : schema.Agree (.record "Frame") (.record "Frame" [point, scale]) (.record "Frame" [other, scale]) := by
    refine .record rfl rfl ?_ (List.forall_mem_cons.2 ⟨fun _ => horigin, ?_⟩)
    · exact List.forall_mem_cons.2 ⟨nofun, List.forall_mem_singleton.2 fun _ => rfl⟩
    · exact List.forall_mem_singleton.2 nofun
  exact ⟨(env.reload_forgets_prior _ .empty _).1 initialised forgetful_points _ hpoints,
    (env.reload_forgets_prior _ .empty _).2 _ _ hframe⟩

end Atlas

end Archivist
