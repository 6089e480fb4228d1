import Archivist.Proofs.Reordering.Maps
import Archivist.Proofs.RoundTrip.Recovery

/-!
The order of fields does not matter. Main statement: two documents that differ only in the order of the
fields of objects, at any depth, both load and give the same value, or both fail to load.
-/

set_option autoImplicit false

namespace Archivist

namespace Loading

variable (env : Loading) (r : Registry)

/-- The types that loading a value of a type goes on to load. Behind a polymorphic reference there can be
whatever the registry has bound for the archive. -/
def parts : Ty → List Ty
  | .atom _ => []
  | .option item | .list _ item | .array item _ | .map _ _ item => [item]
  | .record name => ((env.schema.fieldsOf name).filter (·.mode ≠ .skipped)).map Field.type
  | .ref _ target =>
    if env.schema.isPolymorphic target then
      (r.inputs.entries.filter (·.1.1 = env.archive)).filterMap (·.2.ty?)
    else target.ty?.toList

/-- `env.Reaches r root type`: loading a value of the root type may come to load one of the type. -/
inductive Reaches (root : Ty) : Ty → Prop where
  | root : Reaches root root
  | part {type part : Ty} (h : Reaches root type) (hp : part ∈ env.parts r type) : Reaches root part

variable {env r}

theorem Reaches.mem {root type : Ty} (h : env.Reaches r root type) {types : List Ty} (hroot : root ∈ types)
    (closed : ∀ type ∈ types, ∀ part ∈ env.parts r type, part ∈ types) : type ∈ types := by
  induction h with
  | root => exact hroot
  | part _ hp ih => exact closed _ ih _ hp

theorem mem_parts_of_field {name : String} {field : Field} (h : field ∈ env.schema.fieldsOf name)
    (hm : field.mode ≠ .skipped) : field.type ∈ env.parts r (.record name) :=
  List.mem_map_of_mem (List.mem_filter.2 ⟨h, by simpa using hm⟩)

theorem mem_parts_of_bound? {kind : RefKind} {target bound : Target} {tag : String} {type : Ty}
    (hp : env.schema.isPolymorphic target = true) (h : env.bound? r tag = some (bound, type)) :
    type ∈ env.parts r (.ref kind target) := by
  obtain ⟨found, hf, ht⟩ := Option.bind_eq_some_iff.1 h
  obtain ⟨type', ht, he⟩ := Option.map_eq_some_iff.1 ht
  cases he
  obtain ⟨⟨key, _⟩, he, rfl⟩ := Option.map_eq_some_iff.1 hf
  have hkey : key = (env.archive, tag) := by simpa using List.find?_some he
  simp only [parts, hp, ↓reduceIte]
  refine List.mem_filterMap.2 ⟨_, List.mem_filter.2 ⟨List.mem_of_find?_eq_some he, ?_⟩, ht⟩
  simp [hkey]

theorem mem_parts_of_plain {kind : RefKind} {target : Target} {type : Ty}
    (hp : ¬ env.schema.isPolymorphic target = true) (h : target.ty? = some type) :
    type ∈ env.parts r (.ref kind target) := by
  simp [parts, hp, h]

variable (env r)

/-- Nothing is left to bind for the references that a load can come to, and the keys of its maps are
either not made from field names or are the field names themselves. -/
structure OrderFree (root : Ty) : Prop where
  settled {kind : RefKind} {target : Target} : env.Reaches r root (.ref kind target) →
    (env.schema.identity target).isTagged = true →
      r.isInputSettled (env.schema.info target) env.archive = true
  keys {kind : MapKind} {key : KeyTy} {item : Ty} : env.Reaches r root (.map kind key item) →
    ∀ name, key ≠ .named name

variable {env r}

/-- `env.LoadsAlike r loader type`: new values and values in place are loaded alike from documents that
differ in the order of fields. -/
def LoadsAlike (r : Registry) (new : Ty → Attempt ReadState Value) (into : Ty → Attempt (Slot Value) Unit)
    (type : Ty) : Prop :=
  Parallel r Value.Same (new type) (new type) ∧
    ParallelIn r Value.Same Value.Same (into type) (into type)

variable {root : Ty} {lighter : Loader}

theorem loadsAlike_within (hroot : env.OrderFree r root) (hc : ∀ type, Confined (lighter.new type))
    (hl : ∀ type, env.Reaches r root type → LoadsAlike r lighter.new lighter.into type) (steps : Nat) :
    ∀ type, env.Reaches r root type →
      LoadsAlike r (env.newWithin lighter steps) (env.intoWithin lighter steps) type := by
  induction steps with
  | zero => exact fun _ _ => ⟨Parallel.fail _ _, .fail fun _ => trivial⟩
  | succ steps ih =>
    intro type ht
    cases type with
    | atom type =>
      have ha : Parallel r Value.Same (do return .atom (← readAtom type)) (do return .atom (← readAtom type)) :=
        (Parallel.readAtom type).bind fun _ _ h => .pure (h ▸ .refl _)
      exact ⟨ha, ha.assign⟩
    | option item =>
      have ho := Parallel.readOption (ih item (ht.part (by simp [parts]))).1
      exact ⟨ho, ho.assign⟩
    | list kind item =>
      have hf := Parallel.fillList (hl item (ht.part (by simp [parts]))).1
      exact ⟨.fresh (.refl _) hf, hf⟩
    | array item length =>
      obtain ⟨hn, hi⟩ := hl item (ht.part (by simp [parts]))
      exact ⟨hn.readArray length, ParallelIn.fillArray length hi⟩
    | map kind key item =>
      have hm := Parallel.fillMap env kind (hroot.keys ht) (hc item) (hl item (ht.part (by simp [parts]))).1
      exact ⟨.fresh (.refl _) hm, hm⟩
    | record name =>
      have hr : ParallelIn r Value.Same Value.Same (env.fillRecord name lighter.into (env.intoWithin lighter steps))
          (env.fillRecord name lighter.into (env.intoWithin lighter steps)) :=
        ParallelIn.fillRecord env name fun field hf hm =>
          have hfield := ht.part (mem_parts_of_field hf hm)
          ⟨(hl _ hfield).2, (ih _ hfield).2⟩
      exact ⟨.fresh (.refl _) hr, hr⟩
    | ref kind target =>
      have hr : Parallel r Value.Same (env.readRef kind target lighter.new (env.newWithin lighter steps))
          (env.readRef kind target lighter.new (env.newWithin lighter steps)) :=
        Parallel.readRef kind (hroot.settled ht)
          (fun hp _ _ _ hb => (hl _ (ht.part (mem_parts_of_bound? hp hb))).1)
          (fun hp _ hty => (ih _ (ht.part (mem_parts_of_plain hp hty))).1)
      exact ⟨hr, hr.assign⟩

theorem loadsAlike_loader (hroot : env.OrderFree r root) (weight : Nat) :
    ∀ type, env.Reaches r root type →
      LoadsAlike r (env.loader weight).new (env.loader weight).into type := by
  induction weight with
  | zero => exact fun _ _ => ⟨Parallel.fail _ _, .fail fun _ => trivial⟩
  | succ weight ih =>
    have hc := ((confined_stepwise env.schema).loader env weight).1
    exact fun type ht => loadsAlike_within hroot hc ih (env.steps type) type ht

/-- Documents that differ only in the order of fields both load, with values that are the same up to the
order of the entries of maps, or both fail to load. -/
theorem ofJson_reordered (env : Loading) (r : Registry) (type : Ty) (h : env.OrderFree r type) {d d' : Json}
    (hd : d.Reordered d') :
    (∃ v w, (env.ofJson type r d).result = .ok v ∧ (env.ofJson type r d').result = .ok w ∧ v.Same w) ∨
    ∃ e e', (env.ofJson type r d).result = .error e ∧ (env.ofJson type r d').result = .error e' := by
  have hs : ReadState.Reordered r ⟨.ofJson d, r, []⟩ ⟨.ofJson d', r, []⟩ := ⟨.cons (.value hd) .nil, rfl, rfl⟩
  -- one loader that is heavy enough for both documents
  have hload := (loadsAlike_loader h (max d.weight d'.weight + 1) type .root).1 hs
  rw [env.loader_new_eq (Nat.lt_succ_of_le (Nat.le_max_left d.weight d'.weight)),
    env.loader_new_eq (Nat.lt_succ_of_le (Nat.le_max_right d.weight d'.weight))] at hload
  obtain ⟨v, w, s, t, hv, hw, hsame, -⟩ | ⟨e, e', s, t, he, he', -⟩ := hload.cases
  · exact .inl ⟨v, w, by rw [ofJson, hv], by rw [ofJson, hw], hsame⟩
  · exact .inr ⟨e, e', by rw [ofJson, he], by rw [ofJson, he']⟩

def crateDocument : Json :=
  .object
    [("crank", .object [("type", .string "crank"), ("arm", .float (.finite false 3 (-1)))]),
     ("spare", .object [("type", .string "gear"), ("text", .string "main"), ("teeth", .int 12)]),
     ("sizes", .array [.int 3, .int (-4)]),
     ("codes", .array [.object [("key", .int 7), ("value", .string "x")]]),
     ("odd", .array [.bool true]),
     ("even", .array [])]

def crateShuffled : Json :=
  .object
    [("even", .array []),
     ("codes", .array [.object [("value", .string "x"), ("key", .int 7)]]),
     ("spare", .object [("teeth", .int 12), ("text", .string "main"), ("type", .string "gear")]),
     ("odd", .array [.bool true]),
     ("crank", .object [("arm", .float (.finite false 3 (-1))), ("type", .string "crank")]),
     ("sizes", .array [.int 3, .int (-4)])]

/-- Both documents give the same crate where cranks and gears are bound. -/
theorem crate_reordered :
    let env : Loading := { schema := workshop }
    let r := workshopExchange.registry.uses workshop [.register (.record "Crank")]
    env.OrderFree r (.record "Crate") ∧ crateDocument.Reordered crateShuffled ∧
    ∃ v w, (env.ofJson (.record "Crate") r crateDocument).result = .ok v ∧
      (env.ofJson (.record "Crate") r crateShuffled).result = .ok w ∧ v.Same w := by
  intro env r
  have hreach : ∀ {type}, env.Reaches r (.record "Crate") type → type ∈
      [.record "Crate", .ref .counted (.record "Crank"), .option (.ref .box (.base "Part")),
       .ref .box (.base "Part"), .array (.atom (.int .i16)) 2, .map .hashed (.atom (.int .i8)) (.atom .char),
       .map .sorted .text (.list .deque (.atom .bool)), .list .deque (.atom .bool), .record "Crank",
       .record "Gear", .record "Label", .atom (.int .i16), .atom .char, .atom .bool, .atom (.float .single),
       .atom .text, .atom (.int .u8)] :=
    fun h => h.mem (by decide) (by decide)
  have hfree : env.OrderFree r (.record "Crate") := by
    refine ⟨fun h _ => ?_, fun h name hk => ?_⟩
    · have hmem := hreach h
      simp at hmem
      rcases hmem with ⟨rfl, rfl⟩ | ⟨rfl, rfl⟩ <;> decide
    · have hmem := hreach h
      simp [hk] at hmem
  have hcrank : Json.Reordered (.object [("type", .string "crank"), ("arm", .float (.finite false 3 (-1)))])
      (.object [("arm", .float (.finite false 3 (-1))), ("type", .string "crank")]) :=
    .of_perm (by decide) (.swap _ _ _)
      (List.forall_mem_cons.2 ⟨.leaf rfl, List.forall_mem_singleton.2 (.leaf rfl)⟩)
  have hgear : Json.Reordered (.object [("type", .string "gear"), ("text", .string "main"), ("teeth", .int 12)])
      (.object [("teeth", .int 12), ("text", .string "main"), ("type", .string "gear")]) :=
    .of_perm (by decide) (List.reverse_perm _).symm (List.forall_mem_cons.2 ⟨.leaf rfl,
      List.forall_mem_cons.2 ⟨.leaf rfl, List.forall_mem_singleton.2 (.leaf rfl)⟩⟩)
  have hcode : Json.Reordered (.object [("key", .int 7), ("value", .string "x")])
      (.object [("value", .string "x"), ("key", .int 7)]) :=
    .of_perm (by decide) (.swap _ _ _)
      (List.forall_mem_cons.2 ⟨.leaf rfl, List.forall_mem_singleton.2 (.leaf rfl)⟩)
  have hcrate : crateDocument.Reordered crateShuffled := by
    refine .object (by decide) (by decide) fun name d d' h h' => ?_
    simp only [List.mem_cons, Prod.mk.injEq, List.not_mem_nil, or_false] at h h'
    rcases h with ⟨rfl, rfl⟩ | ⟨rfl, rfl⟩ | ⟨rfl, rfl⟩ | ⟨rfl, rfl⟩ | ⟨rfl, rfl⟩ | ⟨rfl, rfl⟩ <;>
      simp at h' <;> subst h'
    · exact hcrank
    · exact hgear
    · exact .array (.cons (.leaf rfl) (.cons (.leaf rfl) .nil))
    · exact .array (.cons hcode .nil)
    · exact .array (.cons (.leaf rfl) .nil)
    · exact .array .nil
  have hloads : (env.ofJson (.record "Crate") r crateDocument).result.isOk = true := by decide +kernel
  refine ⟨hfree, hcrate, ?_⟩
  obtain h | ⟨e, e', he, -⟩ := ofJson_reordered env r (.record "Crate") hfree hcrate
  · exact h
  · rw [he] at hloads
    cases hloads

end Loading

end Archivist
