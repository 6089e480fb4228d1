import Archivist.Document
import Archivist.Proofs.Loading.Replay
import Archivist.Proofs.Registry.History

/-!
Runs of a shared registry, in which loads take part. Main statement: a document that could be read is
read the same way ever after, and a value whose types were all bound is written the same way ever after.
-/

set_option autoImplicit false

namespace Archivist

namespace Registry

/-- One use of a registry that is shared. Loads count as well: they bind the types they are declared
with, and keep these bindings if they fail. -/
inductive Use where
  | register (t : Target)
  | bindInput (t : Target) (a : Archive)
  | bindOutput (t : Target) (a : Archive)
  | install (c : Registration)
  | load (a : Archive) (type : Ty) (document : Json)
  | loadInto (a : Archive) (type : Ty) (document : Json) (value : Value)

def use (S : Schema) (r : Registry) : Use → Registry
  | .register t => (r.ensure (S.info t)).registry
  | .bindInput t a => (r.ensureInput (S.info t) a).registry
  | .bindOutput t a => (r.ensureOutput (S.info t) a).registry
  | .install c => c.change S r
  | .load a type document => (Loading.ofJson ⟨S, a⟩ type r document).registry
  | .loadInto a type document value => (Loading.intoJson ⟨S, a⟩ type r document value).2.2

def uses (S : Schema) (r : Registry) (run : List Use) : Registry := run.foldl (use S) r

variable (S : Schema) (r : Registry)

theorem uses_append (earlier later : List Use) :
    r.uses S (earlier ++ later) = (r.uses S earlier).uses S later := List.foldl_append

theorem extends_insert (i : Insertion) : r.Extends (r.insert S i).registry := by
  cases i with
  | input t a => exact r.extends_insertInput _ a
  | output t a => exact r.extends_insertOutput _ a
  | relation base t up => exact r.extends_insertRelation _ _ up

theorem extends_call (c : Call) : r.Extends (r.call S c) := by
  cases c with
  | insert i => exact r.extends_insert S i
  | register t => exact r.extends_register _

theorem extends_run (calls : List Call) : r.Extends (r.run S calls) := by
  induction calls generalizing r with
  | nil => exact .refl _
  | cons c calls ih => exact (r.extends_call S c).trans (ih _)

theorem Registration.additive_ofCalls (calls : List Call) : (ofCalls calls).Additive S :=
  fun r _ => r.extends_run S calls

/-- An insertion that relates two types. -/
def Insertion.IsRelation : Insertion → Prop
  | .relation _ _ _ => True
  | _ => False

variable {S r} {P : Insertion → Prop}

theorem Warms.eq_run {r' : Registry} (h : Warms S r r') :
    ∃ calls, r' = r.run S calls ∧ ∀ i ∈ insertions calls, ¬ i.IsRelation := by
  obtain ⟨bindings, rfl⟩ := h
  refine ⟨_, rfl, fun i hi => ?_⟩
  simp only [insertions, List.flatMap_map, List.mem_flatMap, Call.insertions, List.mem_singleton] at hi
  obtain ⟨binding, -, rfl⟩ := hi
  exact id

namespace BuiltBy

theorem warms (hP : ∀ i : Insertion, ¬ i.IsRelation → P i) (h : BuiltBy S P r) {r' : Registry}
    (hw : Warms S r r') : BuiltBy S P r' := by
  obtain ⟨calls, rfl, hc⟩ := hw.eq_run
  exact h.run fun i hi => hP i (hc i hi)

theorem use (hP : ∀ i : Insertion, ¬ i.IsRelation → P i) (h : BuiltBy S P r) {u : Use}
    (hu : ∀ c, u = .install c → c.Keeps S P) : BuiltBy S P (r.use S u) := by
  cases u with
  | register t =>
    simp only [Registry.use, ensure]
    split
    · exact h
    · have hc : ∀ i ∈ insertions [.register t], P i := by
        simpa [insertions, Call.insertions] using ⟨hP _ id, hP _ id⟩
      exact h.run hc
  | bindInput t a => exact h.warms hP (warms_ensureInput S r t a)
  | bindOutput t a =>
    simp only [Registry.use, ensureOutput]
    split
    · exact h
    · have hc : ∀ i ∈ insertions [.insert (.output t a)], P i := by
        simpa [insertions, Call.insertions] using hP _ id
      exact h.run hc
  | install c => exact hu c rfl r h
  | load a type document => exact h.warms hP (warms_loadNew ⟨S, a⟩ type ⟨.ofJson document, r, []⟩)
  | loadInto a type document value =>
    exact h.warms hP (warms_load ⟨S, a⟩ type ⟨⟨.ofJson document, r, []⟩, value⟩)

theorem uses (hP : ∀ i : Insertion, ¬ i.IsRelation → P i) (h : BuiltBy S P r) {run : List Use}
    (hrun : ∀ c, .install c ∈ run → c.Keeps S P) : BuiltBy S P (r.uses S run) := by
  induction run generalizing r with
  | nil => exact h
  | cons u run ih =>
    refine ih (h.use hP ?_) fun c hc => hrun c (List.mem_cons_of_mem _ hc)
    rintro c rfl
    exact hrun c List.mem_cons_self

end BuiltBy

theorem built_uses (h : r.Built S) (run : List Use) : (r.uses S run).Built S :=
  h.uses (fun _ _ => trivial) fun c _ => c.built S

theorem extends_use (h : r.Built S) {u : Use} (hu : ∀ c, u = .install c → c.Additive S) :
    r.Extends (r.use S u) := by
  have warm : ∀ {r'}, Warms S r r' → r.Extends r' := by
    intro r' hw
    obtain ⟨calls, rfl, -⟩ := hw.eq_run
    exact r.extends_run S calls
  cases u with
  | register t => exact r.extends_ensure _
  | bindInput t a => exact r.extends_ensureInput _ a
  | bindOutput t a => exact r.extends_ensureOutput _ a
  | install c => exact hu c rfl r h
  | load a type document => exact warm (warms_loadNew ⟨S, a⟩ type ⟨.ofJson document, r, []⟩)
  | loadInto a type document value => exact warm (warms_load ⟨S, a⟩ type ⟨⟨.ofJson document, r, []⟩, value⟩)

theorem extends_uses (h : r.Built S) {run : List Use} (hrun : ∀ c, .install c ∈ run → c.Additive S) :
    r.Extends (r.uses S run) := by
  induction run generalizing r with
  | nil => exact .refl r
  | cons u run ih =>
    refine (extends_use h ?_).trans (ih (built_uses h [u]) fun c hc => hrun c (List.mem_cons_of_mem _ hc))
    rintro c rfl
    exact hrun c List.mem_cons_self

end Registry

theorem Loading.ofJson_of_extends {env : Loading} {type : Ty} {r r' : Registry} {d : Json} {v : Value}
    (h : (env.ofJson type r d).result = .ok v) (hr : (env.ofJson type r d).registry.Extends r') :
    (env.ofJson type r' d).result = .ok v := by
  rcases hl : env.loadNew type ⟨.ofJson d, r, []⟩ with ⟨result, t⟩
  simp only [ofJson, hl] at h hr ⊢
  subst h
  obtain ⟨log, h'⟩ := (Steady.loadNew env type).replays hl hr []
  exact congrArg Prod.fst h'

namespace Value

mutual

/-- The types that are met behind references declared with another one. -/
def runtimeTypes : Value → List Target
  | .atom _ | .absent => []
  | .present item => item.runtimeTypes
  | .list items => runtimeTypesOf items
  | .map _ entries => runtimeTypesIn entries
  | .record _ fields => runtimeTypesOf fields
  | .ref declared item =>
    (if item.target? = some declared then [] else item.target?.toList) ++ item.runtimeTypes

def runtimeTypesOf : List Value → List Target
  | [] => []
  | item :: rest => item.runtimeTypes ++ runtimeTypesOf rest

def runtimeTypesIn : List (Atom × Value) → List Target
  | [] => []
  | (_, item) :: rest => item.runtimeTypes ++ runtimeTypesIn rest

end

theorem runtimeTypesOf_eq (items : List Value) : runtimeTypesOf items = items.flatMap runtimeTypes := by
  induction items with
  | nil => rfl
  | cons item rest ih => rw [runtimeTypesOf, ih, List.flatMap_cons]

theorem runtimeTypesIn_eq (entries : List (Atom × Value)) :
    runtimeTypesIn entries = entries.flatMap fun e => e.2.runtimeTypes := by
  induction entries with
  | nil => rfl
  | cons entry rest ih => rw [runtimeTypesIn, ih, List.flatMap_cons]

end Value

namespace Saving

variable {env : Saving} {r : Registry}

def Binds (env : Saving) (types : List Target) : Prop :=
  ∀ t ∈ types, (env.registry.output? env.archive t).isSome

instance (types : List Target) : Decidable (env.Binds types) :=
  inferInstanceAs (Decidable (∀ t ∈ types, _))

theorem Binds.item {items : List Value} {item : Value} (h : env.Binds (Value.runtimeTypesOf items))
    (hm : item ∈ items) : env.Binds item.runtimeTypes :=
  fun t ht => h t (Value.runtimeTypesOf_eq items ▸ List.mem_flatMap.2 ⟨item, hm, ht⟩)

theorem Binds.entry {entries : List (Atom × Value)} {entry : Atom × Value}
    (h : env.Binds (Value.runtimeTypesIn entries)) (hm : entry ∈ entries) : env.Binds entry.2.runtimeTypes :=
  fun t ht => h t (Value.runtimeTypesIn_eq entries ▸ List.mem_flatMap.2 ⟨entry, hm, ht⟩)

theorem output?_of_extends (hr : env.registry.Extends r) {declared : Target} {item : Value}
    (hd : ¬ item.target? = some declared) (hb : env.Binds (Value.ref declared item).runtimeTypes) :
    item.target?.bind (r.output? env.archive) = item.target?.bind (env.registry.output? env.archive) := by
  cases ht : item.target? with
  | none => rfl
  | some t =>
    have hd' : ¬ some t = some declared := by rwa [ht] at hd
    have hm : t ∈ (Value.ref declared item).runtimeTypes := by
      simp [Value.runtimeTypes, ht, hd']
    obtain ⟨binding, hout⟩ := Option.isSome_iff_exists.1 (hb t hm)
    simp [hout, hr.output hout]

theorem saveShown_of_unbound {declared : Target} {item : Value} (hd : ¬ item.target? = some declared)
    (hb : env.Binds (Value.ref declared item).runtimeTypes)
    (hout : item.target?.bind (env.registry.output? env.archive) = none) (env' : Saving) :
    env'.saveShown declared item = pure () := by
  cases ht : item.target? with
  | none =>
    cases declared with
    | base name => simp [saveShown, Schema.shown?, ht]
    | _ => rfl
  | some t =>
    have hd' : ¬ some t = some declared := by rwa [ht] at hd
    have hs := hb t (by simp [Value.runtimeTypes, ht, hd'])
    rw [ht, Option.bind_some] at hout
    rw [hout] at hs
    cases hs

/-- A value whose types are all bound is written the same way under every larger registry. -/
theorem save_of_extends (hr : env.registry.Extends r) (v : Value) (hb : env.Binds v.runtimeTypes) :
    Saving.save { env with registry := r } v = env.save v := by
  induction v using Value.inductOn with
  | atom a => rfl
  | absent => rfl
  | present item ih =>
    rw [save_present, save_present]
    exact ih hb
  | list items ih => rw [save_list, save_list, List.map_congr_left fun item hm => ih item hm (hb.item hm)]
  | map key entries ih =>
    have hentries : entries.map (fun e => (e.1, Saving.save { env with registry := r } e.2)) =
        entries.map fun e => (e.1, env.save e.2) :=
      List.map_congr_left fun e hm => by rw [ih e hm (hb.entry hm)]
    rw [save_map, save_map, hentries]
    rfl
  | record name fields ih => rw [save_record, save_record, List.map_congr_left fun item hm => ih item hm (hb.item hm)]
  | ref declared item ih =>
    have hi := ih fun t ht => hb t (List.mem_append_right _ ht)
    simp only [save_ref, behind, hi]
    split
    · split
      · rfl
      · rename_i hd
        rw [output?_of_extends hr hd hb]
        split
        · rfl
        · rename_i hout
          simp only [saveShown_of_unbound hd hb hout]
    · rfl

theorem toJson_of_extends (hr : env.registry.Extends r) (v : Value) (hb : env.Binds v.runtimeTypes) :
    Saving.toJson { env with registry := r } v = env.toJson v := by
  simp only [toJson, save_of_extends hr v hb]

end Saving

namespace Registry

/-- A load that succeeded once succeeds again with the same value, and a value whose runtime types were all
bound for writing gives the same document again, whatever uses come in between, as long as no registration
takes anything back. None that is made of calls does. -/
theorem outcomes_last (S : Schema) (earlier later : List Use) (a : Archive)
    (additive : ∀ c, .install c ∈ later → c.Additive S) :
    (∀ type d v, (Loading.ofJson ⟨S, a⟩ type (empty.uses S earlier) d).result = .ok v →
      (Loading.ofJson ⟨S, a⟩ type (empty.uses S (earlier ++ .load a type d :: later)) d).result = .ok v) ∧
    (∀ unknownTypes v, Saving.Binds ⟨S, empty.uses S earlier, a, unknownTypes⟩ v.runtimeTypes →
      Saving.toJson ⟨S, empty.uses S (earlier ++ later), a, unknownTypes⟩ v =
        Saving.toJson ⟨S, empty.uses S earlier, a, unknownTypes⟩ v) ∧
    ∀ calls, (Registration.ofCalls calls).Additive S := by
  have hbuilt : (empty.uses S earlier).Built S := built_uses (.empty S _) earlier
  refine ⟨fun type d v h => ?_, fun unknownTypes v hb => ?_, Registration.additive_ofCalls S⟩
  · refine Loading.ofJson_of_extends h ?_
    rw [uses_append]
    exact extends_uses (built_uses hbuilt [.load a type d]) additive
  · have hr : (Saving.mk S (empty.uses S earlier) a unknownTypes).registry.Extends
        (empty.uses S (earlier ++ later)) := by
      rw [uses_append]
      exact extends_uses hbuilt additive
    exact Saving.toJson_of_extends hr v hb

def contested : Schema where
  path := ""
  records := [⟨"Holder", [], .tagged "name"⟩, ⟨"Rival", [], .tagged "name"⟩]
  bases := [.plain "Named"]

def named : Registration :=
  .ofCalls [.insert (.relation (.base "Named") (.record "Holder") (.of (.record "Holder")))]

def contestedLoad (record : String) : Use :=
  .load .jsonReader (.ref .box (.record record)) (.object [("type", .string "name")])

/-- The tag belongs to the holder after its first load or registration, and what is read and written
with it stays, however often the rival tries. -/
theorem contested_outcomes_last :
    (Loading.ofJson ⟨contested, .jsonReader⟩ (.ref .box (.record "Holder"))
      (empty.uses contested ([] ++ contestedLoad "Holder" ::
        [.register (.record "Rival"), .install named, contestedLoad "Rival"]))
      (.object [("type", .string "name")])).result =
        .ok (.ref (.record "Holder") (.record "Holder" [])) ∧
    Saving.toJson ⟨contested, empty.uses contested ([.register (.record "Holder")] ++
        [.register (.record "Rival"), .install named, contestedLoad "Rival"]), .jsonWriter, .reject⟩
      (.ref (.base "Named") (.record "Holder" [])) =
    Saving.toJson ⟨contested, empty.uses contested [.register (.record "Holder")], .jsonWriter, .reject⟩
      (.ref (.base "Named") (.record "Holder" [])) := by
  have additive : ∀ c, .install c ∈ [.register (.record "Rival"), .install named, contestedLoad "Rival"] →
      c.Additive contested := by
    intro c hc
    simp only [contestedLoad, List.mem_cons, reduceCtorEq, Use.install.injEq, List.not_mem_nil, or_false,
      false_or] at hc
    subst hc
    exact Registration.additive_ofCalls contested _
  exact ⟨(outcomes_last contested [] _ .jsonReader additive).1 _ _ _ rfl,
    (outcomes_last contested [.register (.record "Holder")] _ .jsonWriter additive).2.1 _ _ (by decide)⟩

/-- A registration may put an empty registry in the place of the one it finds. Then the holder, which could be
read and written behind the base, no longer can. -/
theorem reset_forgets :
    let document := Json.object [("type", .string "name")]
    let holder := Value.ref (.base "Named") (.record "Holder" [])
    let before := [.register (.record "Holder"), .install named]
    let loaded := fun run => (Loading.ofJson ⟨contested, .jsonReader⟩ (.ref .box (.base "Named"))
      (empty.uses contested run) document).result
    let saved := fun run => (Saving.toJson ⟨contested, empty.uses contested run, .jsonWriter, .reject⟩ holder).result
    (loaded before = .ok holder ∧ loaded (before ++ [.install .reset]) = .error (.unknownType "name")) ∧
    saved before = .ok document ∧ saved (before ++ [.install .reset]) = .error (.unknownRuntimeType "Holder") :=
  ⟨⟨rfl, rfl⟩, rfl, rfl⟩

end Registry

end Archivist
