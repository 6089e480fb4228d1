import Archivist.Proofs.Loading.Lasting
import Archivist.Document

/-!
The tags that saving writes. Saving a value is a list of calls on the archive, which depends on the value
and the registry alone, so it can be asked of each tag behind which reference it stands. Main statement: if
unknown types are rejected, the unknown tag stands only in front of values whose very type their reference
is declared with, and which has no other tag.
-/

set_option autoImplicit false

namespace Archivist

namespace Saving

open WriteState

/-- A call on the archive. A tag is told apart from any other field of its name: it comes with what the
reference was declared with, and with the type of the value behind it. -/
inductive Call where
  | startField (name : String)
  | startElement
  | finish
  | size (size : Nat)
  | leaf (leaf : Leaf)
  | tag (declared : Target) (runtime : Option Target) (tag : String)
  | note (event : Event)
  | fail (error : Error)

def Call.run : Call → Attempt WriteState Unit
  | .startField name => onWriter (Writer.startField name)
  | .startElement => onWriter Writer.startElement
  | .finish => onWriter Writer.finishNode
  | .size n => onWriter (Writer.writeSize n)
  | .leaf l => writeLeaf l
  | .tag _ _ t => writeTag t
  | .note event => WriteState.note event
  | .fail e => .fail e

def exec : List Call → Attempt WriteState Unit
  | [] => pure ()
  | call :: rest => do
    call.run
    exec rest

theorem exec_append (calls more : List Call) : exec (calls ++ more) = exec calls >>= fun _ => exec more := by
  induction calls with
  | nil => simp [exec]
  | cons call rest ih => simp [exec, ih]

theorem exec_singleton (call : Call) : exec [call] = call.run := by
  simp [exec]

def Call.field (name : String) (calls : List Call) : List Call :=
  .startField name :: (calls ++ [.finish])

def Call.element (calls : List Call) : List Call := .startElement :: (calls ++ [.finish])

theorem exec_field (name : String) (calls : List Call) : exec (Call.field name calls) = inField name (exec calls) := by
  simp [Call.field, exec, exec_append, inField, Call.run]

theorem exec_element (calls : List Call) : exec (Call.element calls) = inElement (exec calls) := by
  simp [Call.element, exec, exec_append, inElement, Call.run]

section Parts

variable {ι κ : Type}

def scriptItems (items : List (List Call)) : List Call := items.flatMap Call.element

def scriptNamed (toField : κ → Option String) (entries : List (κ × List Call)) : List Call :=
  entries.flatMap fun e =>
    match toField e.1 with
    | some name => Call.field name e.2
    | none => [.fail (.unrepresentable .keyWithoutName)]

def scriptPairs (keys : κ → List Call) (entries : List (κ × List Call)) : List Call :=
  entries.flatMap fun e => Call.element (Call.field keyField (keys e.1) ++ Call.field valueField e.2)

def scriptFields : List Field → List (List Call) → List Call
  | field :: declared, item :: rest =>
    (match field.mode with
    | .skipped => []
    | .flattened => item
    | .required | .optional => Call.field field.name item) ++ scriptFields declared rest
  | _, _ => []

variable {save : ι → Attempt WriteState Unit} {script : ι → List Call}

theorem writeItems_eq_exec {items : List ι} (h : ∀ i ∈ items, save i = exec (script i)) :
    writeItems (items.map save) = exec (scriptItems (items.map script)) := by
  induction items with
  | nil => rfl
  | cons i items ih =>
    obtain ⟨hi, hrest⟩ := List.forall_mem_cons.1 h
    rw [List.map_cons, List.map_cons, writeItems, scriptItems, List.flatMap_cons, exec_append, exec_element, hi,
      ih hrest]
    rfl

theorem writeNamed_eq_exec (toField : κ → Option String) {entries : List (κ × ι)}
    (h : ∀ e ∈ entries, save e.2 = exec (script e.2)) :
    KeyWriter.writeNamed toField (entries.map fun e => (e.1, save e.2)) =
      exec (scriptNamed toField (entries.map fun e => (e.1, script e.2))) := by
  induction entries with
  | nil => rfl
  | cons e entries ih =>
    obtain ⟨he, hrest⟩ := List.forall_mem_cons.1 h
    rw [List.map_cons, List.map_cons, KeyWriter.writeNamed, scriptNamed, List.flatMap_cons, exec_append, ih hrest]
    cases toField e.1 with
    | none => simp only [exec_singleton]; rfl
    | some name => simp only [exec_field, he]; rfl

theorem writePairs_eq_exec {write : κ → Attempt WriteState Unit} {keys : κ → List Call}
    (hk : ∀ k, write k = exec (keys k)) {entries : List (κ × ι)} (h : ∀ e ∈ entries, save e.2 = exec (script e.2)) :
    KeyWriter.writePairs write (entries.map fun e => (e.1, save e.2)) =
      exec (scriptPairs keys (entries.map fun e => (e.1, script e.2))) := by
  induction entries with
  | nil => rfl
  | cons e entries ih =>
    obtain ⟨he, hrest⟩ := List.forall_mem_cons.1 h
    rw [List.map_cons, List.map_cons, KeyWriter.writePairs, scriptPairs, List.flatMap_cons, exec_append, exec_element,
      exec_append, exec_field, exec_field, hk, he, ih hrest]
    rfl

theorem writeFields_eq_exec (declared : List Field) {items : List ι} (h : ∀ i ∈ items, save i = exec (script i)) :
    writeFields declared (items.map save) = exec (scriptFields declared (items.map script)) := by
  induction items generalizing declared with
  | nil => cases declared <;> rfl
  | cons i items ih =>
    cases declared with
    | nil => rfl
    | cons field declared =>
      obtain ⟨hi, hrest⟩ := List.forall_mem_cons.1 h
      rw [List.map_cons, List.map_cons, writeFields, scriptFields, exec_append, ih declared hrest]
      cases field.mode with
      | skipped => rfl
      | flattened => simp only [hi]
      | _ => simp only [exec_field, hi]

end Parts

variable (env : Saving)

def scriptBehind (declared : Target) (item : Value) (whole shown : List Call) : List Call :=
  if env.schema.isPolymorphic declared then
    if item.target? = some declared then .tag declared item.target? (env.schema.tag declared) :: whole
    else
      match item.target?.bind (env.registry.output? env.archive) with
      | some binding =>
        if item.target? = some binding.bound then .tag declared item.target? binding.tag :: whole
        else [.fail (.incompatibleType binding.tag (env.schema.typeName binding.bound))]
      | none =>
        match env.unknownTypes with
        | .sentinel =>
          .note (.writtenAsUnknown ((item.target?.map env.schema.typeName).getD "") (env.schema.typeName declared)) ::
            .tag declared item.target? unknownTag :: shown
        | .reject => [.fail (.unknownRuntimeType ((item.target?.map env.schema.typeName).getD ""))]
  else whole

def scripting : Value.Algebra (List Call) where
  atom a := [.leaf a.leaf]
  absent := [.leaf .null]
  present item := item
  list items := .size items.length :: scriptItems items
  map key entries :=
    if key.isTextual then scriptNamed (env.schema.fieldName? key) entries
    else .size entries.length :: scriptPairs (fun k => [.leaf k.leaf]) entries
  record name fields := scriptFields (env.schema.fieldsOf name) fields
  ref declared item whole shown? := env.scriptBehind declared item whole (shown?.getD [])

/-- The calls that saving a value makes. -/
def script (v : Value) : List Call := env.schema.fold env.scripting v

theorem behind_eq_exec (declared : Target) (item : Value) {x y : Attempt WriteState Unit} {whole shown : List Call}
    (hx : x = exec whole) (hy : y = exec shown) :
    env.behind declared item x y = exec (env.scriptBehind declared item whole shown) := by
  subst hx hy
  unfold behind scriptBehind
  split
  · split
    · rfl
    · cases item.target?.bind (env.registry.output? env.archive) with
      | some binding =>
        simp only [throughBinding]
        split
        · rfl
        · exact (exec_singleton (.fail _)).symm
      | none =>
        cases env.unknownTypes with
        | sentinel => rfl
        | reject => exact (exec_singleton (.fail _)).symm
  · rfl

theorem save_eq_exec (v : Value) : env.save v = exec (env.script v) := by
  unfold script
  induction v using env.schema.inductOn with
  | atom a => exact (exec_singleton (.leaf a.leaf)).symm
  | absent => exact (exec_singleton (.leaf .null)).symm
  | present item ih =>
    rw [save_present, Schema.fold_present, ih]
    rfl
  | list items ih =>
    rw [save_list, Schema.fold_list, writeItems_eq_exec ih]
    simp only [scripting, exec, List.length_map]
    rfl
  | map key entries ih =>
    rw [save_map, Schema.fold_map]
    simp only [keyWriter, scripting]
    split
    · exact writeNamed_eq_exec _ ih
    · have hkeys : ∀ k : Atom, writeLeaf k.leaf = exec [.leaf k.leaf] := fun k => (exec_singleton (.leaf k.leaf)).symm
      simp only [KeyWriter.writeMap, exec, writePairs_eq_exec hkeys ih]
      rfl
  | record name fields ih =>
    rw [save_record, Schema.fold_record]
    exact writeFields_eq_exec _ ih
  | ref declared item ih hshown =>
    rw [save_ref, Schema.fold_ref]
    refine env.behind_eq_exec declared item ih ?_
    unfold saveShown
    cases hp : env.schema.shown? declared item with
    | none => rfl
    | some part => exact hshown part hp

def Call.isTag : Call → Bool
  | .tag .. => true
  | _ => false

def TagsSatisfy (P : Target → Option Target → String → Prop) (calls : List Call) : Prop :=
  ∀ declared runtime tag, .tag declared runtime tag ∈ calls → P declared runtime tag

namespace TagsSatisfy

variable {P : Target → Option Target → String → Prop} {calls more : List Call}

theorem nil : TagsSatisfy P [] := fun _ _ _ h => absurd h List.not_mem_nil

theorem append (h : TagsSatisfy P calls) (hm : TagsSatisfy P more) : TagsSatisfy P (calls ++ more) := by
  intro declared runtime tag ht
  exact (List.mem_append.1 ht).elim (h declared runtime tag) (hm declared runtime tag)

theorem cons {declared : Target} {runtime : Option Target} {tag : String} (ht : P declared runtime tag)
    (h : TagsSatisfy P calls) : TagsSatisfy P (.tag declared runtime tag :: calls) := by
  intro declared' runtime' tag' hm
  rcases List.mem_cons.1 hm with heq | hm
  · cases heq
    exact ht
  · exact h declared' runtime' tag' hm

theorem other {call : Call} (hc : call.isTag = false) (h : TagsSatisfy P calls) :
    TagsSatisfy P (call :: calls) := by
  intro declared runtime tag hm
  rcases List.mem_cons.1 hm with heq | hm
  · rw [← heq] at hc
    cases hc
  · exact h declared runtime tag hm

theorem leaf (l : Leaf) : TagsSatisfy P [.leaf l] := .other rfl .nil

theorem fail (e : Error) : TagsSatisfy P [.fail e] := .other rfl .nil

theorem size (h : TagsSatisfy P calls) (n : Nat) : TagsSatisfy P (.size n :: calls) := .other rfl h

theorem note (h : TagsSatisfy P calls) (event : Event) : TagsSatisfy P (.note event :: calls) := .other rfl h

theorem field (h : TagsSatisfy P calls) (name : String) : TagsSatisfy P (Call.field name calls) :=
  .other rfl (h.append (.other rfl .nil))

theorem element (h : TagsSatisfy P calls) : TagsSatisfy P (Call.element calls) :=
  .other rfl (h.append (.other rfl .nil))

end TagsSatisfy

section

variable {env} {P : Target → Option Target → String → Prop}

/-- The three ways in which a reference gets its tag: from the type it is declared with, from an output
binding, or, unless unknown types are rejected, by default. -/
structure TagRule (env : Saving) (P : Target → Option Target → String → Prop) : Prop where
  own (declared : Target) : P declared (some declared) (env.schema.tag declared)
  bound {declared runtime : Target} {binding : OutputBinding} (hne : runtime ≠ declared)
    (h : env.registry.output? env.archive runtime = some binding) : P declared (some runtime) binding.tag
  default (declared : Target) (runtime : Option Target) (h : env.unknownTypes = .sentinel) :
    P declared runtime unknownTag

theorem TagsSatisfy.flatMap {ι : Type} {items : List ι} {f : ι → List Call} (h : ∀ i ∈ items, TagsSatisfy P (f i)) :
    TagsSatisfy P (items.flatMap f) := by
  intro declared runtime tag ht
  obtain ⟨i, hi, ht⟩ := List.mem_flatMap.1 ht
  exact h i hi declared runtime tag ht

theorem TagsSatisfy.fields (declared : List Field) {items : List (List Call)} (h : ∀ i ∈ items, TagsSatisfy P i) :
    TagsSatisfy P (scriptFields declared items) := by
  induction items generalizing declared with
  | nil => cases declared <;> exact .nil
  | cons item rest ih =>
    cases declared with
    | nil => exact .nil
    | cons field declared =>
      obtain ⟨hitem, hrest⟩ := List.forall_mem_cons.1 h
      refine .append ?_ (ih declared hrest)
      cases field.mode with
      | skipped => exact .nil
      | flattened => exact hitem
      | _ => exact hitem.field field.name

theorem TagRule.behind (h : TagRule env P) (declared : Target) (item : Value) {whole shown : List Call}
    (hw : TagsSatisfy P whole) (hs : TagsSatisfy P shown) :
    TagsSatisfy P (env.scriptBehind declared item whole shown) := by
  unfold scriptBehind
  split
  · split
    · rename_i howned
      rw [howned]
      exact .cons (h.own declared) hw
    · rename_i hother
      split
      · rename_i binding hbind
        obtain ⟨runtime, ht, hout⟩ := Option.bind_eq_some_iff.1 hbind
        rw [ht] at hother ⊢
        split
        · exact .cons (h.bound (fun he => hother (congrArg some he)) hout) hw
        · exact .fail _
      · split
        · rename_i hu
          exact (TagsSatisfy.cons (h.default declared _ hu) hs).note _
        · exact .fail _
  · exact hw

theorem TagRule.script (h : TagRule env P) (v : Value) : TagsSatisfy P (env.script v) := by
  unfold Saving.script
  induction v using env.schema.inductOn with
  | atom a => exact .leaf a.leaf
  | absent => exact .leaf .null
  | present item ih => rwa [Schema.fold_present]
  | list items ih =>
    rw [Schema.fold_list]
    exact TagsSatisfy.size (.flatMap (List.forall_mem_map.2 fun i hi => (ih i hi).element)) _
  | map key entries ih =>
    rw [Schema.fold_map]
    simp only [scripting]
    split
    · refine .flatMap (List.forall_mem_map.2 fun e he => ?_)
      cases env.schema.fieldName? key e.1 with
      | none => exact .fail _
      | some name => exact (ih e he).field name
    · refine TagsSatisfy.size (.flatMap (List.forall_mem_map.2 fun e he => ?_)) _
      exact (((TagsSatisfy.leaf e.1.leaf).field keyField).append ((ih e he).field valueField)).element
  | record name fields ih =>
    rw [Schema.fold_record]
    exact .fields _ (List.forall_mem_map.2 ih)
  | ref declared item ih hshown =>
    rw [Schema.fold_ref]
    refine h.behind declared item ih ?_
    cases hp : env.schema.shown? declared item with
    | none => exact .nil
    | some part => exact hshown part hp

end

theorem tag_ne_of_output {S : Schema} {run : List Registry.Use} {a : Archive} {t : Target} {binding : OutputBinding}
    (h : (Registry.empty.uses S run).output? a t = some binding) : binding.tag ≠ unknownTag := by
  obtain ⟨is, hr, -⟩ := (Registry.built_uses (.empty S _) run).recounts
  exact hr.unknown.2.2.2 a t binding h

/-- Saving with any registry that a run of uses leads to, if unknown types are rejected. Of the tags that
are written the unknown one stands exactly in front of values whose very type their reference is declared
with, if that type has no other tag. -/
theorem unknown_tag_iff (env : Saving) (run : List Registry.Use)
    (reached : env.registry = Registry.empty.uses env.schema run) (rejects : env.unknownTypes = .reject)
    (v : Value) :
    env.save v = exec (env.script v) ∧
    ∀ declared runtime tag, .tag declared runtime tag ∈ env.script v →
      (tag = unknownTag ↔ runtime = some declared ∧ env.schema.tag declared = unknownTag) := by
  refine ⟨env.save_eq_exec v, ?_⟩
  have rule : TagRule env fun declared runtime tag =>
      tag = unknownTag ↔ runtime = some declared ∧ env.schema.tag declared = unknownTag := by
    refine ⟨fun declared => by simp, fun {declared runtime binding} hne hout => ?_, fun declared runtime h => ?_⟩
    · have htag : binding.tag ≠ unknownTag := tag_ne_of_output (reached ▸ hout)
      simp [htag, hne]
    · rw [rejects] at h
      cases h
  exact rule.script v

def drawing : Schema where
  path := ""
  records :=
    [⟨"Circle", [⟨"r", .atom (.int .u8), .required, .atom (.int .u8 0)⟩], .tagged "circle"⟩,
     ⟨"Hexagon", [⟨"side", .atom (.int .u8), .required, .atom (.int .u8 0)⟩], .untagged⟩]
  bases := [.plain "Shape"]

def strict : Saving :=
  ⟨drawing, Registry.empty.uses drawing [.register (.record "Circle")], .jsonWriter, .reject⟩

def circle : Value := .record "Circle" [.atom (.int .u8 3)]

def hexagon : Value := .record "Hexagon" [.atom (.int .u8 4)]

theorem circle_tagged : ∃ declared runtime tag,
    .tag declared runtime tag ∈ strict.script (.list [.ref (.base "Shape") circle, .ref (.record "Hexagon") hexagon]) ∧
    tag = "circle" ∧ (tag = unknownTag ↔ runtime = some declared ∧ drawing.tag declared = unknownTag) := by
  have hm : .tag (.base "Shape") (some (.record "Circle")) "circle" ∈
      strict.script (.list [.ref (.base "Shape") circle, .ref (.record "Hexagon") hexagon]) := by
    refine List.mem_cons_of_mem _ (List.mem_cons_of_mem _ ?_)
    exact List.mem_cons_self
  have h := (unknown_tag_iff strict [.register (.record "Circle")] rfl rfl _).2 _ _ _ hm
  exact ⟨_, _, _, hm, rfl, h⟩

/-- Behind the base a hexagon is rejected, behind a reference to hexagons it gets the unknown tag. -/
theorem hexagon_written_as_unknown :
    (strict.toJson (.ref (.base "Shape") hexagon)).result = .error (.unknownRuntimeType "Hexagon") ∧
    (strict.toJson (.ref (.record "Hexagon") hexagon)).result =
      .ok (.object [("type", .string unknownTag), ("side", .int 4)]) :=
  ⟨rfl, rfl⟩

end Saving

end Archivist
