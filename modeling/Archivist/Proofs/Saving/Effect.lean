import Archivist.Proofs.Saving.Written

/-!
Steps of writing as effects on the current node. Main statement: saving a value has an effect on the
current node alone, whatever is around it, and where it succeeds it merges what the value writes.
-/

set_option autoImplicit false

namespace Archivist

namespace Writer.Node

/-- A node that closes as an object does so with its fields, no two of which have one name. -/
def Sound (n : Node) : Prop :=
  ∀ fields : Fields, n.close = .object fields → n.fields? = some fields ∧ fields.names.Nodup

theorem close_of_fields? {n : Node} {fields : Fields} (h : n.fields? = some fields) :
    n.close = .object fields := by
  cases n <;> cases h <;> rfl

theorem Sound.tidy {n : Node} (h : n.Sound) : n.Tidy :=
  fun fields hf => (h fields (close_of_fields? hf)).2

theorem sound_pending : Node.pending.Sound := by
  intro fields h
  cases h
  exact ⟨rfl, List.nodup_nil⟩

theorem sound_array (items : List Json) : (Node.array items).Sound := fun _ h => nomatch h

theorem sound_leaf {leaf : Leaf} {value : Json} (h : leafJson leaf = .ok value) : (Node.leaf value).Sound := by
  intro fields hc
  cases hc
  cases leaf with
  | float x =>
    rw [leafJson] at h
    split at h <;> cases h
  | _ => cases h

theorem Sound.field {n : Node} {fields : Fields} {name : String} (hn : n.Sound) (hf : n.fields? = some fields)
    (hh : ¬ fields.has name = true) (value : Json) : (Node.object (fields ++ [(name, value)])).Sound := by
  intro others ho
  cases ho
  refine ⟨rfl, ?_⟩
  rw [Fields.names_append, List.nodup_append]
  refine ⟨hn.tidy fields hf, List.pairwise_singleton _ _, fun a ha b hb hab => ?_⟩
  cases List.mem_singleton.1 hb
  cases hab
  exact hh (Fields.has_iff.2 ha)

theorem merge_eq_some_of_fields?_eq_none {b : Node} (hb : b.fields? = none) {n m : Node} :
    n.merge b = some m ↔ n = .pending ∧ b = m := by
  constructor
  · intro h
    obtain ⟨rfl, rfl⟩ | ⟨rfl, -⟩ | ⟨_, others, -, rfl, -⟩ := merge_cases h
    · exact ⟨rfl, rfl⟩
    · cases hb
    · cases hb
  · rintro ⟨rfl, rfl⟩
    rfl

theorem merge_field_eq_some {n b m : Node} {name : String} :
    n.merge (field name b) = some m ↔
      ∃ fields, n.fields? = some fields ∧ ¬ fields.has name = true ∧
        .object (fields ++ [(name, b.close)]) = m := by
  constructor
  · intro h
    obtain ⟨rfl, rfl⟩ | ⟨h', -⟩ | ⟨fields, _, rfl, he, rfl, ha⟩ := merge_cases h
    · exact ⟨[], rfl, Bool.false_ne_true, rfl⟩
    · cases h'
    · cases he
      exact ⟨fields, rfl, by simpa [Fields.apart] using ha, rfl⟩
  · rintro ⟨fields, hf, hh, rfl⟩
    cases n with
    | pending =>
      cases hf
      rfl
    | object others =>
      cases hf
      have ha : fields.apart [(name, b.close)] = true := by simpa [Fields.apart] using hh
      rw [field, merge_object, if_pos ha]
    | array items => cases hf
    | leaf value => cases hf

end Writer.Node

namespace Saving

open Writer WriteState

/-- What becomes of a node when something is written into it. -/
abbrev Effect := Node → Except Error Node

namespace Effect

def comp (f g : Effect) : Effect := fun n => (f n).bind g

def field (name : String) (f : Effect) : Effect := fun n =>
  match n.fields? with
  | none => .error (.unrepresentable (.fieldOutsideObject name))
  | some fields => (f .pending).bind fun b =>
    if fields.has name then .error (.unrepresentable (.repeatedField name))
    else .ok (.object (fields ++ [(name, b.close)]))

def element (f : Effect) : Effect
  | .array items => (f .pending).bind fun b => .ok (.array (items ++ [b.close]))
  | _ => .error (.unrepresentable .elementOutsideSequence)

def leaf (leaf : Leaf) : Effect := fun n =>
  (leafJson leaf).bind fun value =>
    match n with
    | .pending => .ok (.leaf value)
    | _ => .error (.unrepresentable .valueOverContent)

def openArray : Effect
  | .pending => .ok (.array [])
  | _ => .error (.unrepresentable .sequenceOverContent)

/-- Where the effect succeeds it merges a given node, and it does so wherever that can be merged. -/
def Merges (f : Effect) (b? : Option Node) : Prop :=
  ∀ n m, f n = .ok m ↔ ∃ b, b? = some b ∧ n.merge b = some m

/-- The effect on an array is to append given elements. -/
def Appends (f : Effect) (items? : Option (List Json)) : Prop :=
  ∀ items m, f (.array items) = .ok m ↔ ∃ more, items? = some more ∧ .array (items ++ more) = m

theorem bind_eq_ok {α β : Type} {x : Except Error α} {f : α → Except Error β} {b : β} :
    x.bind f = .ok b ↔ ∃ a, x = .ok a ∧ f a = .ok b := by
  cases x <;> simp [Except.bind]

variable {f g : Effect} {b? c? : Option Node} {items? more? : Option (List Json)}

theorem field_eq_ok {name : String} {n m : Node} :
    f.field name n = .ok m ↔ ∃ fields b, n.fields? = some fields ∧ f .pending = .ok b ∧
      ¬ fields.has name = true ∧ .object (fields ++ [(name, b.close)]) = m := by
  unfold field
  cases n.fields? with
  | none => simp
  | some fields =>
    simp only [bind_eq_ok, Option.some.injEq]
    constructor
    · rintro ⟨b, hb, h⟩
      split at h
      · cases h
      · cases h
        exact ⟨fields, b, rfl, hb, by assumption, rfl⟩
    · rintro ⟨_, b, rfl, hb, hh, rfl⟩
      exact ⟨b, hb, by rw [if_neg hh]⟩

theorem leaf_eq_ok {l : Leaf} {n m : Node} :
    leaf l n = .ok m ↔ ∃ value, leafJson l = .ok value ∧ n = .pending ∧ .leaf value = m := by
  simp only [leaf, bind_eq_ok]
  refine exists_congr fun value => and_congr_right fun _ => ?_
  cases n <;> simp

namespace Merges

theorem pure : Merges .ok (some .pending) := by
  intro n m
  simp

theorem fail (e : Error) : Merges (fun _ => .error e) none := by
  intro n m
  simp

theorem comp (hf : f.Merges b?) (hg : g.Merges c?) :
    (f.comp g).Merges (b?.bind fun b => c?.bind b.merge) := by
  intro n u
  have hassoc : ∀ b c, (∃ m, n.merge b = some m ∧ m.merge c = some u) ↔
      ∃ d, b.merge c = some d ∧ n.merge d = some u := by
    intro b c
    simpa only [Option.bind_eq_some_iff] using
      iff_of_eq (congrArg (· = some u) (Node.merge_assoc n b c))
  simp only [Effect.comp, bind_eq_ok, hf n, hg _ u, Option.bind_eq_some_iff]
  constructor
  · rintro ⟨m, ⟨b, hb, hm⟩, c, hc, hu⟩
    obtain ⟨d, hd, hu⟩ := (hassoc b c).1 ⟨m, hm, hu⟩
    exact ⟨d, ⟨b, hb, c, hc, hd⟩, hu⟩
  · rintro ⟨d, ⟨b, hb, c, hc, hd⟩, hu⟩
    obtain ⟨m, hm, hu⟩ := (hassoc b c).2 ⟨d, hd, hu⟩
    exact ⟨m, ⟨b, hb, hm⟩, c, hc, hu⟩

theorem leaf (l : Leaf) : (Effect.leaf l).Merges (leafNode l) := by
  intro n m
  rw [leaf_eq_ok, leafNode]
  cases leafJson l with
  | error e => simp [Except.toOption]
  | ok value => simp [Except.toOption, Node.merge_eq_some_of_fields?_eq_none (b := .leaf value) rfl]

theorem field (name : String) (hf : f.Merges b?) : (f.field name).Merges (b?.map (.field name)) := by
  intro n m
  simp only [field_eq_ok, hf .pending, Option.map_eq_some_iff]
  constructor
  · rintro ⟨fields, b, hn, ⟨_, hb, h⟩, hh, hm⟩
    cases h
    exact ⟨_, ⟨b, hb, rfl⟩, Node.merge_field_eq_some.2 ⟨fields, hn, hh, hm⟩⟩
  · rintro ⟨_, ⟨b, hb, rfl⟩, h⟩
    obtain ⟨fields, hn, hh, hm⟩ := Node.merge_field_eq_some.1 h
    exact ⟨fields, b, hn, ⟨b, hb, rfl⟩, hh, hm⟩

theorem sequence (hf : f.Appends items?) : (openArray.comp f).Merges (items?.map .array) := by
  intro n m
  simp only [Effect.comp, bind_eq_ok, Option.map_eq_some_iff]
  constructor
  · rintro ⟨_, hn, h⟩
    cases n <;> cases hn
    obtain ⟨items, hi, rfl⟩ := (hf [] m).1 h
    exact ⟨_, ⟨items, hi, rfl⟩, rfl⟩
  · rintro ⟨_, ⟨items, hi, rfl⟩, h⟩
    obtain ⟨rfl, rfl⟩ := (Node.merge_eq_some_of_fields?_eq_none rfl).1 h
    exact ⟨_, rfl, (hf [] _).2 ⟨items, hi, rfl⟩⟩

end Merges

namespace Appends

theorem pure : Appends .ok (some []) := by
  intro items m
  simp

theorem comp (hf : f.Appends items?) (hg : g.Appends more?) :
    (f.comp g).Appends (items?.bind fun items => more?.map (items ++ ·)) := by
  intro items m
  simp only [Effect.comp, bind_eq_ok, hf items, Option.bind_eq_some_iff, Option.map_eq_some_iff]
  constructor
  · rintro ⟨_, ⟨first, hfirst, rfl⟩, h⟩
    obtain ⟨second, hsecond, rfl⟩ := (hg _ m).1 h
    exact ⟨_, ⟨first, hfirst, second, hsecond, rfl⟩, by rw [List.append_assoc]⟩
  · rintro ⟨_, ⟨first, hfirst, second, hsecond, rfl⟩, rfl⟩
    exact ⟨_, ⟨first, hfirst, rfl⟩, (hg _ _).2 ⟨second, hsecond, by rw [List.append_assoc]⟩⟩

theorem element (hf : f.Merges b?) : f.element.Appends (b?.map fun b => [b.close]) := by
  intro items m
  simp only [Effect.element, bind_eq_ok, hf .pending, Option.map_eq_some_iff]
  constructor
  · rintro ⟨b, ⟨_, hb, h⟩, hm⟩
    cases h
    cases hm
    exact ⟨_, ⟨b, hb, rfl⟩, rfl⟩
  · rintro ⟨_, ⟨b, hb, rfl⟩, rfl⟩
    exact ⟨b, ⟨b, hb, rfl⟩, rfl⟩

end Appends

end Effect

open Effect (bind_eq_ok field_eq_ok leaf_eq_ok)

/-- The step does to the current node what the effect says, and nothing to the nodes around it. -/
structure Works (x : Attempt WriteState Unit) (f : Effect) : Prop where
  run ⦃s : WriteState⦄ ⦃k : Option String⦄ ⦃n : Node⦄ ⦃rest : List Frame⦄
    (hs : s.writer.frames = ⟨k, n⟩ :: rest) :
    match f n with
    | .ok m => ∃ s', x s = (.ok (), s') ∧ s'.writer.frames = ⟨k, m⟩ :: rest
    | .error e => ∃ s', x s = (.error e, s')
  sound {n m : Node} (hn : n.Sound) (h : f n = .ok m) : m.Sound

variable {x y : Attempt WriteState Unit} {f g : Effect} {b? c? : Option Node} {items? more? : Option (List Json)}

theorem onWriter_of_eq {x : Attempt Writer Unit} {s : WriteState} {res : Except Error Unit} {w : Writer}
    (h : x s.writer = (res, w)) : onWriter x s = (res, { s with writer := w }) := by
  simp [onWriter, Attempt.on, h]

namespace Works

theorem ok_sound {n m : Node} (hn : n.Sound) (h : (.ok n : Except Error Node) = .ok m) : m.Sound := by
  cases h
  exact hn

theorem pure : Works (Pure.pure ()) .ok := ⟨fun s _ _ _ hs => ⟨s, rfl, hs⟩, ok_sound⟩

theorem note (event : Event) : Works (note event) .ok := ⟨fun _ _ _ _ hs => ⟨_, rfl, hs⟩, ok_sound⟩

theorem fail (e : Error) : Works (.fail e) fun _ => .error e := ⟨fun s _ _ _ _ => ⟨s, rfl⟩, nofun⟩

theorem bind (hx : Works x f) (hy : Works y g) : Works (x >>= fun _ => y) (f.comp g) where
  run s k n rest hs := by
    have hxs := hx.run hs
    cases hf : f n with
    | error e =>
      simp only [hf] at hxs
      obtain ⟨s', h⟩ := hxs
      simp only [Effect.comp, hf, Except.bind]
      exact ⟨s', Attempt.bind_of_eq_error h⟩
    | ok m =>
      simp only [hf] at hxs
      obtain ⟨t, h, ht⟩ := hxs
      simp only [Effect.comp, hf, Except.bind]
      have hyt := hy.run ht
      rwa [← Attempt.bind_of_eq_ok (f := fun _ => y) h] at hyt
  sound hn h := by
    obtain ⟨m, hm, h⟩ := bind_eq_ok.1 h
    exact hy.sound (hx.sound hn hm) h

theorem ofWriter {x : Attempt Writer Unit}
    (h : ∀ ⦃w k n rest⦄, w.frames = ⟨k, n⟩ :: rest →
      x w = match f n with
        | .ok m => (.ok (), ⟨⟨k, m⟩ :: rest⟩)
        | .error e => (.error e, w))
    (sound : ∀ {n m : Node}, n.Sound → f n = .ok m → m.Sound) : Works (onWriter x) f where
  run s k n rest hs := by
    have hx := h hs
    cases hf : f n with
    | ok m =>
      simp only [hf] at hx
      exact ⟨_, onWriter_of_eq hx, rfl⟩
    | error e =>
      simp only [hf] at hx
      exact ⟨_, onWriter_of_eq hx⟩
  sound := sound

theorem writeLeaf (l : Leaf) : Works (writeLeaf l) (.leaf l) := by
  refine .ofWriter (fun w k n rest hw => ?_) fun _ h => ?_
  · cases hl : leafJson l with
    | error e => simp only [Writer.writeValue, Effect.leaf, hl, Except.bind]
    | ok value => cases n <;> simp only [Writer.writeValue, Effect.leaf, hl, hw, Except.bind]
  · obtain ⟨value, hl, -, rfl⟩ := leaf_eq_ok.1 h
    exact Node.sound_leaf hl

theorem writeSize (size : Nat) : Works (onWriter (Writer.writeSize size)) .openArray := by
  refine .ofWriter (fun w k n rest hw => ?_) fun {n m} _ h => ?_
  · cases n <;> simp only [Writer.writeSize, Effect.openArray, hw]
  · cases n <;> cases h
    exact Node.sound_array []

theorem startField_of_fields? {w : Writer} {k : Option String} {n : Node} {rest : List Frame} {fields : Fields}
    (hw : w.frames = ⟨k, n⟩ :: rest) (hn : n.fields? = some fields) (name : String) :
    Writer.startField name w = (.ok (), ⟨⟨some name, .pending⟩ :: ⟨k, .object fields⟩ :: rest⟩) := by
  cases n <;> cases hn <;> simp only [Writer.startField, hw]

theorem startField_of_none {w : Writer} {k : Option String} {n : Node} {rest : List Frame}
    (hw : w.frames = ⟨k, n⟩ :: rest) (hn : n.fields? = none) (name : String) :
    Writer.startField name w = (.error (.unrepresentable (.fieldOutsideObject name)), w) := by
  cases n <;> cases hn <;> simp only [Writer.startField, hw]

theorem inField (name : String) (hx : Works x f) : Works (inField name x) (f.field name) where
  run s k n rest hs := by
    cases hn : n.fields? with
    | none =>
      simp only [Effect.field, hn]
      exact ⟨_, Attempt.bind_of_eq_error (onWriter_of_eq (startField_of_none hs hn name))⟩
    | some fields =>
      -- the field is filled from an untouched node, whatever is around it
      have hstart := onWriter_of_eq (startField_of_fields? hs hn name)
      have hfill := hx.run (s := { s with writer := ⟨⟨some name, .pending⟩ :: ⟨k, .object fields⟩ :: rest⟩ }) rfl
      simp only [Effect.field, hn]
      cases hf : f .pending with
      | error e =>
        simp only [hf] at hfill
        obtain ⟨t, ht⟩ := hfill
        exact ⟨t, (Attempt.bind_of_eq_ok hstart).trans (Attempt.bind_of_eq_error ht)⟩
      | ok b =>
        simp only [hf] at hfill
        obtain ⟨t, ht, hframes⟩ := hfill
        have hrest : WriteState.inField name x s = onWriter Writer.finishNode t :=
          (Attempt.bind_of_eq_ok hstart).trans (Attempt.bind_of_eq_ok ht)
        simp only [Except.bind, hrest]
        by_cases hh : fields.has name = true
        · have hfinish : Writer.finishNode t.writer =
              (.error (.unrepresentable (.repeatedField name)), ⟨⟨k, .object fields⟩ :: rest⟩) := by
            simp only [Writer.finishNode, hframes, if_pos hh]
          simp only [if_pos hh]
          exact ⟨_, onWriter_of_eq hfinish⟩
        · have hfinish : Writer.finishNode t.writer =
              (.ok (), ⟨⟨k, .object (fields ++ [(name, b.close)])⟩ :: rest⟩) := by
            simp only [Writer.finishNode, hframes, if_neg hh]
          simp only [if_neg hh]
          exact ⟨_, onWriter_of_eq hfinish, rfl⟩
  sound hn h := by
    obtain ⟨fields, b, hf, -, hh, rfl⟩ := field_eq_ok.1 h
    exact hn.field hf hh b.close

theorem inElement (hx : Works x f) : Works (inElement x) f.element where
  run s k n rest hs := by
    cases n with
    | array items =>
      have hstart : onWriter Writer.startElement s = (.ok (), { s with writer :=
          ⟨⟨none, .pending⟩ :: ⟨k, .array items⟩ :: rest⟩ }) :=
        onWriter_of_eq (by simp only [Writer.startElement, hs])
      have hfill := hx.run (s := { s with writer := ⟨⟨none, .pending⟩ :: ⟨k, .array items⟩ :: rest⟩ }) rfl
      simp only [Effect.element]
      cases hf : f .pending with
      | error e =>
        simp only [hf] at hfill
        obtain ⟨t, ht⟩ := hfill
        exact ⟨t, (Attempt.bind_of_eq_ok hstart).trans (Attempt.bind_of_eq_error ht)⟩
      | ok b =>
        simp only [hf] at hfill
        obtain ⟨t, ht, hframes⟩ := hfill
        have hrest : WriteState.inElement x s = onWriter Writer.finishNode t :=
          (Attempt.bind_of_eq_ok hstart).trans (Attempt.bind_of_eq_ok ht)
        have hfinish : Writer.finishNode t.writer =
            (.ok (), ⟨⟨k, .array (items ++ [b.close])⟩ :: rest⟩) := by
          simp only [Writer.finishNode, hframes]
        simp only [Except.bind, hrest]
        exact ⟨_, onWriter_of_eq hfinish, rfl⟩
    | _ =>
      have hstart : Writer.startElement s.writer =
          (.error (.unrepresentable .elementOutsideSequence), s.writer) := by
        simp only [Writer.startElement, hs]
      exact ⟨_, Attempt.bind_of_eq_error (onWriter_of_eq hstart)⟩
  sound {n m} _ h := by
    cases n with
    | array items =>
      obtain ⟨b, -, h⟩ := bind_eq_ok.1 h
      cases h
      exact Node.sound_array _
    | _ => cases h

end Works

/-- The step has an effect on the current node alone, and that merges a given node. -/
def Writes (x : Attempt WriteState Unit) (b? : Option Node) : Prop := ∃ f, Works x f ∧ f.Merges b?

/-- The step has an effect on the current node alone, and that appends given elements to an array. -/
def Lists (x : Attempt WriteState Unit) (items? : Option (List Json)) : Prop := ∃ f, Works x f ∧ f.Appends items?

namespace Writes

theorem pure : Writes (Pure.pure ()) (some .pending) := ⟨_, .pure, .pure⟩

theorem fail (e : Error) : Writes (.fail e) none := ⟨_, .fail e, .fail e⟩

theorem note (event : Event) : Writes (WriteState.note event) (some .pending) := ⟨_, .note event, .pure⟩

theorem leaf (l : Leaf) : Writes (writeLeaf l) (leafNode l) :=
  ⟨_, .writeLeaf l, .leaf l⟩

theorem bind : Writes x b? → Writes y c? → Writes (x >>= fun _ => y) (b?.bind fun b => c?.bind b.merge) :=
  fun ⟨_, hx, hf⟩ ⟨_, hy, hg⟩ => ⟨_, hx.bind hy, hf.comp hg⟩

theorem field (name : String) : Writes x b? → Writes (inField name x) (b?.map (.field name)) :=
  fun ⟨_, hx, hf⟩ => ⟨_, hx.inField name, hf.field name⟩

theorem tag (tag : String) : Writes (writeTag tag) (some (tagNode tag)) := (leaf (.text tag)).field tagField

theorem sequence (size : Nat) :
    Lists x items? → Writes (onWriter (Writer.writeSize size) >>= fun _ => x) (items?.map .array) :=
  fun ⟨_, hx, hf⟩ => ⟨_, (Works.writeSize size).bind hx, .sequence hf⟩

theorem sound {b : Node} : Writes x (some b) → b.Sound :=
  fun ⟨_, hx, hf⟩ => hx.sound Node.sound_pending ((hf .pending b).2 ⟨b, rfl, rfl⟩)

end Writes

namespace Lists

theorem pure : Lists (Pure.pure ()) (some []) := ⟨_, .pure, .pure⟩

theorem bind : Lists x items? → Lists y more? →
    Lists (x >>= fun _ => y) (items?.bind fun items => more?.map (items ++ ·)) :=
  fun ⟨_, hx, hf⟩ ⟨_, hy, hg⟩ => ⟨_, hx.bind hy, hf.comp hg⟩

theorem element : Writes x b? → Lists (inElement x) (b?.map fun b => [b.close]) :=
  fun ⟨_, hx, hf⟩ => ⟨_, hx.inElement, .element hf⟩

end Lists

section Parts

variable {ι κ : Type} {save : ι → Attempt WriteState Unit} {node : ι → Option Node}

theorem writeItems_lists {items : List ι} (h : ∀ i ∈ items, Writes (save i) (node i)) :
    Lists (writeItems (items.map save)) (Node.joinItems (items.map node)) := by
  induction items with
  | nil => exact .pure
  | cons i items ih =>
    obtain ⟨hi, hrest⟩ := List.forall_mem_cons.1 h
    simpa [writeItems, Node.joinItems, Option.bind_map, Function.comp_def] using (Lists.element hi).bind (ih hrest)

theorem writeNamed_writes (toField : κ → Option String) {entries : List (κ × ι)}
    (h : ∀ e ∈ entries, Writes (save e.2) (node e.2)) :
    Writes (KeyWriter.writeNamed toField (entries.map fun e => (e.1, save e.2)))
      (Node.joinNamed toField (entries.map fun e => (e.1, node e.2))) := by
  induction entries with
  | nil => exact .pure
  | cons e entries ih =>
    obtain ⟨he, hrest⟩ := List.forall_mem_cons.1 h
    simp only [List.map_cons, KeyWriter.writeNamed, Node.joinNamed]
    cases toField e.1 with
    | none => exact (Writes.fail _).bind (ih hrest)
    | some name => simpa [Option.bind_map, Function.comp_def] using (he.field name).bind (ih hrest)

theorem writePairs_lists {write : κ → Attempt WriteState Unit} {keys : κ → Option Node} {entries : List (κ × ι)}
    (hk : ∀ e ∈ entries, Writes (write e.1) (keys e.1)) (h : ∀ e ∈ entries, Writes (save e.2) (node e.2)) :
    Lists (KeyWriter.writePairs write (entries.map fun e => (e.1, save e.2)))
      (Node.joinPairs keys (entries.map fun e => (e.1, node e.2))) := by
  induction entries with
  | nil => exact .pure
  | cons e entries ih =>
    obtain ⟨hkey, hkeys⟩ := List.forall_mem_cons.1 hk
    obtain ⟨he, hrest⟩ := List.forall_mem_cons.1 h
    have hentry := (Lists.element ((hkey.field keyField).bind (he.field valueField))).bind (ih hkeys hrest)
    simpa [KeyWriter.writePairs, Node.joinPairs, Option.bind_map, Option.bind_assoc, Function.comp_def,
      Node.merge_entry, Node.close] using hentry

theorem writeFields_writes (declared : List Field) {items : List ι} (h : ∀ i ∈ items, Writes (save i) (node i)) :
    Writes (writeFields declared (items.map save)) (Node.joinFields declared (items.map node)) := by
  induction items generalizing declared with
  | nil => cases declared <;> exact .pure
  | cons i items ih =>
    cases declared with
    | nil => exact .pure
    | cons field declared =>
      obtain ⟨hi, hrest⟩ := List.forall_mem_cons.1 h
      simp only [List.map_cons, writeFields, Node.joinFields, Node.asField]
      cases field.mode with
      | skipped => exact Writes.pure.bind (ih declared hrest)
      | flattened => exact hi.bind (ih declared hrest)
      | _ => exact (hi.field field.name).bind (ih declared hrest)

end Parts

variable (env : Saving)

theorem behind_writes (declared : Target) (item : Value) {x y : Attempt WriteState Unit} {b? c? : Option Node}
    (hx : Writes x b?) (hy : Writes y c?) :
    Writes (env.behind declared item x y) (env.writtenBehind declared item b? c?) := by
  unfold behind writtenBehind
  split
  · split
    · exact (Writes.tag _).bind hx
    · cases item.target?.bind (env.registry.output? env.archive) with
      | some binding =>
        simp only [throughBinding]
        split
        · exact (Writes.tag _).bind hx
        · exact .fail _
      | none =>
        cases env.unknownTypes with
        | sentinel => simpa using (Writes.note _).bind ((Writes.tag unknownTag).bind hy)
        | reject => exact .fail _
  · exact hx

/-- Saving a value has an effect on the current node alone. -/
theorem save_writes (v : Value) : Writes (env.save v) (env.written v) := by
  induction v using env.schema.inductOn with
  | atom a => exact .leaf a.leaf
  | absent => exact .leaf .null
  | present item ih => rwa [save_present, written_present]
  | list items ih =>
    rw [save_list, written_list]
    exact .sequence _ (writeItems_lists ih)
  | map key entries ih =>
    rw [save_map, written_map]
    simp only [keyWriter]
    split
    · exact writeNamed_writes _ ih
    · exact .sequence _ (writePairs_lists (fun e _ => .leaf e.1.leaf) ih)
  | record name fields ih =>
    rw [save_record, written_record]
    exact writeFields_writes _ ih
  | ref declared item ih hshown =>
    rw [save_ref, written_ref]
    refine env.behind_writes declared item ih ?_
    unfold saveShown writtenShown
    cases hp : env.schema.shown? declared item with
    | none => exact .pure
    | some part => exact hshown part hp

/-- The document that a step of writing makes. -/
def documentOf (x : Attempt WriteState Unit) : Except Error Json :=
  match x .new with
  | (.ok (), s) => s.writer.document
  | (.error e, _) => .error e

theorem result_toJson (v : Value) : (env.toJson v).result = documentOf (env.save v) := by
  unfold toJson documentOf
  rcases env.save v .new with ⟨_ | ⟨⟩, s⟩ <;> rfl

theorem Works.documentOf_eq (hx : Works x f) : documentOf x = (f .pending).map Node.close := by
  have hrun := hx.run (s := WriteState.new) rfl
  cases hp : f .pending with
  | error e =>
    simp only [hp] at hrun
    obtain ⟨s, hs⟩ := hrun
    simp only [documentOf, hs, Except.map]
  | ok b =>
    simp only [hp] at hrun
    obtain ⟨s, hs, hframes⟩ := hrun
    simp only [documentOf, hs, Writer.document, hframes, Except.map]

theorem Writes.documentOf_eq_ok (h : Writes x b?) {d : Json} :
    documentOf x = .ok d ↔ ∃ b, b? = some b ∧ d = b.close := by
  obtain ⟨f, hx, hf⟩ := h
  have hpending : ∀ b, f .pending = .ok b ↔ b? = some b := by
    intro b
    rw [hf .pending b]
    simp
  rw [hx.documentOf_eq]
  constructor
  · intro h
    cases hp : f .pending with
    | error e =>
      rw [hp] at h
      cases h
    | ok b =>
      rw [hp] at h
      cases h
      exact ⟨b, (hpending b).1 hp, rfl⟩
  · rintro ⟨b, hb, rfl⟩
    rw [(hpending b).2 hb]
    rfl

theorem toJson_of_works {v : Value} (hx : Works (env.save v) f) :
    (env.toJson v).result = (f .pending).map Node.close := (env.result_toJson v).trans hx.documentOf_eq

theorem toJson_eq_ok {v : Value} {d : Json} :
    (env.toJson v).result = .ok d ↔ ∃ b, env.written v = some b ∧ d = b.close := by
  rw [result_toJson]
  exact (env.save_writes v).documentOf_eq_ok

theorem written_of_toJson {v : Value} {d : Json} (h : (env.toJson v).result = .ok d) :
    ∃ b, env.written v = some b ∧ d = b.close := env.toJson_eq_ok.1 h

theorem toJson_of_written {v : Value} {b : Node} (h : env.written v = some b) :
    (env.toJson v).result = .ok b.close := env.toJson_eq_ok.2 ⟨b, h, rfl⟩

variable {env}

theorem tidy_of_written {v : Value} {b : Node} (h : env.written v = some b) : b.Tidy :=
  (h ▸ env.save_writes v).sound.tidy

theorem tidy_of_writtenNamed {key : KeyTy} {entries : List (Atom × Value)} {b : Node}
    (h : env.writtenNamed key entries = some b) : b.Tidy := by
  have hw : Writes _ (env.writtenNamed key entries) := writeNamed_writes _ fun e _ => env.save_writes e.2
  exact (h ▸ hw).sound.tidy

end Saving

end Archivist
