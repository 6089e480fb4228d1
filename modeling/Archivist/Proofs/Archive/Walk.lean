import Archivist.Proofs.Reordering.Documents

/-!
The reading archive call by call. Main statement: whatever calls are made, failed ones among them, what was
entered from a node and what is left of it make up what the node was, and only what is entered or read is
taken.
-/

set_option autoImplicit false

namespace Archivist

theorem Fields.sublist_of_take? {fields left : Fields} {name : String} {d : Json}
    (h : fields.take? name = some (d, left)) : left.Sublist fields := by
  induction fields generalizing left with
  | nil => cases h
  | cons field fields ih =>
    obtain ⟨key, value⟩ := field
    simp only [take?] at h
    split at h
    · cases h
      exact List.sublist_cons_self _ _
    · obtain ⟨⟨found, rest⟩, hf, he⟩ := Option.map_eq_some_iff.1 h
      cases he
      exact (ih hf).cons_cons _

namespace Reader

inductive Call where
  | startField (name : String)
  | startElement
  | finishNode
  | readSize
  | readValue
  | isNull
  | nextFieldName
  deriving DecidableEq, Repr

inductive Reply where
  | done
  | size (n : Nat)
  | leaf (leaf : Leaf)
  | truth (b : Bool)
  | name (name : Option String)
  deriving DecidableEq, Repr

def Call.run : Call → Attempt Reader Reply
  | .startField name => do
    Reader.startField name
    return .done
  | .startElement => do
    Reader.startElement
    return .done
  | .finishNode => do
    Reader.finishNode
    return .done
  | .readSize => return .size (← Reader.readSize)
  | .readValue => return .leaf (← Reader.readValue)
  | .isNull => return .truth (← Reader.isNull)
  | .nextFieldName => return .name (← Reader.nextFieldName)

def Call.asks : Call → Bool
  | .readSize | .isNull | .nextFieldName => true
  | _ => false

/-- What is left of a node, as a document. -/
def Node.left : Node → Json
  | .value d => d
  | .object fields => .object fields
  | .array items _ => .array items

def left (r : Reader) : Json :=
  match r.nodes with
  | [] => .null
  | n :: _ => n.left

/-- An entered node: what it was when it was entered, and what has been entered from it since. -/
structure Visit where
  origin : Json
  fields : Fields := []
  items : List Json := []
  deriving Repr

/-- A reader and its entered nodes, innermost first as there. -/
structure Walk where
  reader : Reader
  visits : List Visit
  deriving Repr

namespace Walk

def start (d : Json) : Walk := ⟨.ofJson d, [⟨d, [], []⟩]⟩

/-- The entered nodes after a call that succeeded, of which `entered` is what the current node is then. -/
def note (entered : Json) : Call → List Visit → List Visit
  | .startField name, visit :: rest =>
    ⟨entered, [], []⟩ :: { visit with fields := visit.fields ++ [(name, entered)] } :: rest
  | .startElement, visit :: rest =>
    ⟨entered, [], []⟩ :: { visit with items := visit.items ++ [entered] } :: rest
  | .finishNode, _ :: rest => rest
  | _, visits => visits

theorem note_of_asks {call : Call} (h : call.asks = true) (entered : Json) (visits : List Visit) :
    note entered call visits = visits := by
  cases call <;> first | rfl | cases h

def call (w : Walk) (call : Call) : Walk :=
  match call.run w.reader with
  | (.ok _, reader) => ⟨reader, note reader.left call w.visits⟩
  | (.error _, reader) => ⟨reader, w.visits⟩

def after (d : Json) (history : List Call) : Walk := history.foldl call (start d)

end Walk

/-- What was entered from a node and what is left of it make up what it was: of an object in any order, but
what is left in the old order, of an array from the front. A leaf is there or was read. -/
inductive Visit.Balances : Visit → Node → Prop
  | object {fields entered left : Fields} {n : Node} (hn : n.fields? = some left)
      (perm : (entered ++ left).Perm fields) (order : left.Sublist fields) :
      Balances ⟨.object fields, entered, []⟩ n
  | array {items entered left : List Json} {n : Node} (hn : n.items? = some (left, items.length))
      (append : entered ++ left = items) : Balances ⟨.array items, [], entered⟩ n
  | leaf {d : Json} {leaf : Leaf} (hd : leaf? d = some leaf) : Balances ⟨d, [], []⟩ (.value d)
  | read {d : Json} {leaf : Leaf} (hd : leaf? d = some leaf) : Balances ⟨d, [], []⟩ (.value .null)

theorem fields?_of_items? {n : Node} {items : List Json} {length : Nat} (h : n.items? = some (items, length)) :
    n.fields? = none := by
  unfold Node.items? at h
  split at h <;> first | rfl | cases h

theorem fields?_of_leaf? {d : Json} {leaf : Leaf} (h : leaf? d = some leaf) : (Node.value d).fields? = none := by
  cases d <;> first | rfl | cases h

theorem items?_of_leaf? {d : Json} {leaf : Leaf} (h : leaf? d = some leaf) : (Node.value d).items? = none := by
  cases d <;> first | rfl | cases h

/-- The same left of a node, which is known to be an object or an array from now on. -/
inductive Node.Opens (n : Node) : Node → Prop
  | same : Opens n n
  | object {fields : Fields} (hn : n.fields? = some fields) : Opens n (.object fields)
  | array {items : List Json} {length : Nat} (hn : n.items? = some (items, length)) : Opens n (.array items length)

theorem Node.Opens.left_eq {n m : Node} (h : n.Opens m) : m.left = n.left := by
  cases h with
  | same => rfl
  | object hn =>
    unfold Node.fields? at hn
    split at hn <;> cases hn <;> rfl
  | array hn =>
    unfold Node.items? at hn
    split at hn <;> cases hn <;> rfl

/-- What a call on a node can do, with all outcomes. -/
inductive Call.Effect (n : Node) (rest : List Node) : Call → Except Error Reply × Reader → Prop
  | enterField {name : String} {fields left : Fields} {d : Json} (hn : n.fields? = some fields)
      (ht : fields.take? name = some (d, left)) :
      Effect n rest (.startField name) (.ok .done, ⟨.value d :: .object left :: rest⟩)
  | enterElement {d : Json} {items : List Json} {length : Nat} (hn : n.items? = some (d :: items, length)) :
      Effect n rest .startElement (.ok .done, ⟨.value d :: .array items length :: rest⟩)
  | leave {m : Node} {outer : List Node} (hr : rest = m :: outer) :
      Effect n rest .finishNode (.ok .done, ⟨rest⟩)
  | read {d : Json} {leaf : Leaf} (hn : n = .value d) (hd : leaf? d = some leaf) :
      Effect n rest .readValue (.ok (.leaf leaf), ⟨.value .null :: rest⟩)
  | ask {call : Call} {reply : Reply} {m : Node} (ha : call.asks = true) (ho : n.Opens m) :
      Effect n rest call (.ok reply, ⟨m :: rest⟩)
  | fail {call : Call} {e : Error} {m : Node} (ho : n.Opens m) : Effect n rest call (.error e, ⟨m :: rest⟩)

theorem Call.run_effect (call : Call) (n : Node) (rest : List Node) :
    call.Effect n rest (call.run ⟨n :: rest⟩) := by
  cases call with
  | startField name =>
    simp only [Call.run]
    cases hn : n.fields? with
    | none =>
      rw [Attempt.bind_of_eq_error (startField_of_none hn)]
      exact .fail .same
    | some fields =>
      cases ht : fields.take? name with
      | none =>
        rw [Attempt.bind_of_eq_error (startField_of_absent hn ht)]
        exact .fail (.object hn)
      | some found =>
        rw [Attempt.bind_of_eq_ok (startField_of_take? hn ht)]
        exact .enterField hn ht
  | startElement =>
    simp only [Call.run]
    match hn : n.items? with
    | none =>
      rw [Attempt.bind_of_eq_error (startElement_of_none hn)]
      exact .fail .same
    | some ([], length) =>
      rw [Attempt.bind_of_eq_error (startElement_of_no_more hn)]
      exact .fail (.array hn)
    | some (d :: items, length) =>
      rw [Attempt.bind_of_eq_ok (startElement_of_items? hn)]
      exact .enterElement hn
  | finishNode =>
    cases rest with
    | nil => exact .fail .same
    | cons m outer => exact .leave rfl
  | readSize =>
    simp only [Call.run]
    cases hn : n.items? with
    | none =>
      rw [Attempt.bind_of_eq_error (readSize_of_none hn)]
      exact .fail .same
    | some found =>
      rw [Attempt.bind_of_eq_ok (readSize_of_items? hn)]
      exact .ask rfl (.array hn)
  | readValue =>
    simp only [Call.run]
    match n with
    | .object fields => exact .fail .same
    | .array items length => exact .fail .same
    | .value d =>
      cases hd : leaf? d with
      | some leaf =>
        rw [Attempt.bind_of_eq_ok (readValue_of_leaf? hd)]
        exact .read rfl hd
      | none =>
        have hr : Reader.readValue ⟨.value d :: rest⟩ =
            (.error (.malformed (.notALeaf d.kind)), ⟨.value d :: rest⟩) := by
          cases d with
          | array items => rfl
          | object fields => rfl
          | _ => cases hd
        rw [Attempt.bind_of_eq_error hr]
        exact .fail .same
  | isNull =>
    cases n with
    | value d => cases d <;> exact .ask rfl .same
    | object fields => exact .ask rfl .same
    | array items length => exact .ask rfl .same
  | nextFieldName =>
    simp only [Call.run]
    cases hn : n.fields? with
    | none =>
      rw [Attempt.bind_of_eq_error (nextFieldName_of_none hn)]
      exact .fail .same
    | some fields =>
      rw [Attempt.bind_of_eq_ok (nextFieldName_of_fields? hn)]
      exact .ask rfl (.object hn)

namespace Visit.Balances

variable {visit : Visit} {n m : Node} {fields left : Fields} {items : List Json} {length : Nat}

theorem fresh (d : Json) : Balances ⟨d, [], []⟩ (.value d) := by
  cases d with
  | object fields => exact .object rfl (.refl _) (.refl _)
  | array items => exact .array rfl rfl
  | _ => exact .leaf rfl

theorem enterField (h : visit.Balances n) (hn : n.fields? = some fields) {name : String} {d : Json}
    (ht : fields.take? name = some (d, left)) :
    Balances { visit with fields := visit.fields ++ [(name, d)] } (.object left) := by
  cases h with
  | @object all entered _ _ hf perm order =>
    cases hn.symm.trans hf
    refine .object rfl ?_ ((Fields.sublist_of_take? ht).trans order)
    rw [List.append_assoc, List.singleton_append]
    exact ((Fields.perm_of_take? ht).symm.append_left entered).trans perm
  | array hi _ => cases hn.symm.trans (fields?_of_items? hi)
  | leaf hd => cases hn.symm.trans (fields?_of_leaf? hd)
  | read hd => cases hn

theorem enterItem (h : visit.Balances n) {d : Json} (hn : n.items? = some (d :: items, length)) :
    Balances { visit with items := visit.items ++ [d] } (.array items length) := by
  cases h with
  | object hf _ _ => cases hf.symm.trans (fields?_of_items? hn)
  | array hi append =>
    cases hn.symm.trans hi
    exact .array rfl (by simpa using append)
  | leaf hd => cases hn.symm.trans (items?_of_leaf? hd)
  | read hd => cases hn

theorem opens (h : visit.Balances n) (ho : n.Opens m) : visit.Balances m := by
  cases ho with
  | same => exact h
  | object hn =>
    cases h with
    | object hf perm order => exact .object (hn.symm.trans hf) perm order
    | array hi _ => cases hn.symm.trans (fields?_of_items? hi)
    | leaf hd => cases hn.symm.trans (fields?_of_leaf? hd)
    | read _ => cases hn
  | array hn =>
    cases h with
    | object hf _ _ => cases hf.symm.trans (fields?_of_items? hn)
    | array hi append => exact .array (hn.symm.trans hi) append
    | leaf hd => cases hn.symm.trans (items?_of_leaf? hd)
    | read _ => cases hn

theorem readLeaf {d : Json} {leaf : Leaf} (h : visit.Balances (.value d)) (hd : leaf? d = some leaf) :
    visit.Balances (.value .null) := by
  cases h with
  | object hf _ _ => cases hf.symm.trans (fields?_of_leaf? hd)
  | array hi _ => cases hi.symm.trans (items?_of_leaf? hd)
  | leaf h => exact .read h
  | read h => exact .read h

theorem fields?_eq (h : visit.Balances n) (ho : visit.origin = .object fields) :
    ∃ left : Fields, n.left = .object left ∧ n.fields? = some left := by
  cases h with
  | object hn _ _ => exact ⟨_, (Node.Opens.object hn).left_eq.symm, hn⟩
  | array _ _ => cases ho
  | leaf hd =>
    subst ho
    cases hd
  | read hd =>
    subst ho
    cases hd

theorem items?_eq (h : visit.Balances n) (ho : visit.origin = .array items) :
    ∃ left, n.items? = some (left, items.length) := by
  cases h with
  | object _ _ _ => cases ho
  | array hn _ =>
    cases ho
    exact ⟨_, hn⟩
  | leaf hd =>
    subst ho
    cases hd
  | read hd =>
    subst ho
    cases hd

end Visit.Balances

/-- The entered nodes of a walk through a document: each was the field or element entered last from the one
around it. -/
inductive Walked (d : Json) : List Visit → List Node → Prop
  | root {visit : Visit} {n : Node} (origin : visit.origin = d) (balances : visit.Balances n) :
      Walked d [visit] [n]
  | field {visit parent : Visit} {visits : List Visit} {n : Node} {nodes : List Node} {name : String}
      (entered : parent.fields.getLast? = some (name, visit.origin)) (balances : visit.Balances n)
      (around : Walked d (parent :: visits) nodes) : Walked d (visit :: parent :: visits) (n :: nodes)
  | element {visit parent : Visit} {visits : List Visit} {n : Node} {nodes : List Node}
      (entered : parent.items.getLast? = some visit.origin) (balances : visit.Balances n)
      (around : Walked d (parent :: visits) nodes) : Walked d (visit :: parent :: visits) (n :: nodes)

namespace Walked

variable {d : Json} {visit : Visit} {visits : List Visit} {n : Node} {nodes : List Node}

theorem current (h : Walked d (visit :: visits) (n :: nodes)) : visit.Balances n := by
  cases h <;> assumption

theorem change (h : Walked d (visit :: visits) (n :: nodes)) {visit' : Visit} {m : Node}
    (origin : visit'.origin = visit.origin) (balances : visit'.Balances m) :
    Walked d (visit' :: visits) (m :: nodes) := by
  cases h with
  | root ho _ => exact .root (origin.trans ho) balances
  | field entered _ around => exact .field (origin ▸ entered) balances around
  | element entered _ around => exact .element (origin ▸ entered) balances around

theorem exists_cons {nodes : List Node} (h : Walked d visits nodes) :
    ∃ visit visits' n nodes', visits = visit :: visits' ∧ nodes = n :: nodes' := by
  cases h <;> exact ⟨_, _, _, _, rfl, rfl⟩

end Walked

/-- A call keeps the account of every entered node, whether it succeeds or fails. -/
theorem Walked.call {d : Json} {w : Walk} (h : Walked d w.visits w.reader.nodes) (call : Call) :
    Walked d (w.call call).visits (w.call call).reader.nodes := by
  obtain ⟨⟨nodes⟩, visits⟩ := w
  obtain ⟨visit, around, n, rest, rfl, rfl⟩ := h.exists_cons
  have effect := call.run_effect n rest
  generalize hr : call.run ⟨n :: rest⟩ = result at effect
  simp only [Walk.call, hr]
  cases effect with
  | enterField hn ht =>
    exact .field List.getLast?_concat (.fresh _) (h.change rfl (h.current.enterField hn ht))
  | enterElement hn =>
    exact .element List.getLast?_concat (.fresh _) (h.change rfl (h.current.enterItem hn))
  | leave hr =>
    cases h with
    | root _ _ => cases hr
    | field _ _ around => exact around
    | element _ _ around => exact around
  | read hn hd =>
    subst hn
    exact h.change rfl (h.current.readLeaf hd)
  | ask ha ho =>
    dsimp only
    rw [Walk.note_of_asks ha]
    exact h.change rfl (h.current.opens ho)
  | fail ho => exact h.change rfl (h.current.opens ho)

theorem walked_after (d : Json) (history : List Call) :
    Walked d (Walk.after d history).visits (Walk.after d history).reader.nodes := by
  have fold : ∀ w : Walk, Walked d w.visits w.reader.nodes →
      Walked d (history.foldl Walk.call w).visits (history.foldl Walk.call w).reader.nodes := by
    induction history with
    | nil => exact fun _ h => h
    | cons call history ih => exact fun w h => ih _ (h.call call)
  exact fold _ (.root rfl (.fresh d))

/-- Whatever calls were made on a document, failed ones among them: each entered node has what is left of it
and what was entered from it, the next field name is the first one left, the size is that of the whole array,
reading takes the current leaf alone, and a call that fails or only asks takes nothing. -/
theorem nothing_lost (d : Json) (history : List Call) :
    let w := Walk.after d history
    Walked d w.visits w.reader.nodes ∧
      (∀ visit ∈ w.visits.head?, ∀ fields, visit.origin = .object fields → ∃ left : Fields,
        w.reader.left = .object left ∧ (Call.nextFieldName.run w.reader).1 = .ok (.name left.names.head?)) ∧
      (∀ visit ∈ w.visits.head?, ∀ items, visit.origin = .array items →
        (Call.readSize.run w.reader).1 = .ok (.size items.length)) ∧
      (∀ leaf, (Call.readValue.run w.reader).1 = .ok (.leaf leaf) → ∃ current rest,
        w.reader.nodes = .value current :: rest ∧ leaf? current = some leaf ∧
          (Call.readValue.run w.reader).2.nodes = .value .null :: rest) ∧
      ∀ call : Call, (call.asks ∨ ∃ e, (call.run w.reader).1 = .error e) →
        (call.run w.reader).2.nodes.map Node.left = w.reader.nodes.map Node.left := by
  intro w
  have h : Walked d w.visits w.reader.nodes := walked_after d history
  generalize w = w at h
  obtain ⟨⟨nodes⟩, visits⟩ := w
  obtain ⟨visit, around, n, rest, rfl, rfl⟩ := h.exists_cons
  refine ⟨h, ?_, ?_, ?_, ?_⟩
  · rintro _ ⟨⟩ fields ho
    obtain ⟨left, hl, hn⟩ := h.current.fields?_eq ho
    refine ⟨left, hl, ?_⟩
    rw [Call.run, Attempt.bind_of_eq_ok (nextFieldName_of_fields? hn)]
    rfl
  · rintro _ ⟨⟩ items ho
    obtain ⟨left, hn⟩ := h.current.items?_eq ho
    rw [Call.run, Attempt.bind_of_eq_ok (readSize_of_items? hn)]
    rfl
  · intro leaf hr
    have effect := Call.readValue.run_effect n rest
    generalize Call.readValue.run ⟨n :: rest⟩ = result at effect hr
    cases effect with
    | read hn hd =>
      cases hr
      exact ⟨_, rest, by rw [hn], hd, rfl⟩
    | ask ha _ => cases ha
    | fail _ => cases hr
  · intro call hc
    have effect := call.run_effect n rest
    generalize call.run ⟨n :: rest⟩ = result at effect hc
    cases effect with
    | ask _ ho => simp [ho.left_eq]
    | fail ho => simp [ho.left_eq]
    | _ => rcases hc with hc | ⟨e, hc⟩ <;> cases hc

/-- An array whose first element was read and left, after a call that fails, and the object around it. -/
theorem nothing_lost_partly_read :
    let d : Json := .object [("a", .array [.int 1, .int 2]), ("b", .bool true)]
    let inner := Walk.after d [.startField "a", .startElement, .readValue, .finishNode, .startField "b"]
    let outer := Walk.after d [.startField "a", .startElement, .finishNode, .finishNode]
    let last := Walk.after d [.startField "a", .startElement]
    ((Call.startField "b").run inner.reader).1 = .error (.malformed (.notAnObject "array")) ∧
      ((Call.startField "b").run inner.reader).2.nodes.map Node.left = inner.reader.nodes.map Node.left ∧
      (Call.readSize.run inner.reader).1 = .ok (.size 2) ∧
      (∃ left : Fields, outer.reader.left = .object left ∧
        (Call.nextFieldName.run outer.reader).1 = .ok (.name left.names.head?)) ∧
      ∃ current rest, last.reader.nodes = .value current :: rest ∧ leaf? current = some (.ofInt 1) ∧
        (Call.readValue.run last.reader).2.nodes = .value .null :: rest := by
  intro d inner outer last
  obtain ⟨-, -, size, -, kept⟩ := nothing_lost d
    [.startField "a", .startElement, .readValue, .finishNode, .startField "b"]
  obtain ⟨-, nextName, -⟩ := nothing_lost d [.startField "a", .startElement, .finishNode, .finishNode]
  obtain ⟨-, -, -, read, -⟩ := nothing_lost d [.startField "a", .startElement]
  exact ⟨rfl, kept _ (.inr ⟨_, rfl⟩), size _ rfl [.int 1, .int 2] rfl, nextName _ rfl _ rfl, read _ rfl⟩

end Reader

end Archivist
