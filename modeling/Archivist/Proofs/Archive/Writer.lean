import Archivist.Proofs.Saving.Written

/-!
The writing archive call by call. Main statement: after any calls, failed ones among them, every open node
fits into the one around it, and a call that fails leaves all of them as they are. Only a field that is
there already is lost when it is closed.
-/

set_option autoImplicit false

namespace Archivist.Writer

inductive Call where
  | startField (name : String)
  | startElement
  | finishNode
  | writeSize (size : Nat)
  | writeValue (leaf : Leaf)
  deriving DecidableEq, Repr

def Call.run : Call → Attempt Writer Unit
  | .startField name => Writer.startField name
  | .startElement => Writer.startElement
  | .finishNode => Writer.finishNode
  | .writeSize size => Writer.writeSize size
  | .writeValue leaf => Writer.writeValue leaf

/-- What a call does to the open nodes where it succeeds. -/
inductive Step : Call → List Frame → List Frame → Prop
  | startField (name : String) {k : Option String} {n : Node} {fields : Fields} {rest : List Frame}
      (hn : n.fields? = some fields) :
      Step (.startField name) (⟨k, n⟩ :: rest) (⟨some name, .pending⟩ :: ⟨k, .object fields⟩ :: rest)
  | startElement {k : Option String} {items : List Json} {rest : List Frame} :
      Step .startElement (⟨k, .array items⟩ :: rest) (⟨none, .pending⟩ :: ⟨k, .array items⟩ :: rest)
  | finishField {name : String} {n : Node} {k : Option String} {fields : Fields} {rest : List Frame}
      (hn : ¬ fields.has name = true) :
      Step .finishNode (⟨some name, n⟩ :: ⟨k, .object fields⟩ :: rest)
        (⟨k, .object (fields ++ [(name, n.close)])⟩ :: rest)
  | finishElement {n : Node} {k : Option String} {items : List Json} {rest : List Frame} :
      Step .finishNode (⟨none, n⟩ :: ⟨k, .array items⟩ :: rest) (⟨k, .array (items ++ [n.close])⟩ :: rest)
  | writeSize (size : Nat) {k : Option String} {rest : List Frame} :
      Step (.writeSize size) (⟨k, .pending⟩ :: rest) (⟨k, .array []⟩ :: rest)
  | writeValue {leaf : Leaf} {d : Json} {k : Option String} {rest : List Frame} (hd : leafJson leaf = .ok d) :
      Step (.writeValue leaf) (⟨k, .pending⟩ :: rest) (⟨k, .leaf d⟩ :: rest)

theorem Step.run {call : Call} {frames frames' : List Frame} (h : Step call frames frames') :
    call.run ⟨frames⟩ = (.ok (), ⟨frames'⟩) := by
  cases h with
  | @startField name k n fields rest hn =>
    cases n with
    | pending => cases hn; rfl
    | object others => cases hn; rfl
    | array items => cases hn
    | leaf d => cases hn
  | startElement => rfl
  | finishField hn => simp [Call.run, finishNode, hn]
  | finishElement => rfl
  | writeSize size => rfl
  | writeValue hd => simp [Call.run, Writer.writeValue, hd]

/-- Errors of an archive whose open nodes do not fit together. -/
def corruptions : List Error :=
  [.unrepresentable .noCurrentNode, .unrepresentable .noRootNode, .unrepresentable .unbalanced]

example : corruptions.map Error.message =
    ["value cannot be encoded: archive has no open node", "value cannot be encoded: archive has no root node",
      "value cannot be encoded: unbalanced node nesting"] := by decide

/-- A root without a name, fields within objects and elements within arrays. -/
inductive Nested : List Frame → Prop
  | root (n : Node) : Nested [⟨none, n⟩]
  | field (name : String) (n : Node) {k : Option String} {fields : Fields} {rest : List Frame} :
      Nested (⟨k, .object fields⟩ :: rest) → Nested (⟨some name, n⟩ :: ⟨k, .object fields⟩ :: rest)
  | element (n : Node) {k : Option String} {items : List Json} {rest : List Frame} :
      Nested (⟨k, .array items⟩ :: rest) → Nested (⟨none, n⟩ :: ⟨k, .array items⟩ :: rest)

/-- How a call on nested nodes can end. -/
inductive Ending (call : Call) (w : Writer) : Except Error Unit × Writer → Prop
  | done {frames : List Frame} (h : Step call w.frames frames) : Ending call w (.ok (), ⟨frames⟩)
  | kept {e : Error} (hc : e ∉ corruptions) (hr : ∀ name, e ≠ .unrepresentable (.repeatedField name)) :
      Ending call w (.error e, w)
  | refused {name : String} {n : Node} {k : Option String} {fields : Fields} {rest : List Frame}
      (hcall : call = .finishNode) (hw : w.frames = ⟨some name, n⟩ :: ⟨k, .object fields⟩ :: rest)
      (hn : fields.has name = true) :
      Ending call w (.error (.unrepresentable (.repeatedField name)), ⟨⟨k, .object fields⟩ :: rest⟩)

namespace Nested

variable {k : Option String} {n : Node} {rest frames frames' : List Frame} {call : Call}

theorem replace (h : Nested (⟨k, n⟩ :: rest)) (m : Node) : Nested (⟨k, m⟩ :: rest) := by
  cases h with
  | root => exact .root m
  | field name _ h => exact .field name m h
  | element _ h => exact .element m h

theorem outer {frame next : Frame} (h : Nested (frame :: next :: rest)) : Nested (next :: rest) := by
  cases h with
  | field _ _ h => exact h
  | element _ h => exact h

theorem step (h : Nested frames) (hs : Step call frames frames') : Nested frames' := by
  cases hs with
  | startField name _ => exact .field name .pending (h.replace _)
  | startElement => exact .element .pending h
  | finishField _ => exact h.outer.replace _
  | finishElement => exact h.outer.replace _
  | writeSize _ => exact h.replace _
  | writeValue _ => exact h.replace _

theorem ne_nil (h : Nested frames) : frames ≠ [] := by
  cases h <;> simp

end Nested

theorem leafJson_eq_error {leaf : Leaf} {e : Error} (h : leafJson leaf = .error e) :
    ∃ x, e = .unrepresentable (.nonFinite x) := by
  cases leaf with
  | float x =>
    rw [leafJson] at h
    split at h <;> cases h
    exact ⟨x, rfl⟩
  | _ => cases h

/-- A call on nested nodes does its step, keeps everything, or loses the field that it refuses. -/
theorem Nested.ending {w : Writer} (h : Nested w.frames) (call : Call) : Ending call w (call.run w) := by
  obtain ⟨frames⟩ := w
  obtain ⟨⟨k, n⟩, rest, rfl⟩ := List.exists_cons_of_ne_nil h.ne_nil
  cases call with
  | startField name =>
    cases n with
    | pending => exact .done (.startField name rfl)
    | object fields => exact .done (.startField name rfl)
    | array items => exact .kept (by simp [corruptions]) (by simp)
    | leaf d => exact .kept (by simp [corruptions]) (by simp)
  | startElement =>
    cases n with
    | array items => exact .done .startElement
    | _ => exact .kept (by simp [corruptions]) (by simp)
  | finishNode =>
    cases h with
    | root => exact .kept (by simp [corruptions]) (by simp)
    | @field name _ k fields rest =>
      by_cases hn : fields.has name = true
      · have hrun : Call.finishNode.run ⟨⟨some name, n⟩ :: ⟨k, .object fields⟩ :: rest⟩ =
            (.error (.unrepresentable (.repeatedField name)), ⟨⟨k, .object fields⟩ :: rest⟩) := by
          simp [Call.run, finishNode, hn]
        rw [hrun]
        exact .refused rfl rfl hn
      · have hs : Step .finishNode (⟨some name, n⟩ :: ⟨k, .object fields⟩ :: rest) _ := .finishField hn
        rw [hs.run]
        exact .done hs
    | element => exact .done .finishElement
  | writeSize size =>
    cases n with
    | pending => exact .done (.writeSize size)
    | _ => exact .kept (by simp [corruptions]) (by simp)
  | writeValue leaf =>
    cases hd : leafJson leaf with
    | error e =>
      obtain ⟨x, rfl⟩ := leafJson_eq_error hd
      have hrun : (Call.writeValue leaf).run ⟨⟨k, n⟩ :: rest⟩ =
          (.error (.unrepresentable (.nonFinite x)), ⟨⟨k, n⟩ :: rest⟩) := by
        simp [Call.run, Writer.writeValue, hd]
      rw [hrun]
      exact .kept (by simp [corruptions]) (by simp)
    | ok d =>
      cases n with
      | pending =>
        have hs : Step (.writeValue leaf) (⟨k, .pending⟩ :: rest) _ := .writeValue hd
        rw [hs.run]
        exact .done hs
      | _ =>
        simp only [Call.run, Writer.writeValue, hd]
        exact .kept (by simp [corruptions]) (by simp)

theorem Nested.run {w : Writer} (h : Nested w.frames) (call : Call) : Nested (call.run w).2.frames := by
  have hend := h.ending call
  generalize call.run w = result at hend
  cases hend with
  | done hs => exact h.step hs
  | kept => exact h
  | refused _ hw => exact (hw ▸ h).outer

def after (history : List Call) : Writer := history.foldl (fun w call => (call.run w).2) .new

theorem nested_foldl (history : List Call) {w : Writer} (h : Nested w.frames) :
    Nested (history.foldl (fun w call => (call.run w).2) w).frames := by
  induction history generalizing w with
  | nil => exact h
  | cons call history ih => exact ih (h.run call)

theorem nested_after (history : List Call) : Nested (after history).frames :=
  nested_foldl history (.root .pending)

namespace Nested

variable {frames : List Frame}

theorem root_unnamed (h : Nested frames) : ∃ before root, frames = before ++ [root] ∧ root.key = none := by
  induction h with
  | root n => exact ⟨[], ⟨none, n⟩, rfl, rfl⟩
  | field name n _ ih =>
    obtain ⟨before, root, hr, hk⟩ := ih
    exact ⟨⟨some name, n⟩ :: before, root, by rw [hr, List.cons_append], hk⟩
  | element n _ ih =>
    obtain ⟨before, root, hr, hk⟩ := ih
    exact ⟨⟨none, n⟩ :: before, root, by rw [hr, List.cons_append], hk⟩

theorem suffix {before rest : List Frame} (h : Nested (before ++ rest)) (hr : rest ≠ []) : Nested rest := by
  induction before with
  | nil => exact h
  | cons frame before ih =>
    obtain ⟨next, more, hm⟩ := List.exists_cons_of_ne_nil (List.append_ne_nil_of_right_ne_nil before hr)
    have hnext : Nested (frame :: next :: more) := by rwa [List.cons_append, hm] at h
    exact ih (hm ▸ hnext.outer)

theorem named_iff {child parent : Frame} {rest : List Frame} (h : Nested (child :: parent :: rest)) :
    (child.key ≠ none ↔ ∃ fields, parent.node = .object fields) ∧
    (child.key = none ↔ ∃ items, parent.node = .array items) := by
  cases h <;> simp

end Nested

/-- After any calls the root is there and has no name, and every other open node has one exactly if the
node around it is an object. A call that fails then keeps all of them, unless it closes a field that is
there already, which is lost. No error says that nodes do not fit together. -/
theorem failed_calls_harmless (history : List Call) :
    (∃ before root, (after history).frames = before ++ [root] ∧ root.key = none) ∧
    (∀ before child parent rest, (after history).frames = before ++ child :: parent :: rest →
      (child.key ≠ none ↔ ∃ fields, parent.node = .object fields) ∧
      (child.key = none ↔ ∃ items, parent.node = .array items)) ∧
    (∀ (call : Call) e w, call.run (after history) = (.error e, w) →
      e ∉ corruptions ∧
      match e with
      | .unrepresentable (.repeatedField name) =>
        call = .finishNode ∧ ∃ node, (after history).frames = ⟨some name, node⟩ :: w.frames
      | _ => w = after history) ∧
    ∀ e, (after history).document = .error e → e ∉ corruptions := by
  have h := nested_after history
  refine ⟨h.root_unnamed, fun before child parent rest hf => ?_, fun call e w hrun => ?_, fun e he => ?_⟩
  · rw [hf] at h
    exact (h.suffix (by simp)).named_iff
  · have hend := h.ending call
    rw [hrun] at hend
    cases hend with
    | kept hc hr =>
      refine ⟨hc, ?_⟩
      split
      · rename_i name
        exact absurd rfl (hr name)
      · rfl
    | refused hcall hw _ => exact ⟨by simp [corruptions], hcall, _, hw⟩
  · unfold document at he
    split at he <;> cases he <;> simp [corruptions]

/-- A second field of one name is refused and lost, and the object keeps the first. -/
theorem second_field_lost :
    let history : List Call := [.startField "a", .finishNode, .startElement, .startField "a", .writeValue (.int 1)]
    (after history).frames = [⟨some "a", .leaf (.int 1)⟩, ⟨none, .object [("a", .object [])]⟩] ∧
    ∃ w, Call.finishNode.run (after history) = (.error (.unrepresentable (.repeatedField "a")), w) ∧
      ∃ node, (after history).frames = ⟨some "a", node⟩ :: w.frames := by
  intro history
  have hrun : Call.finishNode.run (after history) =
      (.error (.unrepresentable (.repeatedField "a")), ⟨[⟨none, .object [("a", .object [])]⟩]⟩) := rfl
  have hlost := (failed_calls_harmless history).2.2.1 .finishNode _ _ hrun
  exact ⟨rfl, _, hrun, hlost.2.2⟩

end Archivist.Writer
