import Archivist.Proofs.Archive.Writer
import Archivist.Proofs.Saving.Effect

/-!
Scripts: the calls that write a document, told along the document. Main statement: the archive takes a
sequence of calls and gives a document in the end exactly if the calls are a script of that document.
-/

set_option autoImplicit false

namespace Archivist.Writer

/-- A leaf of the archive stands for a leaf of a document. A float has to be finite. -/
inductive Denotes : Leaf → Json → Prop
  | null : Denotes .null .null
  | bool (b : Bool) : Denotes (.bool b) (.bool b)
  | int (n : Int) : Denotes (.int n) (.int n)
  | uint (n : Nat) : Denotes (.uint n) (.int n)
  | float {x : Binary} (hx : x.isFinite = true) : Denotes (.float x) (.float x)
  | text (s : String) : Denotes (.text s) (.string s)

theorem leafJson_eq_ok_iff {leaf : Leaf} {d : Json} : leafJson leaf = .ok d ↔ Denotes leaf d := by
  constructor
  · intro h
    cases leaf with
    | float x =>
      rw [leafJson] at h
      split at h
      · rename_i hx
        cases h
        exact .float hx
      · cases h
    | _ => cases h; constructor
  · intro h
    cases h with
    | float hx => simp [leafJson, hx]
    | _ => rfl

def Call.element (calls : List Call) : List Call := .startElement :: (calls ++ [.finishNode])

def Call.field (name : String) (calls : List Call) : List Call := .startField name :: (calls ++ [.finishNode])

/-- The calls that write a document: a leaf by one call, an array by its announcement, whatever size that
gives, and then its elements, an object by its fields alone. -/
inductive Script : Json → List Call → Prop
  | leaf {leaf : Leaf} {d : Json} (h : Denotes leaf d) : Script d [.writeValue leaf]
  | array (size : Nat) (parts : List (Json × List Call)) (h : ∀ p ∈ parts, Script p.1 p.2) :
      Script (.array (parts.map Prod.fst)) (.writeSize size :: parts.flatMap fun p => Call.element p.2)
  | object (parts : List (String × Json × List Call)) (hn : (parts.map Prod.fst).Nodup)
      (h : ∀ p ∈ parts, Script p.2.1 p.2.2) :
      Script (.object (parts.map fun p => (p.1, p.2.1))) (parts.flatMap fun p => Call.field p.1 p.2.2)

def runAll : List Call → Attempt Writer Unit
  | [] => pure ()
  | call :: rest => do
    call.run
    runAll rest

theorem runAll_of_step {call : Call} {frames frames' : List Frame} (h : Step call frames frames')
    (rest : List Call) : runAll (call :: rest) ⟨frames⟩ = runAll rest ⟨frames'⟩ :=
  Attempt.bind_of_eq_ok h.run

theorem runAll_append_of_ok {calls : List Call} {w w' : Writer} (h : runAll calls w = (.ok (), w'))
    (more : List Call) : runAll (calls ++ more) w = runAll more w' := by
  induction calls generalizing w with
  | nil =>
    cases h
    rfl
  | cons call calls ih =>
    obtain ⟨_, t, ht, hrest⟩ := Attempt.bind_eq_ok h
    rw [List.cons_append, runAll, Attempt.bind_of_eq_ok ht]
    exact ih hrest

/-- The calls turn any untouched node into one that closes as the document. -/
def Builds (calls : List Call) (d : Json) : Prop :=
  ∀ k rest, ∃ n : Node, runAll calls ⟨⟨k, .pending⟩ :: rest⟩ = (.ok (), ⟨⟨k, n⟩ :: rest⟩) ∧ n.close = d

namespace Builds

variable {calls : List Call} {d : Json} {k : Option String} {rest : List Frame}

theorem element (h : Builds calls d) (items : List Json) (more : List Call) :
    runAll (Call.element calls ++ more) ⟨⟨k, .array items⟩ :: rest⟩ =
      runAll more ⟨⟨k, .array (items ++ [d])⟩ :: rest⟩ := by
  obtain ⟨n, hn, rfl⟩ := h none (⟨k, .array items⟩ :: rest)
  rw [Call.element, List.cons_append, runAll_of_step .startElement, List.append_assoc,
    runAll_append_of_ok hn, List.singleton_append, runAll_of_step .finishElement]

theorem field (h : Builds calls d) {name : String} {n : Node} {fields : Fields} (hn : n.fields? = some fields)
    (hf : name ∉ fields.names) (more : List Call) :
    runAll (Call.field name calls ++ more) ⟨⟨k, n⟩ :: rest⟩ =
      runAll more ⟨⟨k, .object (fields ++ [(name, d)])⟩ :: rest⟩ := by
  obtain ⟨m, hm, rfl⟩ := h (some name) (⟨k, .object fields⟩ :: rest)
  rw [Call.field, List.cons_append, runAll_of_step (.startField name hn), List.append_assoc,
    runAll_append_of_ok hm, List.singleton_append, runAll_of_step (.finishField (mt Fields.has_iff.1 hf))]

theorem elements {parts : List (Json × List Call)} (h : ∀ p ∈ parts, Builds p.2 p.1) (items : List Json) :
    runAll (parts.flatMap fun p => Call.element p.2) ⟨⟨k, .array items⟩ :: rest⟩ =
      (.ok (), ⟨⟨k, .array (items ++ parts.map Prod.fst)⟩ :: rest⟩) := by
  induction parts generalizing items with
  | nil =>
    rw [List.map_nil, List.append_nil]
    rfl
  | cons p parts ih =>
    have hp := h p List.mem_cons_self
    rw [List.flatMap_cons, hp.element, ih fun q hq => h q (List.mem_cons_of_mem p hq)]
    simp

theorem fields {parts : List (String × Json × List Call)} (h : ∀ p ∈ parts, Builds p.2.2 p.2.1) {n : Node}
    {fields : Fields} (hn : n.fields? = some fields) (hd : (fields.names ++ parts.map Prod.fst).Nodup) :
    ∃ m, runAll (parts.flatMap fun p => Call.field p.1 p.2.2) ⟨⟨k, n⟩ :: rest⟩ = (.ok (), ⟨⟨k, m⟩ :: rest⟩) ∧
      m.close = .object (fields ++ parts.map fun p => (p.1, p.2.1)) := by
  induction parts generalizing n fields with
  | nil => exact ⟨n, rfl, by simpa using Node.close_of_fields? hn⟩
  | cons p parts ih =>
    have hp := h p List.mem_cons_self
    have hnew : p.1 ∉ fields.names := by
      intro hm
      exact (List.nodup_append.1 hd).2.2 p.1 hm p.1 (by simp) rfl
    have hnames : (Fields.names (fields ++ [(p.1, p.2.1)]) ++ parts.map Prod.fst).Nodup := by
      simpa [Fields.names] using hd
    obtain ⟨m, hm, hclose⟩ := ih (fun q hq => h q (List.mem_cons_of_mem p hq)) (n := .object _) rfl hnames
    refine ⟨m, ?_, by simpa using hclose⟩
    rw [List.flatMap_cons, hp.field hn hnew]
    exact hm

end Builds

/-- A script writes its document, wherever it starts. -/
theorem Script.builds {d : Json} {calls : List Call} (h : Script d calls) : Builds calls d := by
  induction h with
  | leaf h =>
    intro k rest
    exact ⟨_, runAll_of_step (.writeValue (leafJson_eq_ok_iff.2 h)) [], rfl⟩
  | array size parts _ ih =>
    intro k rest
    refine ⟨.array (parts.map Prod.fst), ?_, rfl⟩
    rw [runAll_of_step (.writeSize size)]
    exact Builds.elements ih []
  | object parts hn _ ih =>
    intro k rest
    exact Builds.fields ih (n := .pending) rfl hn

namespace Script

variable {d : Json} {calls more : List Call}

theorem empty : Script (.object []) [] := .object [] List.nodup_nil (by simp)

theorem eq_nil_of_empty (h : Script (.object []) calls) : calls = [] := by
  generalize hd : Json.object [] = d at h
  cases h with
  | leaf h => cases h <;> cases hd
  | array => cases hd
  | object parts =>
    have hparts : parts = [] := by simpa using (Json.object.inj hd).symm
    rw [hparts]
    rfl

theorem element {items : List Json} (h : Script (.array items) calls) (hd : Script d more) :
    Script (.array (items ++ [d])) (calls ++ Call.element more) := by
  cases h with
  | leaf h => cases h
  | array size parts h =>
    have hall : ∀ p ∈ parts ++ [(d, more)], Script p.1 p.2 :=
      List.forall_mem_append.2 ⟨h, List.forall_mem_singleton.2 hd⟩
    simpa using Script.array size _ hall

theorem field {fields : Fields} {name : String} (h : Script (.object fields) calls)
    (hf : ¬ fields.has name = true) (hd : Script d more) :
    Script (.object (fields ++ [(name, d)])) (calls ++ Call.field name more) := by
  cases h with
  | leaf h => cases h
  | object parts hp h =>
    have hnew : name ∉ parts.map Prod.fst := by
      intro hm
      refine hf (Fields.has_iff.2 ?_)
      simpa [Fields.names] using hm
    have hdistinct : ((parts ++ [(name, d, more)]).map Prod.fst).Nodup := by
      rw [List.map_append, List.nodup_append]
      refine ⟨hp, List.pairwise_singleton _ _, fun a ha b hb hab => ?_⟩
      cases List.mem_singleton.1 hb
      cases hab
      exact hnew ha
    have hall : ∀ p ∈ parts ++ [(name, d, more)], Script p.2.1 p.2.2 :=
      List.forall_mem_append.2 ⟨h, List.forall_mem_singleton.2 hd⟩
    simpa using Script.object _ hdistinct hall

end Script

/-- Open nodes with the calls that led to them: those of the nodes around come first, then the one that
opened the current node, then the script of what it holds so far. -/
inductive Opened : List Frame → List Call → Prop
  | root {n : Node} {calls : List Call} (h : Script n.close calls) : Opened [⟨none, n⟩] calls
  | field (name : String) {n : Node} {k : Option String} {fields : Fields} {rest : List Frame}
      {calls more : List Call} (ho : Opened (⟨k, .object fields⟩ :: rest) calls) (h : Script n.close more) :
      Opened (⟨some name, n⟩ :: ⟨k, .object fields⟩ :: rest) (calls ++ .startField name :: more)
  | element {n : Node} {k : Option String} {items : List Json} {rest : List Frame}
      {calls more : List Call} (ho : Opened (⟨k, .array items⟩ :: rest) calls) (h : Script n.close more) :
      Opened (⟨none, n⟩ :: ⟨k, .array items⟩ :: rest) (calls ++ .startElement :: more)

namespace Opened

variable {frames frames' rest : List Frame} {calls : List Call} {call : Call} {k : Option String} {n : Node}

theorem nested (h : Opened frames calls) : Nested frames := by
  induction h with
  | root _ => exact .root _
  | field name _ _ ih => exact .field name _ ih
  | element _ _ ih => exact .element _ ih

theorem current (h : Opened (⟨k, n⟩ :: rest) calls) :
    ∃ before own, calls = before ++ own ∧ Script n.close own ∧
      ∀ (m : Node) more, Script m.close more → Opened (⟨k, m⟩ :: rest) (before ++ more) := by
  cases h with
  | root h => exact ⟨[], calls, rfl, h, fun _ _ hm => .root hm⟩
  | @field name _ _ _ _ outer own ho h =>
    refine ⟨outer ++ [.startField name], own, by simp, h, fun m more hm => ?_⟩
    simpa using Opened.field name ho hm
  | @element _ _ _ _ outer own ho h =>
    refine ⟨outer ++ [.startElement], own, by simp, h, fun m more hm => ?_⟩
    simpa using Opened.element ho hm

theorem fill (h : Opened (⟨k, .pending⟩ :: rest) calls) {call : Call} (hs : Script n.close [call]) :
    Opened (⟨k, n⟩ :: rest) (calls ++ [call]) := by
  obtain ⟨before, own, rfl, hown, replace⟩ := h.current
  rw [hown.eq_nil_of_empty, List.append_nil]
  exact replace n _ hs

theorem step (h : Opened frames calls) (hs : Step call frames frames') : Opened frames' (calls ++ [call]) := by
  cases hs with
  | @startField name k n fields rest hn =>
    obtain ⟨before, own, rfl, hown, replace⟩ := h.current
    rw [Node.close_of_fields? hn] at hown
    exact .field name (replace (.object fields) own hown) .empty
  | startElement => exact .element h .empty
  | @finishField name n k fields rest hn =>
    cases h with
    | @field _ _ _ _ _ outer own ho h =>
      obtain ⟨before, fieldCalls, rfl, hf, replace⟩ := ho.current
      simpa [Call.field] using replace (.object (fields ++ [(name, n.close)])) _ (hf.field hn h)
  | @finishElement n k items rest =>
    cases h with
    | @element _ _ _ _ outer own ho h =>
      obtain ⟨before, itemCalls, rfl, hi, replace⟩ := ho.current
      simpa [Call.element] using replace (.array (items ++ [n.close])) _ (hi.element h)
  | writeSize size => exact h.fill (.array size [] (by simp))
  | writeValue hd => exact h.fill (.leaf (leafJson_eq_ok_iff.1 hd))

theorem runAll {w w' : Writer} (h : Opened w.frames calls) {more : List Call}
    (hr : Writer.runAll more w = (.ok (), w')) : Opened w'.frames (calls ++ more) := by
  induction more generalizing w calls with
  | nil =>
    cases hr
    simpa using h
  | cons call more ih =>
    obtain ⟨_, t, ht, hrest⟩ := Attempt.bind_eq_ok hr
    have hend := h.nested.ending call
    rw [ht] at hend
    cases hend with
    | done hs => simpa using ih (h.step hs) hrest

end Opened

/-- The archive takes all calls and gives the document in the end exactly if they are a script of it. -/
theorem document_runAll_iff (calls : List Call) (d : Json) :
    (∃ w, runAll calls .new = (.ok (), w) ∧ w.document = .ok d) ↔ Script d calls := by
  constructor
  · rintro ⟨⟨frames⟩, hrun, hd⟩
    have hopened : Opened frames calls := Opened.runAll (w := .new) (.root .empty) hrun
    cases hopened with
    | root h =>
      cases hd
      exact h
    | field => cases hd
    | element => cases hd
  · intro h
    obtain ⟨n, hrun, hclose⟩ := h.builds none []
    exact ⟨_, hrun, congrArg Except.ok hclose⟩

end Archivist.Writer
