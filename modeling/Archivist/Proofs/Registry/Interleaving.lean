import Mathlib.Logic.Function.Basic
import Archivist.Proofs.Loading.Lasting

/-!
Threads that share one registry. A thread looks whether there is anything to do before it changes the
registry, and other threads may come in between. Main statement: whatever the interleaving, the registry
is the one that the plain changes lead to, one after the other, in the order in which the threads return
from them.
-/

set_option autoImplicit false

namespace Archivist.Registry

/-- What a thread asks of the registry. -/
inductive Request where
  | register (t : Target)
  | bindInput (t : Target) (a : Archive)
  | bindOutput (t : Target) (a : Archive)
  | install (c : Registration)

namespace Request

def apply (S : Schema) (r : Registry) : Request → Registry
  | .register t => (r.register (S.info t)).registry
  | .bindInput t a => (r.insertInput (S.info t) a).registry
  | .bindOutput t a => (r.insertOutput (S.info t) a).registry
  | .install c => c.change S r

def applyAll (S : Schema) (r : Registry) (qs : List Request) : Registry := qs.foldl (apply S) r

/-- Whether a look comes before the change. -/
def looks : Request → Bool
  | .install _ => false
  | _ => true

def isSettled (S : Schema) (r : Registry) : Request → Bool
  | .register t => r.isSettled (S.info t)
  | .bindInput t a => r.isInputSettled (S.info t) a
  | .bindOutput t a => r.isOutputSettled (S.info t) a
  | .install _ => false

def use : Request → Use
  | .register t => .register t
  | .bindInput t a => .bindInput t a
  | .bindOutput t a => .bindOutput t a
  | .install c => .install c

theorem use_eq (S : Schema) (r : Registry) (q : Request) :
    r.use S q.use = if q.isSettled S r then r else apply S r q := by
  cases q with
  | register t => exact apply_ite Change.registry _ _ _
  | bindInput t a => exact apply_ite Change.registry _ _ _
  | bindOutput t a => exact apply_ite Change.registry _ _ _
  | install c => rfl

variable {S : Schema} {r : Registry}

theorem built_apply (h : r.Built S) (q : Request) : (apply S r q).Built S := by
  cases q with
  | register t => exact built_run h [.register t]
  | bindInput t a => exact built_run h [.insert (.input t a)]
  | bindOutput t a => exact built_run h [.insert (.output t a)]
  | install c => exact c.built S r h

theorem built_applyAll (h : r.Built S) (qs : List Request) : (applyAll S r qs).Built S := by
  induction qs generalizing r with
  | nil => exact h
  | cons q qs ih => exact ih (built_apply h q)

theorem extends_apply (h : r.Built S) {q : Request} (hq : ∀ c, q = .install c → c.Additive S) :
    r.Extends (apply S r q) := by
  cases q with
  | register t => exact r.extends_register _
  | bindInput t a => exact r.extends_insertInput _ a
  | bindOutput t a => exact r.extends_insertOutput _ a
  | install c => exact hq c rfl r h

theorem extends_applyAll (h : r.Built S) {qs : List Request} (hq : ∀ c, .install c ∈ qs → c.Additive S) :
    r.Extends (applyAll S r qs) := by
  induction qs generalizing r with
  | nil => exact .refl r
  | cons q qs ih =>
    refine (extends_apply h ?_).trans (ih (built_apply h q) fun c hc => hq c (List.mem_cons_of_mem _ hc))
    rintro c rfl
    exact hq c List.mem_cons_self

end Request

/-- A thread and the requests it has yet to return from. The change of the first one is due once a look
has found something to do. -/
structure Thread where
  left : List Request
  due : Bool := false

/-- One step that no other thread can divide: a look or a change. Gives the request that the thread
returns from, if it does. -/
def Thread.step (S : Schema) (r : Registry) : Thread → Registry × Thread × Option Request
  | ⟨[], due⟩ => (r, ⟨[], due⟩, none)
  | ⟨q :: rest, due⟩ =>
    if due || !q.looks then (q.apply S r, ⟨rest, false⟩, some q)
    else if q.isSettled S r then (r, ⟨rest, false⟩, some q)
    else (r, ⟨q :: rest, true⟩, none)

/-- Threads with the registry they share, and the requests they have returned from, in order. -/
structure Machine (ι : Type) where
  registry : Registry
  threads : ι → Thread
  returned : List (ι × Request) := []

namespace Machine

variable {ι : Type}

def start (r : Registry) (programs : ι → List Request) : Machine ι :=
  ⟨r, fun i => ⟨programs i, false⟩, []⟩

def returnedBy [DecidableEq ι] (m : Machine ι) (i : ι) : List Request :=
  (m.returned.filter fun x => x.1 = i).map Prod.snd

variable [DecidableEq ι] (S : Schema)

def step (m : Machine ι) (i : ι) : Machine ι :=
  match (m.threads i).step S m.registry with
  | (registry, thread, q?) =>
    ⟨registry, Function.update m.threads i thread, m.returned ++ q?.toList.map fun q => (i, q)⟩

def run (m : Machine ι) (schedule : List ι) : Machine ι := schedule.foldl (step S) m

end Machine

section Settled

variable {S : Schema} {is : List Insertion} {r : Registry}

theorem insertInput_of_settled (h : Recounts S is r) {t : Target} {a : Archive}
    (hs : r.isInputSettled (S.info t) a = true) : (r.insertInput (S.info t) a).registry = r := by
  refine insert_eq_self h (i := .input t a) ?_
  simp only [insert, added_insertInput]
  simp only [isInputSettled, Bool.or_eq_true] at hs
  rcases hs with hr | hi
  · simp [hr]
  · rw [Option.isNone_eq_false_iff.2 hi, Bool.and_false]

theorem insertOutput_of_settled (h : Recounts S is r) {t : Target} {a : Archive}
    (hs : r.isOutputSettled (S.info t) a = true) : (r.insertOutput (S.info t) a).registry = r := by
  refine insert_eq_self h (i := .output t a) ?_
  simp only [insert, added_insertOutput]
  simp only [isOutputSettled, Bool.or_eq_true] at hs
  rcases hs with hr | ho
  · simp [hr]
  · rw [Option.isNone_eq_false_iff.2 ho, Bool.and_false]

/-- Where a look finds nothing to do, the change would have changed nothing. -/
theorem apply_of_settled (h : Recounts S is r) {q : Request} (hs : q.isSettled S r = true) :
    q.apply S r = r := by
  cases q with
  | register t =>
    simp only [Request.isSettled, Registry.isSettled, Bool.or_eq_true, Bool.and_eq_true] at hs
    have hi : r.isInputSettled (S.info t) .jsonReader = true := by
      simpa [isInputSettled] using hs.imp_right And.left
    have ho : r.isOutputSettled (S.info t) .jsonWriter = true := by
      simpa [isOutputSettled] using hs.imp_right And.right
    change ((r.insertInput (S.info t) .jsonReader).registry.insertOutput (S.info t) .jsonWriter).registry = r
    rw [insertInput_of_settled h hi, insertOutput_of_settled h ho]
  | bindInput t a => exact insertInput_of_settled h hs
  | bindOutput t a => exact insertOutput_of_settled h hs
  | install c => cases hs

theorem input?_of_mem (h : Recounts S is r) {t : Target} {a : Archive} (hm : .input t a ∈ is)
    (hr : r.isRefused (S.info t) = false) : r.input? a (S.tag t) = some t := by
  obtain ⟨hu, ho⟩ := (r.isRefused_eq_false_iff _).1 hr
  refine (h.input _ _ _).2 ⟨?_, hm⟩
  have howner := h.typeOf (S.tag t)
  rcases ho with hn | hs
  · -- somebody has claimed the tag: at the latest the type itself
    rw [Schema.tag_info] at hn hu
    rw [hn, owner, if_neg hu] at howner
    have := List.find?_eq_none.1 howner.symm t (List.mem_filterMap.2 ⟨_, hm, rfl⟩)
    simp at this
  · exact howner.symm.trans hs

/-- A type that was bound for reading stays what its tag stands for, unless it is refused, as long as nothing is
taken back. -/
theorem input?_of_applyAll (h : r.Built S) (t : Target) (a : Archive) {after : List Request}
    (additive : ∀ c, .install c ∈ after → c.Additive S)
    (href : (Request.applyAll S r (.bindInput t a :: after)).isRefused (S.info t) = false) :
    (Request.applyAll S r (.bindInput t a :: after)).input? a (S.tag t) = some t := by
  have hafter : (r.insertInput (S.info t) a).registry.Extends (Request.applyAll S r (.bindInput t a :: after)) :=
    Request.extends_applyAll (Request.built_apply h (.bindInput t a)) additive
  have hnow : (r.insertInput (S.info t) a).registry.isRefused (S.info t) = false := by
    rw [← Bool.not_eq_true] at href ⊢
    exact mt hafter.isRefused href
  obtain ⟨is, hr, -⟩ := h.recounts
  have hbound : Recounts S (is ++ [.input t a]) (r.insertInput (S.info t) a).registry := hr.insert (.input t a)
  exact hafter.input (input?_of_mem hbound (List.mem_append_right _ (List.mem_singleton_self _)) hnow)

end Settled

/-- `Linear S r programs m`: the machine is where the plain changes lead to in the order of the returns,
and each thread has got through its program up to what is left. -/
structure Linear {ι : Type} [DecidableEq ι] (S : Schema) (r : Registry) (programs : ι → List Request)
    (m : Machine ι) : Prop where
  registry : m.registry = Request.applyAll S r (m.returned.map Prod.snd)
  order (i : ι) : m.returnedBy i ++ (m.threads i).left = programs i

namespace Linear

variable {ι : Type} [DecidableEq ι] {S : Schema} {r : Registry} {programs : ι → List Request} {m : Machine ι}

theorem start (S : Schema) (r : Registry) (programs : ι → List Request) :
    Linear S r programs (.start r programs) := ⟨rfl, fun _ => rfl⟩

theorem built (h : Linear S r programs m) (hr : r.Built S) : m.registry.Built S := by
  rw [h.registry]
  exact Request.built_applyAll hr _

theorem look (h : Linear S r programs m) {i : ι} (thread : Thread)
    (hl : thread.left = (m.threads i).left) :
    Linear S r programs ⟨m.registry, Function.update m.threads i thread, m.returned⟩ := by
  refine ⟨h.registry, fun j => ?_⟩
  by_cases hj : j = i
  · subst hj
    simpa [Machine.returnedBy, hl] using h.order j
  · simpa [Machine.returnedBy, Function.update_of_ne hj] using h.order j

theorem finish (h : Linear S r programs m) {i : ι} {q : Request} {rest : List Request}
    (hq : (m.threads i).left = q :: rest) {registry : Registry} (hr : registry = q.apply S m.registry) :
    Linear S r programs
      ⟨registry, Function.update m.threads i ⟨rest, false⟩, m.returned ++ [(i, q)]⟩ := by
  constructor
  · rw [hr, h.registry]
    simp [Request.applyAll]
  · intro j
    have hj := h.order j
    by_cases e : j = i
    · subst e
      simpa [Machine.returnedBy, hq] using hj
    · have e' : ¬ i = j := fun he => e he.symm
      simpa [Machine.returnedBy, Function.update_of_ne e, e'] using hj

/-- No step of any thread breaks the order. -/
theorem step (h : Linear S r programs m) (hr : r.Built S) (i : ι) :
    Linear S r programs (m.step S i) := by
  rcases ht : m.threads i with ⟨left, due⟩
  cases left with
  | nil => simpa [Machine.step, Thread.step, ht] using h.look ⟨[], due⟩ (by rw [ht])
  | cons q rest =>
    by_cases hd : (due || !q.looks) = true
    · simpa [Machine.step, Thread.step, ht, hd] using h.finish (by rw [ht]) rfl
    · cases hs : q.isSettled S m.registry with
      | true =>
        obtain ⟨is, hm, -⟩ := (h.built hr).recounts
        simpa [Machine.step, Thread.step, ht, hd, hs] using h.finish (by rw [ht]) (apply_of_settled hm hs).symm
      | false =>
        simpa [Machine.step, Thread.step, ht, hd, hs] using
          h.look ⟨q :: rest, true⟩ (by rw [ht])

theorem run (h : Linear S r programs m) (hr : r.Built S) (schedule : List ι) :
    Linear S r programs (m.run S schedule) := by
  induction schedule generalizing m with
  | nil => exact h
  | cons i schedule ih => exact ih (h.step hr i)

end Linear

namespace Machine

variable {ι : Type} [DecidableEq ι] {S : Schema} {m : Machine ι}

/-- A thread that nobody interrupts makes one undivided use of the registry. -/
theorem registry_alone {i : ι} {q : Request} {rest : List Request} (h : m.threads i = ⟨q :: rest, false⟩) :
    (m.step S i).threads i = ⟨rest, false⟩ ∧ (m.step S i).registry = m.registry.use S q.use ∨
    (m.step S i).threads i = ⟨q :: rest, true⟩ ∧
      ((m.step S i).step S i).threads i = ⟨rest, false⟩ ∧
      ((m.step S i).step S i).registry = m.registry.use S q.use := by
  rw [Request.use_eq]
  cases hl : q.looks with
  | false =>
    have hs : q.isSettled S m.registry = false := by
      cases q <;> first | rfl | cases hl
    simp [step, Thread.step, h, hl, hs]
  | true => cases hs : q.isSettled S m.registry <;> simp [step, Thread.step, h, hl, hs]

end Machine

/-- However the steps of the threads interleave, the registry is the one that the plain changes of the
requests lead to in the order of the returns, in which each thread follows its program. A look that finds
nothing to do skips a change that would have changed nothing. A type that a thread has returned from
binding for reading is what its tag stands for ever after, unless it is refused, as long as no registration
takes anything back. -/
theorem run_linearizes {ι : Type} [DecidableEq ι] (S : Schema) (setup : List Call)
    (programs : ι → List Request) (schedule : List ι) :
    let initial := empty.run S setup
    let m := (Machine.start initial programs).run S schedule
    (m.registry = Request.applyAll S initial (m.returned.map Prod.snd) ∧
      ∀ i, m.returnedBy i ++ (m.threads i).left = programs i) ∧
    (∀ q : Request, q.isSettled S m.registry = true → q.apply S m.registry = m.registry) ∧
    ∀ before i t a after, m.returned = before ++ (i, .bindInput t a) :: after →
      (∀ j c, (j, .install c) ∈ after → c.Additive S) →
      m.registry.isRefused (S.info t) = false → m.registry.input? a (S.tag t) = some t := by
  intro initial m
  have hr : initial.Built S := built_run (.empty S _) setup
  have hm : Linear S initial programs m := (Linear.start S initial programs).run hr schedule
  refine ⟨⟨hm.registry, hm.order⟩, fun q hs => ?_, fun before i t a after hret hadd href => ?_⟩
  · obtain ⟨is, hrec, -⟩ := (hm.built hr).recounts
    exact apply_of_settled hrec hs
  · have hreg : m.registry = Request.applyAll S (Request.applyAll S initial (before.map Prod.snd))
        (.bindInput t a :: after.map Prod.snd) := by
      rw [hm.registry, hret, List.map_append, Request.applyAll, List.foldl_append]
      rfl
    rw [hreg] at href ⊢
    refine input?_of_applyAll (Request.built_applyAll hr _) t a (fun c hc => ?_) href
    obtain ⟨⟨j, q⟩, hmem, rfl⟩ := List.mem_map.1 hc
    exact hadd j c hmem

def rivals : Bool → List Request
  | false => [.register (.record "Holder")]
  | true => [.bindInput (.record "Rival") .jsonReader]

/-- Both threads find the tag free before either takes it. The rival's change comes first, so the tag
stands for the rival, and the change of the holder comes to nothing. -/
theorem rivals_linearize :
    let m := (Machine.start empty rivals).run contested [false, true, true, false]
    m.returned = [(true, .bindInput (.record "Rival") .jsonReader), (false, .register (.record "Holder"))] ∧
    m.registry = empty.run contested
      [.insert (.input (.record "Rival") .jsonReader), .register (.record "Holder")] ∧
    m.registry.input? .jsonReader "name" = some (.record "Rival") ∧
    m.registry.isRefused (contested.info (.record "Holder")) = true := by
  intro m
  have h := run_linearizes contested [] rivals [false, true, true, false]
  refine ⟨rfl, h.1.1, ?_, rfl⟩
  exact h.2.2 [] true (.record "Rival") .jsonReader [(false, .register (.record "Holder"))] rfl (by simp) rfl

/-- One thread binds the holder, then another installs an empty registry. The holder is not refused after that,
and its tag stands for nothing. -/
theorem reset_unbinds :
    let programs : Bool → List Request := fun
      | false => [.bindInput (.record "Holder") .jsonReader]
      | true => [.install .reset]
    let m := (Machine.start empty programs).run contested [false, false, true]
    m.returned = [(false, .bindInput (.record "Holder") .jsonReader), (true, .install .reset)] ∧
    m.registry.isRefused (contested.info (.record "Holder")) = false ∧
    m.registry.input? .jsonReader (contested.tag (.record "Holder")) = none :=
  ⟨rfl, rfl, rfl⟩

end Archivist.Registry
