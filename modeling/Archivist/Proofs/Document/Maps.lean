import Archivist.Proofs.Loading.Recursion
import Archivist.Proofs.Loading.Settled
import Archivist.Proofs.Tolerance.Names

/-!
Maps and their documents, whatever the type of the keys. Main statement: a map is loaded from all fields of an object,
or from all elements of an array, one after the other, up to the first that cannot be read; the last of several values
of a key stays. A map is saved as one field, or one element, for each entry, in the order of the entries.
-/

set_option autoImplicit false

namespace Archivist

open ReadState Reader

section Traversal

variable {δ β : Type} {give : δ → Except Error β} {d : δ} {ds : List δ}

theorem mapM_cons_of_ok {b : β} (h : give d = .ok b) : (d :: ds).mapM give = (ds.mapM give).map (b :: ·) := by
  rw [List.mapM_cons, h]
  rfl

theorem mapM_cons_of_error {e : Error} (h : give d = .error e) : (d :: ds).mapM give = .error e := by
  rw [List.mapM_cons, h]
  rfl

theorem mapM_eq_ok {bs : List β} : ds.mapM give = .ok bs ↔ List.Forall₂ (fun d b => give d = .ok b) ds bs := by
  induction ds generalizing bs with
  | nil => cases bs <;> simp [pure, Except.pure]
  | cons d ds ih =>
    cases hd : give d with
    | error e => cases bs <;> simp [mapM_cons_of_error hd, hd]
    | ok b =>
      rw [mapM_cons_of_ok hd]
      cases hds : ds.mapM give with
      | error e => cases bs <;> simp [Except.map, ← ih, hds]
      | ok others => cases bs <;> simp [Except.map, hd, ← ih, hds]

end Traversal

namespace Loading

section Rounds

variable {α δ β : Type}

end Rounds

section Entries

variable {κ ν : Type}

/-- What a document on its own is read as. -/
def alone {α : Type} (x : Attempt ReadState α) (r : Registry) (d : Json) : Except Error α := (x ⟨.ofJson d, r, []⟩).1

variable {r : Registry} {read : Attempt ReadState κ} {x : Attempt ReadState ν}

end Entries

section Collecting

variable {κ ν α : Type}

variable {same : κ → κ → Prop} [DecidableRel same] {before : κ → κ → Bool}

end Collecting

section Runs

variable {κ ν α : Type} {r : Registry} {ofField : String → Option κ} {read : Attempt ReadState κ}
  {x : Attempt ReadState ν} {insert : κ → ν → α → α} {s : ReadState} {n : Node} {rest : List Node}

end Runs

end Loading

namespace Saving

variable {env : Saving} {κ : Type} {entries : List (κ × Value)} {d : Json}

end Saving

namespace Loading

open Relation
open Saving (documentOf)
open Attempt (Finishes)

end Loading

namespace Shelf

open Loading

def pages : Field := ⟨"pages", .atom (.int .u16), .required, .atom (.int .u16 0)⟩

def schema : Schema where
  path := "shelf::"
  records := [⟨"Book", [pages], .tagged "Book"⟩]

def env : Loading := { schema }

def registry : Registry := (Registry.empty.ensureInput (schema.info (.record "Book")) .jsonReader).registry

theorem settled : env.Settled registry (.ref .box (.record "Book")) := by
  intro kind target h _
  have hmem : .ref kind target ∈ ([.ref .box (.record "Book"), .record "Book", .atom (.int .u16)] : List Ty) :=
    h.mem (by decide) (by decide +kernel)
  simp only [List.mem_cons, Ty.ref.injEq, reduceCtorEq, or_false, List.not_mem_nil] at hmem
  obtain ⟨rfl, rfl⟩ := hmem
  decide +kernel

/-- Sets the book in the place of another, where books of as many pages are the same. -/
def replace (old new : Value) : List (Value × Value) → List (Value × Value) :=
  insertBy (fun a b => a.atoms = b.atoms) (fun _ _ => false) old new

end Shelf

end Archivist
