import Archivist.Proofs.Files.SavedFile
import Archivist.Proofs.Saving.Composition

/-!
What saving to a file does to the other files, and to the file itself when it fails. Main statement: a save
replaces the content of its file by the whole text of the value, or it leaves everything as it was.
-/

set_option autoImplicit false

namespace Archivist

/-- The errors of a value that cannot be encoded. -/
def Error.isEncoding : Error → Bool
  | .unrepresentable _ | .unknownRuntimeType _ | .incompatibleType .. => true
  | _ => false

namespace Attempt

variable {σ τ α β : Type}

/-- However the step fails, it is because something could not be encoded. -/
def Encodes (x : Attempt σ α) : Prop := ∀ ⦃s e t⦄, x s = (.error e, t) → e.isEncoding = true

namespace Encodes

theorem pure (a : α) : (Pure.pure a : Attempt σ α).Encodes := fun _ _ _ h => by cases h

theorem fail {e : Error} (he : e.isEncoding = true) : (Attempt.fail e : Attempt σ α).Encodes := fun _ _ _ h => by
  cases h
  exact he

theorem bind {x : Attempt σ α} {f : α → Attempt σ β} (hx : x.Encodes) (hf : ∀ a, (f a).Encodes) :
    (x >>= f).Encodes := by
  intro s e t h
  rw [bind_apply] at h
  rcases hxs : x s with ⟨_ | a, u⟩
  · rw [hxs] at h
    cases h
    exact hx hxs
  · rw [hxs] at h
    exact hf a h

theorem on {part : σ → τ} {put : σ → τ → σ} {x : Attempt τ α} (hx : x.Encodes) : (x.on part put).Encodes := by
  intro s e t h
  rcases hxs : x (part s) with ⟨r, u⟩
  simp only [Attempt.on, hxs] at h
  cases h
  exact hx hxs

end Encodes

end Attempt

namespace Writer

open Attempt (Encodes)

theorem encodes_startField (name : String) : (startField name).Encodes := by
  intro w e t h
  unfold startField at h
  split at h <;> cases h <;> rfl

theorem encodes_startElement : startElement.Encodes := by
  intro w e t h
  unfold startElement at h
  split at h <;> cases h <;> rfl

theorem encodes_finishNode : finishNode.Encodes := by
  intro w e t h
  unfold finishNode at h
  split at h
  · cases h
    rfl
  · cases h
    rfl
  · split at h
    · split at h <;> cases h
      rfl
    · cases h
    · cases h
      rfl

theorem encodes_writeSize (size : Nat) : (writeSize size).Encodes := by
  intro w e t h
  unfold writeSize at h
  split at h <;> cases h <;> rfl

theorem isEncoding_of_leafJson {leaf : Leaf} {e : Error} (h : leafJson leaf = .error e) : e.isEncoding = true := by
  cases leaf with
  | float x =>
    rw [leafJson] at h
    split at h <;> cases h
    rfl
  | _ => cases h

theorem encodes_writeValue (leaf : Leaf) : (writeValue leaf).Encodes := by
  intro w e t h
  unfold writeValue at h
  split at h
  · rename_i hleaf
    cases h
    exact isEncoding_of_leafJson hleaf
  · cases h
    rfl
  · cases h
  · cases h
    rfl

end Writer

namespace WriteState

open Attempt (Encodes)

variable {x : Attempt WriteState Unit}

theorem encodes_onWriter {y : Attempt Writer Unit} (hy : y.Encodes) : (onWriter y).Encodes := hy.on

theorem encodes_writeLeaf (leaf : Leaf) : (writeLeaf leaf).Encodes :=
  encodes_onWriter (Writer.encodes_writeValue leaf)

theorem encodes_inField (name : String) (hx : x.Encodes) : (inField name x).Encodes :=
  (encodes_onWriter (Writer.encodes_startField name)).bind fun _ =>
    hx.bind fun _ => encodes_onWriter Writer.encodes_finishNode

theorem encodes_inElement (hx : x.Encodes) : (inElement x).Encodes :=
  (encodes_onWriter Writer.encodes_startElement).bind fun _ =>
    hx.bind fun _ => encodes_onWriter Writer.encodes_finishNode

theorem encodes_writeTag (tag : String) : (writeTag tag).Encodes := encodes_inField _ (encodes_writeLeaf _)

theorem encodes_note (event : Event) : (note event).Encodes := fun _ _ _ h => by cases h

theorem encodes_writeItems {items : List (Attempt WriteState Unit)} (h : ∀ x ∈ items, x.Encodes) :
    (writeItems items).Encodes := by
  induction items with
  | nil => exact .pure ()
  | cons item rest ih =>
    obtain ⟨hitem, hrest⟩ := List.forall_mem_cons.1 h
    exact (encodes_inElement hitem).bind fun _ => ih hrest

theorem encodes_writeFields (declared : List Field) {items : List (Attempt WriteState Unit)}
    (h : ∀ x ∈ items, x.Encodes) : (writeFields declared items).Encodes := by
  induction items generalizing declared with
  | nil => cases declared <;> exact .pure ()
  | cons item rest ih =>
    cases declared with
    | nil => exact .pure ()
    | cons field declared =>
      obtain ⟨hitem, hrest⟩ := List.forall_mem_cons.1 h
      have hr := ih declared hrest
      simp only [writeFields]
      cases field.mode with
      | skipped => exact hr
      | flattened => exact hitem.bind fun _ => hr
      | _ => exact (encodes_inField _ hitem).bind fun _ => hr

section Maps

open KeyWriter

variable {κ : Type} {entries : List (κ × Attempt WriteState Unit)} (h : ∀ e ∈ entries, e.2.Encodes)

include h

theorem encodes_writeNamed (toField : κ → Option String) : (writeNamed toField entries).Encodes := by
  induction entries with
  | nil => exact .pure ()
  | cons e entries ih =>
    obtain ⟨he, hrest⟩ := List.forall_mem_cons.1 h
    simp only [writeNamed]
    cases toField e.1 with
    | none => exact (Attempt.Encodes.fail rfl).bind fun _ => ih hrest
    | some name => exact (encodes_inField name he).bind fun _ => ih hrest

theorem encodes_writePairs {write : κ → Attempt WriteState Unit} (hk : ∀ k, (write k).Encodes) :
    (writePairs write entries).Encodes := by
  induction entries with
  | nil => exact .pure ()
  | cons e entries ih =>
    obtain ⟨he, hrest⟩ := List.forall_mem_cons.1 h
    refine (encodes_inElement ?_).bind fun _ => ih hrest
    exact (encodes_inField _ (hk e.1)).bind fun _ => encodes_inField _ he

end Maps

end WriteState

namespace Saving

open WriteState

variable (env : Saving)

theorem encodes_behind (declared : Target) (item : Value) {x y : Attempt WriteState Unit} (hx : x.Encodes)
    (hy : y.Encodes) : (env.behind declared item x y).Encodes := by
  unfold behind
  split
  · split
    · exact (encodes_writeTag _).bind fun _ => hx
    · split
      · unfold throughBinding
        split
        · exact (encodes_writeTag _).bind fun _ => hx
        · exact .fail rfl
      · split
        · exact (encodes_note _).bind fun _ => (encodes_writeTag _).bind fun _ => hy
        · exact .fail rfl
  · exact hx

theorem encodes_save (v : Value) : (env.save v).Encodes := by
  induction v using env.schema.inductOn with
  | atom a => exact encodes_writeLeaf a.leaf
  | absent => exact encodes_writeLeaf .null
  | present item ih => rwa [save_present]
  | list items ih =>
    rw [save_list]
    exact (encodes_onWriter (Writer.encodes_writeSize _)).bind fun _ => encodes_writeItems (List.forall_mem_map.2 ih)
  | map key entries ih =>
    have hentries : ∀ e ∈ entries.map fun e => (e.1, env.save e.2), e.2.Encodes := List.forall_mem_map.2 ih
    rw [save_map]
    unfold keyWriter
    split
    · exact encodes_writeNamed hentries _
    · exact (encodes_onWriter (Writer.encodes_writeSize _)).bind fun _ =>
        encodes_writePairs hentries fun k => encodes_writeLeaf k.leaf
  | record name fields ih =>
    rw [save_record]
    exact encodes_writeFields _ (List.forall_mem_map.2 ih)
  | ref declared item ih hshown =>
    rw [save_ref]
    refine env.encodes_behind declared item ih ?_
    unfold saveShown
    cases hp : env.schema.shown? declared item with
    | none => exact .pure ()
    | some part => exact hshown part hp

theorem save_of_toJson_eq_error {v : Value} {e : Error} (h : (env.toJson v).result = .error e) :
    ∃ unfinished, env.save v .new = (.error e, unfinished) := by
  have hs := save_pending env v (s := .new) rfl
  rwa [h] at hs

end Saving

namespace FileSystem

variable {fs : FileSystem} {path : Path} {content : Content}

theorem find?_put_isDirectory (hp : path ≠ []) (hd : fs.isDirectory path = false) (content : Content) (p : Path) :
    (fs.put path (.file content)).find? p = some .directory ↔ fs.find? p = some .directory := by
  rw [find?_put _ hp]
  split
  · rename_i he
    simpa [he, isDirectory] using hd
  · rfl

theorem toOption_follow_of_not_directory {start : Path} (h : fs.find? start ≠ some .directory) (step : String)
    (rest : List String) : (fs.follow start (step :: rest)).toOption = none := by
  cases hf : fs.follow start (step :: rest) with
  | error fault => rfl
  | ok target => exact absurd (find?_of_follow hf) h

theorem follow_put_file (hp : path ≠ []) (hd : fs.isDirectory path = false) (start : Path) (steps : List String) :
    ((fs.put path (.file content)).follow start steps).toOption = (fs.follow start steps).toOption := by
  induction steps generalizing start with
  | nil => rfl
  | cons step rest ih =>
    have hput := find?_put_isDirectory hp hd content start
    by_cases hstart : fs.find? start = some .directory
    · rw [follow, follow, hput.2 hstart, hstart]
      dsimp only
      split_ifs
      · exact ih start
      · exact ih start.dropLast
      · rfl
      · exact ih (start ++ [step])
    · rw [toOption_follow_of_not_directory hstart, toOption_follow_of_not_directory (mt hput.1 hstart)]

theorem toOption_locate (l : Location) : (fs.locate l).toOption =
    if l.steps.any (·.toList.contains '\x00') then none
    else (fs.follow [] l.steps).toOption.filter fun target => !l.endsInSlash || fs.isDirectory target := by
  rw [locate_eq]
  split
  · rfl
  · cases fs.follow [] l.steps with
    | error fault => rfl
    | ok target =>
      dsimp only [Except.toOption]
      cases hs : l.endsInSlash <;> cases ht : fs.isDirectory target <;> simp [Option.filter, ht]

theorem node?_put_file (hp : path ≠ []) (hd : fs.isDirectory path = false) {l : Location}
    (hl : fs.locate l ≠ .ok path) : (fs.put path (.file content)).node? l = fs.node? l := by
  have hdir : (fs.put path (.file content)).isDirectory = fs.isDirectory := by
    funext p
    simpa [isDirectory] using find?_put_isDirectory hp hd content p
  have hlocate : ((fs.put path (.file content)).locate l).toOption = (fs.locate l).toOption := by
    rw [toOption_locate, toOption_locate, follow_put_file hp hd, hdir]
  rw [node?, node?, hlocate]
  cases hf : fs.locate l with
  | error fault => rfl
  | ok target =>
    have hne : target ≠ path := fun he => hl (by rw [hf, he])
    exact (find?_put fs hp _ target).trans (if_neg hne)

theorem writeAt_eq_ok {l : Location} {written : FileSystem} (h : fs.writeAt l content = .ok written) :
    ∃ path, fs.locate l = .ok path ∧ path ≠ [] ∧ fs.isDirectory path = false ∧
      written = fs.put path (.file content) := by
  cases hl : fs.locate l with
  | error fault => simp [writeAt, hl, bind, Except.bind] at h
  | ok target =>
    simp only [writeAt, hl, bind, Except.bind] at h
    exact ⟨target, rfl, write_eq_ok h⟩

end FileSystem

/-- Saving to a file replaces the content of that file by the indented text of the value and changes
nothing else, or it fails and changes nothing at all. A value of which only a part could be encoded is one
of the failures, whatever the archive holds by then. -/
theorem Saving.toFile_replaces_or_keeps (env : Saving) (fs : FileSystem) (l : Location) (v : Value)
    {result : Except Error Unit} {log : Log} {after : FileSystem}
    (saved : env.toFile fs l v = (⟨result, log⟩, after)) :
    match result with
    | .error e => after = fs ∧
      (e = .isDirectory l.shown ∧ fs.node? l = some .directory ∨
        e = .unsupportedExtension l.shown ∧ l.isSupported = false ∨
        (e.isEncoding = true ∧ ∃ unfinished, env.save v .new = (.error e, unfinished)) ∨
        ∃ fault, e = .file fault)
    | .ok () => ∃ path text, fs.locate l = .ok path ∧ (env.toText true v).result = .ok text ∧
      after.text? l = some text ∧ after.find? path = some (.file (.text text)) ∧
      (∀ p, p ≠ path → after.find? p = fs.find? p) ∧
      ∀ other, fs.locate other ≠ .ok path → after.node? other = fs.node? other := by
  unfold toFile at saved
  split at saved
  · rename_i hdir
    cases saved
    exact ⟨rfl, .inl ⟨rfl, hdir⟩⟩
  · split at saved
    · rename_i hsupported
      cases saved
      exact ⟨rfl, .inr (.inl ⟨rfl, hsupported⟩)⟩
    · dsimp only [toText] at saved
      cases hd : (env.toJson v).result with
      | error e =>
        rw [hd] at saved
        cases saved
        obtain ⟨unfinished, hs⟩ := env.save_of_toJson_eq_error hd
        exact ⟨rfl, .inr (.inr (.inl ⟨env.encodes_save v hs, unfinished, hs⟩))⟩
      | ok d =>
        simp only [hd, Except.map] at saved
        cases hw : fs.writeAt l (.text (d.render true)) with
        | error fault =>
          rw [hw] at saved
          cases saved
          exact ⟨rfl, .inr (.inr (.inr ⟨fault, rfl⟩))⟩
        | ok written =>
          rw [hw] at saved
          cases saved
          obtain ⟨path, hl, hp, hnd, rfl⟩ := FileSystem.writeAt_eq_ok hw
          refine ⟨path, d.render true, hl, Saving.toText_of_toJson hd true, ?_, ?_, fun p hne => ?_, fun other ho => ?_⟩
          · rw [FileSystem.text?, FileSystem.node?_of_writeAt hw]
          · rw [FileSystem.find?_put fs hp, if_pos rfl]
          · rw [FileSystem.find?_put fs hp, if_neg hne]
          · exact FileSystem.node?_put_file hp hnd ho

namespace Notes

def saving : Saving := ⟨{ path := "", records := [] }, .empty, .jsonWriter, .reject⟩

def folder : FileSystem := ⟨[(["a.json"], .file (.text "0")), (["b.json"], .file (.text "1"))]⟩

def target : Location := ⟨["a.json"], false, "a.json"⟩

def numbers (xs : List Binary) : Value := .list (xs.map fun x => .atom (.float .double x))

/-- The first number of a list has been encoded when the second cannot be, and the old text survives. Without
the second number the text is replaced, and the other file stays. -/
theorem numbers_replace_or_keep :
    (∃ e log after, saving.toFile folder target (numbers [.zero, .nan]) = (⟨.error e, log⟩, after) ∧
      e = .unrepresentable (.nonFinite .nan) ∧ after.text? target = some "0") ∧
    ∃ log after, saving.toFile folder target (numbers [.zero]) = (⟨.ok (), log⟩, after) ∧
      after.text? target = some "[\n  0.0\n]" ∧ after.find? ["b.json"] = some (.file (.text "1")) := by
  constructor
  · have h := saving.toFile_replaces_or_keeps folder target (numbers [.zero, .nan]) rfl
    exact ⟨_, _, _, rfl, rfl, by rw [h.1]; rfl⟩
  · obtain ⟨path, text, hpath, htext, hl, -, hothers, -⟩ :=
      saving.toFile_replaces_or_keeps folder target (numbers [.zero]) rfl
    cases hpath
    cases htext
    exact ⟨_, _, rfl, hl, hothers ["b.json"] (by decide)⟩

end Notes

end Archivist
