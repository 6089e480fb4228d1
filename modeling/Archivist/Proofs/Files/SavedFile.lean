import Archivist.Files.Basic
import Archivist.Proofs.Document.TextPath
import Archivist.Proofs.RoundTrip.Recovery

/-!
Files that values were saved to. Main statement: what was saved can be loaded from the file exactly if
the document nests no deeper than the text layer reads. A tree of 64 levels is deeper: it is saved without
complaint and cannot be loaded again.
-/

set_option autoImplicit false

namespace Archivist

namespace FileSystem

variable {fs : FileSystem} {path : Path} {content : Content}

theorem find?_of_follow {start target : Path} {step : String} {rest : List String}
    (h : fs.follow start (step :: rest) = .ok target) : fs.find? start = some .directory := by
  rw [follow] at h
  split at h
  · cases h
  · cases h
  · assumption

theorem follow_put (hp : path ≠ []) (hd : fs.isDirectory path = false) (node : FileNode) {start target : Path}
    {steps : List String} (h : fs.follow start steps = .ok target) :
    (fs.put path node).follow start steps = .ok target := by
  induction steps generalizing start with
  | nil => exact h
  | cons step rest ih =>
    have hdir := find?_of_follow h
    have hne : start ≠ path := by
      intro he
      simp [isDirectory, ← he, hdir] at hd
    have hput : (fs.put path node).find? start = some .directory := by
      rw [find?_put _ hp, if_neg hne, hdir]
    rw [follow, hdir] at h
    rw [follow, hput]
    dsimp only at h ⊢
    split_ifs at h ⊢
    · exact ih h
    · exact ih h
    · exact ih h

theorem locate_eq (l : Location) : fs.locate l =
    if l.steps.any (·.toList.contains '\x00') then .error .zeroByte
    else match fs.follow [] l.steps with
      | .error fault => .error fault
      | .ok target => if l.endsInSlash && !fs.isDirectory target then .error .isADirectory else .ok target := by
  unfold locate
  split
  · rfl
  · cases fs.follow [] l.steps with
    | error fault => rfl
    | ok target =>
      simp only [bind, Except.bind]
      split <;> rfl

theorem locate_put {l : Location} (hp : path ≠ []) (hd : fs.isDirectory path = false) (node : FileNode)
    (h : fs.locate l = .ok path) : (fs.put path node).locate l = .ok path := by
  rw [locate_eq] at h ⊢
  split at h
  · cases h
  · rename_i hzero
    rw [if_neg hzero]
    cases hf : fs.follow [] l.steps with
    | error fault => simp [hf] at h
    | ok target =>
      simp only [hf] at h
      split at h
      · cases h
      · rename_i hslash
        cases h
        have hend : l.endsInSlash = false := by simpa [hd] using hslash
        simp [follow_put hp hd node hf, hend]

theorem write_eq_ok {written : FileSystem} (h : fs.write path content = .ok written) :
    path ≠ [] ∧ fs.isDirectory path = false ∧ written = fs.put path (.file content) := by
  unfold write at h
  split at h
  · split at h
    · cases h
    · rename_i hdir
      cases h
      refine ⟨?_, by simpa using hdir, rfl⟩
      intro he
      simp [isDirectory, find?, he] at hdir
  · cases h
  · cases h

theorem node?_of_writeAt {l : Location} {written : FileSystem} (h : fs.writeAt l content = .ok written) :
    written.node? l = some (.file content) := by
  cases hl : fs.locate l with
  | error fault => simp [writeAt, hl, bind, Except.bind] at h
  | ok target =>
    simp only [writeAt, hl, bind, Except.bind] at h
    obtain ⟨hne, hdir, rfl⟩ := write_eq_ok h
    have hthere := locate_put hne hdir (.file content) hl
    have hfound : (fs.put target (.file content)).find? target = some (.file content) := by
      rw [find?_put _ hne, if_pos rfl]
    simp [node?, hthere, Except.toOption, hfound]

end FileSystem

theorem Saving.toFile_eq_ok {env : Saving} {fs written : FileSystem} {l : Location} {v : Value} {log : Log}
    (h : env.toFile fs l v = (⟨.ok (), log⟩, written)) :
    ∃ d, (env.toJson v).result = .ok d ∧ l.isSupported = true ∧
      written.node? l = some (.file (.text (d.render true))) := by
  unfold toFile at h
  split at h
  · cases h
  · split at h
    · cases h
    · rename_i hsupported
      dsimp only [toText] at h
      cases hd : (env.toJson v).result with
      | error e =>
        rw [hd] at h
        cases h
      | ok d =>
        rw [hd] at h
        refine ⟨d, rfl, by simpa using hsupported, ?_⟩
        cases hw : fs.writeAt l (.text (d.render true)) with
        | error fault =>
          simp only [Except.map, hw] at h
          cases h
        | ok fs' =>
          simp only [Except.map, hw] at h
          cases h
          exact FileSystem.node?_of_writeAt hw

theorem Loading.ofFile_of_render (env : Loading) (type : Ty) (registry : Registry) {fs : FileSystem} {l : Location}
    {d : Json} (hl : l.isSupported = true) (hf : fs.node? l = some (.file (.text (d.render true)))) (hv : d.Valid)
    (hw : d.FloatFree) :
    env.ofFile type registry fs l =
      if d.depth ≤ 127 then env.ofJson type registry d else ⟨.error .notJson, registry, []⟩ := by
  have hread := Json.parse?_render true hv hw
  rw [Json.maxDepth] at hread
  by_cases hd : d.depth ≤ 127
  · rw [if_pos hd] at hread ⊢
    simp [ofFile, hf, hl, ofText, hread]
  · rw [if_neg hd] at hread ⊢
    simp [ofFile, hf, hl, ofText, hread]

namespace Forest

def schema : Schema where
  path := ""
  records :=
    [⟨"Tree", [⟨"v", .atom (.int .i32), .required, .atom (.int .i32 0)⟩,
      ⟨"kids", .list .vector (.record "Tree"), .optional, .list []⟩], .plain⟩]

def exchange : Exchange := ⟨schema, [], .jsonWriter, .jsonReader, []⟩

def trunk : Nat → Value
  | 0 => .record "Tree" [.atom (.int .i32 1), .list []]
  | n + 1 => .record "Tree" [.atom (.int .i32 1), .list [trunk n]]

def trunkFields : Nat → Fields
  | 0 => [("v", .int 1), ("kids", .array [])]
  | n + 1 => [("v", .int 1), ("kids", .array [.object (trunkFields n)])]

theorem fits_trunk (n : Nat) : exchange.Fits (schema.blank (.record "Tree")) (.record "Tree") (trunk n) := by
  have tree {kids : List Value}
      (h : ∀ kid ∈ kids, exchange.Fits (schema.blank (.record "Tree")) (.record "Tree") kid) :
      exchange.Fits (schema.blank (.record "Tree")) (.record "Tree")
        (.record "Tree" [.atom (.int .i32 1), .list kids]) := by
    refine .record rfl rfl ?_ ?_ (by decide) (List.pairwise_pair.2 nofun)
    · exact List.forall_mem_cons.2 ⟨nofun, List.forall_mem_singleton.2 nofun⟩
    · exact List.forall_mem_cons.2 ⟨fun _ => .atom ⟨rfl, by decide⟩, List.forall_mem_singleton.2 fun _ => .list h⟩
  induction n with
  | zero => exact tree nofun
  | succ n ih => exact tree (List.forall_mem_singleton.2 ih)

theorem written_trunk (n : Nat) : (exchange.saving .reject).written (trunk n) = some (.object (trunkFields n)) := by
  induction n with
  | zero => rfl
  | succ n ih =>
    have hitems : (exchange.saving .reject).writtenItems [trunk n] = some [.object (trunkFields n)] := by
      simp [Saving.writtenItems, Writer.Node.joinItems, ih, Writer.Node.close]
    have hlist : (exchange.saving .reject).written (.list [trunk n]) = some (.array [.object (trunkFields n)]) := by
      rw [Saving.written_list, hitems]
      rfl
    have hfields : (exchange.saving .reject).schema.fieldsOf "Tree" =
        [⟨"v", .atom (.int .i32), .required, .atom (.int .i32 0)⟩,
          ⟨"kids", .list .vector (.record "Tree"), .optional, .list []⟩] := rfl
    rw [trunk, Saving.written_record, hfields, Saving.writtenFields, List.map_cons, List.map_cons, hlist]
    rfl

theorem depth_trunk (n : Nat) : (Json.object (trunkFields n)).depth = 2 * n + 2 := by
  induction n with
  | zero => rfl
  | succ n ih =>
    simp only [Json.depth, trunkFields, Json.depthFields, Json.depthItems] at ih ⊢
    omega

theorem atoms_trunk (n : Nat) : ∀ a ∈ schema.atoms (trunk n), a = .int .i32 1 := by
  induction n with
  | zero => exact List.forall_mem_singleton.2 rfl
  | succ n ih =>
    have hlist : schema.atoms (.list [trunk n]) = schema.atoms (trunk n) := by
      simp [Schema.atoms, Schema.tally]
    have htree : schema.atoms (trunk (n + 1)) = .int .i32 1 :: schema.atoms (trunk n) := by
      rw [trunk, ← hlist]
      simp [Schema.atoms, Schema.tally]
    rw [htree]
    exact List.forall_mem_cons.2 ⟨rfl, ih⟩

theorem typed_trunk (n : Nat) : (exchange.saving .reject).schema.Typed (trunk n) := by
  intro a ha
  rw [atoms_trunk n a ha]
  exact ⟨rfl, by decide⟩

theorem floatFree_trunk (n : Nat) : (exchange.saving .reject).schema.FloatFree (trunk n) := by
  intro a ha width x
  rw [atoms_trunk n a ha]
  exact nofun

theorem toJson_trunk (n : Nat) :
    ((exchange.saving .reject).toJson (trunk n)).result = .ok (.object (trunkFields n)) :=
  Saving.toJson_of_written _ (written_trunk n)

theorem ofJson_trunk (n : Nat) (d : Json) (h : ((exchange.saving .reject).toJson (trunk n)).result = .ok d) :
    ∃ w, (exchange.loading.ofJson (.record "Tree") exchange.registry d).result = .ok w ∧ (trunk n).Same w := by
  have hd : d = .object (trunkFields n) := by
    rw [toJson_trunk] at h
    cases h
    rfl
  subst hd
  have hs : exchange.At ⟨.ofJson (.object (trunkFields n)), exchange.registry, []⟩
      (.value (.object (trunkFields n))) [] := ⟨rfl, .start nofun⟩
  obtain ⟨w, t, hw, hsame, -⟩ := (fits_trunk n).restored.recovers (fits_trunk n) (written_trunk n)
    ((Json.object (trunkFields n)).weight + 1) (Nat.lt_succ_self _) hs
  have hl : exchange.loading.loadNew (.record "Tree") ⟨.ofJson (.object (trunkFields n)), exchange.registry, []⟩ =
      (.ok w, t) := hw
  exact ⟨w, by simp only [Loading.ofJson, hl], hsame⟩

def plot : Location := ⟨["tree.json"], false, "tree.json"⟩

theorem toFile_trunk (n : Nat) : ∃ log written,
    (exchange.saving .reject).toFile {} plot (trunk n) = (⟨.ok (), log⟩, written) := by
  have htext := Saving.toText_of_toJson (toJson_trunk n) true
  have hnode : FileSystem.node? {} plot ≠ some .directory := by decide
  have hplot : ¬ plot.isSupported = false := by decide
  simp only [Saving.toFile, if_neg hnode, if_neg hplot, htext]
  exact ⟨_, _, rfl⟩

end Forest

/-- A value without floats that can be read back from its own document. Once it has been saved to a file
that nobody touches, it is loaded from there if its document nests at most 127 arrays and objects, and
nothing is if the document nests deeper. -/
theorem Loading.ofFile_toFile (saving : Saving) (loading : Loading) (registry : Registry) (type : Ty) (v : Value)
    (typed : saving.schema.Typed v) (whole : saving.schema.FloatFree v)
    (roundTrip : ∀ d, (saving.toJson v).result = .ok d →
      ∃ w, (loading.ofJson type registry d).result = .ok w ∧ v.Same w)
    (fs written later : FileSystem) (l : Location) (log : Log)
    (saved : saving.toFile fs l v = (⟨.ok (), log⟩, written)) (untouched : later.node? l = written.node? l) :
    ∃ d, (saving.toJson v).result = .ok d ∧
      (d.depth ≤ 127 → ∃ w, (loading.ofFile type registry later l).result = .ok w ∧ v.Same w) ∧
      (127 < d.depth → (loading.ofFile type registry later l).result = .error .notJson) := by
  obtain ⟨d, hd, hl, hfile⟩ := saving.toFile_eq_ok saved
  have hload := loading.ofFile_of_render type registry hl (untouched.trans hfile)
    (Saving.valid_of_toJson typed hd) (Saving.floatFree_of_toJson whole hd)
  refine ⟨d, hd, fun hdepth => ?_, fun hdepth => ?_⟩
  · rw [hload, if_pos hdepth]
    exact roundTrip d hd
  · rw [hload, if_neg (Nat.not_le.2 hdepth)]

/-- A tree of 63 levels is loaded from its file. -/
theorem tree_loaded : ∃ log written w,
    (Forest.exchange.saving .reject).toFile {} Forest.plot (Forest.trunk 62) = (⟨.ok (), log⟩, written) ∧
    (Forest.exchange.loading.ofFile (.record "Tree") Forest.exchange.registry written Forest.plot).result = .ok w ∧
    (Forest.trunk 62).Same w := by
  obtain ⟨log, written, saved⟩ := Forest.toFile_trunk 62
  obtain ⟨d, hd, hload, -⟩ := Loading.ofFile_toFile (Forest.exchange.saving .reject) Forest.exchange.loading
    Forest.exchange.registry (.record "Tree") (Forest.trunk 62) (Forest.typed_trunk 62) (Forest.floatFree_trunk 62)
    (Forest.ofJson_trunk 62) {} written written Forest.plot log saved rfl
  rw [Forest.toJson_trunk] at hd
  cases hd
  obtain ⟨w, hw, hsame⟩ := hload (by rw [Forest.depth_trunk]; decide)
  exact ⟨log, written, w, saved, hw, hsame⟩

/-- One level more is too much: the tree can be read back from its document, it is saved without
complaint, and what was saved cannot be loaded. -/
theorem tall_tree_lost : ∃ d w log written,
    ((Forest.exchange.saving .reject).toJson (Forest.trunk 63)).result = .ok d ∧
    (Forest.exchange.loading.ofJson (.record "Tree") Forest.exchange.registry d).result = .ok w ∧
    (Forest.trunk 63).Same w ∧
    (Forest.exchange.saving .reject).toFile {} Forest.plot (Forest.trunk 63) = (⟨.ok (), log⟩, written) ∧
    (Forest.exchange.loading.ofFile (.record "Tree") Forest.exchange.registry written Forest.plot).result =
      .error .notJson := by
  obtain ⟨w, hw, hsame⟩ := Forest.ofJson_trunk 63 _ (Forest.toJson_trunk 63)
  obtain ⟨log, written, saved⟩ := Forest.toFile_trunk 63
  obtain ⟨d, hd, hl, hfile⟩ := Saving.toFile_eq_ok saved
  have hload := Forest.exchange.loading.ofFile_of_render (.record "Tree") Forest.exchange.registry hl hfile
    (Saving.valid_of_toJson (Forest.typed_trunk 63) hd) (Saving.floatFree_of_toJson (Forest.floatFree_trunk 63) hd)
  rw [Forest.toJson_trunk] at hd
  cases hd
  rw [if_neg (by rw [Forest.depth_trunk]; decide)] at hload
  exact ⟨_, w, log, written, Forest.toJson_trunk 63, hw, hsame, saved, by rw [hload]⟩

end Archivist
