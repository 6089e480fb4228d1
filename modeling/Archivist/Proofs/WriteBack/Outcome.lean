import Archivist.Proofs.Document.TextPath
import Archivist.Proofs.Reordering.Outcome
import Archivist.Proofs.WriteBack.Records

/-!
What can be read can be written back. Main statement: a value that was read from text can be saved as
text unless a single-precision number in it became infinite when it was read.
-/

set_option autoImplicit false

namespace Archivist

namespace Loading

/-- Of the types that a load can come to: the keys of maps are names as they stand or no names at all,
references are plain, what is flattened has fields, no two fields of a record share a name of its node,
nothing is loaded after a field that takes whatever is left, and what a new record can keep of its
initial value can be saved. -/
structure Rewritable (env : Loading) (out : Saving) (r : Registry) (root : Ty) : Prop where
  keys {kind : MapKind} {key : KeyTy} {item : Ty} : env.Reaches r root (.map kind key item) →
    ∀ name, key ≠ .named name
  plain {kind : RefKind} {target : Target} : env.Reaches r root (.ref kind target) →
    out.schema.isPolymorphic target = false
  flat {name : String} : env.Reaches r root (.record name) →
    ∀ field ∈ out.schema.fieldsOf name, field.mode = .flattened → field.type.canFlatten = true
  names {record : String} : env.Reaches r root (.record record) →
    (out.schema.fieldsOf record).Pairwise fun field other =>
      ∀ name, out.schema.FieldName field name → ¬ out.schema.FieldName other name
  last {name : String} : env.Reaches r root (.record name) →
    (out.schema.fieldsOf name).Pairwise fun field other => out.schema.FieldOpen field → other.mode = .skipped
  initial {name : String} : env.Reaches r root (.record name) →
    out.Keepable (.record name) (out.schema.initialOf name)

variable {env : Loading} {out : Saving} {r : Registry} {root : Ty} {lighter : Loader}

/-- Within one node what is read can be written if that is so of lighter nodes. -/
theorem admits_within (hS : env.schema = out.schema) (hroot : env.Rewritable out r root)
    (hl : ∀ type, env.Reaches r root type →
      out.Admits type (lighter.new type) ∧ out.AdmitsInto type (lighter.into type)) (steps : Nat) :
    ∀ type, env.Reaches r root type →
      out.Admits type (env.newWithin lighter steps type) ∧
      out.AdmitsInto type (env.intoWithin lighter steps type) := by
  induction steps with
  | zero => exact fun _ _ => ⟨.fail _, .fail _⟩
  | succ steps ih =>
    intro type ht
    cases type with
    | atom type => exact ⟨Saving.admits_atom type, (Saving.admits_atom type).assign⟩
    | option item =>
      have ho := (ih item (ht.part (by simp [parts]))).1.option
      exact ⟨ho, ho.assign⟩
    | list kind item =>
      have hf := (hl item (ht.part (by simp [parts]))).1.list kind
      exact ⟨hf.fresh (.replaced rfl), hf⟩
    | array item length =>
      obtain ⟨hn, hi⟩ := hl item (ht.part (by simp [parts]))
      exact ⟨hn.array length, hi.array length⟩
    | map kind key item =>
      have hn := (hl item (ht.part (by simp [parts]))).1
      have hm : out.AdmitsInto (.map kind key item) (env.fillMap kind key (lighter.new item)) := by
        cases key with
        | atom type => exact hn.elements env type
        | text => exact hn.named env
        | named name => exact absurd rfl (hroot.keys ht name)
      exact ⟨hm.fresh (.replaced rfl), hm⟩
    | record name =>
      have hr : out.AdmitsInto (.record name) (env.fillRecord name lighter.into (env.intoWithin lighter steps)) := by
        refine .record hS (fun field hf hm => ?_) (hroot.flat ht) (hroot.names ht) (hroot.last ht)
        have hfield := ht.part (mem_parts_of_field (hS ▸ hf) hm)
        split
        · exact (ih _ hfield).2
        · exact (hl _ hfield).2
      refine ⟨?_, hr⟩
      have hinitial := hroot.initial ht
      rw [← hS] at hinitial
      exact hr.fresh hinitial
    | ref kind target =>
      have hp := hroot.plain ht
      have hr : out.Admits (.ref kind target) (env.readRef kind target lighter.new (env.newWithin lighter steps)) :=
        .ref hS hp fun type hty => (ih type (ht.part (mem_parts_of_plain (by simp [hS, hp]) hty))).1
      exact ⟨hr, hr.assign⟩

theorem admits_loader (hS : env.schema = out.schema) (hroot : env.Rewritable out r root) (weight : Nat) :
    ∀ type, env.Reaches r root type →
      out.Admits type ((env.loader weight).new type) ∧ out.AdmitsInto type ((env.loader weight).into type) := by
  induction weight with
  | zero => exact fun _ _ => ⟨.fail _, .fail _⟩
  | succ weight ih => exact fun type ht => admits_within hS hroot ih (env.steps type) type ht

theorem writable_of_ofJson (hS : env.schema = out.schema) (hroot : env.Rewritable out r root) {d : Json}
    (hd : d.Valid) {v : Value} (h : (env.ofJson root r d).result = .ok v) : out.Writable v := by
  rw [ofJson] at h
  rcases hload : env.loadNew root ⟨.ofJson d, r, []⟩ with ⟨result, s⟩
  simp only [hload] at h
  cases h
  have hn : (Reader.Node.value d).Valid := hd
  obtain ⟨m, -, hr⟩ := (admits_loader hS hroot _ root .root).1 rfl hn v s hload
  exact hr.writable

/-- A value that was read from text can be saved as text exactly if all single-precision numbers that it
writes are finite. -/
theorem isOk_toText_ofText_iff (env : Loading) (out : Saving) (schema : env.schema = out.schema)
    (registry : Registry) (type : Ty) (rewritable : env.Rewritable out registry type) (text : String) (v : Value)
    (read : (env.ofText type registry text).result = .ok v) (indented : Bool) :
    (out.toText indented v).result.isOk = true ↔ v.SinglesFinite out.schema := by
  rw [Saving.isOk_toText, Saving.isOk_toJson_iff]
  cases hd : Json.parse? text with
  | none =>
    rw [ofText, hd] at read
    cases read
  | some d =>
    rw [env.ofText_of_parse? type registry hd] at read
    refine ⟨?_, writable_of_ofJson schema rewritable (Json.valid_of_parse? hd) read⟩
    rintro ⟨b, hb⟩
    exact Saving.singlesFinite_of_written hb

end Loading

namespace Atlas

def coordinate (name : String) : Field := ⟨name, .atom (.float .double), .required, .atom (.float .double .zero)⟩

def point : Value := .record "Point" [.atom (.float .double .zero), .atom (.float .double .zero)]

def frameFields : List Field :=
  [⟨"origin", .record "Point", .required, point⟩,
   ⟨"scale", .atom (.float .single), .optional, .atom (.float .single (.finite false 1 0))⟩]

def chartFields : List Field :=
  [⟨"title", .option (.atom .text), .optional, .absent⟩,
   ⟨"", .ref .box (.record "Frame"), .flattened,
     .ref (.record "Frame") (.record "Frame" (frameFields.map Field.initial))⟩,
   ⟨"", .atom .bool, .skipped, .atom (.bool false)⟩,
   ⟨"marks", .array (.atom (.int .i16)) 2, .required, .list [.atom (.int .i16 0), .atom (.int .i16 0)]⟩,
   ⟨"named", .map .hashed (.atom .char) (.record "Point"), .optional, .map (.atom .char) []⟩,
   ⟨"", .map .sorted .text (.list .vector (.atom (.float .single))), .flattened, .map .text []⟩]

def schema : Schema where
  path := "atlas::"
  records :=
    [{ name := "Point", fields := [coordinate "x", coordinate "y"] },
     { name := "Frame", fields := frameFields },
     { name := "Chart", fields := chartFields }]

def out : Saving := ⟨schema, .empty, .jsonWriter, .reject⟩

def env : Loading := { schema }

theorem keepable_point (v w : Value) : out.Keepable (.record "Point") (.record "Point" [v, w]) := by
  refine .record rfl ?_ (List.forall_mem_cons.2 ⟨nofun, List.forall_mem_singleton.2 nofun⟩)
  exact List.forall_mem_cons.2 ⟨fun _ => .replaced rfl, List.forall_mem_singleton.2 fun _ => .replaced rfl⟩

theorem keepable_frame : out.Keepable (.record "Frame") (schema.initialOf "Frame") := by
  refine .record rfl ?_ (by decide)
  exact List.forall_mem_cons.2 ⟨fun _ => keepable_point _ _, List.forall_mem_singleton.2 fun _ => .replaced rfl⟩

theorem keepable_chart : out.Keepable (.record "Chart") (schema.initialOf "Chart") := by
  refine .record rfl ?_ (by decide)
  refine List.forall_mem_cons.2 ⟨fun _ => .replaced rfl, List.forall_mem_cons.2 ⟨fun _ => .replaced rfl, ?_⟩⟩
  refine List.forall_mem_cons.2 ⟨nofun, List.forall_mem_cons.2 ⟨fun _ => ?_, ?_⟩⟩
  · exact .array rfl fun _ _ => .replaced rfl
  · exact List.forall_mem_cons.2 ⟨fun _ => .replaced rfl, List.forall_mem_singleton.2 fun _ => .replaced rfl⟩

theorem not_open_frame : ¬ schema.Open (.ref .box (.record "Frame")) := by
  intro h
  cases h with
  | ref ht h =>
    cases ht
    obtain ⟨field, hf, hm, -⟩ := Schema.open_record.1 h
    have hmodes : ∀ field ∈ frameFields, ¬ field.mode = .flattened := by decide
    exact hmodes field hf hm

theorem nodeName_frame {name : String} (h : schema.NodeName (.ref .box (.record "Frame")) name) :
    name = "origin" ∨ name = "scale" := by
  cases h with
  | ref ht h =>
    cases ht
    obtain ⟨field, hf, h⟩ := Schema.nodeName_record.1 h
    have hf : field ∈ frameFields := hf
    simp only [frameFields, List.mem_cons, List.not_mem_nil, or_false] at hf
    rcases hf with rfl | rfl
    · exact .inl h
    · exact .inr h

theorem names_chart : chartFields.Pairwise fun field other =>
    ∀ name, schema.FieldName field name → ¬ schema.FieldName other name := by
  have hmap : ∀ kind key item name, ¬ schema.NodeName (.map kind key item) name := nofun
  have hframe : ∀ name, schema.NodeName (.ref .box (.record "Frame")) name →
      name ≠ "title" ∧ name ≠ "marks" ∧ name ≠ "named" := by
    intro name h
    rcases nodeName_frame h with rfl | rfl <;> decide
  have happart : ¬ schema.NodeName (.ref .box (.record "Frame")) "title" ∧
      (∀ name, schema.NodeName (.ref .box (.record "Frame")) name → name ≠ "marks") ∧
      ∀ name, schema.NodeName (.ref .box (.record "Frame")) name → name ≠ "named" :=
    ⟨fun h => (hframe _ h).1 rfl, fun name h => (hframe name h).2.1, fun name h => (hframe name h).2.2⟩
  simpa [chartFields, Schema.FieldName, hmap] using happart

theorem rewritable_chart : env.Rewritable out .empty (.record "Chart") := by
  have hreach : ∀ {type}, env.Reaches .empty (.record "Chart") type → type ∈
      [.record "Chart", .option (.atom .text), .ref .box (.record "Frame"), .array (.atom (.int .i16)) 2,
       .map .hashed (.atom .char) (.record "Point"), .map .sorted .text (.list .vector (.atom (.float .single))),
       .record "Frame", .record "Point", .list .vector (.atom (.float .single)), .atom .text,
       .atom (.int .i16), .atom (.float .single), .atom (.float .double)] :=
    fun h => h.mem (by decide) (by decide)
  have hrecord : ∀ {name}, env.Reaches .empty (.record "Chart") (.record name) →
      name = "Chart" ∨ name = "Frame" ∨ name = "Point" := by
    intro name h
    simpa using hreach h
  refine ⟨fun h name hk => ?_, fun h => ?_, fun h => ?_, fun h => ?_, fun h => ?_, fun h => ?_⟩
  · have hmem := hreach h
    simp [hk] at hmem
  · have hmem := hreach h
    simp only [List.mem_cons, Ty.ref.injEq, reduceCtorEq, List.not_mem_nil, or_false, false_or] at hmem
    rw [hmem.2]
    decide
  · rcases hrecord h with rfl | rfl | rfl <;> decide
  · rcases hrecord h with rfl | rfl | rfl
    · exact names_chart
    · exact List.pairwise_pair.2 fun name h h' => absurd (h.symm.trans h') (by decide)
    · exact List.pairwise_pair.2 fun name h h' => absurd (h.symm.trans h') (by decide)
  · rcases hrecord h with rfl | rfl | rfl
    · have hframe := not_open_frame
      show chartFields.Pairwise fun field other => schema.FieldOpen field → other.mode = .skipped
      simpa [chartFields, Schema.FieldOpen] using hframe
    · exact List.pairwise_pair.2 fun h => by cases h.1
    · exact List.pairwise_pair.2 fun h => by cases h.1
  · rcases hrecord h with rfl | rfl | rfl
    · exact keepable_chart
    · exact keepable_frame
    · exact keepable_point _ _

def chartText : String :=
  "\x7b\"b\":[1e38,-7],\"marks\":[3,-4],\"origin\":\x7b\"y\":-0.0,\"x\":1e300\x7d,\"a\":[]," ++
  "\"named\":[\x7b\"value\":\x7b\"x\":1,\"y\":2.5\x7d,\"key\":\"k\"\x7d]\x7d"

theorem chart_written_back : env.Rewritable out .empty (.record "Chart") ∧
    ∃ v, (env.ofText (.record "Chart") .empty chartText).result = .ok v ∧
      v.SinglesFinite schema ∧ (out.toText false v).result.isOk = true := by
  have hread : ((env.ofText (.record "Chart") .empty chartText).result.toOption.map
      (·.singles schema |>.all Binary.isFinite)) = some true := by decide +kernel
  cases hv : (env.ofText (.record "Chart") .empty chartText).result with
  | error e =>
    rw [hv] at hread
    cases hread
  | ok v =>
    have hfinite : v.SinglesFinite schema := by
      rw [hv] at hread
      exact List.all_eq_true.1 (Option.some.inj hread)
    refine ⟨rewritable_chart, v, rfl, hfinite, ?_⟩
    exact (Loading.isOk_toText_ofText_iff env out rfl .empty _ rewritable_chart chartText v hv false).2 hfinite

/-- A number too large for single precision is read as infinite, and cannot be written then. -/
theorem overflow_not_written_back :
    (env.ofText (.atom (.float .single)) .empty "1e39").result = .ok (.atom (.float .single (.infinite false))) ∧
    (out.toText false (.atom (.float .single (.infinite false)))).result =
      .error (.unrepresentable (.nonFinite (.infinite false))) := by
  constructor <;> rfl

end Atlas

end Archivist
