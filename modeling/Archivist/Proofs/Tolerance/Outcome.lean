import Archivist.Proofs.Tolerance.Failing

/-!
Optional fields may be left out, and nothing else is tolerated. Main statement: a document without some of the
optional fields of a record loads whenever the whole one does, and the fields that were left out keep the values
that they had; but an optional field that is there and cannot be loaded fails the whole record, with its error.
-/

set_option autoImplicit false

namespace Archivist

namespace Loading

open ReadState Reader Registry

variable {env : Loading}

theorem loader_into_eq_loadAt {type : Ty} {r : Registry} {d : Json} {prior : Value} {k : Nat} (hk : d.weight < k) :
    (env.loader k).into type ⟨⟨.ofJson d, r, []⟩, prior⟩ = env.loadAt type (.value d) r prior :=
  env.loader_into_eq hk type

theorem reload_eq_ok {type : Ty} {r : Registry} {d : Json} {prior v : Value} :
    (env.reload type r d prior).result = .ok v ↔ ∃ t, env.loadAt type (.value d) r prior = (.ok (), ⟨t, v⟩) := by
  rw [reload_eq]
  simp only [outcome, Slot.fresh, loadAt, Reader.ofJson]
  rcases env.load type ⟨⟨⟨[.value d]⟩, r, []⟩, prior⟩ with ⟨e | _, ⟨t, w⟩⟩ <;> simp

theorem reload_eq_error {type : Ty} {r : Registry} {d : Json} {prior : Value} {e : Error} :
    (env.reload type r d prior).result = .error e ↔ (env.loadAt type (.value d) r prior).1 = .error e := by
  rw [reload_eq]
  simp only [outcome, Slot.fresh, loadAt, Reader.ofJson]
  rcases env.load type ⟨⟨⟨[.value d]⟩, r, []⟩, prior⟩ with ⟨e | _, ⟨t, w⟩⟩ <;> simp

section Records

variable {r : Registry} {name : String} {prior : Value} {fields : Fields} (hS : env.schema.Initialised)
  (hset : env.Settled r (.record name)) (hdist : env.Distinct r name)
  (hshape : env.schema.Shaped (.record name) prior) (hd : fields.names.Nodup)

include hS hset hdist hshape hd

theorem reload_lacking {keys : List String} (hkeys : ∀ key ∈ keys, env.schema.HasOptional (.record name) key)
    {v : Value} (h : (env.reload (.record name) r (.object fields) prior).result = .ok v) :
    (env.reload (.record name) r (.object (fields.lacking keys)) prior).result =
      .ok (env.schema.reset keys name prior v) := by
  obtain ⟨s, hload⟩ := reload_eq_ok.1 h
  -- one loader that is heavy enough for both documents
  obtain ⟨k, hwhole, hpart⟩ :
      ∃ k, (Json.object fields).weight < k ∧ (Json.object (fields.lacking keys)).weight < k :=
    ⟨_, Nat.lt_succ_of_le (Nat.le_max_left ..), Nat.lt_succ_of_le (Nat.le_max_right ..)⟩
  rw [← loader_into_eq_loadAt hwhole] at hload
  have hpared : Pared keys r [] fields ⟨.ofJson (.object fields), r, []⟩
      ⟨.ofJson (.object (fields.lacking keys)), r, []⟩ := ⟨⟨_, _, rfl, rfl, rfl, rfl, fun h => by rw [h]⟩, rfl, rfl⟩
  have hfit : env.Fit r keys name (.record name) := .inr ⟨name, rfl, .root, fun key hkey _ => hkeys key hkey⟩
  obtain ⟨t, left, hloaded, -⟩ := loadsPared_loader hS hset hdist k .root hfit hpared hd
    (fun _ key hkey _ => hkeys key hkey) hshape hload
  rw [loader_into_eq_loadAt hpart] at hloaded
  exact reload_eq_ok.2 ⟨t, hloaded⟩

theorem reload_of_comesTo {field : Field} {value : Value} {c : Json} {e : Error}
    (h : env.ComesTo name (.value (.object fields), r) prior field value) (hc : (field.name, c) ∈ fields)
    (hchild : (env.reload field.type r c value).result = .error e) :
    (env.reload (.record name) r (.object fields) prior).result = .error e := by
  refine reload_eq_error.2 ?_
  exact h.fails hS hset hdist .root .root rfl rfl rfl (Nat.le_refl _) rfl hd hc hshape (reload_eq_error.1 hchild)
    (.start name)

end Records

/-- Optional fields may be left out, at the top or in records that are flattened into it: if the whole document
loads, the document without them loads too and gives the same, but that they are as they were before. One that is
there is not passed over: if the fields before it are loaded and it cannot be, the record fails with its error. -/
theorem optional_fields_tolerated (env : Loading) (r : Registry) (name : String) (hS : env.schema.Initialised)
    (hset : env.Settled r (.record name)) (hdist : env.Distinct r name) (prior : Value)
    (hshape : env.schema.Shaped (.record name) prior) (fields : Fields) (hd : fields.names.Nodup) :
    (∀ keys, (∀ key ∈ keys, env.schema.HasOptional (.record name) key) → ∀ v,
      (env.reload (.record name) r (.object fields) prior).result = .ok v →
        (env.reload (.record name) r (.object (fields.lacking keys)) prior).result =
          .ok (env.schema.reset keys name prior v)) ∧
    ∀ field value c e, env.ComesTo name (.value (.object fields), r) prior field value → (field.name, c) ∈ fields →
      (env.reload field.type r c value).result = .error e →
        (env.reload (.record name) r (.object fields) prior).result = .error e :=
  ⟨fun _ hkeys _ => reload_lacking hS hset hdist hshape hd hkeys,
    fun _ _ _ _ => reload_of_comesTo hS hset hdist hshape hd⟩

end Loading

namespace Ledger

open Loading

def stamp (day : Nat) : Value := .record "Stamp" [.atom (.int .u8 day)]

def stampFields : List Field := [⟨"day", .atom (.int .u8), .required, .atom (.int .u8 0)⟩]

def nameField : Field := ⟨"name", .atom .text, .required, .atom (.text "")⟩

def stampField : Field := ⟨"stamp", .record "Stamp", .optional, stamp 0⟩

def title : Field := ⟨"title", .atom .text, .optional, .atom (.text "")⟩

def owner : Field := ⟨"", .record "Owner", .flattened, .record "Owner" [.atom (.text ""), stamp 0]⟩

def accounts : Field := ⟨"", .map .sorted .text (.atom (.int .i16)), .flattened, .map .text []⟩

def schema : Schema where
  path := "ledger::"
  records := [⟨"Stamp", stampFields, .plain⟩, ⟨"Owner", [nameField, stampField], .plain⟩,
    ⟨"Ledger", [title, owner, accounts], .plain⟩]

def env : Loading := { schema }

def prior : Value :=
  .record "Ledger" [.atom (.text "old"), .record "Owner" [.atom (.text ""), stamp 5], .map .text []]

theorem shaped_stamp (day : Nat) : schema.Shaped (.record "Stamp") (stamp day) :=
  .record rfl (List.forall_mem_singleton.2 fun _ => .replaced rfl)

theorem shaped_owner (text : String) (day : Nat) :
    schema.Shaped (.record "Owner") (.record "Owner" [.atom (.text text), stamp day]) := by
  refine .record rfl (List.forall_mem_cons.2 ⟨fun _ => .replaced rfl, ?_⟩)
  exact List.forall_mem_singleton.2 fun _ => shaped_stamp day

theorem shaped_prior : schema.Shaped (.record "Ledger") prior := by
  refine .record rfl (List.forall_mem_cons.2 ⟨fun _ => .replaced rfl, List.forall_mem_cons.2 ⟨fun _ => ?_, ?_⟩⟩)
  · exact shaped_owner "" 5
  · exact List.forall_mem_singleton.2 fun _ => .replaced rfl

theorem initialised : schema.Initialised := by
  intro name field hf hm
  obtain ⟨record, hr, -, hf⟩ := Schema.exists_declared hf
  simp only [schema, List.mem_cons, List.not_mem_nil, or_false] at hr
  rcases hr with rfl | rfl | rfl
  · simp only [stampFields, List.mem_singleton] at hf
    subst hf
    exact .replaced rfl
  · simp only [List.mem_cons, List.not_mem_nil, or_false] at hf
    rcases hf with rfl | rfl
    · exact .replaced rfl
    · exact shaped_stamp 0
  · simp only [List.mem_cons, List.not_mem_nil, or_false] at hf
    rcases hf with rfl | rfl | rfl
    · exact .replaced rfl
    · exact shaped_owner "" 0
    · exact .replaced rfl

theorem settled : env.Settled .empty (.record "Ledger") := by
  intro kind target h _
  have hmem : .ref kind target ∈ ([.record "Ledger", .record "Owner", .record "Stamp", .atom .text, .atom (.int .u8),
    .map .sorted .text (.atom (.int .i16)), .atom (.int .i16)] : List Ty) := h.mem (by decide) (by decide)
  simp at hmem

theorem flattens_ledger {name : String} (h : schema.Flattens "Ledger" name) : name = "Ledger" ∨ name = "Owner" := by
  induction h with
  | root => exact .inl rfl
  | @field _ inner field _ hf hm ht ih =>
    rcases ih with rfl | rfl
    · have hf : field ∈ [title, owner, accounts] := hf
      simp only [List.mem_cons, List.not_mem_nil, or_false] at hf
      rcases hf with rfl | rfl | rfl
      · cases hm
      · cases ht
        exact .inr rfl
      · cases ht
    · have hmodes : ∀ field ∈ [nameField, stampField], field.mode ≠ .flattened := by decide
      exact absurd hm (hmodes field hf)

section Names

variable {key : String}

theorem asks_named {field : Field} (hm : field.mode ≠ .flattened) (h : env.FieldAsks .empty field key) :
    key = field.name := by
  cases h with
  | own => rfl
  | flattened hm' => exact absurd hm' hm

theorem asks_owner (h : env.FieldAsks .empty owner key) : key = "name" ∨ key = "stamp" := by
  cases h with
  | own hm => rcases hm with hm | hm <;> cases hm
  | flattened _ h =>
    obtain ⟨field, hf, ha⟩ := asks_record.1 h
    have hf : field ∈ [nameField, stampField] := hf
    simp only [List.mem_cons, List.not_mem_nil, or_false] at hf
    rcases hf with rfl | rfl
    · exact .inl (asks_named (by decide) ha)
    · exact .inr (asks_named (by decide) ha)

theorem not_asks_accounts : ¬ env.FieldAsks .empty accounts key := by
  intro h
  cases h with
  | own hm => rcases hm with hm | hm <;> cases hm
  | flattened _ h => cases h

end Names

theorem distinct : env.Distinct .empty "Ledger" where
  names hflat := by
    rcases flattens_ledger hflat with rfl | rfl
    · refine List.pairwise_cons.2 ⟨List.forall_mem_cons.2 ⟨fun key ht ho => ?_, ?_⟩, List.pairwise_pair.2 ?_⟩
      · rcases asks_owner ho with rfl | rfl <;> exact absurd (asks_named (by decide) ht) (by decide)
      · exact List.forall_mem_singleton.2 fun _ _ => not_asks_accounts
      · exact fun _ _ => not_asks_accounts
    · refine List.pairwise_pair.2 fun key hn hs => ?_
      exact absurd ((asks_named (by decide) hn).symm.trans (asks_named (by decide) hs)) (by decide)
  last hflat := by
    rcases flattens_ledger hflat with rfl | rfl
    · have htitle : ¬ env.FieldTakesAll .empty title := fun h => by cases h.1
      have howner : ¬ env.FieldTakesAll .empty owner := by
        rintro ⟨-, h⟩
        cases h with
        | flattened hf hm =>
          have hmodes : ∀ field ∈ [nameField, stampField], field.mode ≠ .flattened := by decide
          exact hmodes _ hf hm
      refine List.pairwise_cons.2 ⟨fun _ _ h => absurd h htitle, List.pairwise_pair.2 fun h => absurd h howner⟩
    · exact List.pairwise_pair.2 fun h => by cases h.1

def document (stamp : Json) : Fields :=
  [("title", .string "new"), ("rent", .int 3), ("name", .string "Ann"), ("stamp", stamp)]

theorem loadAt_text (text : String) (p : Value) : env.loadAt (.atom .text) (.value (.string text)) .empty p =
    (.ok (), ⟨⟨⟨[.value .null]⟩, .empty, []⟩, .atom (.text text)⟩) := rfl

theorem comesTo_stamp (d : Json) :
    env.ComesTo "Ledger" (.value (.object (document d)), .empty) prior stampField (stamp 5) := by
  have htitle : InTurn env.FieldLoaded (.value (.object (document d)), .empty) [(title, .atom (.text "old"))]
      [.atom (.text "new")] (.object [("rent", .int 3), ("name", .string "Ann"), ("stamp", d)], .empty) :=
    .cons (.entered (.inr rfl) rfl rfl (loadAt_text "new" _)) (.nil _)
  have hname : InTurn env.FieldLoaded (.object [("rent", .int 3), ("name", .string "Ann"), ("stamp", d)], .empty)
      [(nameField, .atom (.text ""))] [.atom (.text "Ann")] (.object [("rent", .int 3), ("stamp", d)], .empty) :=
    .cons (.entered (.inl rfl) rfl rfl (loadAt_text "Ann" _)) (.nil _)
  have hstamp : env.ComesTo "Owner" (.object [("rent", .int 3), ("name", .string "Ann"), ("stamp", d)], .empty)
      (.record "Owner" [.atom (.text ""), stamp 5]) stampField (stamp 5) := .own (by rfl) rfl hname
  exact .inside (by rfl) rfl rfl htitle hstamp

/-- A ledger that is loaded without its title and the stamp of its owner keeps both. One with a stamp that lacks its
day does not load. -/
theorem stamp_tolerated :
    (∃ v, (env.reload (.record "Ledger") .empty (.object (document (.object [("day", .int 7)]))) prior).result =
        .ok v ∧
      (env.reload (.record "Ledger") .empty (.object [("rent", .int 3), ("name", .string "Ann")]) prior).result =
        .ok (schema.reset ["stamp", "title"] "Ledger" prior v) ∧
      (schema.reset ["stamp", "title"] "Ledger" prior v).atoms =
        [.text "old", .text "Ann", .int .u8 5, .text "rent", .int .i16 3]) ∧
    (env.reload (.record "Ledger") .empty (.object (document (.object []))) prior).result =
      .error (.fieldAbsent "day") := by
  have hledger : env.schema.fieldsOf "Ledger" = [title, owner, accounts] := rfl
  have hkeys : ∀ key ∈ ["stamp", "title"], env.schema.HasOptional (.record "Ledger") key := by
    have hstamp : env.schema.HasOptional (.record "Owner") "stamp" :=
      @Schema.HasOptional.own _ _ stampField (List.mem_cons_of_mem _ List.mem_cons_self) rfl
    have htitle : env.schema.HasOptional (.record "Ledger") "title" :=
      @Schema.HasOptional.own _ _ title (by simp [hledger]) rfl
    refine List.forall_mem_cons.2 ⟨?_, List.forall_mem_singleton.2 htitle⟩
    exact @Schema.HasOptional.inside _ _ _ owner (by simp [hledger]) rfl hstamp
  have hlacking : (document (.object [("day", .int 7)])).lacking ["stamp", "title"] =
      [("rent", .int 3), ("name", .string "Ann")] := rfl
  have hstamp : (env.reload (.record "Stamp") .empty (.object []) (stamp 5)).result =
      .error (.fieldAbsent "day") := rfl
  have htolerated := fun d => optional_fields_tolerated env .empty "Ledger" initialised settled distinct prior
    shaped_prior (document d) (by simp [document, Fields.names])
  refine ⟨?_, (htolerated (.object [])).2 stampField (stamp 5) (.object []) _ (comesTo_stamp _) ?_ hstamp⟩
  · have hloads : (env.reload (.record "Ledger") .empty (.object (document (.object [("day", .int 7)])))
        prior).result.isOk = true := by decide +kernel
    rcases hv : (env.reload (.record "Ledger") .empty (.object (document (.object [("day", .int 7)])))
      prior).result with _ | v
    · rw [hv] at hloads
      cases hloads
    have hlack := (htolerated (.object [("day", .int 7)])).1 ["stamp", "title"] hkeys v hv
    rw [hlacking] at hlack
    have hatoms : ((env.reload (.record "Ledger") .empty (.object [("rent", .int 3), ("name", .string "Ann")])
        prior).result.map Value.atoms).toOption =
          some [.text "old", .text "Ann", .int .u8 5, .text "rent", .int .i16 3] := by decide +kernel
    rw [hlack] at hatoms
    exact ⟨v, rfl, hlack, Option.some.inj hatoms⟩
  · simp [document, stampField]

end Ledger

end Archivist
