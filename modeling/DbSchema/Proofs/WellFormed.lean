import DbSchema.Validation.Diagnose

/-! # The validator decides well-formedness

`Schema.WellFormed providers s` states, condition by condition, what a schema must satisfy: its
datasources and generators name a provider (a datasource's plain-string provider one of
`providers`), model names and composite-type names do not repeat, the fields of every model and
composite type are well formed (`FieldsWellFormed`), `@@id`, `@@unique` and `@@index` on a model
have arguments, every enum has a name, values and no repeated value, and the first `@relation`
of every model field points to a model and pairs lists of equal length.

`Schema.diagnose_eq_nil_iff`: the validator finds no problem exactly when the schema is well
formed, for every schema, parsed or not, and every list of providers. Each check has its own
lemma (`Validation.fieldIssues_eq_nil_iff` and the like); repeated names are found exactly when
a list of names has a duplicate (`repeats_eq_nil_iff`).
-/

namespace DbSchema

set_option autoImplicit false

/-! ## Repeated names -/

theorem repeatsAfter_eq_nil_iff (seen names : List String) :
    repeatsAfter seen names = [] ↔ names.Nodup ∧ ∀ n ∈ names, n ∉ seen := by
  induction names generalizing seen with
  | nil => simp [repeatsAfter]
  | cons n ns ih =>
    by_cases h : n ∈ seen
    · simp [repeatsAfter, h]
    · rw [repeatsAfter, if_neg (by simpa using h), ih, List.nodup_cons]
      simp only [List.mem_cons, forall_eq_or_imp, not_or]
      constructor
      · rintro ⟨hnd, hns⟩
        exact ⟨⟨fun hn => (hns n hn).1 rfl, hnd⟩, h, fun m hm => (hns m hm).2⟩
      · rintro ⟨⟨hn, hnd⟩, -, hns⟩
        exact ⟨hnd, fun m hm => ⟨fun he => hn (he ▸ hm), hns m hm⟩⟩

theorem repeats_eq_nil_iff (names : List String) : repeats names = [] ↔ names.Nodup := by
  rw [repeats, repeatsAfter_eq_nil_iff]
  simp

/-! ## Well-formed schemas -/

/-- What the validator asks of the fields of a model or a composite type. -/
structure FieldsWellFormed (fields : List Field) : Prop where
  names_nodup : (fields.map (·.name)).Nodup
  type_named : ∀ f ∈ fields, f.type.name ≠ ""
  default_has_args : ∀ f ∈ fields, ∀ a ∈ f.attributes, a.name = "default" → a.args ≠ []
  relation_paired : ∀ f ∈ fields, ∀ a ∈ f.attributes, a.name = "relation" →
    a.hasArg "fields" = a.hasArg "references"

/-- A well-formed schema, for the providers a datasource may name by a plain string. -/
structure Schema.WellFormed (providers : List String) (s : Schema) : Prop where
  datasource_provider : ∀ d ∈ s.datasources, d.provider? ≠ none
  datasource_known : ∀ d ∈ s.datasources, ∀ p, d.provider? = some (.str p) → p ∈ providers
  generator_provider : ∀ g ∈ s.generators, g.provider? ≠ none
  model_names_nodup : (s.models.map (·.name)).Nodup
  type_names_nodup : (s.types.map (·.name)).Nodup
  model_fields : ∀ m ∈ s.models, FieldsWellFormed m.fields
  type_fields : ∀ t ∈ s.types, FieldsWellFormed t.fields
  block_attribute_args : ∀ m ∈ s.models, ∀ a ∈ m.attributes,
    (a.name = "id" ∨ a.name = "unique" ∨ a.name = "index") → a.args ≠ []
  enum_named : ∀ e ∈ s.enums, e.name ≠ ""
  enum_values : ∀ e ∈ s.enums, e.values ≠ []
  enum_values_nodup : ∀ e ∈ s.enums, (e.values.map (·.name)).Nodup
  relation_target : ∀ m ∈ s.models, ∀ f ∈ m.fields, ∀ r,
    findAttribute? f.attributes "relation" = some r →
      Validation.relationTarget f r ∈ s.models.map (·.name)
  relation_arity : ∀ m ∈ s.models, ∀ f ∈ m.fields, ∀ r,
    findAttribute? f.attributes "relation" = some r →
      ∀ fs rs, r.arg? "fields" = some fs → r.arg? "references" = some rs → fs.arity = rs.arity

/-! ## Each check finds nothing exactly when its condition holds -/

namespace Validation

theorem datasourceIssues_eq_nil_iff (providers : List String) (d : Datasource) :
    datasourceIssues providers d = [] ↔
      d.provider? ≠ none ∧ ∀ p, d.provider? = some (.str p) → p ∈ providers := by
  unfold datasourceIssues
  split <;> simp_all

theorem generatorIssues_eq_nil_iff (g : Generator) :
    generatorIssues g = [] ↔ g.provider? ≠ none := by
  unfold generatorIssues
  cases g.provider? <;> simp

theorem fieldAttributeIssues_eq_nil_iff (target : String) (a : Attribute) :
    fieldAttributeIssues target a = [] ↔
      (a.name = "default" → a.args ≠ []) ∧
        (a.name = "relation" → a.hasArg "fields" = a.hasArg "references") := by
  unfold fieldAttributeIssues
  by_cases hd : a.name = "default"
  · have hr : a.name ≠ "relation" := by rw [hd]; decide
    by_cases he : a.args.isEmpty <;> simp_all
  · by_cases hr : a.name = "relation" <;> simp_all

theorem fieldIssues_eq_nil_iff (owner : String) (fields : List Field) :
    fieldIssues owner fields = [] ↔ FieldsWellFormed fields := by
  simp only [fieldIssues, List.append_eq_nil_iff, List.map_eq_nil_iff, repeats_eq_nil_iff,
    List.flatMap_eq_nil_iff, fieldAttributeIssues_eq_nil_iff, ite_eq_right_iff, reduceCtorEq,
    imp_false, String.isEmpty_iff]
  constructor
  · rintro ⟨hnd, hf⟩
    exact ⟨hnd, fun f hf' => (hf f hf').1, fun f hf' a ha => ((hf f hf').2 a ha).1,
      fun f hf' a ha => ((hf f hf').2 a ha).2⟩
  · rintro ⟨hnd, ht, hd, hr⟩
    exact ⟨hnd, fun f hf => ⟨ht f hf, fun a ha => ⟨hd f hf a ha, hr f hf a ha⟩⟩⟩

theorem blockAttributeIssues_eq_nil_iff (owner : String) (a : Attribute) :
    blockAttributeIssues owner a = [] ↔
      ((a.name = "id" ∨ a.name = "unique" ∨ a.name = "index") → a.args ≠ []) := by
  unfold blockAttributeIssues
  simp only [ite_eq_right_iff, reduceCtorEq, imp_false, not_and, List.isEmpty_iff]

theorem modelIssues_eq_nil_iff (m : Model) :
    modelIssues m = [] ↔ FieldsWellFormed m.fields ∧
      ∀ a ∈ m.attributes, (a.name = "id" ∨ a.name = "unique" ∨ a.name = "index") → a.args ≠ [] := by
  simp only [modelIssues, List.append_eq_nil_iff, fieldIssues_eq_nil_iff, List.flatMap_eq_nil_iff,
    blockAttributeIssues_eq_nil_iff]

theorem enumIssues_eq_nil_iff (e : Enum) :
    enumIssues e = [] ↔ e.name ≠ "" ∧ e.values ≠ [] ∧ (e.values.map (·.name)).Nodup := by
  simp only [enumIssues, List.append_eq_nil_iff, ite_eq_right_iff, reduceCtorEq, imp_false,
    String.isEmpty_iff, List.isEmpty_iff, List.map_eq_nil_iff, repeats_eq_nil_iff, and_assoc]

theorem relationIssues_eq_nil_iff (s : Schema) (m : Model) (f : Field) :
    relationIssues s m f = [] ↔ ∀ r, findAttribute? f.attributes "relation" = some r →
      relationTarget f r ∈ s.models.map (·.name) ∧
        ∀ fs rs, r.arg? "fields" = some fs → r.arg? "references" = some rs → fs.arity = rs.arity := by
  unfold relationIssues
  cases hr : findAttribute? f.attributes "relation" with
  | none => simp
  | some r =>
    have hmodel : (s.model? (relationTarget f r)).isNone = true ↔
        relationTarget f r ∉ s.models.map (·.name) := by
      simp [Schema.model?, List.find?_eq_none]
    simp only [List.append_eq_nil_iff, ite_eq_right_iff, reduceCtorEq, imp_false, hmodel,
      Classical.not_not, Option.some.injEq, forall_eq']
    cases hfs : r.arg? "fields" <;> cases hrs : r.arg? "references" <;> simp

end Validation

namespace Schema

open Validation

/-- The validator finds no problem in a schema exactly when the schema is well formed. -/
theorem diagnose_eq_nil_iff (providers : List String) (s : Schema) :
    s.diagnose providers = [] ↔ s.WellFormed providers := by
  simp only [diagnose, List.append_eq_nil_iff, List.flatMap_eq_nil_iff, List.map_eq_nil_iff,
    repeats_eq_nil_iff, datasourceIssues_eq_nil_iff, generatorIssues_eq_nil_iff,
    modelIssues_eq_nil_iff, fieldIssues_eq_nil_iff, enumIssues_eq_nil_iff,
    relationIssues_eq_nil_iff]
  constructor
  · rintro ⟨⟨⟨⟨⟨⟨⟨hd, hg⟩, hm⟩, hmf⟩, ht⟩, htf⟩, he⟩, hr⟩
    exact ⟨fun d h => (hd d h).1, fun d h => (hd d h).2, hg, hm, ht, fun m h => (hmf m h).1, htf,
      fun m h => (hmf m h).2, fun e h => (he e h).1, fun e h => (he e h).2.1,
      fun e h => (he e h).2.2, fun m hm f hf r h => (hr m hm f hf r h).1,
      fun m hm f hf r h => (hr m hm f hf r h).2⟩
  · intro h
    exact ⟨⟨⟨⟨⟨⟨⟨fun d hd => ⟨h.datasource_provider d hd, h.datasource_known d hd⟩,
      h.generator_provider⟩, h.model_names_nodup⟩,
      fun m hm => ⟨h.model_fields m hm, h.block_attribute_args m hm⟩⟩, h.type_names_nodup⟩,
      h.type_fields⟩, fun e he => ⟨h.enum_named e he, h.enum_values e he, h.enum_values_nodup e he⟩⟩,
      fun m hm f hf r hr => ⟨h.relation_target m hm f hf r hr, h.relation_arity m hm f hf r hr⟩⟩

end Schema

end DbSchema
