import Mathlib.Data.List.Forall2
import DbSchema.Proofs.Repeats

/-! # Validation does not depend on the order of declarations

A schema declares the same things when its datasources, generators, models, composite types and
enums come in another order, the fields and block attributes of each model and composite type in
another order, and the values and block attributes of each enum in another order
(`Schema.Reordered`). Its problems are then the same problems, perhaps in another order
(`Schema.diagnose_perm_of_reordered`).

Every check reads the order only through what the order does not change: a repeated name through
how often it is given (`repeats_perm`), and a relation through whether a model of its target
name exists (`Schema.model?_isNone`), which holds as well of a model declared after the relation
as of one before it. The attributes of a field keep their order: the first `@relation` of a field
is the one its relation problems are about.
-/

namespace DbSchema

set_option autoImplicit false

/-! ## Reordered declarations -/

/-- `l'` holds the items of `l` in some order, each related by `R` to the item it stands for. -/
def PermUpTo {α : Type} (R : α → α → Prop) (l l' : List α) : Prop :=
  ∃ m, List.Forall₂ R l m ∧ m.Perm l'

/-- `m'` declares what `m` declares, its fields and its block attributes perhaps in another
order. -/
structure Model.Reordered (m m' : Model) : Prop where
  name_eq : m'.name = m.name
  fields_perm : m.fields.Perm m'.fields
  attributes_perm : m.attributes.Perm m'.attributes

/-- `t'` declares what `t` declares, its fields and its block attributes perhaps in another
order. -/
structure CompositeType.Reordered (t t' : CompositeType) : Prop where
  name_eq : t'.name = t.name
  fields_perm : t.fields.Perm t'.fields
  attributes_perm : t.attributes.Perm t'.attributes

/-- `e'` declares what `e` declares, its values and its block attributes perhaps in another
order. -/
structure Enum.Reordered (e e' : Enum) : Prop where
  name_eq : e'.name = e.name
  values_perm : e.values.Perm e'.values
  attributes_perm : e.attributes.Perm e'.attributes

/-- `t` declares what `s` declares, in another order: the blocks of each kind, the members of
every block, and the block attributes of every model, composite type and enum. -/
structure Schema.Reordered (s t : Schema) : Prop where
  datasources : s.datasources.Perm t.datasources
  generators : s.generators.Perm t.generators
  models : PermUpTo Model.Reordered s.models t.models
  types : PermUpTo CompositeType.Reordered s.types t.types
  enums : PermUpTo Enum.Reordered s.enums t.enums

namespace PermUpTo

variable {α β : Type} {R : α → α → Prop} {l l' : List α}

theorem flatMap (h : PermUpTo R l l') {f g : α → List β}
    (hfg : ∀ a b, R a b → (f a).Perm (g b)) : (l.flatMap f).Perm (l'.flatMap g) := by
  obtain ⟨m, hm, hp⟩ := h
  refine List.Perm.trans ?_ (hp.flatMap_right g)
  clear hp
  induction hm with
  | nil => exact .refl _
  | cons hab _ ih =>
    rw [List.flatMap_cons, List.flatMap_cons]
    exact (hfg _ _ hab).append ih

theorem map (h : PermUpTo R l l') {f g : α → β} (hfg : ∀ a b, R a b → f a = g b) :
    (l.map f).Perm (l'.map g) := by
  obtain ⟨m, hm, hp⟩ := h
  have heq : l.map f = m.map g := by
    clear hp
    induction hm with
    | nil => rfl
    | cons hab _ ih => rw [List.map_cons, List.map_cons, hfg _ _ hab, ih]
  rw [heq]
  exact hp.map g

end PermUpTo

/-! ## Each check, reordered -/

theorem Schema.model?_isNone (s : Schema) (n : String) :
    (s.model? n).isNone = decide (n ∉ s.models.map (·.name)) := by
  rw [Bool.eq_iff_iff, Option.isNone_iff_eq_none, Schema.model?, List.find?_eq_none]
  simp

namespace Validation

theorem fieldIssues_perm (owner : String) {fs fs' : List Field} (h : fs.Perm fs') :
    (fieldIssues owner fs).Perm (fieldIssues owner fs') :=
  ((repeats_perm (h.map _)).map _).append (h.flatMap_right _)

theorem modelIssues_perm {m m' : Model} (h : m.Reordered m') :
    (modelIssues m).Perm (modelIssues m') := by
  rw [modelIssues, modelIssues, h.name_eq]
  exact (fieldIssues_perm m.name h.fields_perm).append (h.attributes_perm.flatMap_right _)

theorem compositeTypeIssues_perm {t t' : CompositeType} (h : t.Reordered t') :
    (fieldIssues t.name t.fields).Perm (fieldIssues t'.name t'.fields) := by
  rw [h.name_eq]
  exact fieldIssues_perm t.name h.fields_perm

theorem enumIssues_perm {e e' : Enum} (h : e.Reordered e') :
    (enumIssues e).Perm (enumIssues e') := by
  have hempty : e'.values.isEmpty = e.values.isEmpty := by
    rw [Bool.eq_iff_iff, List.isEmpty_iff, List.isEmpty_iff]
    exact ⟨fun he => (he ▸ h.values_perm).eq_nil, fun he => (he ▸ h.values_perm).symm.eq_nil⟩
  rw [enumIssues, enumIssues, h.name_eq, hempty]
  exact List.Perm.append_left _ ((repeats_perm (h.values_perm.map _)).map _)

theorem relationIssues_congr {s s' : Schema} {m m' : Model} (f : Field)
    (hs : ∀ n, n ∈ s.models.map (·.name) ↔ n ∈ s'.models.map (·.name)) (hm : m'.name = m.name) :
    relationIssues s m f = relationIssues s' m' f := by
  unfold relationIssues
  simp only [Schema.model?_isNone, hs, hm]

end Validation

/-! ## The whole schema -/

namespace Schema

open Validation

/-- Reordering the declarations of a schema reorders its problems and changes none of them. -/
theorem diagnose_perm_of_reordered (providers : List String) {s t : Schema}
    (h : s.Reordered t) : (s.diagnose providers).Perm (t.diagnose providers) := by
  have hnames : (s.models.map (·.name)).Perm (t.models.map (·.name)) :=
    h.models.map fun _ _ hm => hm.name_eq.symm
  have htypes : (s.types.map (·.name)).Perm (t.types.map (·.name)) :=
    h.types.map fun _ _ ht => ht.name_eq.symm
  have hmem : ∀ n, n ∈ s.models.map (·.name) ↔ n ∈ t.models.map (·.name) :=
    fun n => hnames.mem_iff
  have hrel : (s.models.flatMap fun m => m.fields.flatMap (relationIssues s m)).Perm
      (t.models.flatMap fun m => m.fields.flatMap (relationIssues t m)) := by
    refine h.models.flatMap fun m m' hm => ?_
    have hsame : relationIssues s m = relationIssues t m' :=
      funext fun f => relationIssues_congr f hmem hm.name_eq
    rw [hsame]
    exact hm.fields_perm.flatMap_right _
  unfold diagnose
  refine List.Perm.append (List.Perm.append (List.Perm.append (List.Perm.append
    (List.Perm.append (List.Perm.append (List.Perm.append ?_ ?_) ?_) ?_) ?_) ?_) ?_) hrel
  · exact h.datasources.flatMap_right _
  · exact h.generators.flatMap_right _
  · exact (repeats_perm hnames).map _
  · exact h.models.flatMap fun _ _ hm => modelIssues_perm hm
  · exact (repeats_perm htypes).map _
  · exact h.types.flatMap fun _ _ ht => compositeTypeIssues_perm ht
  · exact h.enums.flatMap fun _ _ he => enumIssues_perm he

/-- A relation to a model declared after it, and the same schema with that model declared
first. -/
theorem diagnose_perm_relation_target_first :
    Reordered
        ⟨[], [], [⟨"A", [⟨"b", ⟨.named "B", false, false⟩, [⟨"relation", []⟩]⟩], []⟩,
          ⟨"B", [], []⟩], [], []⟩
        ⟨[], [], [⟨"B", [], []⟩,
          ⟨"A", [⟨"b", ⟨.named "B", false, false⟩, [⟨"relation", []⟩]⟩], []⟩], [], []⟩ ∧
      (diagnose defaultProviders
          ⟨[], [], [⟨"A", [⟨"b", ⟨.named "B", false, false⟩, [⟨"relation", []⟩]⟩], []⟩,
            ⟨"B", [], []⟩], [], []⟩).Perm
        (diagnose defaultProviders
          ⟨[], [], [⟨"B", [], []⟩,
            ⟨"A", [⟨"b", ⟨.named "B", false, false⟩, [⟨"relation", []⟩]⟩], []⟩], [], []⟩) :=
  have h : Reordered
      ⟨[], [], [⟨"A", [⟨"b", ⟨.named "B", false, false⟩, [⟨"relation", []⟩]⟩], []⟩,
        ⟨"B", [], []⟩], [], []⟩
      ⟨[], [], [⟨"B", [], []⟩,
        ⟨"A", [⟨"b", ⟨.named "B", false, false⟩, [⟨"relation", []⟩]⟩], []⟩], [], []⟩ :=
    ⟨.nil, .nil, ⟨_, .cons ⟨rfl, .refl _, .refl _⟩ (.cons ⟨rfl, .refl _, .refl _⟩ .nil), .swap _ _ _⟩,
      ⟨[], .nil, .nil⟩, ⟨[], .nil, .nil⟩⟩
  ⟨h, diagnose_perm_of_reordered defaultProviders h⟩

end Schema

end DbSchema
