import Mathlib
import DbSchema.Validation.Diagnose

/-! # Each repeated name is reported once per repeat

The validator reports a name given twice through `repeats`, which walks a list of names and
keeps every name already seen. What it keeps is described by places: `laterOccurrences names`
lists `names[i]` for every index `i` whose name stands among the names before it, in the order of
the indices. The two agree (`repeats_eq_laterOccurrences`), as both grow the same way when one
more name is added at the end; so a name given `k` times is reported `k - 1` times
(`count_repeats`), whatever the order of the list.

`Schema.diagnose` reports four kinds of repeat: model names, composite-type names, field names of
each model and each composite type, and value names of each enum. A repeated member names its
block by the block's name alone, so blocks that share a name share their reports: the field `x`
given twice in a model `M` and twice in a composite type `M` is reported twice as a repeated
field of `M` (`Schema.diagnose_fields_shared_owner`). `Schema.diagnose_repeat_reports` gives the
repeat reports of every kind in order, and their number for every owner and name.
-/

namespace DbSchema

set_option autoImplicit false

/-! ## Repeats, and their places -/

/-- The names that repeat a name before them, one entry per place, in the order of the places:
`names[i]` for every index `i` with `names[i]` among the first `i` names. -/
def laterOccurrences (names : List String) : List String :=
  (names.zipIdx.filter fun p => p.1 ∈ names.take p.2).map Prod.fst

theorem repeatsAfter_append_singleton (seen ns : List String) (n : String) :
    repeatsAfter seen (ns ++ [n]) =
      repeatsAfter seen ns ++ if n ∈ seen ∨ n ∈ ns then [n] else [] := by
  induction ns generalizing seen with
  | nil => by_cases h : n ∈ seen <;> simp [repeatsAfter, h]
  | cons m ns ih =>
    by_cases hm : m ∈ seen
    · have hiff : (n ∈ seen ∨ n ∈ m :: ns) ↔ (n ∈ seen ∨ n ∈ ns) := by
        simp only [List.mem_cons]
        constructor
        · rintro (h | rfl | h) <;> simp_all
        · rintro (h | h) <;> simp_all
      simp only [List.cons_append, repeatsAfter, List.contains_iff_mem, hm, if_true, ih,
        List.cons_append]
      rw [if_congr hiff rfl rfl]
    · have hiff : (n ∈ m :: seen ∨ n ∈ ns) ↔ (n ∈ seen ∨ n ∈ m :: ns) := by
        simp only [List.mem_cons]
        tauto
      simp only [List.cons_append, repeatsAfter, List.contains_iff_mem, hm, if_false, ih]
      rw [if_congr hiff rfl rfl]

theorem repeats_append_singleton (ns : List String) (n : String) :
    repeats (ns ++ [n]) = repeats ns ++ if n ∈ ns then [n] else [] := by
  simp [repeats, repeatsAfter_append_singleton]

theorem laterOccurrences_append_singleton (ns : List String) (n : String) :
    laterOccurrences (ns ++ [n]) = laterOccurrences ns ++ if n ∈ ns then [n] else [] := by
  have hold : (ns.zipIdx.filter fun p => p.1 ∈ (ns ++ [n]).take p.2) =
      ns.zipIdx.filter fun p => p.1 ∈ ns.take p.2 := by
    refine List.filter_congr fun p hp => ?_
    have hlt : p.2 < ns.length := by simpa using (List.mem_zipIdx hp).2.1
    rw [List.take_append_of_le_length (Nat.le_of_lt hlt)]
  have hlast : n ∈ (ns ++ [n]).take ns.length ↔ n ∈ ns := by
    rw [List.take_left' rfl]
  by_cases hn : n ∈ ns <;>
    simp [laterOccurrences, List.zipIdx_append, List.filter_append, hold, hn]

theorem repeats_eq_laterOccurrences (names : List String) :
    repeats names = laterOccurrences names := by
  induction names using List.reverseRecOn with
  | nil => rfl
  | append_singleton ns n ih =>
    rw [repeats_append_singleton, laterOccurrences_append_singleton, ih]

theorem count_repeats (names : List String) (n : String) :
    (repeats names).count n = names.count n - 1 := by
  induction names using List.reverseRecOn with
  | nil => rfl
  | append_singleton ns m ih =>
    rw [repeats_append_singleton, List.count_append, ih, List.count_append]
    by_cases hm : m ∈ ns
    · have hpos : 0 < ns.count m := List.count_pos_iff.mpr hm
      by_cases h : n = m
      · subst h
        simp only [hm, if_true, List.count_singleton_self]
        omega
      · simp [hm, Ne.symm h]
    · by_cases h : n = m
      · subst h
        simp [hm, List.count_eq_zero_of_not_mem hm]
      · simp [hm, Ne.symm h]

theorem repeats_perm {names names' : List String} (h : names.Perm names') :
    (repeats names).Perm (repeats names') := by
  rw [List.perm_iff_count]
  intro n
  rw [count_repeats, count_repeats, h.count_eq]

/-! ## The repeat reports of a schema -/

namespace Issue

/-- Whether a problem reports a repeated block name of the kind `kind`. -/
def isDuplicateOf (kind : String) : Issue → Bool
  | .duplicate k _ => k == kind
  | _ => false

/-- Whether a problem reports a repeated member of the kind `kind`. -/
def isDuplicateMemberOf (kind : String) : Issue → Bool
  | .duplicateMember k _ _ => k == kind
  | _ => false

/-- Whether a problem reports a repeated name of any kind. -/
def isRepeat : Issue → Bool
  | .duplicate _ _ | .duplicateMember _ _ _ => true
  | _ => false

@[simp] theorem isRepeat_duplicate (kind name : String) : (duplicate kind name).isRepeat = true :=
  rfl

@[simp] theorem isRepeat_duplicateMember (kind owner name : String) :
    (duplicateMember kind owner name).isRepeat = true :=
  rfl

@[simp] theorem isDuplicateOf_duplicate (k k' name : String) :
    (duplicate k name).isDuplicateOf k' = (k == k') :=
  rfl

@[simp] theorem isDuplicateOf_duplicateMember (k k' owner name : String) :
    (duplicateMember k owner name).isDuplicateOf k' = false :=
  rfl

@[simp] theorem isDuplicateMemberOf_duplicate (k k' name : String) :
    (duplicate k name).isDuplicateMemberOf k' = false :=
  rfl

@[simp] theorem isDuplicateMemberOf_duplicateMember (k k' owner name : String) :
    (duplicateMember k owner name).isDuplicateMemberOf k' = (k == k') :=
  rfl

theorem isRepeat_of_isDuplicateOf {kind : String} {i : Issue} (h : i.isDuplicateOf kind = true) :
    i.isRepeat = true := by
  cases i <;> simp_all [isDuplicateOf, isRepeat]

theorem isRepeat_of_isDuplicateMemberOf {kind : String} {i : Issue}
    (h : i.isDuplicateMemberOf kind = true) : i.isRepeat = true := by
  cases i <;> simp_all [isDuplicateMemberOf, isRepeat]

end Issue

namespace Validation

open Issue

/-! Only the repeat checks report repeats. -/

theorem datasourceIssues_not_isRepeat (providers : List String) (d : Datasource) :
    ∀ i ∈ datasourceIssues providers d, i.isRepeat = false := by
  unfold datasourceIssues
  split
  · simp [isRepeat]
  · split <;> simp [isRepeat]
  · simp

theorem generatorIssues_not_isRepeat (g : Generator) :
    ∀ i ∈ generatorIssues g, i.isRepeat = false := by
  unfold generatorIssues
  split <;> simp [isRepeat]

theorem fieldAttributeIssues_not_isRepeat (target : String) (a : Attribute) :
    ∀ i ∈ fieldAttributeIssues target a, i.isRepeat = false := by
  unfold fieldAttributeIssues
  split
  · simp [isRepeat]
  · split <;> simp [isRepeat]

theorem blockAttributeIssues_not_isRepeat (owner : String) (a : Attribute) :
    ∀ i ∈ blockAttributeIssues owner a, i.isRepeat = false := by
  unfold blockAttributeIssues
  split <;> simp [isRepeat]

theorem relationIssues_not_isRepeat (s : Schema) (m : Model) (f : Field) :
    ∀ i ∈ relationIssues s m f, i.isRepeat = false := by
  unfold relationIssues
  split
  · simp
  · refine List.forall_mem_append.mpr ⟨?_, ?_⟩
    · split <;> simp [isRepeat]
    · split
      · split <;> simp [isRepeat]
      · simp

theorem filter_flatMap_of_not_isRepeat {α : Type} {l : List α} {f : α → List Issue}
    (h : ∀ a ∈ l, ∀ i ∈ f a, i.isRepeat = false) : (l.flatMap f).filter isRepeat = [] := by
  refine List.filter_eq_nil_iff.mpr fun i hi => ?_
  obtain ⟨a, ha, hi⟩ := List.mem_flatMap.mp hi
  simp [h a ha i hi]

theorem filter_map_duplicate (kind : String) (names : List String) :
    (names.map (duplicate kind)).filter isRepeat = names.map (duplicate kind) :=
  List.filter_eq_self.mpr (by simp)

theorem filter_map_duplicateMember (kind owner : String) (names : List String) :
    (names.map (duplicateMember kind owner)).filter isRepeat = names.map (duplicateMember kind owner) :=
  List.filter_eq_self.mpr (by simp)

theorem filter_fieldIssues (owner : String) (fields : List Field) :
    (fieldIssues owner fields).filter isRepeat =
      (repeats (fields.map (·.name))).map (duplicateMember "field" owner) := by
  rw [fieldIssues, List.filter_append, filter_map_duplicateMember,
    filter_flatMap_of_not_isRepeat, List.append_nil]
  intro f _ i hi
  rcases List.mem_append.mp hi with hi | hi
  · split at hi <;> simp_all [isRepeat]
  · obtain ⟨a, -, ha⟩ := List.mem_flatMap.mp hi
    exact fieldAttributeIssues_not_isRepeat _ a i ha

theorem filter_modelIssues (m : Model) :
    (modelIssues m).filter isRepeat =
      (repeats (m.fields.map (·.name))).map (duplicateMember "field" m.name) := by
  rw [modelIssues, List.filter_append, filter_fieldIssues,
    filter_flatMap_of_not_isRepeat fun a _ => blockAttributeIssues_not_isRepeat m.name a,
    List.append_nil]

theorem filter_enumIssues (e : Enum) :
    (enumIssues e).filter isRepeat =
      (repeats (e.values.map (·.name))).map (duplicateMember "enum value" e.name) := by
  unfold enumIssues
  rw [List.filter_append, List.filter_append, filter_map_duplicateMember]
  split <;> split <;> simp [isRepeat]

end Validation

namespace Schema

open Validation Issue

/-- The repeat reports of a schema, in the order of validation: repeated model names, then the
repeated field names of each model, repeated composite-type names, the repeated field names of
each composite type, and the repeated value names of each enum. -/
def repeatReports (s : Schema) : List Issue :=
  (repeats (s.models.map (·.name))).map (duplicate "model") ++
    s.models.flatMap (fun m => (repeats (m.fields.map (·.name))).map (duplicateMember "field" m.name)) ++
    (repeats (s.types.map (·.name))).map (duplicate "type") ++
    s.types.flatMap (fun t => (repeats (t.fields.map (·.name))).map (duplicateMember "field" t.name)) ++
    s.enums.flatMap (fun e => (repeats (e.values.map (·.name))).map (duplicateMember "enum value" e.name))

theorem diagnose_filter_isRepeat (providers : List String) (s : Schema) :
    (s.diagnose providers).filter isRepeat = s.repeatReports := by
  have hds : (s.datasources.flatMap (datasourceIssues providers)).filter isRepeat = [] :=
    filter_flatMap_of_not_isRepeat fun d _ => datasourceIssues_not_isRepeat providers d
  have hgs : (s.generators.flatMap generatorIssues).filter isRepeat = [] :=
    filter_flatMap_of_not_isRepeat fun g _ => generatorIssues_not_isRepeat g
  have hrel : (s.models.flatMap fun m => m.fields.flatMap (relationIssues s m)).filter isRepeat =
      [] := by
    refine filter_flatMap_of_not_isRepeat fun m _ i hi => ?_
    obtain ⟨f, -, hf⟩ := List.mem_flatMap.mp hi
    exact relationIssues_not_isRepeat s m f i hf
  simp only [diagnose, repeatReports, List.filter_append, hds, hgs, hrel, List.filter_flatMap,
    filter_map_duplicate, filter_modelIssues, filter_fieldIssues, filter_enumIssues,
    List.nil_append, List.append_nil]

theorem diagnose_filter_of_isRepeat (providers : List String) (s : Schema) {p : Issue → Bool}
    (hp : ∀ i, p i = true → i.isRepeat = true) :
    (s.diagnose providers).filter p = s.repeatReports.filter p := by
  rw [← diagnose_filter_isRepeat, List.filter_filter]
  refine List.filter_congr fun i _ => ?_
  cases h : p i
  · rfl
  · simp [hp i h]

/-! ## Reports by kind -/

@[simp] theorem flatMap_const_nil {α β : Type} (l : List α) :
    l.flatMap (fun _ => ([] : List β)) = [] :=
  List.flatMap_eq_nil_iff.mpr fun _ _ => rfl

theorem filter_repeatReports_model (s : Schema) :
    s.repeatReports.filter (isDuplicateOf "model") =
      (repeats (s.models.map (·.name))).map (duplicate "model") := by
  simp [repeatReports, List.filter_append, List.filter_map, List.filter_flatMap, Function.comp_def]

theorem filter_repeatReports_type (s : Schema) :
    s.repeatReports.filter (isDuplicateOf "type") =
      (repeats (s.types.map (·.name))).map (duplicate "type") := by
  simp [repeatReports, List.filter_append, List.filter_map, List.filter_flatMap, Function.comp_def]

theorem filter_repeatReports_field (s : Schema) :
    s.repeatReports.filter (isDuplicateMemberOf "field") =
      s.models.flatMap (fun m => (repeats (m.fields.map (·.name))).map (duplicateMember "field" m.name)) ++
        s.types.flatMap (fun t => (repeats (t.fields.map (·.name))).map (duplicateMember "field" t.name)) := by
  simp [repeatReports, List.filter_append, List.filter_map, List.filter_flatMap, Function.comp_def]

theorem filter_repeatReports_enumValue (s : Schema) :
    s.repeatReports.filter (isDuplicateMemberOf "enum value") =
      s.enums.flatMap (fun e => (repeats (e.values.map (·.name))).map
        (duplicateMember "enum value" e.name)) := by
  simp [repeatReports, List.filter_append, List.filter_map, List.filter_flatMap, Function.comp_def]

theorem count_flatMap_duplicateMember {α : Type} (l : List α) (owner : α → String)
    (names : α → List String) (kind o n : String) :
    (l.flatMap fun a => (repeats (names a)).map (duplicateMember kind (owner a))).count
        (duplicateMember kind o n) =
      ((l.filter (owner · == o)).map fun a => (names a).count n - 1).sum := by
  induction l with
  | nil => rfl
  | cons a l ih =>
    rw [List.flatMap_cons, List.count_append, ih, List.filter_cons]
    by_cases ho : owner a = o
    · have hinj : Function.Injective (duplicateMember kind o) := fun _ _ h => by cases h; rfl
      rw [ho, List.count_map_of_injective _ _ hinj, count_repeats]
      simp
    · have hzero : ((repeats (names a)).map (duplicateMember kind (owner a))).count
          (duplicateMember kind o n) = 0 :=
        List.count_eq_zero.mpr fun hm => by
          obtain ⟨x, -, hx⟩ := List.mem_map.mp hm
          cases hx
          exact ho rfl
      simp [hzero, ho]

theorem count_map_duplicate (kind : String) (names : List String) (n : String) :
    ((repeats names).map (duplicate kind)).count (duplicate kind n) = names.count n - 1 := by
  have hinj : Function.Injective (duplicate kind) := fun _ _ h => by cases h; rfl
  rw [List.count_map_of_injective _ _ hinj, count_repeats]

/-- The repeat reports of a schema, kind by kind. Repeated model names and repeated
composite-type names are reported once per repeat, at the places that repeat an earlier name, so
a name given `k` times is reported `k - 1` times. Repeated field names are reported model by model
and then composite type by composite type, and repeated enum values enum by enum, each block at
the places where it repeats a name, under the block's name: the reports of a member `n` under an
owner name `o` count the repeats of `n` in every block named `o`. -/
theorem diagnose_repeat_reports (providers : List String) (s : Schema) :
    (s.diagnose providers).filter (isDuplicateOf "model") =
        (laterOccurrences (s.models.map (·.name))).map (duplicate "model") ∧
      (s.diagnose providers).filter (isDuplicateOf "type") =
        (laterOccurrences (s.types.map (·.name))).map (duplicate "type") ∧
      (s.diagnose providers).filter (isDuplicateMemberOf "field") =
        s.models.flatMap (fun m => (laterOccurrences (m.fields.map (·.name))).map
            (duplicateMember "field" m.name)) ++
          s.types.flatMap (fun t => (laterOccurrences (t.fields.map (·.name))).map
            (duplicateMember "field" t.name)) ∧
      (s.diagnose providers).filter (isDuplicateMemberOf "enum value") =
        s.enums.flatMap (fun e => (laterOccurrences (e.values.map (·.name))).map
            (duplicateMember "enum value" e.name)) ∧
      (∀ n, (s.diagnose providers).count (duplicate "model" n) =
        (s.models.map (·.name)).count n - 1) ∧
      (∀ n, (s.diagnose providers).count (duplicate "type" n) =
        (s.types.map (·.name)).count n - 1) ∧
      (∀ o n, (s.diagnose providers).count (duplicateMember "field" o n) =
        ((s.models.filter (·.name == o)).map fun m => (m.fields.map (·.name)).count n - 1).sum +
          ((s.types.filter (·.name == o)).map fun t => (t.fields.map (·.name)).count n - 1).sum) ∧
      (∀ o n, (s.diagnose providers).count (duplicateMember "enum value" o n) =
        ((s.enums.filter (·.name == o)).map fun e => (e.values.map (·.name)).count n - 1).sum) := by
  have hmodel : (s.diagnose providers).filter (isDuplicateOf "model") =
      (repeats (s.models.map (·.name))).map (duplicate "model") := by
    rw [diagnose_filter_of_isRepeat providers s fun _ => isRepeat_of_isDuplicateOf,
      filter_repeatReports_model]
  have htype : (s.diagnose providers).filter (isDuplicateOf "type") =
      (repeats (s.types.map (·.name))).map (duplicate "type") := by
    rw [diagnose_filter_of_isRepeat providers s fun _ => isRepeat_of_isDuplicateOf,
      filter_repeatReports_type]
  have hfield : (s.diagnose providers).filter (isDuplicateMemberOf "field") =
      s.models.flatMap (fun m => (repeats (m.fields.map (·.name))).map (duplicateMember "field" m.name)) ++
        s.types.flatMap (fun t => (repeats (t.fields.map (·.name))).map (duplicateMember "field" t.name)) := by
    rw [diagnose_filter_of_isRepeat providers s fun _ => isRepeat_of_isDuplicateMemberOf,
      filter_repeatReports_field]
  have henum : (s.diagnose providers).filter (isDuplicateMemberOf "enum value") =
      s.enums.flatMap (fun e => (repeats (e.values.map (·.name))).map
        (duplicateMember "enum value" e.name)) := by
    rw [diagnose_filter_of_isRepeat providers s fun _ => isRepeat_of_isDuplicateMemberOf,
      filter_repeatReports_enumValue]
  have hcount : ∀ {p : Issue → Bool} {i : Issue}, p i = true →
      (s.diagnose providers).count i = ((s.diagnose providers).filter p).count i :=
    fun h => (List.count_filter h).symm
  refine ⟨?_, ?_, ?_, ?_, fun n => ?_, fun n => ?_, fun o n => ?_, fun o n => ?_⟩
  · simp only [hmodel, repeats_eq_laterOccurrences]
  · simp only [htype, repeats_eq_laterOccurrences]
  · simp only [hfield, repeats_eq_laterOccurrences]
  · simp only [henum, repeats_eq_laterOccurrences]
  · rw [hcount (p := isDuplicateOf "model") rfl, hmodel, count_map_duplicate]
  · rw [hcount (p := isDuplicateOf "type") rfl, htype, count_map_duplicate]
  · rw [hcount (p := isDuplicateMemberOf "field") rfl, hfield,
      List.count_append, count_flatMap_duplicateMember, count_flatMap_duplicateMember]
  · rw [hcount (p := isDuplicateMemberOf "enum value") rfl, henum,
      count_flatMap_duplicateMember]

/-- A model `M` and a composite type `M`, each with two fields `x`: each block repeats `x` once, yet
the repeated field `x` of `M` is reported twice, once for each block named `M`. -/
theorem diagnose_fields_shared_owner :
    (Schema.diagnose defaultProviders
        ⟨[], [], [⟨"M", [⟨"x", ⟨.named "Int", false, false⟩, []⟩,
          ⟨"x", ⟨.named "Int", false, false⟩, []⟩], []⟩], [],
          [⟨"M", [⟨"x", ⟨.named "Int", false, false⟩, []⟩,
            ⟨"x", ⟨.named "Int", false, false⟩, []⟩], []⟩]⟩).count
        (.duplicateMember "field" "M" "x") = 2 ∧
      (["x", "x"].count "x" - 1 = 1) := by
  decide

end Schema

end DbSchema
