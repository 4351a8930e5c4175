import Phrasebook.Template

/-! The registry finds units by kind and name. It holds each unit under its own key, so its order is
that of the keys, whatever order the units came in. -/

namespace Phrasebook

open Std

/-- The units of a template by key. -/
structure Registry where
  definitions : ExtTreeMap UnitKey Definition
  /-- Each unit is held under its own key. -/
  keyed : ∀ (key : UnitKey) (definition : Definition),
    definitions[key]? = some definition → definition.key = key

namespace Registry

def empty : Registry where
  definitions := ∅
  keyed := by simp

def get? (registry : Registry) (key : UnitKey) : Option Definition := registry.definitions[key]?

theorem key_of_get? {registry : Registry} {key : UnitKey} {definition : Definition}
    (h : registry.get? key = some definition) : definition.key = key :=
  registry.keyed key definition h

def contains (registry : Registry) (key : UnitKey) : Bool := registry.definitions.contains key

/-- Adds a unit; its key must be new. -/
def insert (registry : Registry) (definition : Definition) : Except TemplateError Registry :=
  if registry.contains definition.key then
    .error (.duplicateUnit definition.key)
  else
    .ok {
      definitions := registry.definitions.insert definition.key definition
      keyed := by
        intro key found h
        rw [ExtTreeMap.getElem?_insert] at h
        split at h
        · next heq => exact Option.some.inj h ▸ LawfulEqOrd.eq_of_compare heq
        · exact registry.keyed key found h }

/-- The registry of a list of units, unless two of them have one key. -/
def ofUnits (units : List Definition) : Except TemplateError Registry :=
  units.foldlM insert empty

def ofTemplate (template : Template) : Except TemplateError Registry := ofUnits template.units

/-- The unit with a key, which has to be there. -/
def resolve (registry : Registry) (key : UnitKey) : Except TemplateError Definition :=
  match registry.get? key with
  | some definition => .ok definition
  | none => .error (.undefinedUnit key)

theorem resolve_eq_ok_iff {registry : Registry} {key : UnitKey} {definition : Definition} :
    registry.resolve key = .ok definition ↔ registry.get? key = some definition := by
  unfold resolve
  split <;> simp_all

/-- The units in the order of their keys: aliases, slots, intents, each in the order of names. -/
def units (registry : Registry) : List Definition := registry.definitions.toList.map (·.2)

/-- The units of one kind in the order of their names. -/
def unitsOf (registry : Registry) (kind : UnitKind) : List Definition :=
  registry.units.filter (·.key.kind = kind)

def intents (registry : Registry) : List Definition := registry.unitsOf .intent

def countOf (registry : Registry) (kind : UnitKind) : Nat := (registry.unitsOf kind).length

def size (registry : Registry) : Nat := registry.definitions.size

/-- Every pool of every unit. -/
def pools (registry : Registry) : List PoolKey :=
  registry.units.flatMap fun definition => definition.poolNames.map (PoolKey.mk definition.key)

theorem mem_units_of_get? {registry : Registry} {key : UnitKey} {definition : Definition}
    (h : registry.get? key = some definition) : definition ∈ registry.units := by
  exact List.mem_map.mpr ⟨_, ExtTreeMap.mem_toList_iff_getElem?_eq_some.mpr h, rfl⟩

theorem mem_units_iff {registry : Registry} {definition : Definition} :
    definition ∈ registry.units ↔ registry.get? definition.key = some definition := by
  refine ⟨fun hmem => ?_, mem_units_of_get?⟩
  obtain ⟨⟨key, found⟩, hentry, rfl⟩ := List.mem_map.mp hmem
  have hfound := ExtTreeMap.mem_toList_iff_getElem?_eq_some.mp hentry
  rw [registry.keyed key found hfound]
  exact hfound

theorem map_key_units (registry : Registry) :
    registry.units.map (·.key) = registry.definitions.toList.map (·.1) := by
  unfold units
  rw [List.map_map]
  refine List.map_congr_left fun entry hentry => ?_
  exact registry.keyed _ _ (ExtTreeMap.mem_toList_iff_getElem?_eq_some.mp hentry)

/-- No two units have one key. -/
theorem nodup_units (registry : Registry) : (registry.units.map (·.key)).Nodup := by
  rw [map_key_units, List.Nodup, List.pairwise_map]
  refine registry.definitions.distinct_keys_toList.imp fun hcompare heq => hcompare ?_
  rw [heq]
  exact ReflCmp.compare_self

/-- The pool of any rules that a unit of the registry has is a pool of the registry. -/
theorem mem_pools {registry : Registry} {key : UnitKey} {definition : Definition}
    {variation : Option String} {rules : List Rule} (h : registry.get? key = some definition)
    (hrules : definition.rulesFor variation = .ok rules) :
    ⟨definition.key, variation⟩ ∈ registry.pools :=
  List.mem_flatMap.mpr ⟨definition, mem_units_of_get? h,
    List.mem_map.mpr ⟨variation, Definition.mem_poolNames_of_rulesFor hrules, rfl⟩⟩

/-- The number of pools that are not visited. -/
def freshPools (registry : Registry) (visited : List PoolKey) : Nat :=
  registry.pools.countP fun pool => !visited.contains pool

/-- Visiting a pool leaves fewer pools to visit, so that visits cannot be nested forever. -/
theorem freshPools_cons_lt {registry : Registry} {visited : List PoolKey} {key : UnitKey}
    {definition : Definition} {variation : Option String} {rules : List Rule}
    (h : registry.get? key = some definition)
    (hrules : definition.rulesFor variation = .ok rules)
    (hfresh : ⟨definition.key, variation⟩ ∉ visited) :
    registry.freshPools (⟨definition.key, variation⟩ :: visited) < registry.freshPools visited := by
  have hmem := mem_pools h hrules
  generalize (⟨definition.key, variation⟩ : PoolKey) = pool at hmem hfresh
  obtain ⟨before, after, hpools⟩ := List.append_of_mem hmem
  have hle (pools : List PoolKey) :
      pools.countP (fun other => !(pool :: visited).contains other) ≤
        pools.countP (fun other => !visited.contains other) :=
    List.countP_mono_left fun other _ => by simp_all
  have hbefore := hle before
  have hafter := hle after
  have hold : visited.contains pool = false := by simpa using hfresh
  have hnew : (pool :: visited).contains pool = true := by simp
  simp only [freshPools, hpools, List.countP_append, List.countP_cons, hold, hnew]
  simp only [Bool.not_false, Bool.not_true, ite_true, Bool.false_eq_true, ite_false]
  omega

end Registry

end Phrasebook
