import Mathlib.Algebra.BigOperators.Group.Finset.Basic
import Mathlib.Algebra.Order.BigOperators.Group.Finset
import Mathlib.Algebra.Order.Ring.Nat
import Mathlib.Logic.Function.Basic

/-! # Finite maps with a total lookup

A table is a lookup function together with the finite set of its keys. The order in which a hash
map walks over its keys is not part of it: a loop over a table takes the order as an argument.
-/

variable {κ ν : Type}

/-- A finite map. -/
structure Table (κ ν : Type) where
  keys : Finset κ
  get : κ → Option ν
  mem_keys : ∀ key, key ∈ keys ↔ (get key).isSome

namespace Table

def empty : Table κ ν := ⟨∅, fun _ => none, by simp⟩

/-- A table is determined by its lookups. -/
theorem ext_get {first second : Table κ ν} (same : ∀ key, first.get key = second.get key) :
    first = second := by
  have keys : first.keys = second.keys := by
    ext key
    rw [first.mem_keys, second.mem_keys, same]
  have lookups : first.get = second.get := funext same
  cases first
  cases second
  cases keys
  cases lookups
  rfl

def size (table : Table κ ν) : ℕ := table.keys.card

/-- Change every value in place. -/
def mapValues (table : Table κ ν) (change : κ → ν → ν) : Table κ ν where
  keys := table.keys
  get key := (table.get key).map (change key)
  mem_keys key := by simp [table.mem_keys]

/-- Keep the entries that satisfy a test. -/
def retain (table : Table κ ν) (keep : κ → ν → Bool) : Table κ ν where
  keys := table.keys.filter fun key => (table.get key).any (keep key)
  get key := (table.get key).filter (keep key)
  mem_keys key := by
    cases found : table.get key <;> simp [table.mem_keys, found, Option.filter]

/-- What the values of a table are mapped to, taken together. -/
def collect {α : Type} [DecidableEq α] (table : Table κ ν) (pick : ν → Finset α) : Finset α :=
  table.keys.biUnion fun key => ((table.get key).map pick).getD ∅

theorem mem_collect {α : Type} [DecidableEq α] {table : Table κ ν} {pick : ν → Finset α} {item : α} :
    item ∈ table.collect pick ↔ ∃ key value, table.get key = some value ∧ item ∈ pick value := by
  simp only [collect, Finset.mem_biUnion, table.mem_keys]
  constructor
  · rintro ⟨key, found, member⟩
    obtain ⟨value, same⟩ := Option.isSome_iff_exists.mp found
    exact ⟨key, value, same, by simpa [same] using member⟩
  · rintro ⟨key, value, same, member⟩
    exact ⟨key, by simp [same], by simpa [same] using member⟩

/-- The list names every key once. -/
def Enumerates (table : Table κ ν) (order : List κ) : Prop :=
  order.Nodup ∧ ∀ key, key ∈ order ↔ key ∈ table.keys

theorem enumerates_empty : (empty : Table κ ν).Enumerates [] := ⟨List.nodup_nil, by simp [empty]⟩

@[simp] theorem get_empty (key : κ) : (empty : Table κ ν).get key = none := rfl

@[simp] theorem size_empty : (empty : Table κ ν).size = 0 := rfl

@[simp] theorem get_mapValues (table : Table κ ν) (key : κ) (change : κ → ν → ν) :
    (table.mapValues change).get key = (table.get key).map (change key) := rfl

theorem get_of_not_mem (table : Table κ ν) {key : κ} (absent : key ∉ table.keys) :
    table.get key = none := by
  simpa [table.mem_keys] using absent

theorem keys_retain_subset (table : Table κ ν) (keep : κ → ν → Bool) :
    (table.retain keep).keys ⊆ table.keys := Finset.filter_subset _ _

@[simp] theorem get_retain (table : Table κ ν) (key : κ) (keep : κ → ν → Bool) :
    (table.retain keep).get key = (table.get key).filter (keep key) := rfl

theorem get_retain_key (table : Table κ ν) (key : κ) (keep : κ → Bool) :
    (table.retain fun key _ => keep key).get key = if keep key then table.get key else none := by
  rw [get_retain]
  cases keep key <;> cases table.get key <;> rfl

section Update

variable [DecidableEq κ] (table : Table κ ν) (key other : κ) (value : ν)

/-- Store a value, replacing an older one. -/
def insert : Table κ ν where
  keys := Insert.insert key table.keys
  get := Function.update table.get key (some value)
  mem_keys other := by
    by_cases same : other = key
    · simp [same]
    · simp [same, table.mem_keys]

def erase : Table κ ν where
  keys := table.keys.erase key
  get := Function.update table.get key none
  mem_keys other := by
    by_cases same : other = key
    · simp [same]
    · simp [same, table.mem_keys]

/-- Change the value under one key, if there is one. -/
def modify (change : ν → ν) : Table κ ν :=
  table.mapValues fun other => if other = key then change else id

theorem get_insert : (table.insert key value).get other =
    if other = key then some value else table.get other := by
  simp [insert, Function.update_apply]

theorem get_erase : (table.erase key).get other = if other = key then none else table.get other := by
  simp [erase, Function.update_apply]

theorem erase_absent {key : κ} (absent : table.get key = none) : table.erase key = table := by
  refine ext_get fun other => ?_
  rw [get_erase]
  split
  · rename_i same
    rw [same, absent]
  · rfl

/-- What a value replaces does not matter. -/
theorem insert_erase : (table.erase key).insert key value = table.insert key value := by
  apply ext_get
  intro other
  rw [get_insert, get_insert, get_erase]
  split <;> rfl

theorem get_modify (change : ν → ν) : (table.modify key change).get other =
    if other = key then (table.get key).map change else table.get other := by
  by_cases same : other = key
  · simp [modify, same]
  · simp [modify, same]

theorem insert_same {key : κ} {value : ν} (found : table.get key = some value) :
    table.insert key value = table := by
  refine ext_get fun other => ?_
  rw [get_insert]
  split
  · rename_i same
    rw [same, found]
  · rfl

theorem insert_insert (later : ν) :
    (table.insert key value).insert key later = table.insert key later := by
  refine ext_get fun other => ?_
  simp only [get_insert]
  split <;> rfl

theorem modify_insert (change : ν → ν) :
    (table.insert key value).modify key change = table.insert key (change value) := by
  refine ext_get fun other => ?_
  simp only [get_modify, get_insert, if_true, Option.map_some]
  split <;> rfl

theorem modify_modify (change later : ν → ν) :
    (table.modify key change).modify key later = table.modify key (later ∘ change) := by
  refine ext_get fun other => ?_
  simp only [get_modify, if_true, Option.map_map]
  split <;> rfl

/-- Changing an entry in place is storing the changed value. -/
theorem modify_eq_insert {key : κ} {value : ν} (change : ν → ν) (found : table.get key = some value) :
    table.modify key change = table.insert key (change value) := by
  refine ext_get fun other => ?_
  simp only [get_modify, get_insert, found, Option.map_some]

theorem modify_absent {key : κ} (change : ν → ν) (absent : table.get key = none) :
    table.modify key change = table := by
  refine ext_get fun other => ?_
  rw [get_modify]
  split
  · rename_i same
    rw [same, absent, Option.map_none]
  · rfl

@[simp] theorem keys_insert : (table.insert key value).keys = Insert.insert key table.keys := rfl

@[simp] theorem keys_erase : (table.erase key).keys = table.keys.erase key := rfl

/-- Storing a value under a known key makes no new key. -/
theorem keys_insert_known {key : κ} (known : (table.get key).isSome) :
    (table.insert key value).keys = table.keys :=
  Finset.insert_eq_self.mpr ((table.mem_keys key).mpr known)

@[simp] theorem keys_modify (change : ν → ν) : (table.modify key change).keys = table.keys := rfl

theorem size_insert_fresh {key : κ} (fresh : table.get key = none) :
    (table.insert key value).size = table.size + 1 := by
  have absent : key ∉ table.keys := by simp [table.mem_keys, fresh]
  exact Finset.card_insert_of_notMem absent

end Update

section Total

variable (table : Table κ ν) (weight : ν → ℕ)

/-- The sum of a weight over all entries. -/
def total : ℕ := ∑ key ∈ table.keys, (table.get key).elim 0 weight

@[simp] theorem total_empty : (empty : Table κ ν).total weight = 0 := rfl

/-- Weights of at most one add up to at most the size. -/
theorem total_le_size (small : ∀ value, weight value ≤ 1) : table.total weight ≤ table.size := by
  rw [total, size, Finset.card_eq_sum_ones]
  refine Finset.sum_le_sum fun key _ => ?_
  cases table.get key with
  | none => exact Nat.zero_le _
  | some value => exact small value

theorem total_mapValues (change : κ → ν → ν) (same : ∀ key value, weight (change key value) = weight value) :
    (table.mapValues change).total weight = table.total weight := by
  refine Finset.sum_congr rfl fun key _ => ?_
  rw [get_mapValues]
  cases table.get key <;> simp [same]

variable [DecidableEq κ]

/-- The weight of one entry is part of the total. -/
theorem total_eq_add {key : κ} {value : ν} (found : table.get key = some value) :
    table.total weight =
      weight value + ∑ other ∈ table.keys.erase key, (table.get other).elim 0 weight := by
  have member : key ∈ table.keys := (table.mem_keys key).mpr (by simp [found])
  rw [total, ← Finset.add_sum_erase _ _ member, found]
  rfl

theorem weight_le_total {key : κ} {value : ν} (found : table.get key = some value) :
    weight value ≤ table.total weight := by
  rw [total_eq_add table weight found]
  exact Nat.le_add_right _ _

/-- Some entry weighs something exactly when the total is not zero. -/
theorem total_ne_zero_iff :
    table.total weight ≠ 0 ↔ ∃ key value, table.get key = some value ∧ weight value ≠ 0 := by
  constructor
  · intro positive
    by_contra none_heavy
    push Not at none_heavy
    refine positive (Finset.sum_eq_zero fun key _ => ?_)
    cases found : table.get key with
    | none => rfl
    | some value => exact none_heavy key value found
  · rintro ⟨key, value, found, heavy⟩
    have := table.weight_le_total weight found
    omega

/-- A table whose weight lies in one entry weighs no more than that entry may. -/
theorem total_le_of_single (key : κ) {bound : ℕ}
    (others : ∀ other value, table.get other = some value → other ≠ key → weight value = 0)
    (fits : ∀ value, table.get key = some value → weight value ≤ bound) :
    table.total weight ≤ bound := by
  have rest : ∀ other ∈ table.keys, other ≠ key → (table.get other).elim 0 weight = 0 := by
    intro other _ apart
    cases found : table.get other with
    | none => rfl
    | some value => exact others other value found apart
  by_cases member : key ∈ table.keys
  · rw [total, Finset.sum_eq_single_of_mem key member rest]
    cases found : table.get key with
    | none => exact Nat.zero_le _
    | some value => exact fits value found
  · rw [total, Finset.sum_eq_zero fun other inside => ?_]
    · exact Nat.zero_le _
    · refine rest other inside ?_
      rintro rfl
      exact member inside

theorem total_insert_fresh {key : κ} (value : ν) (fresh : table.get key = none) :
    (table.insert key value).total weight = table.total weight + weight value := by
  have absent : key ∉ table.keys := by simp [table.mem_keys, fresh]
  have stored : (table.insert key value).get key = some value := by simp [get_insert]
  have others : (table.insert key value).keys.erase key = table.keys := Finset.erase_insert absent
  rw [total_eq_add _ weight stored, others, Nat.add_comm, total]
  congr 1
  refine Finset.sum_congr rfl fun other member => ?_
  rw [get_insert, if_neg]
  rintro rfl
  exact absent member

theorem total_erase_le (key : κ) : (table.erase key).total weight ≤ table.total weight := by
  have rest : ∀ other ∈ table.keys.erase key,
      ((table.erase key).get other).elim 0 weight = (table.get other).elim 0 weight := by
    intro other member
    rw [get_erase, if_neg (Finset.ne_of_mem_erase member)]
  calc (table.erase key).total weight
      = ∑ other ∈ table.keys.erase key, (table.get other).elim 0 weight := Finset.sum_congr rfl rest
    _ ≤ table.total weight := Finset.sum_le_sum_of_subset (Finset.erase_subset ..)

omit [DecidableEq κ] in
theorem total_retain_le (keep : κ → ν → Bool) : (table.retain keep).total weight ≤ table.total weight := by
  refine (Finset.sum_le_sum fun key _ => ?_).trans (Finset.sum_le_sum_of_subset (table.keys_retain_subset keep))
  rw [get_retain]
  cases table.get key with
  | none => rfl
  | some value =>
    rw [Option.filter_some]
    split_ifs
    · exact Nat.le_refl _
    · exact Nat.zero_le _

/-- Changing one entry exchanges its weight. -/
theorem total_modify {key : κ} {value : ν} (change : ν → ν) (found : table.get key = some value) :
    (table.modify key change).total weight + weight value =
      table.total weight + weight (change value) := by
  have stored : (table.modify key change).get key = some (change value) := by
    simp [get_modify, found]
  have rest : ∀ other ∈ table.keys.erase key,
      ((table.modify key change).get other).elim 0 weight = (table.get other).elim 0 weight := by
    intro other member
    rw [get_modify, if_neg (Finset.ne_of_mem_erase member)]
  rw [total_eq_add _ weight stored, total_eq_add _ weight found, keys_modify,
    Finset.sum_congr rfl rest]
  omega

/-- Taking an entry out takes its weight away. -/
theorem total_erase (key : κ) :
    (table.erase key).total weight + (table.get key).elim 0 weight = table.total weight := by
  have rest : ∀ other ∈ table.keys.erase key,
      ((table.erase key).get other).elim 0 weight = (table.get other).elim 0 weight := by
    intro other member
    rw [get_erase, if_neg (Finset.ne_of_mem_erase member)]
  have left : (table.erase key).total weight =
      ∑ other ∈ table.keys.erase key, (table.get other).elim 0 weight := Finset.sum_congr rfl rest
  cases found : table.get key with
  | none =>
    have absent : key ∉ table.keys := by simp [table.mem_keys, found]
    rw [left, Finset.erase_eq_of_notMem absent]
    rfl
  | some value => rw [left, total_eq_add table weight found, Nat.add_comm, Option.elim_some]

/-- Storing an entry exchanges the weight under its key. -/
theorem total_insert (key : κ) (value : ν) :
    (table.insert key value).total weight + (table.get key).elim 0 weight =
      table.total weight + weight value := by
  have fresh : (table.erase key).get key = none := by simp [get_erase]
  have stored : table.insert key value = (table.erase key).insert key value := by
    refine ext_get fun other => ?_
    simp only [get_insert, get_erase]
    split <;> rfl
  rw [stored, total_insert_fresh _ weight value fresh, ← table.total_erase weight key]
  omega

end Total

end Table
