import Mathlib.Order.Lattice
import Mathlib.Data.List.Basic

/-! # Sorted entries

An ordered map as the list of its entries. Entries are put one by one; the last value that is put under a
key is the one found there, and sorted entries are determined by what is found in them.
-/

namespace SortedEntries

variable {κ ν : Type} [LinearOrder κ]

/-- Put a value under a key, behind the smaller keys. -/
def put (key : κ) (value : ν) : List (κ × ν) → List (κ × ν)
  | [] => [(key, value)]
  | (other, old) :: rest =>
      if key = other then (key, value) :: rest
      else if key < other then (key, value) :: (other, old) :: rest
      else (other, old) :: put key value rest

/-- The first value under a key. -/
def get (entries : List (κ × ν)) (key : κ) : Option ν :=
  (entries.find? fun entry => decide (entry.1 = key)).map Prod.snd

def putAll (pairs entries : List (κ × ν)) : List (κ × ν) :=
  pairs.foldl (fun entries pair => put pair.1 pair.2 entries) entries

def Sorted (entries : List (κ × ν)) : Prop := entries.Pairwise fun first second => first.1 < second.1

variable {key other : κ} {value : ν} {entries pairs : List (κ × ν)}

@[simp] theorem get_nil : get ([] : List (κ × ν)) key = none := rfl

theorem get_cons (entry : κ × ν) :
    get (entry :: entries) key = if entry.1 = key then some entry.2 else get entries key := by
  by_cases same : entry.1 = key
  · simp [get, same]
  · simp [get, same]

theorem get_append (front back : List (κ × ν)) :
    get (front ++ back) key = (get front key).or (get back key) := by
  induction front with
  | nil => rfl
  | cons entry front ih =>
    rw [List.cons_append, get_cons, get_cons, ih]
    split_ifs <;> rfl

theorem get_put : get (put key value entries) other =
    if key = other then some value else get entries other := by
  induction entries with
  | nil => exact get_cons (key, value)
  | cons entry entries ih =>
    obtain ⟨first, old⟩ := entry
    rw [put]
    by_cases same : key = first
    · rw [if_pos same, get_cons, get_cons, same]
      split_ifs <;> rfl
    rw [if_neg same]
    by_cases before : key < first
    · rw [if_pos before, get_cons]
    · rw [if_neg before, get_cons, get_cons, ih]
      dsimp only
      split_ifs with isFirst isKey
      · exact absurd (isKey.trans isFirst.symm) same
      all_goals rfl

theorem get_putAll (entries : List (κ × ν)) :
    get (putAll pairs entries) key = (get pairs.reverse key).or (get entries key) := by
  induction pairs generalizing entries with
  | nil => rfl
  | cons pair pairs ih =>
    rw [putAll, List.foldl_cons, ← putAll, ih, List.reverse_cons, get_append, Option.or_assoc, get_put,
      get_cons]
    split_ifs <;> rfl

section Order

theorem mem_put {entry : κ × ν} (member : entry ∈ put key value entries) :
    entry = (key, value) ∨ entry ∈ entries := by
  induction entries with
  | nil => exact .inl (List.mem_singleton.mp member)
  | cons head entries ih =>
    rw [put] at member
    split_ifs at member
    · rcases List.mem_cons.mp member with new | old
      · exact .inl new
      · exact .inr (List.mem_cons_of_mem _ old)
    · exact List.mem_cons.mp member
    · rcases List.mem_cons.mp member with first | later
      · exact .inr (first ▸ List.mem_cons_self)
      · exact (ih later).imp id (List.mem_cons_of_mem _)

theorem mem_putAll {entry : κ × ν} (member : entry ∈ putAll pairs entries) :
    entry ∈ pairs ∨ entry ∈ entries := by
  induction pairs generalizing entries with
  | nil => exact .inr member
  | cons pair pairs ih =>
    rcases ih member with later | put
    · exact .inl (List.mem_cons_of_mem _ later)
    · rcases mem_put put with rfl | old
      · exact .inl List.mem_cons_self
      · exact .inr old

theorem Sorted.put (sorted : Sorted entries) (key : κ) (value : ν) : Sorted (put key value entries) := by
  induction entries with
  | nil => exact List.pairwise_singleton _ _
  | cons head entries ih =>
    obtain ⟨above, sorted⟩ := List.pairwise_cons.mp sorted
    rw [SortedEntries.put]
    split_ifs with same before
    · exact List.pairwise_cons.mpr ⟨by simpa [same] using above, sorted⟩
    · refine List.pairwise_cons.mpr ⟨fun entry member => ?_, List.pairwise_cons.mpr ⟨above, sorted⟩⟩
      rcases List.mem_cons.mp member with rfl | later
      · exact before
      · exact before.trans (above entry later)
    · refine List.pairwise_cons.mpr ⟨fun entry member => ?_, ih sorted⟩
      rcases mem_put member with rfl | old
      · exact lt_of_le_of_ne (not_lt.mp before) (Ne.symm same)
      · exact above entry old

theorem Sorted.putAll (sorted : Sorted entries) (pairs : List (κ × ν)) : Sorted (putAll pairs entries) := by
  induction pairs generalizing entries with
  | nil => exact sorted
  | cons pair pairs ih => exact ih (sorted.put pair.1 pair.2)

theorem get_eq_none_of_above (above : ∀ entry ∈ entries, key < entry.1) : get entries key = none := by
  induction entries with
  | nil => rfl
  | cons head entries ih =>
    obtain ⟨first, above⟩ := List.forall_mem_cons.mp above
    rw [get_cons, if_neg first.ne', ih above]

/-- Sorted entries in which the same is found are the same. -/
theorem Sorted.ext {others : List (κ × ν)} (sorted : Sorted entries) (sorted' : Sorted others)
    (same : ∀ key, get entries key = get others key) : entries = others := by
  induction entries generalizing others with
  | nil =>
    cases others with
    | nil => rfl
    | cons head others =>
      have found := same head.1
      rw [get_cons, if_pos rfl] at found
      exact absurd found (Option.some_ne_none _).symm
  | cons head entries ih =>
    obtain ⟨above, sorted⟩ := List.pairwise_cons.mp sorted
    cases others with
    | nil =>
      have found := same head.1
      rw [get_cons, if_pos rfl] at found
      exact absurd found (Option.some_ne_none _)
    | cons head' others =>
      obtain ⟨above', sorted'⟩ := List.pairwise_cons.mp sorted'
      -- the least keys agree, since a smaller one would be found on one side only
      have least : head.1 = head'.1 := by
        rcases lt_trichotomy head.1 head'.1 with less | equal | less
        · have found := same head.1
          rw [get_cons, if_pos rfl, get_cons, if_neg less.ne',
            get_eq_none_of_above fun entry member => less.trans (above' entry member)] at found
          exact absurd found (Option.some_ne_none _)
        · exact equal
        · have found := same head'.1
          rw [get_cons, if_neg less.ne', get_cons, if_pos rfl,
            get_eq_none_of_above fun entry member => less.trans (above entry member)] at found
          exact absurd found (Option.some_ne_none _).symm
      have value : head.2 = head'.2 := by
        have found := same head.1
        rw [get_cons, if_pos rfl, get_cons, if_pos least.symm] at found
        exact Option.some_inj.mp found
      have tails : entries = others := by
        refine ih sorted sorted' fun key => ?_
        have found := same key
        rw [get_cons, get_cons, ← least, ← value] at found
        by_cases isHead : head.1 = key
        · rw [← isHead, get_eq_none_of_above above, least, get_eq_none_of_above above']
        · rwa [if_neg isHead, if_neg isHead] at found
      rw [tails, Prod.ext least value]

theorem Sorted.get_reverse (sorted : Sorted entries) (key : κ) :
    get entries.reverse key = get entries key := by
  induction entries with
  | nil => rfl
  | cons head entries ih =>
    obtain ⟨above, sorted⟩ := List.pairwise_cons.mp sorted
    rw [List.reverse_cons, get_append, ih sorted, get_cons, get_cons, get_nil]
    split_ifs with isHead
    · rw [← isHead, get_eq_none_of_above above, Option.none_or]
    · exact Option.or_none

/-- Pairs that are collected first are put as they would be one by one. -/
theorem Sorted.putAll_collected (sorted : Sorted entries) (pairs : List (κ × ν)) :
    SortedEntries.putAll (SortedEntries.putAll pairs []) entries = SortedEntries.putAll pairs entries := by
  have collected : Sorted (SortedEntries.putAll pairs []) := Sorted.putAll List.Pairwise.nil pairs
  refine (sorted.putAll _).ext (sorted.putAll _) fun key => ?_
  rw [get_putAll, get_putAll, collected.get_reverse, get_putAll, get_nil, Option.or_none]

/-- Pairs change nothing if the last value under each key is already there. -/
theorem Sorted.putAll_eq_self (sorted : Sorted entries) (pairs : List (κ × ν)) :
    SortedEntries.putAll pairs entries = entries ↔
      ∀ key value, get pairs.reverse key = some value → get entries key = some value := by
  constructor
  · intro same key value last
    have found := @get_putAll κ ν _ key pairs entries
    rw [same, last] at found
    exact found
  · intro there
    refine (sorted.putAll _).ext sorted fun key => ?_
    rw [get_putAll]
    cases last : get pairs.reverse key with
    | none => rfl
    | some value => exact (there key value last).symm

end Order

end SortedEntries
