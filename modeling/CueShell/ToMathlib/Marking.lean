import Mathlib.Data.Finset.Card
import Mathlib.Data.Finset.Insert
import Mathlib.Data.Finset.SDiff
import Mathlib.Data.Fintype.Card
import Mathlib.Logic.Relation

/-! # Marking what is reachable

Two loops over a graph that need not be a tree, and may have cycles. The first follows the one
outgoing edge of each node, with a stack of nodes to visit and a set of marked nodes; a visit may
fail. The second repeats passes over a list of edges until a pass adds nothing. Both take a number of
rounds, and enough rounds are given by the number of nodes.
-/

section Stack

variable {α ε : Type} [DecidableEq α]

/-- Mark the nodes of the stack and what they lead to. The value `none` stands for rounds that were
not enough. -/
def mark (visit : α → Except ε (Option α)) : ℕ → Finset α → List α → Option (Except ε (Finset α))
  | 0, _, _ => none
  | _ + 1, marked, [] => some (.ok marked)
  | rounds + 1, marked, node :: stack =>
      if node ∈ marked then mark visit rounds marked stack
      else
        match visit node with
        | .error error => some (.error error)
        | .ok next => mark visit rounds (insert node marked) (next.toList ++ stack)

/-- One edge of the graph. -/
def LeadsTo (visit : α → Except ε (Option α)) (node next : α) : Prop := visit node = .ok (some next)

/-- A node that some root leads to. -/
def Reaches (visit : α → Except ε (Option α)) (roots : List α) (node : α) : Prop :=
  ∃ root ∈ roots, Relation.ReflTransGen (LeadsTo visit) root node

variable {visit : α → Except ε (Option α)} {marked : Finset α} {stack : List α} {rounds : ℕ}

/-- Each round takes a node from the stack or marks a new one. -/
theorem mark_isSome (known : Finset α) (complete : ∀ node next, visit node = .ok next → node ∈ known)
    (enough : stack.length + (known \ marked).card < rounds) :
    ∃ result, mark visit rounds marked stack = some result := by
  induction rounds generalizing marked stack with
  | zero => omega
  | succ rounds ih =>
    cases stack with
    | nil => exact ⟨_, rfl⟩
    | cons node stack =>
      rw [List.length_cons] at enough
      rw [mark]
      split
      next => exact ih (by omega)
      next fresh =>
        cases visited : visit node with
        | error error => exact ⟨_, rfl⟩
        | ok next =>
          have isKnown : node ∈ known \ marked := Finset.mem_sdiff.mpr ⟨complete node next visited, fresh⟩
          have fewer : (known \ insert node marked).card < (known \ marked).card := by
            refine Finset.card_lt_card ⟨Finset.sdiff_subset_sdiff subset_rfl (Finset.subset_insert _ _), ?_⟩
            intro all
            simpa using all isKnown
          have short : next.toList.length ≤ 1 := by cases next <;> simp
          refine ih ?_
          rw [List.length_append]
          omega

/-- The marked nodes are closed but for the stack. -/
def ClosedBut (visit : α → Except ε (Option α)) (marked : Finset α) (stack : List α) : Prop :=
  ∀ node ∈ marked, ∀ next, LeadsTo visit node next → next ∈ marked ∨ next ∈ stack

theorem ClosedBut.insert {node : α} {next : Option α} (closed : ClosedBut visit marked (node :: stack))
    (visited : visit node = .ok next) :
    ClosedBut visit (insert node marked) (next.toList ++ stack) := by
  intro other member target edge
  rw [Finset.mem_insert] at member ⊢
  rcases member with rfl | member
  · right
    have same : next = some target := by
      rw [LeadsTo, visited] at edge
      exact Except.ok.inj edge
    simp [same]
  · rcases closed other member target edge with inside | waiting
    · exact .inl (.inr inside)
    · rcases List.mem_cons.mp waiting with rfl | waiting
      · exact .inl (.inl rfl)
      · exact .inr (List.mem_append_right _ waiting)

/-- What marking without an error leaves. -/
theorem mark_ok {all : Finset α} (closed : ClosedBut visit marked stack)
    (done : mark visit rounds marked stack = some (.ok all)) :
    marked ⊆ all ∧ (∀ node ∈ stack, node ∈ all) ∧ ClosedBut visit all [] ∧
      ∀ node ∈ all, node ∈ marked ∨ Reaches visit stack node ∧ ∃ next, visit node = .ok next := by
  induction rounds generalizing marked stack with
  | zero => exact absurd done (by simp [mark])
  | succ rounds ih =>
    cases stack with
    | nil =>
      obtain rfl : marked = all := by simpa [mark] using done
      exact ⟨subset_rfl, by simp, closed, fun node member => .inl member⟩
    | cons node stack =>
      rw [mark] at done
      split at done
      next old =>
        have closed' : ClosedBut visit marked stack := by
          intro other member target edge
          rcases closed other member target edge with inside | waiting
          · exact .inl inside
          · rcases List.mem_cons.mp waiting with rfl | waiting
            · exact .inl old
            · exact .inr waiting
        obtain ⟨grown, visited, whole, origin⟩ := ih closed' done
        refine ⟨grown, List.forall_mem_cons.mpr ⟨grown old, visited⟩, whole, fun other member => ?_⟩
        refine (origin other member).imp_right fun ⟨⟨root, inside, path⟩, read⟩ => ?_
        exact ⟨⟨root, List.mem_cons_of_mem _ inside, path⟩, read⟩
      next fresh =>
        cases visited : visit node with
        | error error => simp [visited] at done
        | ok next =>
          rw [visited] at done
          obtain ⟨grown, rest, whole, origin⟩ := ih (closed.insert visited) done
          refine ⟨(Finset.subset_insert _ _).trans grown, List.forall_mem_cons.mpr
            ⟨grown (Finset.mem_insert_self _ _), fun other member => rest other (by simp [member])⟩,
            whole, fun other member => ?_⟩
          rcases origin other member with old | ⟨⟨root, inside, path⟩, read⟩
          · rcases Finset.mem_insert.mp old with rfl | old
            · exact .inr ⟨⟨other, by simp, .refl⟩, next, visited⟩
            · exact .inl old
          · refine .inr ⟨?_, read⟩
            rcases List.mem_append.mp inside with inside | inside
            · obtain rfl := Option.mem_toList.mp inside
              exact ⟨node, by simp, .head visited path⟩
            · exact ⟨root, by simp [inside], path⟩

/-- Marking fails only at a node that the stack leads to. -/
theorem mark_error {error : ε} (failed : mark visit rounds marked stack = some (.error error)) :
    ∃ node, Reaches visit stack node ∧ visit node = .error error := by
  induction rounds generalizing marked stack with
  | zero => exact absurd failed (by simp [mark])
  | succ rounds ih =>
    cases stack with
    | nil => exact absurd failed (by simp [mark])
    | cons node stack =>
      rw [mark] at failed
      split at failed
      next =>
        obtain ⟨other, ⟨root, inside, path⟩, broken⟩ := ih failed
        exact ⟨other, ⟨root, List.mem_cons_of_mem _ inside, path⟩, broken⟩
      next =>
        cases visited : visit node with
        | error found =>
          obtain rfl : found = error := by simpa [visited] using failed
          exact ⟨node, ⟨node, by simp, .refl⟩, visited⟩
        | ok next =>
          rw [visited] at failed
          obtain ⟨other, ⟨root, inside, path⟩, broken⟩ := ih failed
          refine ⟨other, ?_, broken⟩
          rcases List.mem_append.mp inside with inside | inside
          · obtain rfl := Option.mem_toList.mp inside
            exact ⟨node, by simp, .head visited path⟩
          · exact ⟨root, by simp [inside], path⟩

/-- From an empty set, marking finds what the roots reach, and nothing else. -/
theorem mark_iff {all : Finset α} (done : mark visit rounds ∅ stack = some (.ok all)) (node : α) :
    node ∈ all ↔ Reaches visit stack node := by
  obtain ⟨-, rooted, closed, origin⟩ := mark_ok (by simp [ClosedBut]) done
  constructor
  · intro member
    rcases origin node member with none | ⟨reached, -⟩
    · exact absurd none (by simp)
    · exact reached
  · rintro ⟨root, inside, path⟩
    induction path with
    | refl => exact rooted root inside
    | tail _ edge ih =>
      rcases closed _ ih _ edge with member | none
      · exact member
      · exact absurd none (by simp)

end Stack

section Passes

variable {α : Type} [DecidableEq α]

/-- Add a node if its parent is in the set. -/
def growStep (grown : Finset α) (row : α × Option α) : Finset α :=
  if row.2.any (· ∈ grown) then insert row.1 grown else grown

/-- One pass over the nodes: those whose parent is in the set are added. -/
def growPass (rows : List (α × Option α)) (grown : Finset α) : Finset α := rows.foldl growStep grown

/-- Passes until the set does not grow. The value `none` stands for rounds that were not enough. -/
def growLoop (rows : List (α × Option α)) : ℕ → Finset α → Option (Finset α)
  | 0, _ => none
  | rounds + 1, grown =>
      let next := growPass rows grown
      if next.card = grown.card then some next else growLoop rows rounds next

/-- A node of the list with its parent. -/
def ChildIn (rows : List (α × Option α)) (parent node : α) : Prop := (node, some parent) ∈ rows

/-- Every node that descends from one of the set. -/
def Descends (rows : List (α × Option α)) (start : Finset α) (node : α) : Prop :=
  ∃ root ∈ start, Relation.ReflTransGen (ChildIn rows) root node

variable {rows : List (α × Option α)} {grown start : Finset α}

theorem mem_growStep {row : α × Option α} {node : α} :
    node ∈ growStep grown row ↔ node ∈ grown ∨ node = row.1 ∧ ∃ parent ∈ grown, row.2 = some parent := by
  obtain ⟨child, parent⟩ := row
  cases parent with
  | none => simp [growStep]
  | some parent =>
    by_cases inside : parent ∈ grown
    · simp [growStep, inside, or_comm]
    · simp [growStep, inside]

theorem subset_growPass (rows : List (α × Option α)) (grown : Finset α) : grown ⊆ growPass rows grown := by
  induction rows generalizing grown with
  | nil => exact Finset.Subset.refl grown
  | cons row rows ih =>
    exact Finset.Subset.trans (fun node member => mem_growStep.mpr (.inl member)) (ih (growStep grown row))

/-- What a pass adds are nodes of the list that descend from the set. -/
theorem mem_growPass {node : α} (part : List (α × Option α)) (inside : ∀ row ∈ part, row ∈ rows)
    (member : node ∈ growPass part grown) (origin : ∀ other ∈ grown, Descends rows start other) :
    Descends rows start node := by
  induction part generalizing grown with
  | nil => exact origin node member
  | cons row part ih =>
    obtain ⟨here, later⟩ := List.forall_mem_cons.mp inside
    refine ih later member fun other found => ?_
    rcases mem_growStep.mp found with old | ⟨rfl, parent, known, link⟩
    · exact origin other old
    · obtain ⟨root, rooted, path⟩ := origin parent known
      refine ⟨root, rooted, path.tail ?_⟩
      rwa [ChildIn, ← link]

/-- A pass adds every child of the set. -/
theorem child_mem_growPass {parent node : α} (child : ChildIn rows parent node) (member : parent ∈ grown) :
    node ∈ growPass rows grown := by
  induction rows generalizing grown with
  | nil => exact absurd child (by simp [ChildIn])
  | cons row rows ih =>
    rcases List.mem_cons.mp child with same | later
    · refine subset_growPass rows (growStep grown row) (mem_growStep.mpr (.inr ?_))
      rw [← same]
      exact ⟨rfl, parent, member, rfl⟩
    · exact ih later (mem_growStep.mpr (.inl member))

theorem growPass_subset (rows : List (α × Option α)) (grown : Finset α) :
    growPass rows grown ⊆ grown ∪ (rows.map Prod.fst).toFinset := by
  induction rows generalizing grown with
  | nil => simp [growPass]
  | cons row rows ih =>
    intro node member
    have later := ih (growStep grown row) member
    rw [Finset.mem_union, mem_growStep] at later
    rw [Finset.mem_union, List.map_cons, List.toFinset_cons, Finset.mem_insert]
    rcases later with (old | ⟨same, -⟩) | listed
    · exact .inl old
    · exact .inr (.inl same)
    · exact .inr (.inr listed)

/-- Every pass but the last adds a node of the list. -/
theorem growLoop_isSome {rounds : ℕ} (enough : ((rows.map Prod.fst).toFinset \ grown).card < rounds) :
    ∃ result, growLoop rows rounds grown = some result := by
  induction rounds generalizing grown with
  | zero => omega
  | succ rounds ih =>
    rw [growLoop]
    split
    next => exact ⟨_, rfl⟩
    next grew =>
      have larger := subset_growPass rows grown
      have proper : ¬ growPass rows grown ⊆ grown := fun all =>
        grew (congrArg Finset.card (Finset.Subset.antisymm all larger))
      obtain ⟨node, added, fresh⟩ := Finset.not_subset.mp proper
      have listed : node ∈ (rows.map Prod.fst).toFinset := by
        rcases Finset.mem_union.mp (growPass_subset rows grown added) with old | listed
        · exact absurd old fresh
        · exact listed
      refine ih (lt_of_lt_of_le (Finset.card_lt_card ⟨Finset.sdiff_subset_sdiff subset_rfl larger, ?_⟩)
        (by omega))
      intro all
      have kept := all (Finset.mem_sdiff.mpr ⟨listed, fresh⟩)
      exact (Finset.mem_sdiff.mp kept).2 added

/-- The loop ends with exactly the descendants of the set it starts from. -/
theorem growLoop_iff {rounds : ℕ} {all : Finset α} (origin : ∀ other ∈ grown, Descends rows start other)
    (within : start ⊆ grown) (done : growLoop rows rounds grown = some all) (node : α) :
    node ∈ all ↔ Descends rows start node := by
  induction rounds generalizing grown with
  | zero => exact absurd done (by simp [growLoop])
  | succ rounds ih =>
    have larger := subset_growPass rows grown
    have grownOrigin : ∀ other ∈ growPass rows grown, Descends rows start other := fun other member =>
      mem_growPass rows (fun _ listed => listed) member origin
    rw [growLoop] at done
    split at done
    next same =>
      obtain rfl := Option.some.inj done
      have fixed : growPass rows grown = grown :=
        (Finset.eq_of_subset_of_card_le larger same.le).symm
      refine ⟨grownOrigin node, ?_⟩
      rintro ⟨root, rooted, path⟩
      rw [fixed]
      clear ih
      induction path with
      | refl => exact within rooted
      | tail _ child inside => exact fixed ▸ child_mem_growPass child inside
    next => exact ih grownOrigin (within.trans larger) done

end Passes
