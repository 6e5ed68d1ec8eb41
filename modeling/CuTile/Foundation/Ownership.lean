import Mathlib.Algebra.BigOperators.Pi
import Mathlib.Tactic.Abel

/-! # Ownership maps

Every resource has one owner at a time. A list accounts for an owner when it names each
resource of that owner once; handing a resource over moves it between such lists, and
moves its weight between the sums kept over them.
-/

namespace CuTile

open Function Finset

section Ownership

variable {Resource Owner : Type*} [DecidableEq Resource]

/-- `resources` names each resource of `owner` once. -/
structure AccountsFor (owns : Resource → Owner) (owner : Owner) (resources : List Resource) :
    Prop where
  nodup : resources.Nodup
  mem_iff : ∀ {resource}, resource ∈ resources ↔ owns resource = owner

namespace AccountsFor

variable {owns : Resource → Owner} {owner next : Owner} {resources : List Resource}
  {resource : Resource}

theorem frame (accounts : AccountsFor owns owner resources) (before : owns resource ≠ owner)
    (after : next ≠ owner) : AccountsFor (update owns resource next) owner resources := by
  refine ⟨accounts.nodup, fun {other} => ?_⟩
  rw [accounts.mem_iff]
  by_cases same : other = resource
  · subst same
    simp [before, after]
  · rw [update_of_ne same]

theorem take_last (accounts : AccountsFor owns owner (resources ++ [resource]))
    (after : next ≠ owner) : AccountsFor (update owns resource next) owner resources := by
  rcases List.nodup_append.mp accounts.nodup with ⟨nodup, _, apart⟩
  refine ⟨nodup, fun {other} => ?_⟩
  by_cases same : other = resource
  · subst same
    have absent : other ∉ resources := fun member => apart other member other (by simp) rfl
    simp [absent, after]
  · rw [update_of_ne same, ← accounts.mem_iff]
    simp [same]

theorem add_last (accounts : AccountsFor owns owner resources) (before : owns resource ≠ owner) :
    AccountsFor (update owns resource owner) owner (resources ++ [resource]) := by
  have absent : resource ∉ resources := fun member => before (accounts.mem_iff.mp member)
  refine ⟨?_, fun {other} => ?_⟩
  · refine List.nodup_append.mpr ⟨accounts.nodup, List.nodup_singleton resource, ?_⟩
    rintro other member last isLast rfl
    exact absent (List.mem_singleton.mp isLast ▸ member)
  · by_cases same : other = resource
    · subst same
      simp
    · rw [update_of_ne same, ← accounts.mem_iff]
      simp [same]

end AccountsFor

def handOver (owns : Resource → Owner) (resources : List Resource) (next : Owner) :
    Resource → Owner :=
  fun resource => if resource ∈ resources then next else owns resource

/-- What does not tell the old owners from the new one does not see the change. -/
theorem view_handOver {View : Type*} (view : Owner → View) {owns : Resource → Owner}
    {resources : List Resource} {next : Owner}
    (same : ∀ resource ∈ resources, view (owns resource) = view next) (resource : Resource) :
    view (handOver owns resources next resource) = view (owns resource) := by
  unfold handOver
  split_ifs with listed
  · exact (same resource listed).symm
  · rfl

namespace AccountsFor

variable {owns : Resource → Owner} {owner next : Owner} {resources others : List Resource}

theorem handOver_frame (accounts : AccountsFor owns owner others)
    (before : ∀ resource ∈ resources, owns resource ≠ owner) (after : next ≠ owner) :
    AccountsFor (handOver owns resources next) owner others := by
  refine ⟨accounts.nodup, fun {resource} => ?_⟩
  rw [accounts.mem_iff, handOver]
  split_ifs with listed
  · simp [before resource listed, after]
  · rfl

theorem handOver_all (accounts : AccountsFor owns owner resources) (after : next ≠ owner) :
    AccountsFor (handOver owns resources next) owner [] := by
  refine ⟨List.nodup_nil, fun {resource} => ?_⟩
  rw [handOver]
  split_ifs with listed
  · simp [after]
  · simpa [accounts.mem_iff] using listed

theorem handOver_append (accounts : AccountsFor owns next others) (nodup : resources.Nodup)
    (before : ∀ resource ∈ resources, owns resource ≠ next) :
    AccountsFor (handOver owns resources next) next (others ++ resources) := by
  refine ⟨?_, fun {resource} => ?_⟩
  · refine List.nodup_append.mpr ⟨accounts.nodup, nodup, ?_⟩
    rintro resource isOther same listed rfl
    exact before resource listed (accounts.mem_iff.mp isOther)
  · rw [List.mem_append, accounts.mem_iff, handOver]
    split_ifs with listed <;> simp [listed]

end AccountsFor

/-! ## Sums over the resources -/

variable {Weight : Type*} [AddCommMonoid Weight]

theorem sum_update_add (weight : Owner → Weight) (owns : Resource → Owner) (next : Owner)
    {resources : Finset Resource} {resource : Resource} (member : resource ∈ resources) :
    ∑ other ∈ resources, weight (update owns resource next other) +
        weight (owns resource) =
      ∑ other ∈ resources, weight (owns other) + weight next := by
  have moved : ∑ other ∈ resources, weight (update owns resource next other) =
      weight next + ∑ other ∈ resources \ {resource}, weight (owns other) := by
    rw [← sum_update_of_mem member]
    refine sum_congr rfl fun other _ => ?_
    exact congrFun (comp_update weight owns resource next) other
  rw [moved, ← sum_sdiff (singleton_subset_iff.mpr member), sum_singleton]
  abel

/-- Handing over a list of resources of equal weight to an owner without weight. -/
theorem sum_handOver_add (weight : Owner → Nat) {owns : Resource → Owner} (next : Owner)
    {resources : Finset Resource} {listed : List Resource} (nodup : listed.Nodup)
    (inside : ∀ resource ∈ listed, resource ∈ resources)
    (before : ∀ resource ∈ listed, weight (owns resource) = 1) (after : weight next = 0) :
    ∑ resource ∈ resources, weight (handOver owns listed next resource) + listed.length =
      ∑ resource ∈ resources, weight (owns resource) := by
  have counted : ∑ resource ∈ resources, (if resource ∈ listed then 1 else 0) = listed.length := by
    rw [← card_filter, ← List.toFinset_card_of_nodup nodup]
    congr 1
    ext resource
    simpa using inside resource
  rw [← counted, ← sum_add_distrib]
  refine sum_congr rfl fun resource _ => ?_
  unfold handOver
  split_ifs with isListed
  · rw [after, before resource isListed]
  · rfl

end Ownership

/-! ## Counting the resources of an owner -/

def Counts {Resource Owner : Type*} (owns : Resource → Owner) (owner : Owner) (count : Nat) :
    Prop :=
  ∃ resources : Finset Resource,
    (∀ resource, resource ∈ resources ↔ owns resource = owner) ∧ resources.card = count

namespace Counts

variable {Resource Owner : Type*} {owns : Resource → Owner} {owner next : Owner}
  {resource : Resource} {count : Nat}

theorem none (absent : ∀ resource, owns resource ≠ owner) : Counts owns owner 0 :=
  ⟨∅, by simpa using absent, rfl⟩

theorem positive (counts : Counts owns owner count) (holds : owns resource = owner) :
    0 < count := by
  obtain ⟨_, mem_iff, rfl⟩ := counts
  exact card_pos.mpr ⟨resource, (mem_iff resource).mpr holds⟩

theorem exists_of_pos (counts : Counts owns owner count) (positive : 0 < count) :
    ∃ resource, owns resource = owner := by
  obtain ⟨_, mem_iff, rfl⟩ := counts
  obtain ⟨resource, member⟩ := card_pos.mp positive
  exact ⟨resource, (mem_iff resource).mp member⟩

variable [DecidableEq Resource]

theorem enter (counts : Counts owns owner count) (before : owns resource ≠ owner) :
    Counts (update owns resource owner) owner (count + 1) := by
  obtain ⟨resources, mem_iff, rfl⟩ := counts
  have absent : resource ∉ resources := fun member => before ((mem_iff resource).mp member)
  refine ⟨insert resource resources, fun other => ?_, card_insert_of_notMem absent⟩
  by_cases isResource : other = resource
  · simp [isResource]
  · simp [isResource, mem_iff]

theorem leave (counts : Counts owns owner count) (before : owns resource = owner)
    (after : next ≠ owner) : Counts (update owns resource next) owner (count - 1) := by
  obtain ⟨resources, mem_iff, rfl⟩ := counts
  refine ⟨resources.erase resource, fun other => ?_,
    card_erase_of_mem ((mem_iff resource).mpr before)⟩
  by_cases isResource : other = resource
  · simp [isResource, after]
  · simp [isResource, mem_iff]

end Counts

end CuTile
