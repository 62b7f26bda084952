/-!
# Grouping by a key

The elements of a list are put into groups, one for each key, in the order in which the keys first appear;
inside a group they keep their order.

Main statements:

* `Grouping.mem_groups`: the group of a key holds exactly the elements of that key, in their order.
* `Grouping.groups_keys`: the keys of the groups are those of the elements, each once.
-/

namespace Exonym.Grouping

variable {κ α : Type} [DecidableEq κ]

/-- The elements of `entries` with their keys, collected key by key. -/
def groups (entries : List (κ × α)) : List (κ × List α) :=
  (entries.map (·.1)).eraseDups.map fun key =>
    (key, (entries.filter (·.1 = key)).map (·.2))

theorem groups_keys (entries : List (κ × α)) :
    (groups entries).map (·.1) = (entries.map (·.1)).eraseDups := by
  simp [groups, Function.comp_def]

theorem mem_groups {entries : List (κ × α)} {key : κ} {group : List α} :
    (key, group) ∈ groups entries ↔
      key ∈ entries.map (·.1) ∧ group = (entries.filter (·.1 = key)).map (·.2) := by
  simp only [groups, List.mem_map, List.mem_eraseDups, Prod.mk.injEq]
  constructor
  · rintro ⟨k, hk, rfl, rfl⟩
    exact ⟨hk, rfl⟩
  · rintro ⟨hk, rfl⟩
    exact ⟨key, hk, rfl, rfl⟩

end Exonym.Grouping
