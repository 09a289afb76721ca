import CmsVariables.FileTree.Basic

/-!
# What changed in a tree

The program never removes anything, so what a run did to a tree is the list of entries that are new
or different after it.
-/

namespace CmsVariables.FileTree

/-- The entries of a tree that `before` does not have, or has otherwise. -/
def changesSince (t before : FileTree) : List (Address × Entry) :=
  t.entries.filter fun p => before.get? p.1 != some p.2

theorem mem_changesSince {t before : FileTree} {a : Address} {e : Entry} :
    (a, e) ∈ t.changesSince before ↔ a ≠ [] ∧ t.get? a = some e ∧ before.get? a ≠ some e := by
  rw [changesSince, List.mem_filter, mem_entries_iff, bne_iff_ne, and_assoc]

end CmsVariables.FileTree
