import CmsVariables.Path.Basic

/-!
# The order of paths

Paths are ordered step by step: the root comes first, then the dot, the double dot and the names in
the order of their characters. So a directory stands directly before what lies in it, and paths
that differ only in empty segments or inner dots stand side by side. `distinct` sorts paths and
keeps the first one of those with the same steps.
-/

namespace CmsVariables.Path

namespace Component

/-- The kinds of steps in their order. -/
def rank : Component → Nat
  | root => 0
  | current => 1
  | up => 2
  | name _ => 3

/-- The text of a name. -/
def text : Component → String
  | name s => s
  | _ => ""

/-- The first step comes before the second one. -/
def before (a b : Component) : Bool :=
  decide (a.rank < b.rank) || (a.rank == b.rank && decide (a.text < b.text))

end Component

/-- The steps of `p` come before those of `q`: at the first difference, or because they end there. -/
def before (p q : Path) : Bool := List.lex p.components q.components Component.before

/-- The two paths take the same steps. -/
def sameSteps (p q : Path) : Bool := p.components == q.components

/-- Of neighbours that take the same steps, only the first. -/
def dropRepeats : List Path → List Path
  | [] => []
  | p :: ps =>
    match dropRepeats ps with
    | [] => [p]
    | q :: qs => if p.sameSteps q then p :: qs else p :: q :: qs

/-- The paths in order; of paths that take the same steps the first one given. -/
def distinct (ps : List Path) : List Path :=
  dropRepeats (ps.mergeSort fun p q => !q.before p)

end CmsVariables.Path
