import CmsVariables.Discovery
import CmsVariables.Proofs.Glob.Following
import CmsVariables.Proofs.Path.Order
import CmsVariables.Proofs.Path.Spelling

/-!
# What includes lead to

A source file is found below the place that an include names, or below the base if there are no
includes. Its path is spelled as that of the place, with the names on the way down added. A pattern
leads to paths with double dots only where one of its components matches the double dot, and such a
component has to begin with a dot.

* `mem_discover`: how the path of a source file is spelled.
* `KeepsDown`: the includes that never lead up.
* `notMem_steps_of_mem_discover`: with these there are no double dots in the paths found.
-/

namespace CmsVariables

namespace Discovery

variable {d : Disk} {q : Discovery} {p : Path}

/-- What a walk meets has the path of its start, with names added. -/
theorem exists_below_of_mem_walk {start : Path} {vs : List Disk.Visit} {v : Disk.Visit}
    (hwalk : d.walk start = .ok vs) (hmem : v ∈ vs) :
    ∃ ns : List EntryName, v.path = start.below ns := by
  rw [Disk.walk] at hwalk
  split at hwalk
  · cases hwalk
  split at hwalk
  · cases hwalk
  · cases hwalk
    rcases List.mem_cons.mp hmem with rfl | hbelow
    · exact ⟨[], rfl⟩
    · obtain ⟨b, -, rfl⟩ := List.mem_map.mp hbelow
      exact ⟨b.1, rfl⟩
  · cases hwalk
    rw [List.mem_singleton.mp hmem]
    exact ⟨[], rfl⟩

theorem exists_below_of_mem_sourcesFrom {start : Path} (h : p ∈ sourcesFrom d q start) :
    ∃ ns : List EntryName, p = start.below ns := by
  rw [sourcesFrom] at h
  split at h
  · rename_i vs hwalk
    obtain ⟨v, hv, rfl⟩ := List.mem_map.mp h
    exact exists_below_of_mem_walk hwalk (List.mem_filter.mp hv).1
  · cases h

theorem mem_discover (h : p ∈ (discover d q).files) :
    ∃ start ∈ starts d q, ∃ ns : List EntryName, p = start.below ns := by
  obtain ⟨start, hstart, hp⟩ := List.mem_flatMap.mp (Path.mem_of_mem_distinct h)
  exact ⟨start, hstart, exists_below_of_mem_sourcesFrom hp⟩

/-- An include that names one place, without a step up. -/
def IsPlain (place : String) : Prop :=
  Glob.isGlob place = false ∧ ".." ∉ (Path.ofText place).steps

/-- An include that never leads up from the base: it names one place without a step up, or it is a
pattern and no component that is followed matches the double dot. -/
inductive KeepsDown (base : Path) (place : String) : Prop where
  | plain (h : IsPlain place)
  | pattern (hglob : Glob.isGlob place = true)
      (h : ∀ c ∈ (base.join (.ofText place)).segments, ¬Glob.LeadsUp c)

theorem notMem_steps_of_mem_expand {pattern : Path} {found : List Path}
    (h : Glob.expand d pattern = .ok found) (hpattern : ∀ c ∈ pattern.segments, ¬Glob.LeadsUp c) :
    ∀ p ∈ found, ".." ∉ p.steps := by
  have hchild (p : Path) (s : String) (hp : ".." ∉ p.steps) (hs : s ≠ "..") :
      ".." ∉ (p.child s).steps := by
    rw [Path.child, Path.steps_join, if_neg Bool.false_ne_true, List.mem_append, not_or]
    exact ⟨hp, fun hmem => hs (List.mem_singleton.mp (List.mem_filter.mp hmem).1).symm⟩
  have hstart : ".." ∉ (if pattern.rooted then Path.root else .ofText ".").steps := by
    split
    · decide
    · decide
  refine Glob.forall_mem_expand hchild (fun n => n.isStep.2) h hstart ?_
  intro c hc compiled hcompile s hs
  rintro rfl
  have hup : Glob.LeadsUp c := by
    cases hs with
    | text hliteral =>
      obtain rfl := Glob.eq_literal_of_literal? hliteral
      exact ⟨_, hcompile, rfl, by decide⟩
    | dots hhead _ haccepts => exact ⟨compiled, hcompile, hhead, haccepts⟩
  rcases Glob.mem_of_mem_componentsOf hc with hc | rfl
  · exact hpattern c hc hup
  · obtain ⟨p, hp, hhead, -⟩ := hup
    obtain rfl : p = [] := Except.ok.inj (hp.symm.trans (Glob.compile_of_plain (by decide)))
    cases hhead

theorem notMem_steps_of_mem_starts {start : Path} (hbase : ".." ∉ q.base.steps)
    (hincludes : ∀ s ∈ q.includes, KeepsDown q.base s) (h : start ∈ starts d q) :
    ".." ∉ start.steps := by
  rw [starts] at h
  split at h
  · exact List.mem_singleton.mp h ▸ hbase
  obtain ⟨place, hplace, hstart⟩ := List.mem_flatMap.mp h
  rw [startsOf] at hstart
  cases hincludes place hplace with
  | plain hplain =>
    rw [hplain.1, if_neg Bool.false_ne_true] at hstart
    split at hstart
    · obtain rfl : start = q.base.join (.ofText place) := List.mem_singleton.mp hstart
      rw [Path.steps_join]
      split
      · exact hplain.2
      · rw [List.mem_append]
        exact not_or.mpr ⟨hbase, hplain.2⟩
    · cases hstart
  | pattern hglob hpattern =>
    rw [hglob, if_pos rfl] at hstart
    split at hstart
    · rename_i found hexpand
      exact notMem_steps_of_mem_expand hexpand hpattern _ (List.mem_filter.mp hstart).1
    · cases hstart

theorem notMem_steps_of_mem_discover (hbase : ".." ∉ q.base.steps)
    (hincludes : ∀ s ∈ q.includes, KeepsDown q.base s) (h : p ∈ (discover d q).files) :
    ".." ∉ p.steps := by
  obtain ⟨start, hstart, ns, rfl⟩ := mem_discover h
  rw [Path.steps_below, List.mem_append]
  rintro (hmem | hmem)
  · exact notMem_steps_of_mem_starts hbase hincludes hstart hmem
  · obtain ⟨n, -, hn⟩ := List.mem_map.mp hmem
    exact n.isStep.2 hn

end Discovery

end CmsVariables
