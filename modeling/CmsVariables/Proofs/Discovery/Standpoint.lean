import CmsVariables.Proofs.Discovery.Includes
import CmsVariables.Proofs.FileTree.Correspondence

/-!
# Searching from a rooted path

A path from the root leads to the same place wherever one stands. A search from such a path meets
paths from the root only, as do the patterns that it expands. So it finds the same files from every
working directory.

* `seenFrom_correspondence`: what does not depend on the working directory.
* `Glob.expand_eq_of_tree`: what patterns from the root stand for.
* `discover_eq_of_tree`: what a search from the root finds.
-/

namespace CmsVariables

open FileTree

namespace Disk

variable {d d' : Disk} {p : Path}

/-- The same files, seen from another working directory. -/
def seenFrom (d : Disk) (a : Address) : Disk := { d with here := a }

theorem seenFrom_tree (d : Disk) (a b : Address) : (d.seenFrom b).tree = (d.seenFrom a).tree := rfl

/-- Disks with the same files correspond on paths from the root. -/
theorem seenFrom_correspondence :
    Correspondence (fun d d' => d'.tree = d.tree) fun p => p.rooted = true where
  resolve {d d' p} h hp purpose := by
    unfold Disk.resolve FileTree.resolve
    simp only [h, hp, if_true]
  get? h _ _ := by rw [h]
  hasRoom h _ _ := by rw [h]
  put h _ _ _ := by
    unfold Disk.put
    rw [h]
  parent p q hp hq := (Path.segments_of_parent? hq).1.trans hp
  trimmed hp := hp

section SameTree

variable (h : d'.tree = d.tree) (hp : p.rooted = true)
include h hp

theorem walk_eq_of_tree : d'.walk p = d.walk p := by
  unfold walk
  rw [seenFrom_correspondence.entryAt_eq h hp, seenFrom_correspondence.stat_eq h hp, h]

theorem namesIn_eq_of_tree : d'.namesIn p = d.namesIn p := by
  unfold namesIn
  rw [seenFrom_correspondence.stat_eq h hp, h]

end SameTree

end Disk

/-! ## Expanding patterns -/

namespace Glob

open Disk

/-- The same paths, all of them from the root. -/
structure SameRooted (ps ps' : List Path) : Prop where
  same : ps' = ps
  rooted : ∀ p ∈ ps, p.rooted = true

/-- From paths from the root both functions give the same paths from the root. -/
def AgreeRooted (f f' : Path → List Path) : Prop :=
  ∀ p, p.rooted = true → SameRooted (f p) (f' p)

variable {d d' : Disk} {dirs : Bool} {p : Path} {ps ps' qs qs' : List Path}
  {f f' : Path → List Path}

namespace SameRooted

theorem nil : SameRooted [] [] := ⟨rfl, List.forall_mem_nil _⟩

theorem singleton (hp : p.rooted = true) : SameRooted [p] [p] := ⟨rfl, by simpa using hp⟩

theorem append (h : SameRooted ps ps') (h' : SameRooted qs qs') :
    SameRooted (ps ++ qs) (ps' ++ qs') := by
  refine ⟨by rw [h.same, h'.same], fun p hp => ?_⟩
  exact (List.mem_append.mp hp).elim (h.rooted p) (h'.rooted p)

theorem flatMap (h : SameRooted ps ps') (hf : AgreeRooted f f') :
    SameRooted (ps.flatMap f) (ps'.flatMap f') := by
  constructor
  · rw [h.same]
    exact List.flatMap_congr fun p hp => (hf p (h.rooted p hp)).same
  · intro q hq
    obtain ⟨p, hp, hq⟩ := List.mem_flatMap.mp hq
    exact (hf p (h.rooted p hp)).rooted q hq

theorem child (names : List String) (hp : p.rooted = true) :
    SameRooted (names.map p.child) (names.map p.child) := by
  refine ⟨rfl, fun q hq => ?_⟩
  obtain ⟨name, -, rfl⟩ := List.mem_map.mp hq
  rw [Path.rooted_child, hp]

end SameRooted

namespace Search

variable (h : d'.tree = d.tree)
include h

theorem isDirectory_agree (hp : p.rooted = true) : d'.isDirectory p = d.isDirectory p :=
  seenFrom_correspondence.isDirectory_eq h hp

theorem keep_agree : AgreeRooted (Search.mk d dirs).keep (Search.mk d' dirs).keep := by
  intro p hp
  unfold keep
  simp only [isDirectory_agree h hp]
  split
  · exact .singleton hp
  · exact .nil

theorem children_agree :
    AgreeRooted (Search.mk d dirs).children (Search.mk d' dirs).children := by
  intro p hp
  unfold children
  simp only [namesIn_eq_of_tree h hp]
  have hnames := SameRooted.child (((d.namesIn p).mergeSort fun m n =>
    decide (m.text ≤ n.text)).map EntryName.text) hp
  rw [List.map_map] at hnames
  exact hnames

theorem leadsTo_agree (hp : p.rooted = true) (name : String) :
    (Search.mk d' dirs).leadsTo p name = (Search.mk d dirs).leadsTo p name := by
  unfold leadsTo
  have hchild : (p.child name).rooted = true := (p.rooted_child name).trans hp
  rw [isDirectory_agree h hp, seenFrom_correspondence.hasEntry_eq h hchild]

theorem fillWith_agree {visit visit' : List Pattern → Path → List Path}
    (hvisit : ∀ ps, AgreeRooted (visit ps) (visit' ps)) (ps : List Pattern) :
    AgreeRooted ((Search.mk d dirs).fillWith visit ps)
      ((Search.mk d' dirs).fillWith visit' ps) := by
  induction ps with
  | nil => exact keep_agree h
  | cons pattern rest ih =>
    intro p hp
    unfold fillWith
    cases literal? pattern with
    | some name =>
      simp only [leadsTo_agree h hp]
      split
      · exact ih (p.child name) ((p.rooted_child name).trans hp)
      · exact .nil
    | none =>
      have hdots : SameRooted (dots pattern p) (dots pattern p) := by
        unfold dots
        split
        · exact .child _ hp
        · exact .nil
      simp only [isDirectory_agree h hp]
      split
      · exact (hdots.flatMap ih).append ((children_agree h p hp).flatMap (hvisit (pattern :: rest)))
      · exact .nil

theorem found_agree {fill fill' : List Pattern → Path → List Path}
    (hfill : ∀ ps, AgreeRooted (fill ps) (fill' ps)) (ps : List Pattern) :
    AgreeRooted ((Search.mk d dirs).found fill ps) ((Search.mk d' dirs).found fill' ps) := by
  intro p hp
  unfold found
  split
  · split
    · split
      · exact keep_agree h p hp
      · exact hfill _ p hp
    · exact .nil
  · exact .nil

theorem visit_agree {fill fill' : List Pattern → Path → List Path}
    (hfill : ∀ ps, AgreeRooted (fill ps) (fill' ps)) (ps : List Pattern) :
    AgreeRooted ((Search.mk d dirs).visit fill ps) ((Search.mk d' dirs).visit fill' ps) := by
  intro p hp
  cases ps with
  | nil => exact .nil
  | cons pattern rest =>
    unfold visit
    simp only [isDirectory_agree h hp]
    split
    · refine .append ?_ ?_
      · split
        · split
          · exact .singleton hp
          · exact .nil
        · exact found_agree h hfill _ p hp
      · split
        · exact hfill _ p hp
        · exact .nil
    · exact found_agree h hfill _ p hp

theorem fill_agree (depth : Nat) (ps : List Pattern) :
    AgreeRooted ((Search.mk d dirs).fill depth ps) ((Search.mk d' dirs).fill depth ps) := by
  induction depth generalizing ps with
  | zero => exact fillWith_agree h (fun _ _ _ => .nil) ps
  | succ depth ih => exact fillWith_agree h (visit_agree h ih) ps

end Search

/-- A pattern from the root stands for the same paths from every working directory. -/
theorem expand_eq_of_tree (h : d'.tree = d.tree) {pattern : Path} (hp : pattern.rooted = true) :
    expand d' pattern = expand d pattern := by
  have hreach : d'.reach = d.reach := by
    unfold Disk.reach
    rw [h]
  unfold expand
  simp only [hreach, hp, if_true, (Search.fill_agree h _ _ Path.root rfl).same]

theorem rooted_of_mem_expand {pattern p : Path} {ps : List Path} (hp : pattern.rooted = true)
    (hexpand : expand d pattern = .ok ps) (hmem : p ∈ ps) : p.rooted = true := by
  unfold expand at hexpand
  simp only [hp, if_true] at hexpand
  cases hcompile : compile pattern.text with
  | error e =>
    rw [hcompile] at hexpand
    cases hexpand
  | ok compiled =>
    cases hcomponents : (componentsOf pattern).mapM compile with
    | error e =>
      rw [hcompile, hcomponents] at hexpand
      cases hexpand
    | ok components =>
      rw [hcompile, hcomponents] at hexpand
      cases hexpand
      exact (Search.fill_agree rfl _ _ Path.root rfl).rooted p hmem

end Glob

/-! ## Searching -/

namespace Discovery

open Disk

variable {d d' : Disk} {q : Discovery}

theorem startsOf_eq_of_tree (h : d'.tree = d.tree) {base : Path} (hbase : base.rooted = true)
    (place : String) : startsOf d' base place = startsOf d base place := by
  have hjoin : (base.join (.ofText place)).rooted = true := by
    rw [Path.rooted_join, hbase, Bool.or_true]
  unfold startsOf
  simp only [seenFrom_correspondence.exists?_eq h hjoin, Glob.expand_eq_of_tree h hjoin]
  split
  · cases hexpand : Glob.expand d (base.join (.ofText place)) with
    | error e => rfl
    | ok ps =>
      have hfilter : ps.filter d'.isDirectory = ps.filter d.isDirectory :=
        List.filter_congr fun p hp => seenFrom_correspondence.isDirectory_eq h
          (Glob.rooted_of_mem_expand hjoin hexpand hp)
      simp only [hfilter]
  · rfl

theorem starts_eq_of_tree (h : d'.tree = d.tree) (hbase : q.base.rooted = true) :
    starts d' q = starts d q := by
  unfold starts
  simp only [startsOf_eq_of_tree h hbase]

theorem rooted_of_mem_starts (hbase : q.base.rooted = true) {start : Path}
    (hstart : start ∈ starts d q) : start.rooted = true := by
  unfold starts at hstart
  split at hstart
  · rw [List.mem_singleton.mp hstart, hbase]
  · obtain ⟨place, -, hmem⟩ := List.mem_flatMap.mp hstart
    have hjoin : (q.base.join (.ofText place)).rooted = true := by
      rw [Path.rooted_join, hbase, Bool.or_true]
    unfold startsOf at hmem
    simp only at hmem
    split at hmem
    · cases hexpand : Glob.expand d (q.base.join (.ofText place)) with
      | error e =>
        rw [hexpand] at hmem
        cases hmem
      | ok ps =>
        rw [hexpand] at hmem
        exact Glob.rooted_of_mem_expand hjoin hexpand (List.mem_filter.mp hmem).1
    · split at hmem
      · rw [List.mem_singleton.mp hmem, hjoin]
      · cases hmem

theorem sourcesFrom_eq_of_tree (h : d'.tree = d.tree) {start : Path}
    (hstart : start.rooted = true) : sourcesFrom d' q start = sourcesFrom d q start := by
  unfold sourcesFrom
  rw [walk_eq_of_tree h hstart]
  cases hwalk : d.walk start with
  | error e => rfl
  | ok vs =>
    refine congrArg _ (List.filter_congr fun v hv => ?_)
    obtain ⟨ns, hns⟩ := exists_below_of_mem_walk hwalk hv
    have hpath : v.path.rooted = true := by
      rw [hns, Path.rooted_below, hstart]
    unfold isSource isCandidate
    rw [seenFrom_correspondence.isDirectory_eq h hpath]

theorem walkNotices_eq_of_tree (h : d'.tree = d.tree) (hbase : q.base.rooted = true) :
    walkNotices d' q = walkNotices d q := by
  unfold walkNotices
  rw [starts_eq_of_tree h hbase]
  exact List.filterMap_congr fun p hp => by rw [walk_eq_of_tree h (rooted_of_mem_starts hbase hp)]

theorem rooted_of_mem_discover (hbase : q.base.rooted = true) {p : Path}
    (hp : p ∈ (discover d q).files) : p.rooted = true := by
  obtain ⟨start, hstart, ns, rfl⟩ := mem_discover hp
  rw [Path.rooted_below, rooted_of_mem_starts hbase hstart]

end Discovery

/-- A search from a directory whose path starts at the root gives the same result from every working
directory. -/
theorem discover_eq_of_tree {d d' : Disk} {q : Discovery} (h : d'.tree = d.tree)
    (hbase : q.base.rooted = true) : discover d' q = discover d q := by
  have hfiles : (Discovery.starts d q).flatMap (Discovery.sourcesFrom d' q) =
      (Discovery.starts d q).flatMap (Discovery.sourcesFrom d q) :=
    List.flatMap_congr fun p hp =>
      Discovery.sourcesFrom_eq_of_tree h (Discovery.rooted_of_mem_starts hbase hp)
  have hnotices : Discovery.startNotices d' q = Discovery.startNotices d q := by
    unfold Discovery.startNotices
    simp only [Discovery.startsOf_eq_of_tree h hbase]
  unfold discover
  rw [Discovery.starts_eq_of_tree h hbase, hfiles, Discovery.walkNotices_eq_of_tree h hbase,
    hnotices]

end CmsVariables
