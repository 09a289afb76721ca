import CmsVariables.Proofs.Discovery.Spellings
import CmsVariables.Proofs.FileTree.Addition

/-!
# Searching where there is one more file

A walk over a disk with one more file may meet that file as well. If it has none of the extensions a
search looks for, all else that the search meets is on paths that avoid the file, so the search finds
what it finds without the file.

* `Meets.passesBy`: what is met is on paths that avoid what does not exist.
* `discover_put`: a search of all below its base finds the same.
-/

namespace CmsVariables

open FileTree CmsVariables.Path

variable {d : Disk} {a b : Address} {bytes : ByteArray} {start p : Path} {q : Discovery}

namespace FileTree

theorem entries_put {t : FileTree} {e : Entry} (hroom : t.hasRoom a = true)
    (ha : t.get? a = none) : (t.put a e).entries = (a, e) :: t.entries := by
  have hothers : t.others a = t.entries := by
    refine List.filter_eq_self.mpr fun x hx => ?_
    rw [decide_eq_true_eq]
    rintro rfl
    have hget := (mem_entries_iff.mp hx).2
    rw [ha] at hget
    cases hget
  simp only [put, hroom, dif_pos, hothers]

/-- An entry more is met below the directories above it. -/
theorem below_put {t : FileTree} {e : Entry} (hroom : t.hasRoom a = true) (ha : t.get? a = none)
    (dir : Address) : (t.put a e).below dir =
      ((namesBelow? dir a).map fun ns => (ns, e)).toList ++ t.below dir := by
  unfold below
  rw [entries_put hroom ha, List.filterMap_cons]
  cases namesBelow? dir a <;> rfl

end FileTree

namespace Disk

/-- A disk and the same disk with a file where there is nothing. -/
theorem oneMore_put (hlinks : d.tree.LinkFree) (hroom : d.tree.hasRoom a = true)
    (ha : d.tree.get? a = none) : OneMore d.here a bytes d (d.put a (.file bytes)) where
  here_eq := rfl
  here_eq' := rfl
  linkFree := hlinks
  missing := ha
  added := (get?_put hroom).trans (if_pos rfl)
  elsewhere hb := (get?_put hroom).trans (if_neg hb)

/-! ## What a walk meets -/

/-- The path of an entry avoids a place if that of its directory does. -/
theorem passesBy_child {here : Address} {name : EntryName} (hp : PassesBy here a p)
    (hnames : p.namesTo (here.map EntryName.text) = b.map EntryName.text) (hne : name :: b ≠ a) :
    PassesBy here a (p.child name.text) := by
  have hdir : b.map EntryName.text ≠ a.map EntryName.text := hnames ▸ hp.namesTo_ne
  have hentry : nameStep (b.map EntryName.text) name.text = (name :: b).map EntryName.text :=
    namesFrom_names _ [name]
  refine Avoids.join hp ?_
  rw [hnames]
  refine avoidsFrom_cons.mpr ⟨hdir, avoidsFrom_nil.mpr ?_⟩
  show nameStep (b.map EntryName.text) name.text ≠ _
  rw [hentry]
  exact names_ne_iff.mpr hne

theorem Enters.passesBy (hlinks : d.tree.LinkFree) (ha : d.tree.get? a = none)
    (h : Enters d start p b) : PassesBy d.here a p ∧ d.namesTo p = b.map EntryName.text := by
  induction h with
  | start hstat => exact ⟨passesBy_of_stat hlinks ha hstat, (names_of_stat hlinks hstat).symm⟩
  | @inside p b _ name hget ih =>
    obtain ⟨hp, hnames⟩ := ih
    refine ⟨passesBy_child hp hnames ?_, ?_⟩
    · rintro rfl
      rw [ha] at hget
      cases hget
    · rw [namesTo, child, namesTo_join, ← namesTo, hnames]
      exact namesFrom_names _ [name]

/-- What a walk meets is on paths that avoid what does not exist. -/
theorem Meets.passesBy (hlinks : d.tree.LinkFree) (ha : d.tree.get? a = none) {e : Entry}
    (h : Meets d start p e) : PassesBy d.here a p := by
  cases h with
  | start _ hexists =>
    obtain ⟨x, hstat⟩ := exists?_iff.mp hexists
    exact passesBy_of_stat hlinks ha hstat
  | inside henters hget =>
    obtain ⟨hp, hnames⟩ := henters.passesBy hlinks ha
    refine passesBy_child hp hnames ?_
    rintro rfl
    rw [ha] at hget
    cases hget

end Disk

namespace Discovery

open Disk

/-! ## Searching -/

/-- The file itself is no source. -/
theorem isSource_added {ns : List EntryName} {dir : Address} {e : Entry}
    (hextension : hasExtension q.extensions (.ofAddress a) = false)
    (hns : namesBelow? dir a = some ns) : isSource d q ⟨start.below ns, e⟩ = false := by
  obtain ⟨rfl, hne⟩ := namesBelow?_eq_some hns
  have hbelow : hasExtension q.extensions (start.below ns) = false := by
    unfold hasExtension at hextension ⊢
    rw [extension?_below start hne]
    exact hextension
  unfold isSource
  rw [hbelow, Bool.and_false]

/-- The sources met on a walk. -/
def sourcesOf (d : Disk) (q : Discovery) (vs : List Visit) : List Path :=
  (vs.filter (isSource d q)).map Visit.path

section OneMore

variable (hlinks : d.tree.LinkFree) (hroom : d.tree.hasRoom a = true) (ha : d.tree.get? a = none)
  (hextension : hasExtension q.extensions (.ofAddress a) = false)
include hlinks hroom ha

theorem sourcesOf_put {vs : List Visit} (hwalk : d.walk start = .ok vs) :
    sourcesOf (d.put a (.file bytes)) q vs = sourcesOf d q vs := by
  refine congrArg _ (List.filter_congr fun v hv => ?_)
  have hpath : PassesBy d.here a v.path :=
    Meets.passesBy hlinks ha (mem_walk_iff.mp ⟨vs, hwalk, hv⟩)
  unfold isSource isCandidate
  rw [(oneMore_correspondence d.here a bytes).isDirectory_eq (oneMore_put hlinks hroom ha) hpath]

include hextension

/-- A walk fails on both disks, or it meets the same sources on both. -/
theorem walk_put (hstart : PassesBy d.here a start) :
    ((d.put a (.file bytes)).walk start).map (sourcesOf (d.put a (.file bytes)) q) =
      (d.walk start).map (sourcesOf d q) := by
  have hmore : OneMore d.here a bytes d (d.put a (.file bytes)) := oneMore_put hlinks hroom ha
  have hsame := oneMore_correspondence d.here a bytes
  have hsources {vs : List Visit} (hwalk : d.walk start = .ok vs) :
      sourcesOf (d.put a (.file bytes)) q vs = sourcesOf d q vs :=
    sourcesOf_put hlinks hroom ha hwalk
  unfold walk at hsources ⊢
  rw [hsame.entryAt_eq hmore hstart, hsame.stat_eq hmore hstart]
  cases hentry : d.entryAt start with
  | error err => rfl
  | ok found =>
    obtain ⟨c, e⟩ := found
    cases hstat : d.stat start with
    | error err => rfl
    | ok target =>
      obtain ⟨b, target⟩ := target
      rw [hentry, hstat] at hsources
      cases target with
      | file contents => exact congrArg Except.ok (hsources rfl)
      | link path => exact congrArg Except.ok (hsources rfl)
      | directory =>
        refine congrArg Except.ok (Eq.trans ?_ (hsources rfl))
        show sourcesOf _ q (⟨start, e⟩ :: ((d.tree.put a (.file bytes)).below b).map _) = _
        rw [below_put hroom ha]
        cases hns : namesBelow? b a with
        | none => rfl
        | some ns =>
          have hadded (e : Entry) : isSource (d.put a (.file bytes)) q ⟨start.below ns, e⟩ = false :=
            isSource_added hextension hns
          unfold sourcesOf
          simp only [Option.map_some, Option.toList_some, List.singleton_append, List.map_cons]
          rw [List.filter_cons, List.filter_cons_of_neg, List.filter_cons]
          show ¬isSource (d.put a (.file bytes)) q ⟨start.below ns, .file bytes⟩ = true
          rw [hadded]
          exact Bool.false_ne_true

/-- A search of all below its base finds the same where there is one more file. -/
theorem discover_put (hincludes : q.includes = []) (hbase : PassesBy d.here a q.base) :
    discover (d.put a (.file bytes)) q = discover d q := by
  have hwalk : ((d.put a (.file bytes)).walk q.base).map (sourcesOf (d.put a (.file bytes)) q) =
      (d.walk q.base).map (sourcesOf d q) := walk_put hlinks hroom ha hextension hbase
  have hstarts (d : Disk) : starts d q = [q.base] := if_pos hincludes
  have hfiles (d : Disk) : sourcesFrom d q q.base =
      ((d.walk q.base).map (sourcesOf d q)).toOption.getD [] := by
    unfold sourcesFrom
    cases d.walk q.base <;> rfl
  have hnotices (d : Disk) : walkNotices d q =
      match (d.walk q.base).map (sourcesOf d q) with
      | .ok _ => []
      | .error e => [.inaccessible q.base e] := by
    unfold walkNotices
    rw [hstarts]
    cases h : d.walk q.base <;> simp [h, Except.map]
  have hstartNotices (d : Disk) : startNotices d q = [] := by
    unfold startNotices
    rw [hincludes]
    rfl
  unfold discover
  rw [hstarts, hstarts, hstartNotices, hstartNotices, hnotices, hnotices, List.flatMap_singleton,
    List.flatMap_singleton, hfiles, hfiles, hwalk]

end OneMore

end Discovery

end CmsVariables
