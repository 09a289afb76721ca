import CmsVariables.Discovery
import CmsVariables.Proofs.Path.Normal

/-!
# What lies in a directory of packages

The pattern for installed packages matches the whole text of a path: somewhere before the last
segment there is one with the name of that directory. It does not matter where, so a directory of
that name far above a project counts as well.

* `acceptsText_inDirectory_iff`: what a pattern of this form matches.
* `compile_nodeModulesPattern`: the pattern for packages has this form.
-/

namespace CmsVariables.Glob

open CmsVariables.Path

/-- The pattern for all that lies in a directory of a given name. -/
def inDirectory (name : String) : Pattern :=
  .directories :: ((name.toList ++ ['/']).map .char ++ [.directories])

theorem compile_nodeModulesPattern :
    compile Discovery.nodeModulesPattern = .ok (inDirectory "node_modules") := by
  simp [compile, Discovery.nodeModulesPattern, compileFrom, pushDirectories, inDirectory]

/-! ## Matching the tokens -/

theorem accepts_chars_iff {cs text : List Char} {p : Pattern} :
    Pattern.accepts (cs.map .char ++ p) text = true ↔
      ∃ rest, text = cs ++ rest ∧ p.accepts rest = true := by
  induction cs generalizing text with
  | nil => simp
  | cons c cs ih =>
    cases text with
    | nil => simp [Pattern.accepts]
    | cons d text =>
      have hstep : Pattern.accepts (.char c :: (cs.map .char ++ p)) (d :: text) =
          (Token.takes d (.char c) && Pattern.accepts (cs.map .char ++ p) text) := rfl
      rw [List.map_cons, List.cons_append, hstep, Bool.and_eq_true, ih, Token.takes, beq_iff_eq]
      constructor
      · rintro ⟨rfl, rest, rfl, hrest⟩
        exact ⟨rest, rfl, hrest⟩
      · rintro ⟨rest, htext, hrest⟩
        obtain ⟨rfl, rfl⟩ := List.cons_eq_cons.mp htext
        exact ⟨rfl, rest, rfl, hrest⟩

theorem nil_mem_afterSlashes (text : List Char) : [] ∈ afterSlashes text := by
  induction text with
  | nil => exact List.mem_singleton.mpr rfl
  | cons c text ih =>
    rw [afterSlashes]
    split
    · exact List.mem_cons_of_mem _ ih
    · exact ih

/-- Two stars at the end match anything. -/
theorem accepts_directories (text : List Char) : Pattern.accepts [.directories] text = true := by
  rw [Pattern.accepts, List.any_eq_true]
  exact ⟨[], List.mem_cons_of_mem _ (nil_mem_afterSlashes text), rfl⟩

theorem accepts_inDirectory_iff {name : String} {text : List Char} :
    (inDirectory name).accepts text = true ↔
      ∃ s ∈ text :: afterSlashes text, name.toList ++ ['/'] <+: s := by
  rw [inDirectory, Pattern.accepts, List.any_eq_true]
  refine exists_congr fun s => and_congr_right fun _ => accepts_chars_iff.trans ?_
  exact exists_congr fun rest => (and_iff_left (accepts_directories rest)).trans eq_comm

/-! ## Segments -/

variable {cs ds text text' : List Char} {name : String} {ss : List String}

/-- What stands before the first slash is told by the text. -/
theorem append_slash_prefix_iff (hcs : '/' ∉ cs) (hds : '/' ∉ ds) :
    cs ++ ['/'] <+: ds ++ '/' :: text ↔ cs = ds := by
  induction cs generalizing ds with
  | nil =>
    cases ds with
    | nil => simp
    | cons d ds =>
      have hd : '/' ≠ d := fun h => hds (h ▸ List.mem_cons_self)
      simp [List.cons_prefix_cons, hd]
  | cons c cs ih =>
    cases ds with
    | nil =>
      have hc : c ≠ '/' := fun h => hcs (h ▸ List.mem_cons_self)
      simp [List.cons_prefix_cons, hc]
    | cons d ds =>
      rw [List.cons_append, List.cons_append, List.cons_prefix_cons, List.cons_eq_cons,
        ih (fun h => hcs (List.mem_cons_of_mem _ h)) fun h => hds (List.mem_cons_of_mem _ h)]

theorem not_prefix_of_notMem (hds : '/' ∉ ds) : ¬cs ++ ['/'] <+: ds := fun h =>
  hds (h.subset (List.mem_append_right _ List.mem_cons_self))

theorem afterSlashes_of_notMem (h : '/' ∉ text) : afterSlashes text = [[]] := by
  induction text with
  | nil => rfl
  | cons c text ih =>
    rw [afterSlashes, if_neg fun hc : c = '/' => h (hc ▸ List.mem_cons_self),
      ih fun hmem => h (List.mem_cons_of_mem _ hmem)]

theorem afterSlashes_append (h : '/' ∉ text) (text' : List Char) :
    afterSlashes (text ++ '/' :: text') = text' :: afterSlashes text' := by
  induction text with
  | nil => exact if_pos rfl
  | cons c text ih =>
    rw [List.cons_append, afterSlashes, if_neg fun hc : c = '/' => h (hc ▸ List.mem_cons_self),
      ih fun hmem => h (List.mem_cons_of_mem _ hmem)]

/-- Some segment but the last one has the name. -/
theorem accepts_joinSegments_iff (hname : '/' ∉ name.toList) (hss : ∀ s ∈ ss, '/' ∉ s.toList) :
    (inDirectory name).accepts (joinSegments ss).toList = true ↔ name ∈ ss.dropLast := by
  rw [accepts_inDirectory_iff]
  induction ss with
  | nil =>
    show (∃ s ∈ [[], []], _) ↔ _
    simp
  | cons s ss ih =>
    obtain ⟨hs, hrest⟩ := List.forall_mem_cons.mp hss
    by_cases hnil : ss = []
    · subst hnil
      rw [joinSegments, afterSlashes_of_notMem hs]
      simp [not_prefix_of_notMem hs]
    · rw [toList_joinSegments_cons s hnil, afterSlashes_append hs, List.exists_mem_cons_iff,
        ih hrest, append_slash_prefix_iff hname hs, String.toList_inj,
        List.dropLast_cons_of_ne_nil hnil, List.mem_cons]

/-- The pattern matches the paths on which a directory of that name is entered. -/
theorem acceptsText_inDirectory_iff {p : Path} (hname : '/' ∉ name.toList) (hne : name ≠ "")
    (hp : ∀ s ∈ p.segments, '/' ∉ s.toList) :
    (inDirectory name).acceptsText p.text = true ↔ name ∈ p.segments.dropLast := by
  rw [← accepts_joinSegments_iff hname hp, Pattern.acceptsText, Path.text]
  cases p.rooted with
  | false =>
    rw [if_neg Bool.false_ne_true, String.empty_append]
  | true =>
    have hhead : ¬name.toList ++ ['/'] <+: '/' :: (joinSegments p.segments).toList := by
      cases hcs : name.toList with
      | nil => exact absurd (String.toList_inj.mp hcs) hne
      | cons c cs =>
        rw [hcs] at hname
        rw [List.cons_append, List.cons_prefix_cons]
        exact fun h => hname (h.1 ▸ List.mem_cons_self)
    have htext : ("/" ++ joinSegments p.segments).toList =
        '/' :: (joinSegments p.segments).toList := String.toList_append
    rw [if_pos rfl, htext, accepts_inDirectory_iff, accepts_inDirectory_iff, afterSlashes,
      if_pos rfl, List.exists_mem_cons_iff, or_iff_right hhead]

end CmsVariables.Glob
