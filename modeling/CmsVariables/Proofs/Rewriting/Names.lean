import CmsVariables.Proofs.Annotations.Scan
import CmsVariables.Proofs.Declarations.Aggregate
import CmsVariables.Proofs.Rewriting.Stability

/-!
# The names in placeholders

Rewriting puts a name where each annotation stood. A placeholder can be read again: a name ends
before the first percent sign after it. So the names that were put into a source can be told from its
text before and after rewriting.

* `Filled`: a text, the same text with placeholders, and the names in these.
* `Filled.names_eq`: the names are told by the two texts.
* `filled_rewrite_iff`: the names that rewriting puts into a source.
-/

namespace CmsVariables

open Annotations

/-! ## Reading placeholders again -/

/-- Placeholders with some names stand in the text `after` where annotations stand in the text
`before`, and all else is the same. `before` starts at byte `offset`. -/
inductive Filled :
    Nat → List Occurrence → List String → List Char → List Char → Prop where
  | rest (offset : Nat) (gap : List Char) : Filled offset [] [] gap gap
  | placed {offset : Nat} {a : Occurrence} {as : List Occurrence} {name : String}
      {names : List String} {before after : List Char} (gap : List Char)
      (hstart : a.start = offset + bytes gap) (hname : '%' ∉ name.toList)
      (h : Filled a.stop as names before after) :
      Filled offset (a :: as) (name :: names) (gap ++ (a.full.toList ++ before))
        (gap ++ ((placeholder name).toList ++ after))

theorem name_eq_of_placeholder_append_eq {name name' : String} {after after' : List Char}
    (hname : '%' ∉ name.toList) (hname' : '%' ∉ name'.toList)
    (h : (placeholder name).toList ++ after = (placeholder name').toList ++ after') :
    name = name' ∧ after = after' := by
  have hread {name : String} (hname : '%' ∉ name.toList) (rest : List Char) :
      (name.toList ++ (afterName ++ rest)).takeWhile (· != '%') = name.toList := by
    refine takeWhile_run (fun c hc => bne_iff_ne.mpr fun heq => hname (heq ▸ hc)) ?_
    intro c hc
    obtain rfl : '%' = c := Option.some.inj hc
    rfl
  simp only [toList_placeholder, List.append_assoc, List.cons_append] at h
  have hrest := List.append_cancel_left (List.cons_eq_cons.mp h).2
  have heq : name.toList = name'.toList := by
    rw [← hread hname _, hrest, hread hname' _]
  rw [heq] at hrest
  have hafter := List.append_cancel_left (List.append_cancel_left hrest)
  exact ⟨String.toList_inj.mp heq, (List.cons_eq_cons.mp hafter).2⟩

theorem gap_eq_of_bytes_eq {gap gap' rest rest' : List Char} (h : gap ++ rest = gap' ++ rest')
    (hbytes : bytes gap = bytes gap') : gap = gap' := by
  have hgap : gap <+: gap' ++ rest' := h ▸ List.prefix_append gap rest
  have hgap' := List.prefix_append gap' rest'
  have hle := prefix_of_bytes_le hgap hgap' hbytes.le
  have hge := prefix_of_bytes_le hgap' hgap hbytes.ge
  exact hle.eq_of_length_le hge.length_le

/-- The names in placeholders can be told from the texts around them. -/
theorem Filled.names_eq {offset : Nat} {as : List Occurrence} {names names' : List String}
    {before after : List Char} (h : Filled offset as names before after)
    (h' : Filled offset as names' before after) : names = names' := by
  generalize hbefore : before = before' at h'
  generalize hafter : after = after' at h'
  induction h generalizing names' before' after' with
  | rest =>
    cases h'
    rfl
  | placed gap hstart hname _ ih =>
    cases h' with
    | placed gap' hstart' hname' h' =>
      obtain rfl := gap_eq_of_bytes_eq hbefore (by omega)
      have hcut := List.append_cancel_left (List.append_cancel_left hbefore)
      obtain ⟨rfl, hrest⟩ :=
        name_eq_of_placeholder_append_eq hname hname' (List.append_cancel_left hafter)
      rw [ih _ hcut _ hrest h']

theorem filled_rewrittenText {fs : List Found} (hfs : ∀ f ∈ fs, f.form.WellFormed)
    (offset : Nat) (tail : List Char) :
    Filled offset (locate offset fs) ((locate offset fs).map Occurrence.variableName)
      (fs.flatMap Found.text ++ tail) (rewrittenText fs tail) := by
  induction fs generalizing offset with
  | nil => exact .rest offset tail
  | cons f fs ih =>
    obtain ⟨hf, hfs⟩ := List.forall_mem_cons.mp hfs
    have hpercent : '%' ∉ (canonicalName (String.ofList f.form.name)).toList := by
      intro hmem
      have hchar := isNameChar_of_mem_canonicalName hf.name_all _ hmem
      revert hchar
      decide
    have hplaced := Filled.placed (a := .ofFound offset f) f.gap rfl hpercent
      (ih hfs (offset + bytes f.text))
    rw [rewrittenText_cons, List.flatMap_cons, Found.text, List.append_assoc, List.append_assoc]
    rwa [show (Occurrence.ofFound offset f).full.toList = f.form.text from String.toList_ofList]
      at hplaced

/-- Rewriting puts the names of the variables that annotations declare where these stood. -/
theorem filled_rewrite_iff {source : String} {names : List String} :
    Filled 0 (find source) names source.toList (rewrite source).text.toList ↔
      names = (find source).map Occurrence.variableName := by
  have hforms : ∀ f ∈ (dissect source.toList).1, f.form.WellFormed := fun f hf =>
    ((bare_of_dissect rfl).1 f hf).2
  have hfilled := filled_rewrittenText hforms 0 (dissect source.toList).2
  rw [text_dissect, ← toList_text_rewrite] at hfilled
  exact ⟨fun h => h.names_eq hfilled, fun h => h ▸ hfilled⟩

end CmsVariables
