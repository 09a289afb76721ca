import CmsVariables.Proofs.Declarations.Naming
import CmsVariables.Proofs.Text.LetterCase

/-!
# The name of a variable by its parts

A raw name can be cut at every underscore and not at the first one only: the parts after the tag,
joined again, are the text after the first underscore. Its normal form can be taken of the whole or
of each part by itself, and hyphens can be replaced before or after lower-casing.

* `parts`, `intercalate_parts`: the texts between underscores, and how they are joined.
* `exists_parts_eq`: the first part is the tag, the others make up the rest.
* `normalBase_intercalate`: the normal form of joined parts.
* `canonicalName_eq_nameOfParts`: the name of a variable is told by the parts of its raw name.
-/

namespace CmsVariables

open Text

namespace FieldName

/-- The texts between the underscores of a text. -/
def parts (s : String) : List String := (s.split '_').toList.map String.Slice.copy

/-- The name of a variable, from all parts of its raw name: behind one of the five tags stands what
`normal` makes of the parts after it, and any other raw name stands behind `std_` as it is. -/
def nameOfParts (normal : List String → String) (raw : String) : String :=
  let tag := (parts raw).headD ""
  if tag ∈ ["std", "anc", "info", "media", "img"] then tag ++ "_" ++ normal (parts raw).tail
  else "std_" ++ raw

/-! ## Cutting and joining -/

theorem parts_eq (s : String) : parts s = (s.toList.splitOn '_').map String.ofList :=
  String.toList_split_char

theorem parts_of_notMem {s : String} (h : '_' ∉ s.toList) : parts s = [s] := by
  rw [parts_eq, List.splitOn_eq_singleton h, List.map_singleton, String.ofList_toList]

theorem parts_append {front : String} (h : '_' ∉ front.toList) (rest : String) :
    parts (front ++ "_" ++ rest) = front :: parts rest := by
  have hchars : (front ++ "_" ++ rest).toList = front.toList ++ '_' :: rest.toList := by simp
  rw [parts_eq, parts_eq, hchars, List.splitOn_append_cons_self_of_not_mem h, List.map_cons,
    String.ofList_toList]

/-- Parts that are joined again make up the text. -/
theorem intercalate_parts (s : String) : "_".intercalate (parts s) = s := by
  apply String.toList_inj.mp
  have hparts : (parts s).map String.toList = s.toList.splitOn '_' := by
    rw [parts_eq, List.map_map]
    simp [Function.comp_def]
  have hseparator : "_".toList = ['_'] := by decide
  rw [String.toList_intercalate, hparts, hseparator, List.intercalate_splitOn]

theorem underscore_notMem_splitTag (raw : String) : '_' ∉ (splitTag raw).1.toList := by
  rw [splitTag, String.toList_ofList]
  intro hmem
  have hrun := List.mem_takeWhile_imp hmem
  exact absurd hrun (by decide)

/-- The first part is what stands before the first underscore, and the others make up what stands
after it. -/
theorem exists_parts_eq (raw : String) :
    ∃ rest, parts raw = (splitTag raw).1 :: rest ∧ "_".intercalate rest = (splitTag raw).2 := by
  have hfront := underscore_notMem_splitTag raw
  rcases hsplit : splitTag raw with ⟨front, after⟩
  rw [hsplit] at hfront
  rcases eq_of_splitTag hsplit with ⟨rfl, rfl⟩ | rfl
  · exact ⟨[], parts_of_notMem hfront, String.intercalate_nil⟩
  · exact ⟨parts after, parts_append hfront after, intercalate_parts after⟩

example : parts "img__Top-Logo_" = ["img", "", "Top-Logo", ""] := by
  rw [parts_eq]
  decide

/-! ## Normal forms -/

theorem withUnderscores_append (s t : String) :
    withUnderscores (s ++ t) = withUnderscores s ++ withUnderscores t := by
  apply String.toList_inj.mp
  simp [withUnderscores]

theorem normalBase_eq (s : String) : normalBase s = withUnderscores (lower s) := rfl

/-- The normal form of joined parts is that of each part, joined; and the two steps to it can be
taken in either order. -/
theorem normalBase_intercalate (ps : List String) :
    normalBase ("_".intercalate ps) =
      "_".intercalate (ps.map fun part => lower (withUnderscores part)) := by
  rw [normalBase_eq]
  induction ps with
  | nil => decide
  | cons part ps ih =>
    cases ps with
    | nil => simp [lower_withUnderscores]
    | cons next ps =>
      have hseparator : withUnderscores "_" = "_" := by decide
      calc withUnderscores (lower ("_".intercalate (part :: next :: ps)))
          = withUnderscores (lower (part ++ "_" ++ "_".intercalate (next :: ps))) := by
            rw [String.intercalate_cons_cons]
        _ = withUnderscores (lower part) ++ "_" ++
              withUnderscores (lower ("_".intercalate (next :: ps))) := by
            rw [lower_append_underscore, withUnderscores_append, withUnderscores_append, hseparator]
        _ = lower (withUnderscores part) ++ "_" ++
              "_".intercalate ((next :: ps).map fun part => lower (withUnderscores part)) := by
            rw [lower_withUnderscores, ih]
        _ = "_".intercalate ((part :: next :: ps).map fun part => lower (withUnderscores part)) :=
            String.intercalate_cons_cons.symm

/-! ## Names -/

theorem mem_tags_iff {s : String} :
    s ∈ ["std", "anc", "info", "media", "img"] ↔ ∃ tag : TypeTag, tag.text = s := by
  constructor
  · intro h
    simp only [List.mem_cons, List.not_mem_nil, or_false] at h
    rcases h with rfl | rfl | rfl | rfl | rfl
    exacts [⟨.std, rfl⟩, ⟨.anc, rfl⟩, ⟨.info, rfl⟩, ⟨.media, rfl⟩, ⟨.img, rfl⟩]
  · rintro ⟨tag, rfl⟩
    cases tag <;> decide

/-- Any normal form that agrees on the parts gives the name of the variable. -/
theorem canonicalName_eq_of_normal {normal : List String → String}
    (h : ∀ ps, normal ps = normalBase ("_".intercalate ps)) (raw : String) :
    canonicalName raw = nameOfParts normal raw := by
  obtain ⟨rest, hparts, hrest⟩ := exists_parts_eq raw
  rw [nameOfParts, hparts, List.headD_cons, List.tail_cons, h, hrest]
  split
  · rename_i hmem
    obtain ⟨tag, htag⟩ := mem_tags_iff.mp hmem
    rw [canonicalName, classify, ← htag, TypeTag.ofText?_text, canonical]
  · rename_i hmem
    have hnone : TypeTag.ofText? (splitTag raw).1 = none := by
      rw [Option.eq_none_iff_forall_ne_some]
      intro tag htag
      exact hmem (mem_tags_iff.mpr ⟨tag, TypeTag.ofText?_eq_some_iff.mp htag⟩)
    rw [canonicalName, classify, hnone, canonical]
    rfl

end FieldName

open FieldName

/-- The name of a variable comes from its raw name by cutting that at every underscore: the first
part is the tag, and the others are joined, put in lower case and freed of hyphens if it is one of
the five; otherwise the raw name stands behind `std_` as it is. It comes to the same if every part is
freed of hyphens and put in lower case before they are joined. -/
theorem canonicalName_eq_nameOfParts (raw : String) :
    canonicalName raw =
        nameOfParts (fun rest => withUnderscores (lower ("_".intercalate rest))) raw ∧
      canonicalName raw =
        nameOfParts (fun rest => "_".intercalate (rest.map fun s => lower (withUnderscores s)))
          raw :=
  ⟨canonicalName_eq_of_normal (fun _ => (normalBase_eq _).symm) raw,
    canonicalName_eq_of_normal (fun ps => (normalBase_intercalate ps).symm) raw⟩

end CmsVariables
