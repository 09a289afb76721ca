import CmsVariables.Proofs.Annotations.Scan
import CmsVariables.Proofs.Declarations.Aggregate
import CmsVariables.Proofs.Rewriting.Placeholder

/-!
# What names and default texts can hold

The tag run before a name takes every tag letter that it can. So a name begins with some other
character, unless there is nothing but tag letters, the last of which is the name then. What a name
is written with stays in the name of the variable: nothing that could end a placeholder or an
assignment gets into them from a source.

* `Form.name_of_shortest`: how the shortest name of an annotation begins.
* `Declaration.chars_of_mem_extract`: the characters of what is extracted.
* `extract_shape`: what is extracted from a source.
-/

namespace CmsVariables

open Text Annotations

namespace Annotations

/-! ## Raw names -/

/-- The letters of the tag run. -/
def tagLetters : List Char := ['r', 'd', 'p', 'h', 'R', 'D', 'P', 'H']

theorem isTag_iff {c : Char} : isTag c = true ↔ c ∈ tagLetters ∨ c = ':' := by
  simp [isTag, tagLetters, or_assoc]

/-- Where a longer name begins with a tag letter, that letter can be given to the tag run. -/
theorem Form.WellFormed.exists_shorter {f : Form} (hf : f.WellFormed) {c d : Char}
    {cs : List Char} (hname : f.name = c :: d :: cs) (hc : isTag c = true) :
    ∃ g : Form, g.WellFormed ∧ g.text = f.text ∧ g.name = d :: cs := by
  refine ⟨{ f with tags := f.tags ++ [c], name := d :: cs }, ?_, ?_, rfl⟩
  · have hnameAll := hf.name_all
    rw [hname] at hnameAll
    exact
      { hf with
        tags_ne := List.append_ne_nil_of_left_ne_nil hf.tags_ne _
        tags_all := List.forall_mem_append.mpr ⟨hf.tags_all, List.forall_mem_singleton.mpr hc⟩
        name_ne := List.cons_ne_nil d cs
        name_all := (List.forall_mem_cons.mp hnameAll).2 }
  · simp [Form.text, hname]

/-- A name that cannot be cut shorter is one tag letter or begins with no character of tags. -/
theorem Form.name_of_shortest {f : Form} (hf : f.WellFormed)
    (h : ∀ g : Form, g.WellFormed → g.text = f.text → f.name.length ≤ g.name.length) :
    (∃ c ∈ tagLetters, f.name = [c]) ∨
      ∃ c cs, f.name = c :: cs ∧ c ∉ tagLetters ∧ c ≠ ':' := by
  obtain ⟨c, cs, hname⟩ := List.exists_cons_of_ne_nil hf.name_ne
  have hcolon : c ≠ ':' := by
    rintro rfl
    have hchar := hf.name_all ':' (hname ▸ List.mem_cons_self)
    exact absurd hchar (by decide)
  by_cases hc : c ∈ tagLetters
  · cases cs with
    | nil => exact Or.inl ⟨c, hc, hname⟩
    | cons d cs =>
      obtain ⟨g, hg, htext, hgname⟩ := hf.exists_shorter hname (isTag_iff.mpr (Or.inl hc))
      have hle := h g hg htext
      rw [hname, hgname] at hle
      exact absurd hle (Nat.not_succ_le_self _)
  · exact Or.inr ⟨c, cs, hname, hc, hcolon⟩

theorem rawName_of_mem_find {source : String} {a : Occurrence} (ha : a ∈ find source) :
    (∃ c ∈ tagLetters, a.rawName.toList = [c]) ∨
      ∃ c cs, a.rawName.toList = c :: cs ∧ c ∉ tagLetters ∧ c ≠ ':' := by
  have hscan := find_scan source
  obtain ⟨f, hf, htext, hname, -⟩ := hscan.grammar a ha
  rw [← hname]
  refine Form.name_of_shortest hf fun g hg hgtext => ?_
  have hle := hscan.shortestName a ha g hg (hgtext.trans htext)
  rwa [← String.length_toList, ← hname] at hle

end Annotations

/-! ## Names of variables -/

/-- Whatever the raw name is, the name of a variable begins with a tag and an underscore. -/
theorem exists_base_canonicalName (raw : String) :
    ∃ (tag : TypeTag) (base : String), canonicalName raw = tag.text ++ "_" ++ base := by
  rw [canonicalName]
  cases FieldName.classify raw with
  | recognized tag base => exact ⟨tag, base, rfl⟩
  | unrecognized token => exact ⟨.std, token, rfl⟩

theorem TypeTag.text_mem (tag : TypeTag) : tag.text ∈ ["std", "anc", "info", "media", "img"] := by
  cases tag <;> simp [text]

/-- The characters that end a text around a name, or begin another one. -/
def fences : List Char := ['"', '\'', '%', '<', '>', '=', '/', '*']

theorem notMem_fences_of_isNameChar {c : Char} (h : isNameChar c = true) : c ∉ fences := by
  have hfences : (fences.all fun d => !isNameChar d) = true := by decide
  intro hmem
  have hnone := List.all_eq_true.mp hfences c hmem
  rw [h] at hnone
  cases hnone

/-! ## What is extracted -/

theorem Declaration.exists_of_mem_extract {source : String} {file : Path} {d : Declaration}
    (hd : d ∈ extract source file) : ∃ a ∈ find source, d = ofOccurrence file a := by
  obtain ⟨a, ha, rfl⟩ := List.mem_map.mp (List.mem_of_find?_eq_some (mem_firstByName_iff.mp hd))
  exact ⟨a, ha, rfl⟩

/-- What an annotation declares is written with the characters of its name and its default text. -/
theorem Declaration.chars_ofOccurrence {source : String} {a : Occurrence} (ha : a ∈ find source)
    (file : Path) :
    (∀ c ∈ (ofOccurrence file a).name.toList, isNameChar c = true) ∧
      ∀ c ∈ (ofOccurrence file a).content.toList, isContentChar c = true := by
  obtain ⟨hrawAll, hcontentAll⟩ := chars_of_mem_find ha
  have hnameAll := isNameChar_of_mem_canonicalName hrawAll
  rw [String.ofList_toList] at hnameAll
  exact ⟨hnameAll, hcontentAll⟩

theorem Declaration.chars_of_mem_extract {source : String} {file : Path} {d : Declaration}
    (hd : d ∈ extract source file) :
    (∀ c ∈ d.name.toList, isNameChar c = true) ∧
      ∀ c ∈ d.content.toList, isContentChar c = true := by
  obtain ⟨a, ha, rfl⟩ := exists_of_mem_extract hd
  exact chars_ofOccurrence ha file

/-- What is extracted from any source. A raw name is one tag letter or begins with no character of
tags. The name of a variable is one of the five tags, an underscore, and word characters and blanks;
its default text holds no quote and no line end. So the placeholder and the assignment of a variable
hold nothing besides their fixed text that could end them early. -/
theorem extract_shape (source : String) (file : Path) :
    (∀ a ∈ find source,
      (∃ c ∈ tagLetters, a.rawName.toList = [c]) ∨
        ∃ c cs, a.rawName.toList = c :: cs ∧ c ∉ tagLetters ∧ c ≠ ':') ∧
    ∀ d ∈ Declaration.extract source file,
      (∃ tag ∈ ["std", "anc", "info", "media", "img"], ∃ base, d.name = tag ++ "_" ++ base ∧
        ∀ c ∈ base.toList, isWord c = true ∨ isBlank c = true) ∧
      '\'' ∉ d.content.toList ∧ '\n' ∉ d.content.toList ∧
      placeholder d.name =
        "\"<!IoRangePreExecute><%=" ++ d.name ++ "%><!/IoRangePreExecute>\"" ∧
      d.assignment = d.name ++ "=\"<%" ++ d.name ++ "%>\"" ∧
      ∀ c ∈ fences, c ∉ d.name.toList := by
  refine ⟨fun a ha => rawName_of_mem_find ha, fun d hd => ?_⟩
  obtain ⟨hnameAll, hcontentAll⟩ := Declaration.chars_of_mem_extract hd
  obtain ⟨tag, base, hname⟩ := exists_base_canonicalName d.rawName
  rw [← d.name_eq] at hname
  refine ⟨⟨tag.text, tag.text_mem, base, hname, ?_⟩, ?_, ?_, rfl, rfl, ?_⟩
  · intro c hc
    have hmem : c ∈ d.name.toList := by
      rw [hname, String.toList_append]
      exact List.mem_append_right _ hc
    exact Bool.or_eq_true_iff.mp (hnameAll c hmem)
  · intro hmem
    exact absurd (hcontentAll _ hmem) (by decide)
  · intro hmem
    exact absurd (hcontentAll _ hmem) (by decide)
  · intro c hc hmem
    exact notMem_fences_of_isNameChar (hnameAll c hmem) hc

/-- Names after tag runs: nothing but tag letters, tag letters inside of a name, and a tag that a
variable keeps. -/
def manyTags : String := "/*rdph*/'x'/**/ /*r:driver*/'y'/**/ /* D:img_Logo*/'z'/**/"

theorem extract_shape_manyTags :
    (find manyTags).map Occurrence.rawName = ["h", "iver", "img_Logo"] ∧
      (Declaration.extract manyTags (.ofText "a.js")).map Declaration.name =
        ["std_h", "std_iver", "img_logo"] ∧
      (∀ a ∈ find manyTags,
        (∃ c ∈ tagLetters, a.rawName.toList = [c]) ∨
          ∃ c cs, a.rawName.toList = c :: cs ∧ c ∉ tagLetters ∧ c ≠ ':') ∧
      ∀ d ∈ Declaration.extract manyTags (.ofText "a.js"), ∀ c ∈ fences, c ∉ d.name.toList := by
  obtain ⟨hraw, hdeclared⟩ := extract_shape manyTags (.ofText "a.js")
  refine ⟨by decide +kernel, by decide +kernel, hraw, fun d hd => ?_⟩
  obtain ⟨-, -, -, -, -, hfences⟩ := hdeclared d hd
  exact hfences

end CmsVariables
