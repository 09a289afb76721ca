import CmsVariables.Annotations.Form
import CmsVariables.Rewriting

/-!
# The characters of placeholders

A placeholder is a fixed text around the name of a variable, between double quotes. Names are
written with word characters and blanks, in lower case too; so a placeholder holds no single quote,
and a line end only where the annotation has one in its name.

* `lowerChar_of_isNameChar`: lower-casing keeps to the characters of names.
* `toList_canonicalName`: what the name of a variable is made of.
* `Form.placeholder_eq`, `Form.isContentChar_placeholder_iff`: what a placeholder is made of.
-/

namespace CmsVariables

open Text Annotations

/-! ## The characters of names -/

/-- A property of every character in some ranges can be checked one code point after another. -/
theorem Text.CodePoints.forall_of_ranges {s : CodePoints} {P : Char → Prop}
    (h : ∀ r ∈ s, ∀ i < r.2 + 1 - r.1, P (Char.ofNat (r.1 + i))) {c : Char} (hc : s.has c = true) :
    P c := by
  obtain ⟨r, hr, hle, hge⟩ := has_iff.mp hc
  have hP := h r hr (c.toNat - r.1) (by omega)
  rwa [Nat.add_sub_cancel' hle, Char.ofNat_toNat] at hP

/-- The code points of the characters that names are written with. -/
def namePoints : CodePoints :=
  [(0x30, 0x39), (0x41, 0x5A), (0x5F, 0x5F), (0x61, 0x7A)] ++ blankPoints

theorem namePoints_has {c : Char} (h : isNameChar c = true) : namePoints.has c = true := by
  have hclasses : (c.isUpper || c.isLower || c.isDigit || c == '_' || isBlank c) = true := h
  have hrange {least greatest : UInt32}
      (h : (decide (least ≤ c.val) && decide (c.val ≤ greatest)) = true) :
      least.toNat ≤ c.toNat ∧ c.toNat ≤ greatest.toNat := by
    simpa [UInt32.le_iff_toNat_le] using h
  simp only [Bool.or_eq_true, beq_iff_eq] at hclasses
  rw [CodePoints.has_iff]
  rcases hclasses with (((hupper | hlower) | hdigit) | rfl) | h
  · exact ⟨(0x41, 0x5A), by decide, of_decide_eq_true hupper⟩
  · exact ⟨(0x61, 0x7A), by decide, hrange hlower⟩
  · exact ⟨(0x30, 0x39), by decide, hrange hdigit⟩
  · exact ⟨(0x5F, 0x5F), by decide, by decide⟩
  · obtain ⟨r, hr, hle⟩ := CodePoints.has_iff.mp h
    exact ⟨r, List.mem_append_right _ hr, hle⟩

/-- How lower-casing treats the characters of names: it has no special rule for any of them, and a
line end comes from a line end only. -/
theorem lowerChar_of_isNameChar {c : Char} (h : isNameChar c = true) :
    c ≠ 'Σ' ∧ c ≠ 'İ' ∧ lowerChar c ≠ '-' ∧ isNameChar (lowerChar c) = true ∧
      (lowerChar c = '\n' ↔ c = '\n') := by
  refine CodePoints.forall_of_ranges (P := fun c => c ≠ 'Σ' ∧ c ≠ 'İ' ∧ lowerChar c ≠ '-' ∧
    isNameChar (lowerChar c) = true ∧ (lowerChar c = '\n' ↔ c = '\n')) ?_ (namePoints_has h)
  decide +kernel

theorem lowerFrom_of_name {before cs : List Char} (h : ∀ c ∈ cs, isNameChar c = true) :
    lowerFrom before cs = cs.map lowerChar := by
  induction cs generalizing before with
  | nil => rfl
  | cons c cs ih =>
    obtain ⟨hsigma, hdotted, -⟩ := lowerChar_of_isNameChar (h c List.mem_cons_self)
    rw [lowerFrom, if_neg hsigma, if_neg hdotted, ih fun d hd => h d (List.mem_cons_of_mem c hd)]
    rfl

theorem FieldName.toList_normalBase {cs : List Char} (h : ∀ c ∈ cs, isNameChar c = true) :
    (normalBase (String.ofList cs)).toList = cs.map lowerChar := by
  rw [normalBase, lower, String.toList_ofList, String.toList_ofList, String.toList_ofList,
    lowerFrom_of_name h, List.map_map]
  refine List.map_congr_left fun c hc => ?_
  exact if_neg (lowerChar_of_isNameChar (h c hc)).2.2.1

/-- A text cut at its first underscore, if it has one. -/
theorem FieldName.splitTag_eq (name : List Char) :
    (∃ rest, name = (splitTag (String.ofList name)).1.toList ++ '_' :: rest ∧
        (splitTag (String.ofList name)).2 = String.ofList rest) ∨
      name = (splitTag (String.ofList name)).1.toList ∧
        (splitTag (String.ofList name)).2 = String.ofList [] := by
  have hsplit := List.takeWhile_append_dropWhile (p := (· != '_')) (l := name)
  simp only [splitTag, String.toList_ofList]
  cases hdrop : name.dropWhile (· != '_') with
  | nil =>
    rw [hdrop, List.append_nil] at hsplit
    exact Or.inr ⟨hsplit.symm, rfl⟩
  | cons c rest =>
    have hhead := List.head?_dropWhile_not (· != '_') name
    rw [hdrop] at hhead
    obtain rfl : c = '_' := by simpa using hhead
    exact Or.inl ⟨rest, by rw [← hdrop, hsplit], rfl⟩

/-- How the name of a variable is written: as a tag, an underscore and either the name as it stands
in the source or what follows the same tag there, in lower case. -/
theorem toList_canonicalName {name : List Char} (h : ∀ c ∈ name, isNameChar c = true) :
    ∃ tag : TypeTag,
      (canonicalName (String.ofList name)).toList = tag.text.toList ++ '_' :: name ∨
      ∃ rest, (canonicalName (String.ofList name)).toList =
          tag.text.toList ++ '_' :: rest.map lowerChar ∧ (∀ c ∈ rest, isNameChar c = true) ∧
        (name = tag.text.toList ++ '_' :: rest ∨ name = tag.text.toList ∧ rest = []) := by
  rw [canonicalName, FieldName.classify]
  split
  · rename_i tag htag
    have htext : (FieldName.splitTag (String.ofList name)).1 = tag.text := by
      have hfound := List.find?_some htag
      exact (beq_iff_eq.mp hfound).symm
    have hsplit := FieldName.splitTag_eq name
    rw [htext] at hsplit
    refine ⟨tag, Or.inr ?_⟩
    rcases hsplit with ⟨rest, hname, hrest⟩ | ⟨hname, hrest⟩
    · have hrestAll : ∀ c ∈ rest, isNameChar c = true := fun c hc =>
        h c (hname ▸ List.mem_append_right _ (List.mem_cons_of_mem _ hc))
      refine ⟨rest, ?_, hrestAll, Or.inl hname⟩
      simp [FieldName.canonical, hrest, FieldName.toList_normalBase hrestAll]
    · have hnil : ∀ c ∈ ([] : List Char), isNameChar c = true := fun _ hc => nomatch hc
      refine ⟨[], ?_, hnil, Or.inr ⟨hname, rfl⟩⟩
      simp [FieldName.canonical, hrest, FieldName.toList_normalBase hnil]
  · exact ⟨.std, Or.inl (by simp [FieldName.canonical])⟩

theorem TypeTag.isNameChar_of_mem_text (tag : TypeTag) :
    ∀ c ∈ tag.text.toList, isNameChar c = true ∧ c ≠ '\n' := by
  have hall : (tag.text.toList.all fun c => isNameChar c && c != '\n') = true := by
    cases tag <;> decide
  simpa using hall

/-- The name of a variable is written with the characters that names are read with. -/
theorem isNameChar_of_mem_canonicalName {name : List Char} (h : ∀ c ∈ name, isNameChar c = true) :
    ∀ c ∈ (canonicalName (String.ofList name)).toList, isNameChar c = true := by
  obtain ⟨tag, hname | ⟨rest, hname, hrest, -⟩⟩ := toList_canonicalName h
  · rw [hname]
    refine List.forall_mem_append.mpr ⟨fun c hc => (tag.isNameChar_of_mem_text c hc).1, ?_⟩
    exact List.forall_mem_cons.mpr ⟨by decide, h⟩
  · rw [hname]
    refine List.forall_mem_append.mpr ⟨fun c hc => (tag.isNameChar_of_mem_text c hc).1, ?_⟩
    refine List.forall_mem_cons.mpr ⟨by decide, fun c hc => ?_⟩
    obtain ⟨d, hd, rfl⟩ := List.mem_map.mp hc
    exact (lowerChar_of_isNameChar (hrest d hd)).2.2.2.1

/-- A variable has a name over several lines if it is written so. -/
theorem newline_mem_canonicalName {name : List Char} (h : ∀ c ∈ name, isNameChar c = true) :
    '\n' ∈ (canonicalName (String.ofList name)).toList ↔ '\n' ∈ name := by
  have htag (tag : TypeTag) : '\n' ∉ tag.text.toList := fun hmem =>
    (tag.isNameChar_of_mem_text _ hmem).2 rfl
  obtain ⟨tag, hname | ⟨rest, hname, hrest, hcut⟩⟩ := toList_canonicalName h
  · rw [hname]
    simp [htag]
  · have hlower : '\n' ∈ rest.map lowerChar ↔ '\n' ∈ rest := by
      rw [List.mem_map]
      constructor
      · rintro ⟨c, hc, hline⟩
        exact (lowerChar_of_isNameChar (hrest c hc)).2.2.2.2.mp hline ▸ hc
      · intro hmem
        exact ⟨'\n', hmem, (lowerChar_of_isNameChar (hrest _ hmem)).2.2.2.2.mpr rfl⟩
    rw [hname]
    rcases hcut with rfl | ⟨rfl, rfl⟩
    · simp [htag, hlower]
    · simp [htag]

/-! ## The characters of placeholders -/

namespace Annotations

/-- The text between the first quote of a placeholder and the name. -/
def beforeName : List Char := "<!IoRangePreExecute><%=".toList

/-- The text between the name and the last quote of a placeholder. -/
def afterName : List Char := "%><!/IoRangePreExecute>".toList

theorem toList_placeholder (name : String) :
    (placeholder name).toList = '"' :: (beforeName ++ (name.toList ++ afterName) ++ ['"']) := by
  have happend (a b c : String) : (a ++ b ++ c).toList = a.toList ++ (b.toList ++ c.toList) := by
    rw [String.toList_append, String.toList_append, List.append_assoc]
  have hbefore : "\"<!IoRangePreExecute><%=".toList = '"' :: beforeName := by decide
  have hafter : "%><!/IoRangePreExecute>\"".toList = afterName ++ ['"'] := by decide
  refine (happend _ _ _).trans ?_
  rw [hbefore, hafter, List.cons_append, List.append_assoc, List.append_assoc]

namespace Form

variable {f : Form}

/-- A placeholder between its double quotes. -/
def expression (f : Form) : List Char :=
  beforeName ++ ((canonicalName (String.ofList f.name)).toList ++ afterName)

theorem placeholder_eq (f : Form) : f.placeholder = '"' :: (f.expression ++ ['"']) :=
  toList_placeholder _

theorem ne_quote_of_isNameChar {c : Char} (h : isNameChar c = true) : c ≠ '\'' := by
  rintro rfl
  revert h
  decide

theorem quote_notMem_expression (hf : f.WellFormed) : '\'' ∉ f.expression := by
  rw [expression, List.mem_append, List.mem_append]
  rintro (hmem | hmem | hmem)
  · revert hmem
    decide
  · exact ne_quote_of_isNameChar (isNameChar_of_mem_canonicalName hf.name_all _ hmem) rfl
  · revert hmem
    decide

theorem quote_notMem_placeholder (hf : f.WellFormed) : '\'' ∉ f.placeholder := by
  simp [f.placeholder_eq, quote_notMem_expression hf]

theorem newline_mem_placeholder_iff (hf : f.WellFormed) :
    '\n' ∈ f.placeholder ↔ '\n' ∈ f.name := by
  have hbefore : '\n' ∉ beforeName := by decide
  have hafter : '\n' ∉ afterName := by decide
  rw [← newline_mem_canonicalName hf.name_all, f.placeholder_eq, expression]
  simp [hbefore, hafter]

/-- A placeholder could stand in the content of an annotation, unless its name has a line end. -/
theorem isContentChar_placeholder_iff (hf : f.WellFormed) :
    (∀ c ∈ f.placeholder, isContentChar c = true) ↔ '\n' ∉ f.name := by
  rw [← newline_mem_placeholder_iff hf]
  constructor
  · intro h hmem
    have hcontent := h '\n' hmem
    revert hcontent
    decide
  · intro hline c hc
    have hquote : c ≠ '\'' := fun hq => quote_notMem_placeholder hf (hq ▸ hc)
    have hne : c ≠ '\n' := fun hnl => hline (hnl ▸ hc)
    simp [isContentChar, hquote, hne]

end Form

end Annotations

end CmsVariables
