import CmsVariables.Proofs.Rewriting.Quotes
import CmsVariables.Proofs.Run.Sources
import CmsVariables.Proofs.Text.Decoding

/-!
# What a run in place changes

A file is decoded, rewritten and encoded again. Annotations give way to placeholders, and what lies
between them is the same text as before. Its bytes are the same wherever they encode a text; other
bytes come back as replacement characters, but only in a file with an annotation, since files
without any are not written.

* `Replaced`: the bytes of a file before and after its annotations are replaced.
* `replaced_rewrite`: rewriting a decoded text replaces the annotations in its bytes.
* `inPlace_replaced`: every scanned file is so after a run in place.
-/

namespace CmsVariables

open Annotations Text

/-! ## Bytes around annotations -/

/-- The bytes of a text with annotations, and those after each annotation was replaced. `encode`
tells what the bytes around and of an annotation are as the bytes of a text. -/
inductive Replaced (encode : ByteArray → ByteArray) :
    List Occurrence → ByteArray → ByteArray → Prop where
  | rest (gap : ByteArray) : Replaced encode [] gap (encode gap)
  | marked {a : Occurrence} {as : List Occurrence} (gap : ByteArray)
      {mark before after : ByteArray} (hmark : encode mark = a.full.toUTF8)
      (h : Replaced encode as before after) :
      Replaced encode (a :: as) (gap ++ mark ++ before)
        (encode gap ++ (placeholder (canonicalName a.rawName)).toUTF8 ++ after)

/-- The bytes of the text that bytes are decoded to. -/
def reencode (bytes : ByteArray) : ByteArray := (decodeLossy bytes).toUTF8

/-- Bytes that are those of two texts, one after the other, can be cut into the bytes of each. -/
def Cuttable (encode : ByteArray → ByteArray) : Prop :=
  ∀ bytes xs ys, encode bytes = (String.ofList (xs ++ ys)).toUTF8 →
    ∃ front back, bytes = front ++ back ∧ encode front = (String.ofList xs).toUTF8 ∧
      encode back = (String.ofList ys).toUTF8

theorem cuttable_id : Cuttable id := fun _ _ _ h =>
  ⟨_, _, h.trans (toUTF8_ofList_append _ _), rfl, rfl⟩

theorem reencode_eq_iff {bytes : ByteArray} {cs : List Char} :
    reencode bytes = (String.ofList cs).toUTF8 ↔ decodeFrom [] bytes.data.toList = cs := by
  rw [reencode, decodeLossy_eq]
  exact String.toByteArray_inj.trans String.ofList_inj

theorem cuttable_reencode : Cuttable reencode := by
  intro bytes xs ys h
  obtain ⟨front, back, hbytes, hfront, hback⟩ := exists_cut (reencode_eq_iff.mp h)
  refine ⟨front.toByteArray, back.toByteArray, ?_, ?_, ?_⟩
  · apply ByteArray.ext
    apply Array.toList_inj.mp
    simp [hbytes]
  · rw [reencode_eq_iff, List.toList_data_toByteArray, hfront]
  · rw [reencode_eq_iff, List.toList_data_toByteArray, hback]

theorem replaced_rewrittenText {encode : ByteArray → ByteArray} (hcut : Cuttable encode)
    {fs : List Found} {tail : List Char} {bytes : ByteArray} {offset : Nat}
    (h : encode bytes = (String.ofList (fs.flatMap Found.text ++ tail)).toUTF8) :
    Replaced encode (locate offset fs) bytes (String.ofList (rewrittenText fs tail)).toUTF8 := by
  induction fs generalizing bytes offset with
  | nil =>
    rw [show rewrittenText [] tail = tail from rfl]
    exact h ▸ .rest bytes
  | cons f fs ih =>
    rw [List.flatMap_cons, Found.text, List.append_assoc, List.append_assoc] at h
    obtain ⟨gap, back, rfl, hgap, hback⟩ := hcut _ _ _ h
    obtain ⟨mark, rest, rfl, hmark, hrest⟩ := hcut _ _ _ hback
    rw [locate, rewrittenText_cons, toUTF8_ofList_append, toUTF8_ofList_append, ← hgap,
      ← ByteArray.append_assoc, ← ByteArray.append_assoc]
    have hplaceholder : (String.ofList f.form.placeholder).toUTF8 =
        (placeholder (canonicalName (Occurrence.ofFound offset f).rawName)).toUTF8 := by
      rw [Form.placeholder, String.ofList_toList]
      rfl
    rw [hplaceholder]
    exact .marked gap hmark (ih hrest)

theorem replaced_rewrite {encode : ByteArray → ByteArray} (hcut : Cuttable encode)
    {bytes : ByteArray} {text : String} (h : encode bytes = text.toUTF8) :
    Replaced encode (find text) bytes (rewrite text).text.toUTF8 := by
  have hrewritten : (rewrite text).text =
      String.ofList (rewrittenText (dissect text.toList).1 (dissect text.toList).2) := by
    rw [← toList_text_rewrite, String.ofList_toList]
  rw [hrewritten, find]
  refine replaced_rewrittenText hcut ?_
  rw [text_dissect, String.ofList_toList, h]

namespace Run

/-- After a run in place that succeeds, the annotations of a scanned file are replaced, and the text
around them is the same. In a file without any, or of bytes that encode a text, the bytes around
them are the same as well. -/
theorem inPlace_replaced {d : Disk} {o : RewriteOptions} {p : Path}
    (h : (rewriteProject d { o with mode := .inPlace }).exitStatus = 0)
    (hp : p ∈ scanned d o.sourceRoot) :
    ∃ before after text, d.read p = .ok before ∧
      (rewriteProject d { o with mode := .inPlace }).disk.read p = .ok after ∧
      text = decodeLossy before ∧ (rewrite text).count = (find text).length ∧
      (find text = [] → after = before) ∧
      (find text ≠ [] → Replaced reencode (find text) before after) ∧
      (before = text.toUTF8 → Replaced id (find text) before after) := by
  obtain ⟨bytes, hread, hafter⟩ := read_inPlace (Outcome.exitStatus_eq_zero_iff.mp h) hp
  have hcount := count_rewrite (decodeLossy bytes)
  refine ⟨bytes, _, _, hread, hafter, rfl, hcount, ?_, ?_, ?_⟩
  · intro hnone
    rw [hcount, hnone]
    exact if_pos rfl
  · intro hsome
    rw [hcount, if_neg (by simpa using hsome)]
    exact replaced_rewrite cuttable_reencode rfl
  · intro hbytes
    by_cases hnone : find (decodeLossy bytes) = []
    · rw [hcount, hnone]
      exact .rest bytes
    · rw [hcount, if_neg (by simpa using hnone)]
      exact replaced_rewrite cuttable_id hbytes

/-- An annotation after a byte that encodes no text. -/
def strayByte : ByteArray := ⟨#[0xFF]⟩ ++ "/*r:a*/'x'/**/".toUTF8

theorem inPlace_replaced_strayByte :
    (rewriteProject (.ofFile strayByte) { mode := .inPlace }).exitStatus = 0 ∧
      Path.ofText "/a.js" ∈ scanned (.ofFile strayByte) none ∧
      ∃ before after text, (Disk.ofFile strayByte).read (.ofText "/a.js") = .ok before ∧
        (rewriteProject (.ofFile strayByte) { mode := .inPlace }).disk.read (.ofText "/a.js") =
          .ok after ∧
        text = decodeLossy before ∧ (rewrite text).count = (find text).length ∧
        (find text = [] → after = before) ∧
        (find text ≠ [] → Replaced reencode (find text) before after) ∧
        (before = text.toUTF8 → Replaced id (find text) before after) :=
  have hstatus : (rewriteProject (.ofFile strayByte) { mode := .inPlace }).exitStatus = 0 := by
    decide +kernel
  have hscanned : Path.ofText "/a.js" ∈ scanned (.ofFile strayByte) none := by decide +kernel
  ⟨hstatus, hscanned,
    inPlace_replaced (d := .ofFile strayByte) (o := {}) (p := .ofText "/a.js") hstatus hscanned⟩

theorem head?_placeholder (name : String) :
    (placeholder name).toByteArray.data.toList.head? = some 0x22 := by
  have hbytes : (placeholder name).toByteArray = "\"<!IoRangePreExecute><%=".toByteArray ++
      (name ++ "%><!/IoRangePreExecute>\"").toByteArray :=
    (congrArg String.toByteArray String.append_assoc).trans String.toByteArray_append
  have hfirst : "\"<!IoRangePreExecute><%=".toByteArray.data.toList.head? = some 0x22 := by decide
  rw [hbytes, ByteArray.data_append, Array.toList_append, List.head?_append, hfirst]
  rfl

/-- Where the bytes around annotations stay the same, the first byte does, unless an annotation
begins with it. -/
theorem head?_of_replaced {as : List Occurrence} {before after : ByteArray}
    (h : Replaced id as before after) :
    after.data.toList.head? = before.data.toList.head? ∨
      after.data.toList.head? = some 0x22 := by
  cases h with
  | rest gap => exact Or.inl rfl
  | @marked a as gap mark before after hmark h =>
    cases hgap : gap.data.toList with
    | nil =>
      refine Or.inr ?_
      simp [hgap, head?_placeholder]
    | cons b bs =>
      refine Or.inl ?_
      simp [hgap]

/-- A byte that encodes no text is lost from a file with an annotation. -/
theorem inPlace_loses_byte : ¬∀ (d : Disk) (o : RewriteOptions) (p : Path),
    (rewriteProject d { o with mode := .inPlace }).exitStatus = 0 → p ∈ scanned d o.sourceRoot →
      ∃ before after, d.read p = .ok before ∧
        (rewriteProject d { o with mode := .inPlace }).disk.read p = .ok after ∧
        Replaced id (find (decodeLossy before)) before after := by
  intro h
  obtain ⟨before, after, hbefore, hafter, hreplaced⟩ := h (.ofFile strayByte) {} (.ofText "/a.js")
    (by decide +kernel) (by decide +kernel)
  have hfirst : before.data.toList.head? = some 0xFF := by
    have hbytes : ((Disk.ofFile strayByte).read (.ofText "/a.js")).toOption.map
        (·.data.toList.head?) = some (some 0xFF) := by decide +kernel
    rw [hbefore] at hbytes
    exact Option.some.inj hbytes
  have hfirst' : after.data.toList.head? = some 0xEF := by
    have hbytes : ((rewriteProject (.ofFile strayByte) { mode := .inPlace }).disk.read
        (.ofText "/a.js")).toOption.map (·.data.toList.head?) = some (some 0xEF) := by
      decide +kernel
    rw [hafter] at hbytes
    exact Option.some.inj hbytes
  rcases head?_of_replaced hreplaced with heq | heq
  · rw [hfirst, hfirst'] at heq
    exact absurd heq (by decide)
  · rw [hfirst'] at heq
    exact absurd heq (by decide)

end Run

end CmsVariables
