import CmsVariables.Proofs.Annotations.Dissection
import Mathlib.Order.Bounds.Basic

/-!
# What it means to find all annotations

`Scan` says of a list of annotations that it is the one a search from left to right must give,
without searching: each is the first that is written after the one before it, takes all it can and
has the shortest name, and no written annotation lies apart from all of them. Places are bytes of the
encoded text, and they fall between characters.

* `find_scan`: the annotations that are found are so.
* `Scan.eq`: no other list is.
* `scan_iff`: both together.
-/

namespace CmsVariables.Annotations

/-! ## Places in bytes -/

theorem bytes_append (xs ys : List Char) : bytes (xs ++ ys) = bytes xs + bytes ys := by
  rw [bytes, String.ofList_append]
  exact String.utf8ByteSize_append

theorem toUTF8_ofList_append (xs ys : List Char) :
    (String.ofList (xs ++ ys)).toUTF8 = (String.ofList xs).toUTF8 ++ (String.ofList ys).toUTF8 := by
  rw [String.ofList_append]
  exact String.toByteArray_append

theorem utf8ByteSize_eq_bytes (s : String) : s.utf8ByteSize = bytes s.toList := by
  rw [bytes, String.ofList_toList]

theorem bytes_pos {cs : List Char} (h : cs ≠ []) : 0 < bytes cs := by
  apply Nat.pos_of_ne_zero
  intro hzero
  have hempty : String.ofList cs = "" := String.utf8ByteSize_eq_zero_iff.mp hzero
  exact h (by simpa using congrArg String.toList hempty)

/-- Of two beginnings of a text the one with fewer bytes is a beginning of the other. -/
theorem prefix_of_bytes_le {xs ys cs : List Char} (hxs : xs <+: cs) (hys : ys <+: cs)
    (h : bytes xs ≤ bytes ys) : xs <+: ys := by
  rcases List.prefix_or_prefix_of_prefix hxs hys with hle | ⟨more, rfl⟩
  · exact hle
  · by_cases hne : more = []
    · have heq : ys ++ more = ys := by rw [hne, List.append_nil]
      exact heq.symm ▸ List.prefix_refl ys
    · have := bytes_pos hne
      rw [bytes_append] at h
      omega

theorem bytes_lt_of_length_lt {xs ys cs : List Char} (hxs : xs <+: cs) (hys : ys <+: cs)
    (h : xs.length < ys.length) : bytes xs < bytes ys := by
  obtain ⟨more, rfl⟩ := List.prefix_of_prefix_length_le hxs hys h.le
  have hne : more ≠ [] := by
    rintro rfl
    simp at h
  have := bytes_pos hne
  rw [bytes_append]
  omega

/-! ## Texts within a text -/

/-- A text stands in another one at byte `start`. As whole characters come before it, that byte
begins a character. -/
def StandsAt (text word : String) (start : Nat) : Prop :=
  ∃ before after, text = before ++ word ++ after ∧ before.utf8ByteSize = start

/-- Some annotation is written in the text from byte `start` on. -/
def BeginsAt (text : String) (start : Nat) : Prop :=
  ∃ word : String, Written word.toList ∧ StandsAt text word start

theorem standsAt_iff {text word : String} {start : Nat} :
    StandsAt text word start ↔
      ∃ before after, text.toList = before ++ (word.toList ++ after) ∧ bytes before = start := by
  constructor
  · rintro ⟨before, after, rfl, rfl⟩
    exact ⟨before.toList, after.toList, by simp, (utf8ByteSize_eq_bytes before).symm⟩
  · rintro ⟨before, after, htext, rfl⟩
    refine ⟨String.ofList before, String.ofList after, ?_, by simp [utf8ByteSize_eq_bytes]⟩
    apply String.toList_inj.mp
    simp [htext]

theorem StandsAt.isValid_start {text word : String} {start : Nat} (h : StandsAt text word start) :
    (⟨start⟩ : String.Pos.Raw).IsValid text := by
  obtain ⟨before, after, rfl, rfl⟩ := h
  exact String.Pos.Raw.isValid_iff_exists_append.mpr
    ⟨before, word ++ after, String.append_assoc, rfl⟩

theorem StandsAt.isValid_stop {text word : String} {start : Nat} (h : StandsAt text word start) :
    (⟨start + word.utf8ByteSize⟩ : String.Pos.Raw).IsValid text := by
  obtain ⟨before, after, rfl, rfl⟩ := h
  refine String.Pos.Raw.isValid_iff_exists_append.mpr ⟨before ++ word, after, rfl, ?_⟩
  rw [← String.utf8ByteSize_append]
  rfl

theorem StandsAt.extract_eq {text word : String} {start : Nat} (h : StandsAt text word start) :
    text.toUTF8.extract start (start + word.utf8ByteSize) = word.toUTF8 := by
  obtain ⟨before, after, rfl, rfl⟩ := h
  rw [String.append_assoc, String.toUTF8_eq_toByteArray]
  simp only [String.toByteArray_append]
  rw [← String.size_toByteArray, ← String.size_toByteArray]
  have h := ByteArray.extract_append_size_add (a := before.toByteArray)
    (b := word.toByteArray ++ after.toByteArray) (i := 0) (j := word.toByteArray.size)
  rw [Nat.add_zero] at h
  rw [h, ByteArray.extract_append_eq_left rfl, String.toUTF8_eq_toByteArray]

/-! ## What is found -/

/-- Where the search for the next annotation begins after the first `i` ones. -/
def resumesAt (as : List Occurrence) (i : Nat) : Nat :=
  ((as.take i).getLast?.map Occurrence.stop).getD 0

theorem locate_append (offset : Nat) (fs gs : List Found) :
    locate offset (fs ++ gs) =
      locate offset fs ++ locate (offset + bytes (fs.flatMap Found.text)) gs := by
  induction fs generalizing offset with
  | nil => rfl
  | cons f fs ih =>
    rw [List.cons_append, locate, locate, ih, List.cons_append, List.flatMap_cons, bytes_append,
      Nat.add_assoc]

theorem length_locate (offset : Nat) (fs : List Found) : (locate offset fs).length = fs.length := by
  induction fs generalizing offset with
  | nil => rfl
  | cons f fs ih => rw [locate, List.length_cons, List.length_cons, ih]

theorem stop_locate (fs : List Found) :
    ((locate 0 fs).getLast?.map Occurrence.stop).getD 0 = bytes (fs.flatMap Found.text) := by
  rcases List.eq_nil_or_concat fs with rfl | ⟨front, last, hconcat⟩
  · rfl
  · obtain rfl : fs = front ++ [last] := hconcat.trans List.concat_eq_append
    rw [locate_append, List.flatMap_append, bytes_append]
    simp [locate, Occurrence.ofFound]

/-- Where the `i`-th annotation comes from: the text up to the end of the one before it, and the
find that the search makes from there. -/
theorem exists_found_at {text : String} {i : Nat} {a : Occurrence}
    (h : (find text)[i]? = some a) :
    ∃ done f rest, text.toList = done ++ (f.gap ++ (f.form.text ++ rest)) ∧
      next? (f.gap ++ (f.form.text ++ rest)) = some (f, rest) ∧
      resumesAt (find text) i = bytes done ∧ a = .ofFound (bytes done) f := by
  generalize hfs : (dissect text.toList).1 = fs
  have hfind : find text = locate 0 fs := by rw [find, hfs]
  have hlt : i < fs.length := by
    have := (List.getElem?_eq_some_iff.mp h).1
    rwa [hfind, length_locate] at this
  have hsplit : fs = fs.take i ++ fs[i] :: fs.drop (i + 1) := by simp
  have hlength : (locate 0 (fs.take i)).length = i := by
    rw [length_locate, List.length_take, Nat.min_eq_left hlt.le]
  have hlocate : find text = locate 0 (fs.take i) ++
      locate (bytes ((fs.take i).flatMap Found.text)) (fs[i] :: fs.drop (i + 1)) := by
    rw [hfind, ← Nat.zero_add (bytes _), ← locate_append, ← hsplit]
  obtain ⟨start, htext, hstart⟩ := dissect_append (hfs.trans hsplit)
  obtain ⟨rest, hnext, -⟩ := next?_of_dissect hstart
  have hgap := (next?_eq_some hnext).1
  refine ⟨(fs.take i).flatMap Found.text, fs[i], rest, hgap ▸ htext, hgap ▸ hnext, ?_, ?_⟩
  · rw [resumesAt, hlocate, List.take_left' hlength, stop_locate]
  · rw [hlocate, List.getElem?_append_right hlength.le, hlength, Nat.sub_self, locate] at h
    exact (Option.some.inj h).symm

/-- What a list of annotations has to be for a text, said without searching: they are written where
they say, each is the first one after the one before it, takes all it can and has the shortest name,
and none is left out. -/
structure Scan (text : String) (as : List Occurrence) : Prop where
  /-- An annotation begins and ends between characters. -/
  boundaries : ∀ a ∈ as, (⟨a.start⟩ : String.Pos.Raw).IsValid text ∧
    (⟨a.stop⟩ : String.Pos.Raw).IsValid text
  cut : ∀ a ∈ as, text.toUTF8.extract a.start a.stop = a.full.toUTF8
  grammar : ∀ a ∈ as, ∃ f : Form, f.WellFormed ∧ f.text = a.full.toList ∧
    f.name = a.rawName.toList ∧ f.content = a.content.toList
  leftmost : ∀ i a, as[i]? = some a →
    IsLeast {p | resumesAt as i ≤ p ∧ BeginsAt text p} a.start
  longest : ∀ a ∈ as, ∀ word : String, Written word.toList → StandsAt text word a.start →
    word.utf8ByteSize ≤ a.full.utf8ByteSize
  shortestName : ∀ a ∈ as, ∀ f : Form, f.WellFormed → f.text = a.full.toList →
    a.rawName.length ≤ f.name.length
  /-- An annotation that is written anywhere shares a part with one of the list. -/
  covers : ∀ (word : String) (p : Nat), Written word.toList → StandsAt text word p →
    ∃ a ∈ as, a.start < p + word.utf8ByteSize ∧ p < a.stop

theorem exists_found_of_mem {text : String} {a : Occurrence} (h : a ∈ find text) :
    ∃ done f rest, text.toList = done ++ (f.gap ++ (f.form.text ++ rest)) ∧
      next? (f.gap ++ (f.form.text ++ rest)) = some (f, rest) ∧ a = .ofFound (bytes done) f := by
  obtain ⟨i, hi⟩ := List.mem_iff_getElem?.mp h
  obtain ⟨done, f, rest, htext, hnext, -, ha⟩ := exists_found_at hi
  exact ⟨done, f, rest, htext, hnext, ha⟩

theorem standsAt_of_mem_find {text : String} {a : Occurrence} (h : a ∈ find text) :
    StandsAt text a.full a.start ∧ a.stop = a.start + a.full.utf8ByteSize := by
  obtain ⟨done, f, rest, htext, -, rfl⟩ := exists_found_of_mem h
  constructor
  · refine standsAt_iff.mpr ⟨done ++ f.gap, rest, ?_, bytes_append _ _⟩
    simp [Occurrence.ofFound, htext]
  · simp only [Occurrence.ofFound, Found.text, bytes_append, utf8ByteSize_eq_bytes,
      String.toList_ofList]
    omega

theorem find_leftmost {text : String} {i : Nat} {a : Occurrence} (h : (find text)[i]? = some a) :
    IsLeast {p | resumesAt (find text) i ≤ p ∧ BeginsAt text p} a.start := by
  obtain ⟨done, f, rest, htext, hnext, hresumes, rfl⟩ := exists_found_at h
  rw [hresumes]
  have hread := (next?_eq_some hnext).2.1
  constructor
  · refine ⟨Nat.le_add_right _ _, String.ofList f.form.text, ?_, ?_⟩
    · rw [String.toList_ofList]
      exact ⟨f.form, Form.wellFormed_of_read? hread, rfl⟩
    · exact (standsAt_of_mem_find (List.mem_of_getElem? h)).1
  · rintro p ⟨hle, word, hword, hstands⟩
    obtain ⟨before, after, hbefore, rfl⟩ := standsAt_iff.mp hstands
    obtain ⟨skipped, rfl⟩ := prefix_of_bytes_le ⟨_, htext.symm⟩ ⟨_, hbefore.symm⟩ hle
    rw [hbefore, List.append_assoc] at htext
    obtain ⟨more, rfl⟩ :=
      gap_prefix_of_written hnext (List.append_cancel_left htext).symm hword
    show bytes done + bytes f.gap ≤ _
    simp only [bytes_append]
    omega

theorem find_longest {text word : String} {a : Occurrence} (h : a ∈ find text)
    (hword : Written word.toList) (hstands : StandsAt text word a.start) :
    word.utf8ByteSize ≤ a.full.utf8ByteSize := by
  obtain ⟨done, f, rest, htext, hnext, rfl⟩ := exists_found_of_mem h
  obtain ⟨before, after, hbefore, hstart⟩ := standsAt_iff.mp hstands
  have hread := (next?_eq_some hnext).2.1
  rw [← List.append_assoc] at htext
  have hsize : bytes before = bytes (done ++ f.gap) := by
    rw [hstart, bytes_append]
    rfl
  have heq : before = done ++ f.gap :=
    List.IsPrefix.eq_of_length_le
      (prefix_of_bytes_le ⟨_, hbefore.symm⟩ ⟨_, htext.symm⟩ hsize.le)
      (prefix_of_bytes_le ⟨_, htext.symm⟩ ⟨_, hbefore.symm⟩ hsize.ge).length_le
  rw [hbefore, heq] at htext
  obtain ⟨more, hmore⟩ := Form.prefix_text_of_read? hread hword
    ⟨after, List.append_cancel_left htext⟩
  simp only [Occurrence.ofFound, utf8ByteSize_eq_bytes, String.toList_ofList, ← hmore,
    bytes_append]
  omega

theorem find_covers {text word : String} {p : Nat} (hword : Written word.toList)
    (hstands : StandsAt text word p) :
    ∃ a ∈ find text, a.start < p + word.utf8ByteSize ∧ p < a.stop := by
  obtain ⟨before, after, htext, rfl⟩ := standsAt_iff.mp hstands
  obtain ⟨fs, f, gs, hsplit, hstart, hstop⟩ := exists_found_of_written hword htext
  obtain ⟨rest, hrest, hdissect⟩ := dissect_append hsplit
  obtain ⟨tail, hnext, -⟩ := next?_of_dissect hdissect
  have hfound : fs.flatMap Found.text ++ f.text <+: text.toList :=
    ⟨tail, by rw [hrest, text_of_next? hnext, List.append_assoc]⟩
  have hgap : fs.flatMap Found.text ++ f.gap <+: text.toList :=
    List.IsPrefix.trans ⟨f.form.text, by simp [Found.text]⟩ hfound
  refine ⟨.ofFound (bytes (fs.flatMap Found.text)) f, ?_, ?_, ?_⟩
  · rw [find, hsplit, locate_append, Nat.zero_add, locate]
    exact List.mem_append_right _ List.mem_cons_self
  · have h := bytes_lt_of_length_lt hgap ⟨after, by rw [htext, List.append_assoc]⟩ hstart
    rw [bytes_append, bytes_append] at h
    rw [utf8ByteSize_eq_bytes]
    exact h
  · have h := bytes_lt_of_length_lt ⟨_, htext.symm⟩ hfound hstop
    rw [bytes_append _ f.text] at h
    exact h

theorem find_scan (text : String) : Scan text (find text) where
  boundaries a ha := by
    obtain ⟨hstands, hstop⟩ := standsAt_of_mem_find ha
    rw [hstop]
    exact ⟨hstands.isValid_start, hstands.isValid_stop⟩
  cut a ha := by
    obtain ⟨hstands, hstop⟩ := standsAt_of_mem_find ha
    rw [hstop]
    exact hstands.extract_eq
  grammar a ha := by
    obtain ⟨done, f, rest, -, hnext, rfl⟩ := exists_found_of_mem ha
    have hread := (next?_eq_some hnext).2.1
    exact ⟨f.form, Form.wellFormed_of_read? hread, by simp [Occurrence.ofFound]⟩
  leftmost _ _ := find_leftmost
  longest _ ha _ := find_longest ha
  shortestName a ha g hg htext := by
    obtain ⟨done, f, rest, -, hnext, rfl⟩ := exists_found_of_mem ha
    have hread := (next?_eq_some hnext).2.1
    rw [Occurrence.ofFound, String.toList_ofList] at htext
    rw [Occurrence.ofFound, String.length_ofList]
    rcases Form.eq_or_length_lt_of_read? hread hg htext with rfl | hlt
    · exact Nat.le_refl _
    · exact hlt.le
  covers _ _ := find_covers

/-- Name and default text of an annotation are written with their own characters. -/
theorem chars_of_mem_find {text : String} {a : Occurrence} (h : a ∈ find text) :
    (∀ c ∈ a.rawName.toList, isNameChar c = true) ∧
      ∀ c ∈ a.content.toList, isContentChar c = true := by
  obtain ⟨f, hf, -, hname, hcontent⟩ := (find_scan text).grammar a h
  rw [← hname, ← hcontent]
  exact ⟨hf.name_all, hf.content_all⟩

/-! ## Nothing else is a scan -/

theorem standsAt_of_extract {text word : String} {start stop : Nat}
    (hstart : (⟨start⟩ : String.Pos.Raw).IsValid text)
    (hstop : (⟨stop⟩ : String.Pos.Raw).IsValid text) (hword : word ≠ "")
    (h : text.toUTF8.extract start stop = word.toUTF8) :
    StandsAt text word start ∧ stop = start + word.utf8ByteSize := by
  obtain ⟨before, rest, htext, hbefore⟩ := String.Pos.Raw.isValid_iff_exists_append.mp hstart
  obtain ⟨upTo, after, hupTo, hstop⟩ := String.Pos.Raw.isValid_iff_exists_append.mp hstop
  obtain rfl : start = before.utf8ByteSize := congrArg String.Pos.Raw.byteIdx hbefore
  obtain rfl : stop = upTo.utf8ByteSize := congrArg String.Pos.Raw.byteIdx hstop
  have hle : before.utf8ByteSize ≤ upTo.utf8ByteSize := by
    -- otherwise nothing is cut out, and the word would be empty
    by_contra hlt
    have hsize := congrArg ByteArray.size h
    simp only [ByteArray.size_extract, String.toUTF8_eq_toByteArray,
      String.size_toByteArray] at hsize
    exact hword (String.utf8ByteSize_eq_zero_iff.mp (by omega))
  rw [utf8ByteSize_eq_bytes, utf8ByteSize_eq_bytes] at hle
  have hbeforePrefix : before.toList <+: text.toList := ⟨rest.toList, by simp [htext]⟩
  have hupToPrefix : upTo.toList <+: text.toList := ⟨after.toList, by simp [hupTo]⟩
  obtain ⟨inside, hinside⟩ := prefix_of_bytes_le hbeforePrefix hupToPrefix hle
  obtain rfl : upTo = before ++ String.ofList inside := by
    apply String.toList_inj.mp
    simp [hinside]
  have hstands : StandsAt text (String.ofList inside) before.utf8ByteSize :=
    ⟨before, after, hupTo, rfl⟩
  rw [String.utf8ByteSize_append, hstands.extract_eq] at h
  obtain rfl : String.ofList inside = word := String.toByteArray_inj.mp (by simpa using h)
  exact ⟨hstands, String.utf8ByteSize_append⟩

theorem StandsAt.eq_of_size_eq {text word word' : String} {start : Nat}
    (h : StandsAt text word start) (h' : StandsAt text word' start)
    (hsize : word.utf8ByteSize = word'.utf8ByteSize) : word = word' := by
  have hcut := h.extract_eq
  rw [hsize, h'.extract_eq] at hcut
  exact (String.toByteArray_inj.mp (by simpa using hcut)).symm

theorem resumesAt_succ {as : List Occurrence} {i : Nat} {a : Occurrence} (h : as[i]? = some a) :
    resumesAt as (i + 1) = a.stop := by
  rw [resumesAt, List.take_add_one, h]
  simp

namespace Scan

variable {text : String} {as bs : List Occurrence}

theorem full_written (h : Scan text as) {a : Occurrence} (ha : a ∈ as) : Written a.full.toList := by
  obtain ⟨f, hf, htext, -⟩ := h.grammar a ha
  exact ⟨f, hf, htext⟩

theorem stands (h : Scan text as) {a : Occurrence} (ha : a ∈ as) :
    StandsAt text a.full a.start ∧ a.stop = a.start + a.full.utf8ByteSize := by
  obtain ⟨hstart, hstop⟩ := h.boundaries a ha
  refine standsAt_of_extract hstart hstop ?_ (h.cut a ha)
  intro hempty
  exact (h.full_written ha).ne_nil (by rw [hempty]; rfl)

/-- The search goes on behind all annotations found so far. -/
theorem stop_le_resumesAt (h : Scan text as) {i : Nat} {a : Occurrence} (ha : a ∈ as.take i) :
    a.stop ≤ resumesAt as i := by
  induction i with
  | zero => cases ha
  | succ i ih =>
    rw [List.take_add_one] at ha
    cases hi : as[i]? with
    | none =>
      rw [hi, Option.toList_none, List.append_nil] at ha
      rw [resumesAt, List.take_add_one, hi, Option.toList_none, List.append_nil]
      exact ih ha
    | some b =>
      rw [resumesAt_succ hi]
      rw [hi, Option.toList_some] at ha
      rcases List.mem_append.mp ha with ha | ha
      · have hleast := (h.leftmost i b hi).1.1
        have hstop := (h.stands (List.mem_of_getElem? hi)).2
        exact (ih ha).trans (hleast.trans (by omega))
      · rw [List.mem_singleton.mp ha]

/-- After the same annotations the next one is the same. -/
theorem eq_of_take_eq (h : Scan text as) (h' : Scan text bs) {i : Nat} {a b : Occurrence}
    (htake : as.take i = bs.take i) (ha : as[i]? = some a) (hb : bs[i]? = some b) : a = b := by
  have hmem := List.mem_of_getElem? ha
  have hmem' := List.mem_of_getElem? hb
  have hleast := h.leftmost i a ha
  rw [resumesAt, htake] at hleast
  have hstart : a.start = b.start := hleast.unique (h'.leftmost i b hb)
  obtain ⟨hstands, hstop⟩ := h.stands hmem
  obtain ⟨hstands', hstop'⟩ := h'.stands hmem'
  have hle := h'.longest b hmem' a.full (h.full_written hmem) (hstart ▸ hstands)
  have hge := h.longest a hmem b.full (h'.full_written hmem') (hstart ▸ hstands')
  have hfull : a.full = b.full :=
    hstands.eq_of_size_eq (hstart ▸ hstands') (Nat.le_antisymm hle hge)
  obtain ⟨f, hf, hftext, hfname, hfcontent⟩ := h.grammar a hmem
  obtain ⟨g, hg, hgtext, hgname, hgcontent⟩ := h'.grammar b hmem'
  have hname : f.name.length = g.name.length := by
    have hle := h.shortestName a hmem g hg (hfull ▸ hgtext)
    have hge := h'.shortestName b hmem' f hf (hfull ▸ hftext)
    rw [← String.length_toList, ← hfname] at hle
    rw [← String.length_toList, ← hgname] at hge
    exact Nat.le_antisymm hle hge
  obtain rfl := hf.eq_of_text_eq hg (by rw [hftext, hgtext, hfull]) hname
  obtain ⟨afull, araw, acontent, astart, astop⟩ := a
  obtain ⟨bfull, braw, bcontent, bstart, bstop⟩ := b
  simp_all [String.toList_inj]

/-- A scan cannot end where another one goes on. -/
theorem length_le (h : Scan text as) (h' : Scan text bs) {i : Nat}
    (htake : as.take i = bs.take i) (hb : bs[i]? = none) : as[i]? = none := by
  cases ha : as[i]? with
  | none => rfl
  | some a =>
    have hmem := List.mem_of_getElem? ha
    obtain ⟨b, hbmem, -, hlt⟩ :=
      h'.covers a.full a.start (h.full_written hmem) (h.stands hmem).1
    rw [← List.take_of_length_le (List.getElem?_eq_none_iff.mp hb), ← htake] at hbmem
    have hstop := h.stop_le_resumesAt hbmem
    have hleast := (h.leftmost i a ha).1.1
    omega

theorem eq (h : Scan text as) (h' : Scan text bs) : as = bs := by
  have htake : ∀ i, as.take i = bs.take i := by
    intro i
    induction i with
    | zero => rfl
    | succ i ih =>
      have hnext : as[i]? = bs[i]? := by
        cases ha : as[i]? with
        | none => exact (h'.length_le h ih.symm ha).symm
        | some a =>
          cases hb : bs[i]? with
          | none => rw [h.length_le h' ih hb] at ha; cases ha
          | some b => rw [h.eq_of_take_eq h' ih ha hb]
      rw [List.take_add_one, List.take_add_one, ih, hnext]
  have hlength := htake (as.length + bs.length)
  rwa [List.take_of_length_le (Nat.le_add_right _ _),
    List.take_of_length_le (Nat.le_add_left _ _)] at hlength

end Scan

/-- Exactly one list is a scan of a text, and it is the one that is found. -/
theorem scan_iff {text : String} {as : List Occurrence} : Scan text as ↔ as = find text :=
  ⟨fun h => h.eq (find_scan text), fun h => h ▸ find_scan text⟩

end CmsVariables.Annotations
