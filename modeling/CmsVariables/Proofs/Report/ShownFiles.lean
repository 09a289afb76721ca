import CmsVariables.Report
import CmsVariables.Proofs.Path.Normal

/-!
# How files are shown

A listing shows a file by its path without the text of a base directory in front. The slash after the
base stays, so that a file below the base looks like one below the root, and the two are shown alike
when both exist. Files on one side of the base are told apart. All paths are texts here; what is shown
of a path that is no UTF-8 is left open.

* `Trimmed`: what is left of the path of one file, and which directory that says it lies below.
* `Apart`: when two files are shown alike.
* `shown_trimmed_apart`: both of them, of all normal paths.
* `shown_not_identifying`: a file that starts like the base without lying below it, and two files
  that are shown alike.
-/

namespace CmsVariables.Report

open CmsVariables.Path

variable {s r front text : String} {f g : Path}

/-! ## Leaving out a front part -/

theorem withoutFront_append (front text : String) : withoutFront front (front ++ text) = text := by
  have hstart : front.toList.isPrefixOf (front ++ text).toList = true := by
    rw [List.isPrefixOf_iff_prefix, String.toList_append]
    exact List.prefix_append _ _
  rw [withoutFront, if_pos hstart, String.toList_append, ← String.length_toList,
    List.drop_left, String.ofList_toList]

theorem withoutFront_eq_self (h : ¬front.toList <+: text.toList) :
    withoutFront front text = text :=
  if_neg fun hstart => h (List.isPrefixOf_iff_prefix.mp hstart)

theorem exists_eq_append (h : front.toList <+: text.toList) :
    ∃ more, text = front ++ more := by
  obtain ⟨more, hmore⟩ := h
  exact ⟨String.ofList more, String.toList_inj.mp (by simpa using hmore.symm)⟩

/-! ## Files shown from a directory -/

/-- How a file is shown in a listing from the directory that the text `s` spells. -/
def shown (s : String) (f : Path) : String := displayPath f (some (ofText s))

theorem shown_eq (s : String) (f : Path) : shown s f = withoutFront s f.text := by
  rw [shown, displayPath, text_ofText]

theorem shown_of_text_eq (h : f.text = s ++ r) : shown s f = r := by
  rw [shown_eq, h, withoutFront_append]

theorem shown_eq_text (h : ¬s.toList <+: f.text.toList) : shown s f = f.text := by
  rw [shown_eq, withoutFront_eq_self h]

theorem text_eq_or_shown_eq (s : String) (f : Path) :
    f.text = s ++ shown s f ∨ shown s f = f.text := by
  by_cases h : s.toList <+: f.text.toList
  · obtain ⟨more, hmore⟩ := exists_eq_append h
    exact .inl (by rw [shown_of_text_eq hmore, hmore])
  · exact .inr (shown_eq_text h)

/-- What is shown of a file is its path or the rest of it after the directory. The rest from a slash
on is shown of the files below the directory. -/
structure Trimmed (s : String) (f : Path) : Prop where
  cut : shown s f = f.text ∨ f.text = s ++ shown s f
  below : ∀ r, f.text = s ++ "/" ++ r → shown s f = "/" ++ r ∧ (ofText s).Above f
  above : (ofText s).IsNormal → (ofText s).Above f → ∃ r, f.text = s ++ "/" ++ r

/-- Two files are shown alike only if one of them is the directory followed by the path of the
other. -/
structure Apart (s : String) (f g : Path) : Prop where
  alike : shown s f = shown s g → f = g ∨
    (f.text = s ++ g.text ∧ (ofText s).Above f) ∨ (g.text = s ++ f.text ∧ (ofText s).Above g)
  sameSide : (ofText s).IsNormal → ((ofText s).Above f ↔ (ofText s).Above g) →
    shown s f = shown s g → f = g
  collide : f.text = s ++ g.text → ¬s.toList <+: g.text.toList → shown s f = shown s g

theorem above_of_text_append (hroot : s.toList.head? = some '/') (hf : f.IsNormal)
    (hg : g.IsNormal) (h : f.text = s ++ g.text) : (ofText s).Above f := by
  refine hf.above_of_text hroot (r := joinSegments g.segments) ?_
  rw [h, text, if_pos hg.rooted, String.append_assoc]

theorem alike (hroot : s.toList.head? = some '/') (hf : f.IsNormal) (hg : g.IsNormal)
    (h : shown s f = shown s g) : f = g ∨
      (f.text = s ++ g.text ∧ (ofText s).Above f) ∨
      (g.text = s ++ f.text ∧ (ofText s).Above g) := by
  -- one case for each of the two files being cut or not
  obtain hcutf | hwholef := text_eq_or_shown_eq s f <;>
    obtain hcutg | hwholeg := text_eq_or_shown_eq s g
  · exact .inl (hf.text_injective hg (by rw [hcutf, h, ← hcutg]))
  · have htext : f.text = s ++ g.text := by rw [hcutf, h, hwholeg]
    exact .inr (.inl ⟨htext, above_of_text_append hroot hf hg htext⟩)
  · have htext : g.text = s ++ f.text := by rw [hcutg, ← h, hwholef]
    exact .inr (.inr ⟨htext, above_of_text_append hroot hg hf htext⟩)
  · exact .inl (hf.text_injective hg (by rw [← hwholef, h, hwholeg]))

/-- The directory followed by the path of a file below it is not shown as that file is. -/
theorem shown_ne_of_above (hroot : s.toList.head? = some '/') (hs : (ofText s).IsNormal)
    (hg : g.IsNormal) (h : f.text = s ++ g.text) (habove : (ofText s).Above g) :
    shown s f ≠ shown s g := by
  obtain ⟨r, hr⟩ := hs.exists_text_of_above hg habove
  rw [text_ofText, String.append_assoc] at hr
  rw [shown_of_text_eq h, shown_of_text_eq hr]
  intro heq
  have hnil : s = "" := by
    have hlength := congrArg String.length (hr.symm.trans heq)
    simp only [String.length_append] at hlength
    exact String.length_eq_zero_iff.mp (by omega)
  rw [hnil] at hroot
  exact absurd hroot (by decide)

theorem eq_of_sameSide (hroot : s.toList.head? = some '/') (hs : (ofText s).IsNormal)
    (hf : f.IsNormal) (hg : g.IsNormal) (hsides : (ofText s).Above f ↔ (ofText s).Above g)
    (h : shown s f = shown s g) : f = g := by
  obtain heq | ⟨htext, habove⟩ | ⟨htext, habove⟩ := alike hroot hf hg h
  · exact heq
  · exact absurd h (shown_ne_of_above hroot hs hg htext (hsides.mp habove))
  · exact absurd h.symm (shown_ne_of_above hroot hs hf htext (hsides.mpr habove))

/-- Files of a listing are shown by what stands after the base directory, and only a file below that
directory can be taken for another one. -/
theorem shown_trimmed_apart (hroot : s.toList.head? = some '/') (hf : f.IsNormal)
    (hg : g.IsNormal) : Trimmed s f ∧ Apart s f g := by
  constructor
  · exact
      { cut := (text_eq_or_shown_eq s f).symm
        below := by
          intro r hr
          refine ⟨shown_of_text_eq ?_, hf.above_of_text hroot hr⟩
          rw [hr, String.append_assoc]
        above := by
          intro hs habove
          simpa only [text_ofText] using hs.exists_text_of_above hf habove }
  · exact
      { alike := alike hroot hf hg
        sameSide := fun hs => eq_of_sameSide hroot hs hf hg
        collide := by
          intro htext hstart
          rw [shown_of_text_eq htext, shown_eq_text hstart] }

/-! ## Files below a site and next to it -/

/-- A file below the directory `/home/me/site`. -/
def belowSite : Path := ⟨true, ["home", "me", "site", "src", "app.js"]⟩

/-- A file that has the place below the root that the other one has below the site. -/
def belowRoot : Path := ⟨true, ["src", "app.js"]⟩

/-- A file in a directory whose name goes on after the name of the site. -/
def besideSite : Path := ⟨true, ["home", "me", "site2", "app.js"]⟩

/-- The file below the site is shown by its path from there, and the one below the root likewise. -/
theorem shown_trimmed_apart_site :
    "/home/me/site".toList.head? = some '/' ∧ belowSite.IsNormal ∧ belowRoot.IsNormal ∧
      belowSite ≠ belowRoot ∧ (ofText "/home/me/site").Above belowSite ∧
      shown "/home/me/site" belowSite = "/src/app.js" ∧
      shown "/home/me/site" belowRoot = "/src/app.js" := by
  obtain ⟨htrimmed, hapart⟩ := shown_trimmed_apart (s := "/home/me/site") (f := belowSite)
    (g := belowRoot) (by decide) (by decide) (by decide)
  obtain ⟨hshown, habove⟩ := htrimmed.below "src/app.js" (by decide)
  refine ⟨by decide, by decide, by decide, by decide, habove, hshown, ?_⟩
  rw [← hapart.collide (by decide) (by decide), hshown]
  rfl

/-- A file is not always shown by its whole path or the rest of it from a slash on, and different
files can be shown alike. -/
theorem shown_not_identifying :
    (¬∀ (s : String) (f : Path), s.toList.head? = some '/' → s.toList.getLast? ≠ some '/' →
      f.IsNormal → shown s f = f.text ∨
        ((shown s f).toList.head? = some '/' ∧ (ofText s).Above f ∧ f.text = s ++ shown s f)) ∧
    ¬∀ (s : String) (f g : Path), s.toList.head? = some '/' → s.toList.getLast? ≠ some '/' →
      f.IsNormal → g.IsNormal → f ≠ g → shown s f ≠ shown s g := by
  constructor
  · intro h
    have hshown : shown "/home/me/site" besideSite = "2/app.js" := by decide
    have hcase := h "/home/me/site" besideSite (by decide) (by decide) (by decide)
    rw [hshown] at hcase
    obtain hwhole | ⟨hslash, -⟩ := hcase
    · exact absurd hwhole (by decide)
    · exact absurd hslash (by decide)
  · intro h
    have hshown : shown "/home/me/site" belowSite = shown "/home/me/site" belowRoot := by decide
    exact h "/home/me/site" belowSite belowRoot (by decide) (by decide) (by decide) (by decide)
      (by decide) hshown

end CmsVariables.Report
