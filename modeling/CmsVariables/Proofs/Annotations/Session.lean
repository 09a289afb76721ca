import CmsVariables.Annotations.Session
import CmsVariables.Proofs.Rewriting.Quotes
import Mathlib.Data.List.Induction

/-!
# Reading side by side is reading one after another

A cursor that is moved on again and again gives the annotations that a search of the whole text
finds, whatever is done with other texts in between. So the answer to a request is told by the text
and by how often its next annotation was asked for since it was last put back to the beginning.

* `Cursor.remaining_of_next?`: a cursor goes through what is left, one annotation at a time.
* `Session.step_tracks`: one request keeps every reader where its own requests brought it.
* `Session.reply_run`: the answer to each request of a run.
-/

namespace CmsVariables.Annotations

/-! ## What a cursor has before it -/

namespace Cursor

/-- The annotations from the place of the cursor on. -/
def remaining (c : Cursor) : List Occurrence := locate c.offset (dissect c.rest).1

theorem remaining_ofText (text : String) : (ofText text).remaining = find text := rfl

theorem remaining_of_next? {c after : Cursor} {a : Occurrence} (h : c.next? = some (a, after)) :
    c.remaining = a :: after.remaining := by
  rw [next?] at h
  split at h
  · rename_i f rest hnext
    cases h
    rw [remaining, dissect_of_some hnext, locate]
    rfl
  · cases h

theorem remaining_of_next?_eq_none {c : Cursor} (h : c.next? = none) : c.remaining = [] := by
  rw [next?] at h
  split at h
  · cases h
  · rename_i hnext
    rw [remaining, dissect_of_none hnext]
    rfl

end Cursor

/-! ## Requests for one text -/

/-- The text that a request is for. -/
def Request.index : Request → Nat
  | next i => i
  | restart i => i
  | rewrite i => i

/-- The request moves the cursor of the text `i`. -/
def Request.Moves (i : Nat) (q : Request) : Prop := q = .next i ∨ q = .restart i

theorem Request.Moves.index_eq {i : Nat} {q : Request} (h : q.Moves i) : q.index = i := by
  rcases h with rfl | rfl <;> rfl

instance (i : Nat) : DecidablePred (Request.Moves i) := fun q =>
  inferInstanceAs (Decidable (q = .next i ∨ q = .restart i))

/-- How often the next annotation of the text `i` was asked for since the text was last put back to
the beginning. -/
def asked (i : Nat) (qs : List Request) : Nat :=
  (qs.reverse.takeWhile (· != .restart i)).count (.next i)

section Asked

variable {i : Nat} {qs : List Request} {q : Request}

theorem asked_concat_next : asked i (qs ++ [.next i]) = asked i qs + 1 := by
  simp [asked]

theorem asked_concat_restart : asked i (qs ++ [.restart i]) = 0 := by
  simp [asked]

/-- No other request counts. -/
theorem asked_concat_of_not_moves (h : ¬q.Moves i) : asked i (qs ++ [q]) = asked i qs := by
  obtain ⟨hnext, hrestart⟩ := not_or.mp h
  simp [asked, hnext, hrestart]

theorem asked_filter (i : Nat) (qs : List Request) :
    asked i (qs.filter fun q => q.Moves i) = asked i qs := by
  induction qs using List.reverseRecOn with
  | nil => rfl
  | append_singleton qs q ih =>
    rw [List.filter_append]
    by_cases hq : q.Moves i
    · rw [List.filter_cons_of_pos (by simpa using hq), List.filter_nil]
      rcases hq with rfl | rfl
      · rw [asked_concat_next, asked_concat_next, ih]
      · rw [asked_concat_restart, asked_concat_restart]
    · rw [List.filter_cons_of_neg (by simpa using hq), List.filter_nil, List.append_nil, ih,
        asked_concat_of_not_moves hq]

end Asked

namespace Session

/-! ## What is answered -/

/-- The answer to a request when `n` annotations of its text were asked for before, told by those that
a search of the whole text finds. -/
def replyTo (texts : List String) (n : Nat) (q : Request) : Reply :=
  match texts[q.index]? with
  | none => .unknown
  | some text =>
    match q with
    | .next _ =>
      match (find text)[n]? with
      | some a => .found a
      | none => .finished
    | .restart _ => .restarted
    | .rewrite _ => .replaced (find text).length

/-- Every reader has before it what its own requests left of the annotations of its text. -/
def Tracks (texts : List String) (before : List Request) (s : Session) : Prop :=
  ∀ i, s[i]?.map (fun r => (r.source, r.cursor.remaining)) =
    texts[i]?.map fun text => (text, (find text).drop (asked i before))

variable {texts : List String} {before after : List Request} {s : Session} {q : Request} {i : Nat}

theorem tracks_ofTexts (texts : List String) : Tracks texts [] (ofTexts texts) := by
  intro i
  rw [ofTexts, List.getElem?_map, Option.map_map]
  rfl

theorem Tracks.getElem? (h : Tracks texts before s) (i : Nat) :
    s[i]? = none ∧ texts[i]? = none ∨
      ∃ r, s[i]? = some r ∧ texts[i]? = some r.source ∧
        r.cursor.remaining = (find r.source).drop (asked i before) := by
  have hi := h i
  cases hs : s[i]? with
  | none =>
    rw [hs, Option.map_none, eq_comm, Option.map_eq_none_iff] at hi
    exact Or.inl ⟨rfl, hi⟩
  | some r =>
    rw [hs, Option.map_some, eq_comm, Option.map_eq_some_iff] at hi
    obtain ⟨text, htext, heq⟩ := hi
    obtain ⟨rfl, hremaining⟩ := Prod.mk.inj heq
    exact Or.inr ⟨r, rfl, htext, hremaining.symm⟩

/-- A request can leave all readers as they are if it does not count for its text, or if all
annotations there were given out before. -/
theorem Tracks.stay (h : Tracks texts before s)
    (hq : q.Moves q.index → ∀ text, texts[q.index]? = some text →
      (find text).drop (asked q.index (before ++ [q])) =
        (find text).drop (asked q.index before)) :
    Tracks texts (before ++ [q]) s := by
  intro i
  rw [h i]
  by_cases hmoves : q.Moves i
  · obtain rfl := hmoves.index_eq
    refine Option.map_congr fun text htext => ?_
    rw [hq hmoves text htext]
  · rw [asked_concat_of_not_moves hmoves]

/-- A request that moves the reader of its text leaves the others where they are. -/
theorem Tracks.move (h : Tracks texts before s) {r : Reader} {c : Cursor}
    (hr : s[q.index]? = some r)
    (hc : c.remaining = (find r.source).drop (asked q.index (before ++ [q]))) :
    Tracks texts (before ++ [q]) (s.set q.index ⟨r.source, c⟩) := by
  intro i
  by_cases hi : i = q.index
  · subst hi
    rcases h.getElem? q.index with ⟨hnone, -⟩ | ⟨r', hr', htext, -⟩
    · rw [hnone] at hr
      cases hr
    · obtain rfl : r' = r := Option.some.inj (hr'.symm.trans hr)
      rw [List.getElem?_set_self (List.getElem?_eq_some_iff.mp hr).1, htext, Option.map_some,
        Option.map_some, hc]
  · rw [List.getElem?_set_ne (Ne.symm hi), h i,
      asked_concat_of_not_moves fun hmoves => hi hmoves.index_eq.symm]

theorem step_unknown (h : Tracks texts before s) (hs : s[q.index]? = none)
    (htext : texts[q.index]? = none) :
    (s.step q).1 = replyTo texts (asked q.index before) q ∧
      Tracks texts (before ++ [q]) (s.step q).2 := by
  have hstep : s.step q = (.unknown, s) := by
    cases q <;> exact (by simp only [Request.index] at hs; simp only [step, hs])
  rw [hstep, replyTo, htext]
  refine ⟨rfl, h.stay fun _ text hsome => ?_⟩
  rw [htext] at hsome
  cases hsome

/-- One request is answered as the whole text tells, and leaves every reader where the requests for
its own text brought it. -/
theorem step_tracks (h : Tracks texts before s) (q : Request) :
    (s.step q).1 = replyTo texts (asked q.index before) q ∧
      Tracks texts (before ++ [q]) (s.step q).2 := by
  rcases h.getElem? q.index with ⟨hnone, htext⟩ | ⟨r, hr, htext, hremaining⟩
  · exact step_unknown h hnone htext
  cases q with
  | next i =>
    simp only [Request.index] at hr htext hremaining
    simp only [step, hr, replyTo, Request.index, htext]
    cases hnext : r.cursor.next? with
    | none =>
      rw [Cursor.remaining_of_next?_eq_none hnext, eq_comm, List.drop_eq_nil_iff] at hremaining
      rw [List.getElem?_eq_none hremaining]
      refine ⟨rfl, h.stay fun _ text hsome => ?_⟩
      obtain rfl : r.source = text := Option.some.inj (htext.symm.trans hsome)
      rw [Request.index, asked_concat_next, List.drop_eq_nil_iff.mpr hremaining,
        List.drop_eq_nil_iff.mpr (Nat.le_succ_of_le hremaining)]
    | some found =>
      obtain ⟨a, cursor⟩ := found
      rw [Cursor.remaining_of_next? hnext] at hremaining
      have hget : (find r.source)[asked i before]? = some a := by
        rw [← List.head?_drop, ← hremaining]
        rfl
      have hcursor : cursor.remaining = (find r.source).drop (asked i (before ++ [.next i])) := by
        rw [asked_concat_next, ← List.drop_drop, ← hremaining]
        rfl
      rw [hget]
      exact ⟨rfl, h.move hr hcursor⟩
  | restart i =>
    simp only [Request.index] at hr htext
    simp only [step, hr, replyTo, Request.index, htext, true_and]
    refine h.move hr ?_
    rw [Request.index, asked_concat_restart, Cursor.remaining_ofText, List.drop_zero]
  | rewrite i =>
    simp only [Request.index] at hr htext
    simp only [step, hr, replyTo, Request.index, htext, count_rewrite, true_and]
    refine h.stay fun hmoves => ?_
    rcases hmoves with heq | heq <;> cases heq

/-- The answer to a request in the middle of a run. -/
theorem run_tracks {done : List Request} (h : Tracks texts done s) :
    (s.run (before ++ q :: after))[before.length]? =
      some (replyTo texts (asked q.index (done ++ before)) q) := by
  induction before generalizing done s with
  | nil =>
    rw [List.nil_append, run, List.append_nil, (step_tracks h q).1]
    rfl
  | cons first before ih =>
    rw [List.cons_append, run, List.length_cons, List.getElem?_cons_succ,
      ih (step_tracks h first).2, List.append_assoc, List.singleton_append]

/-- Each answer of a run is told by its text and by how often the next annotation of that text was
asked for since the text was put back to the beginning: it is the annotation with that number, if
there is one, and a rewriting replaces all of them. The answer is the same in a run without the
requests for other texts and without rewritings. -/
theorem reply_run (texts : List String) (before after : List Request) (q : Request) :
    ((ofTexts texts).run (before ++ q :: after))[before.length]? =
        some (replyTo texts (asked q.index before) q) ∧
      let own := before.filter fun q' => q'.Moves q.index
      ∀ later, ((ofTexts texts).run (own ++ q :: later))[own.length]? =
        ((ofTexts texts).run (before ++ q :: after))[before.length]? := by
  have htracks := tracks_ofTexts texts
  refine ⟨run_tracks htracks, fun later => ?_⟩
  rw [run_tracks htracks, run_tracks htracks, List.nil_append, List.nil_append, asked_filter]

/-- Two texts read by turns, one of them begun anew in between. -/
example :
    (ofTexts ["/*r:a*/'x'/**/ /*r:b*/'y'/**/", "none"]).run
        [.next 0, .next 1, .rewrite 0, .next 0, .restart 0, .next 0] =
      [.found ⟨"/*r:a*/'x'/**/", "a", "x", 0, 14⟩, .finished, .replaced 2,
        .found ⟨"/*r:b*/'y'/**/", "b", "y", 15, 29⟩, .restarted,
        .found ⟨"/*r:a*/'x'/**/", "a", "x", 0, 14⟩] := by
  decide +kernel

end Session

end CmsVariables.Annotations
