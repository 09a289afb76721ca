/-!
# Paths

A path is kept as it is spelled: whether it starts at the root, and its segments between slashes.
Two spellings of one place are different paths; `components` is what they have in common, with empty
segments and single dots left out. A double dot stays, because what lies above a place is known only
where links can be followed.

The segments are texts. A system also has paths whose bytes are no UTF-8; they are left out, and with
them what becomes of such a path where a text is needed, for a pattern or for a listing.

* `ofText` and `text` read and write a path; `text_ofText`: the spelling is kept.
* `join`, `parent?`, `stripPrefix?`, `fileName?` and `extension?` work on the spelling, and keep what
  they do not have to change.
-/

namespace CmsVariables

/-- A file path as it is spelled. -/
structure Path where
  /-- The path starts with a slash. -/
  rooted : Bool
  /-- The texts between the slashes, empty ones included. -/
  segments : List String
deriving DecidableEq, Repr

namespace Path

/-! ## Spelling -/

/-- The texts between the slashes of a text. -/
def segmentsOf : List Char → List (List Char)
  | [] => [[]]
  | c :: cs =>
    if c = '/' then [] :: segmentsOf cs
    else
      match segmentsOf cs with
      | s :: ss => (c :: s) :: ss
      | [] => [[c]]

/-- The path that a text spells. -/
def ofText (s : String) : Path :=
  match s.toList with
  | [] => ⟨false, [""]⟩
  | c :: cs =>
    if c = '/' then ⟨true, (segmentsOf cs).map String.ofList⟩
    else ⟨false, (segmentsOf (c :: cs)).map String.ofList⟩

/-- Segments with a slash between each two. -/
def joinSegments : List String → String
  | [] => ""
  | [s] => s
  | s :: t :: ss => s ++ "/" ++ joinSegments (t :: ss)

/-- The spelling of a path. -/
def text (p : Path) : String :=
  (if p.rooted then "/" else "") ++ joinSegments p.segments

theorem segmentsOf_ne_nil (cs : List Char) : segmentsOf cs ≠ [] := by
  cases cs with
  | nil => exact List.cons_ne_nil _ _
  | cons c cs =>
    rw [segmentsOf]
    split
    · exact List.cons_ne_nil _ _
    · split <;> exact List.cons_ne_nil _ _

theorem joinSegments_cons {s : String} {ss : List String} (h : ss ≠ []) :
    joinSegments (s :: ss) = s ++ "/" ++ joinSegments ss := by
  cases ss with
  | nil => exact absurd rfl h
  | cons t ss => rfl

theorem joinSegments_segmentsOf (cs : List Char) :
    joinSegments ((segmentsOf cs).map String.ofList) = String.ofList cs := by
  induction cs with
  | nil => rfl
  | cons c cs ih =>
    rw [segmentsOf]
    split
    · rename_i hc
      rw [List.map_cons, joinSegments_cons (by simp [segmentsOf_ne_nil]), ih]
      apply String.toList_inj.mp
      simp [hc]
    · split
      · rename_i s ss hs
        rw [hs] at ih
        apply String.toList_inj.mp
        cases ss with
        | nil =>
          rw [← String.toList_inj] at ih
          simpa [joinSegments] using ih
        | cons t ss =>
          rw [List.map_cons, joinSegments_cons (by simp)] at ih ⊢
          rw [← String.toList_inj] at ih
          simpa using ih
      · rename_i hs
        exact absurd hs (segmentsOf_ne_nil cs)

/-- A path is spelled as the text it was read from. -/
theorem text_ofText (s : String) : (ofText s).text = s := by
  unfold ofText
  split
  · rename_i h
    rw [← String.ofList_toList (s := s), h]
    rfl
  · rename_i c cs h
    split
    · rename_i hc
      rw [text, if_pos rfl, joinSegments_segmentsOf]
      apply String.toList_inj.mp
      simp [h, hc]
    · rw [text, if_neg (by simp), joinSegments_segmentsOf]
      apply String.toList_inj.mp
      simp [h]

/-- The path without any text. -/
def empty : Path := ⟨false, [""]⟩

/-- The path of the root directory. -/
def root : Path := ⟨true, [""]⟩

/-- A path with these segments; without any it spells nothing after the root. -/
def ofSegments (rooted : Bool) (ss : List String) : Path :=
  ⟨rooted, if ss = [] then [""] else ss⟩

/-! ## Components -/

/-- One step of a path. -/
inductive Component where
  | root
  | current
  | up
  | name (text : String)
deriving DecidableEq, Repr

/-- A segment that leads somewhere: neither empty nor a single dot. -/
def isStep (s : String) : Bool := s != "" && s != "."

/-- The step that a segment stands for. -/
def stepOf (s : String) : Component := if s = ".." then .up else .name s

/-- The dot that a path without root starts with stands for the working directory. -/
def startsAtCurrent (p : Path) : Bool := !p.rooted && p.segments.head? == some "."

/-- The segments after a root or a leading dot. -/
def body (p : Path) : List String :=
  if p.startsAtCurrent then p.segments.tail else p.segments

/-- The steps of a path, from the first to the last. -/
def components (p : Path) : List Component :=
  (if p.rooted then [.root] else if p.startsAtCurrent then [.current] else []) ++
    (p.body.filter isStep).map stepOf

/-- The steps of `q` are the first steps of `p`. -/
def startsWith (p q : Path) : Bool := q.components.isPrefixOf p.components

/-! ## Building paths -/

/-- The path `q` as seen from the directory `p`. -/
def join (p q : Path) : Path :=
  if q.rooted then q
  else if p.segments.getLast? = some "" then ⟨p.rooted, p.segments.dropLast ++ q.segments⟩
  else ⟨p.rooted, p.segments ++ q.segments⟩

/-- The entry called `name` in the directory `p`. -/
def child (p : Path) (name : String) : Path := p.join ⟨false, [name]⟩

/-! ## Taking paths apart -/

/-- Segments without the ones at the end that lead nowhere. -/
def trimEnd (ss : List String) : List String :=
  (ss.reverse.dropWhile fun s => !isStep s).reverse

/-- The path without its last step, or nothing for a root or an empty path. -/
def parent? (p : Path) : Option Path :=
  match trimEnd p.body with
  | [] => if p.startsAtCurrent then some empty else none
  | s :: ss =>
    let above := trimEnd (s :: ss).dropLast
    if p.startsAtCurrent then some ⟨false, "." :: above⟩ else some (ofSegments p.rooted above)

/-- The path itself, its parent, the parent of that and so on, `n` times at most. -/
def ancestorsUpTo (p : Path) : Nat → List Path
  | 0 => [p]
  | n + 1 =>
    match p.parent? with
    | some q => p :: q.ancestorsUpTo n
    | none => [p]

/-- The path itself and all paths above it, nearest first. There is one for each step. -/
def ancestors (p : Path) : List Path := p.ancestorsUpTo p.components.length

/-- The segments after the first `n` that lead somewhere. -/
def dropSteps : Nat → List String → List String
  | 0, ss => ss
  | _, [] => []
  | n + 1, s :: ss => if isStep s then dropSteps n ss else dropSteps (n + 1) ss

/-- What is left of `p` after the steps of `q`, if `p` starts with them. -/
def stripPrefix? (p q : Path) : Option Path :=
  if p.startsWith q then
    if q.components = [] then
      some (if p.startsAtCurrent then ⟨false, "." :: trimEnd p.body⟩
        else ofSegments p.rooted (trimEnd p.body))
    else
      let left := dropSteps (q.body.filter isStep).length p.body
      some (ofSegments false (trimEnd (left.dropWhile fun s => !isStep s)))
  else none

/-- The name in the last step, unless that is a root or leads up. -/
def fileName? (p : Path) : Option String :=
  match p.components.getLast? with
  | some (.name s) => some s
  | _ => none

/-- The part of a file name after its last dot, if something stands before the dot. -/
def extensionOf? (name : List Char) : Option (List Char) :=
  let after := name.reverse.takeWhile (· != '.')
  match name.reverse.drop after.length with
  | _ :: _ :: _ => some after.reverse
  | _ => none

/-- The extension of the file name, without the dot. -/
def extension? (p : Path) : Option String :=
  p.fileName?.bind fun s => (extensionOf? s.toList).map String.ofList

/-- Some segment holds a NUL character, which no file name can. -/
def hasNul (p : Path) : Bool := p.segments.any fun s => s.toList.contains '\x00'

end Path

end CmsVariables
