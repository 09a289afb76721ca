import CmsVariables.Proofs.Discovery.Outline
import CmsVariables.Proofs.FileTree.Relocation
import CmsVariables.Proofs.Glob.Following
import CmsVariables.Proofs.Glob.Packages

/-!
# Expanding patterns in a copy

A pattern below a directory that holds a copy of a tree stands for the same places as the pattern
below the root of the tree, provided that the names above the directory are plain: in the pattern a
star in one of them is a wildcard. The components must not lead up either.

How deep an expansion may go is counted in the entries of the whole disk. In the tree it runs out of
entries before it runs out of depth, so the count does not matter.

* `fill_moved`: what components stand for, by induction on the depth left.
* `fill_base`: the names above the directory are followed first.
* `expand_moved`: what a pattern stands for.
-/

namespace CmsVariables

open FileTree CmsVariables.Path

variable {t : FileTree} {d : Disk} {a : Address} {r : List String}

/-! ## Names in a directory -/

namespace FileTree

theorem mem_namesIn_iff {dir : Address} {n : EntryName} :
    n ∈ t.namesIn dir ↔ ∃ e, t.get? (n :: dir) = some e := by
  have hname (x : Address) : nameIn? dir x = some n ↔ x = n :: dir := by
    cases x with
    | nil => simp [nameIn?]
    | cons m parent =>
      rw [nameIn?, List.cons_eq_cons]
      split <;> simp_all
  have hnames : t.namesIn dir = t.entries.filterMap fun p => nameIn? dir p.1 := rfl
  rw [hnames, List.mem_filterMap]
  constructor
  · rintro ⟨⟨x, e⟩, hmem, hx⟩
    obtain rfl := (hname x).mp hx
    exact ⟨e, (mem_entries_iff.mp hmem).2⟩
  · rintro ⟨e, he⟩
    exact ⟨(n :: dir, e), mem_entries_iff.mpr ⟨List.cons_ne_nil n dir, he⟩, (hname _).mpr rfl⟩

theorem nodup_namesIn (t : FileTree) (dir : Address) : (t.namesIn dir).Nodup := by
  have hnames : t.namesIn dir = (t.entries.map Prod.fst).filterMap (nameIn? dir) := by
    rw [List.filterMap_map]
    rfl
  rw [hnames]
  refine t.distinct.filterMap fun x y n hx hy => ?_
  cases x with
  | nil => cases hx
  | cons m parent =>
    cases y with
    | nil => cases hy
    | cons m' parent' =>
      simp only [nameIn?, Option.mem_def, Option.ite_none_right_eq_some, Option.some.injEq] at hx hy
      rw [hx.1, hx.2, hy.1, hy.2]

end FileTree

namespace Disk.Holds

theorem namesIn_perm (h : d.Holds a t) (b : Address) :
    (d.tree.namesIn (b ++ a)).Perm (t.namesIn b) := by
  refine (List.perm_ext_iff_of_nodup (nodup_namesIn _ _) (nodup_namesIn _ _)).mpr fun n => ?_
  rw [mem_namesIn_iff, mem_namesIn_iff]
  exact exists_congr fun e => by rw [← h (n :: b), List.cons_append]

theorem namesIn_under (h : d.Holds a t) (hlinks : t.LinkFree) (hr : Descends r) :
    (d.namesIn (under a r)).Perm (t.disk.namesIn (under [] r)) := by
  rw [Disk.namesIn, Disk.namesIn, h.stat_under hlinks hr]
  cases t.disk.stat (under [] r) with
  | error e => exact .refl _
  | ok x =>
    obtain ⟨b, e⟩ := x
    cases e with
    | file bytes => exact .refl _
    | link target => exact .refl _
    | directory => exact h.namesIn_perm b

theorem depthAtMost_reach (h : d.Holds a t) : t.DepthAtMost d.reach := by
  intro b e hb
  have hdepth := d.tree.depthAtMost_length_entries (b ++ a) e ((h b).trans hb)
  rw [List.length_append] at hdepth
  have hreach : d.tree.entries.length ≤ d.reach := by
    rw [Disk.reach]
    exact Nat.le_trans (Nat.le_succ _) (Nat.le_mul_of_pos_left _ (Nat.succ_pos _))
  omega

end Disk.Holds

/-- A name in a directory of the tree is that of an entry one step deeper. -/
theorem Disk.exists_of_mem_namesIn {n : EntryName} (hlinks : t.LinkFree) (hr : Descends r)
    (h : n ∈ t.disk.namesIn (under [] r)) :
    ∃ b e, t.get? b = some e ∧ b.length = depth r + 1 := by
  rw [namesIn] at h
  split at h
  · rename_i b hstat
    obtain ⟨e, he⟩ := mem_namesIn_iff.mp h
    exact ⟨n :: b, e, he, by rw [List.length_cons, length_of_stat hlinks hr hstat]⟩
  · cases h

/-! ## Following components -/

namespace Glob

theorem forall₂_flatMap {α : Type} {R : Path → Path → Prop} {xs : List α} {f g : α → List Path}
    (h : ∀ x ∈ xs, List.Forall₂ R (f x) (g x)) :
    List.Forall₂ R (xs.flatMap f) (xs.flatMap g) := by
  induction xs with
  | nil => exact .nil
  | cons x xs ih =>
    obtain ⟨hx, hxs⟩ := List.forall_mem_cons.mp h
    rw [List.flatMap_cons, List.flatMap_cons]
    exact List.rel_append hx (ih hxs)

namespace Search

variable {dirs : Bool} {k : ℕ} {ps : List Pattern}

/-- Two ways to go on from what is found in a directory agree on what lies deeper than `k`. -/
def Agree (t : FileTree) (a : Address) (k : ℕ) (f g : List Pattern → Path → List Path) : Prop :=
  ∀ ps r, (∀ p ∈ ps, p.StaysInside) → Descends r → k < depth r →
    (∃ b e, t.get? b = some e ∧ b.length = depth r) →
    List.Forall₂ (Moved a) (f ps (under [] r)) (g ps (under a r))

theorem agree_of_depthAtMost (h : t.DepthAtMost k) (f g : List Pattern → Path → List Path) :
    Agree t a k f g := by
  rintro ps r - - hdeep ⟨b, e, hb, hlength⟩
  have hle := h b e hb
  omega

theorem forall₂_singleton (hr : Descends r) :
    List.Forall₂ (Moved a) [under [] r] [under a r] :=
  .cons ⟨r, hr, rfl, rfl⟩ .nil

theorem keep_moved (h : d.Holds a t) (hlinks : t.LinkFree) (hr : Descends r) :
    List.Forall₂ (Moved a) ((Search.mk t.disk dirs).keep (under [] r))
      ((Search.mk d dirs).keep (under a r)) := by
  rw [keep, keep, h.isDirectory_under hlinks hr]
  split
  · exact forall₂_singleton hr
  · exact .nil

theorem leadsTo_under (h : d.Holds a t) (hlinks : t.LinkFree) (hr : Descends r) {s : String}
    (hup : s ≠ "..") (hslash : '/' ∉ s.toList) :
    (Search.mk d dirs).leadsTo (under a r) s =
      (Search.mk t.disk dirs).leadsTo (under [] r) s := by
  rw [leadsTo, leadsTo, child_under, child_under, h.isDirectory_under hlinks hr,
    h.hasEntry_under hlinks (hr.extend hup hslash)]

/-- The paths in a directory, told by the names there. -/
theorem exists_children (dirs : Bool) (h : d.Holds a t) (hlinks : t.LinkFree) (hr : Descends r) :
    ∃ ns : List EntryName,
      (∀ n ∈ ns, ∃ b e, t.get? b = some e ∧ b.length = depth (extend r n.text)) ∧
      (Search.mk t.disk dirs).children (under [] r) = ns.map (fun n => under [] (extend r n.text)) ∧
      (Search.mk d dirs).children (under a r) = ns.map fun n => under a (extend r n.text) := by
  refine ⟨_, fun n hn => ?_, List.map_congr_left fun n _ => child_under [] r n.text, ?_⟩
  · rw [depth_extend_name]
    exact Disk.exists_of_mem_namesIn hlinks hr (List.mem_mergeSort.mp hn)
  · rw [children, mergeSort_names_eq (h.namesIn_under hlinks hr)]
    exact List.map_congr_left fun n _ => child_under a r n.text

/-- The dots that match a component which stays inside lead nowhere else. -/
theorem exists_dots {p : Pattern} (h : p.StaysInside) :
    ∃ ss : List String, (∀ s ∈ ss, s = ".") ∧ ∀ q, dots p q = ss.map q.child := by
  unfold dots
  split
  · refine ⟨_, fun s hs => ?_, fun q => rfl⟩
    obtain ⟨hmem, haccepts⟩ := List.mem_filter.mp hs
    rcases List.mem_cons.mp hmem with rfl | hmem
    · rw [h.noUp rfl] at haccepts
      cases haccepts
    · exact List.mem_singleton.mp hmem
  · exact ⟨[], List.forall_mem_nil _, fun q => rfl⟩

theorem fillWith_moved (h : d.Holds a t) (hlinks : t.LinkFree)
    {visit visit' : List Pattern → Path → List Path} (hvisit : Agree t a k visit visit')
    (hps : ∀ p ∈ ps, p.StaysInside) (hr : Descends r) (hk : k ≤ depth r) :
    List.Forall₂ (Moved a) ((Search.mk t.disk dirs).fillWith visit ps (under [] r))
      ((Search.mk d dirs).fillWith visit' ps (under a r)) := by
  induction ps generalizing r with
  | nil => exact keep_moved h hlinks hr
  | cons p ps ih =>
    obtain ⟨hp, hrest⟩ := List.forall_mem_cons.mp hps
    rw [fillWith, fillWith]
    cases hname : literal? p with
    | some name =>
      obtain ⟨hup, hslash⟩ := hp.literal? hname
      have hnext := ih hrest (hr.extend hup hslash) (hk.trans (depth_le_extend r name))
      simp only [leadsTo_under h hlinks hr hup hslash, child_under]
      split
      · exact hnext
      · exact .nil
    | none =>
      simp only [h.isDirectory_under hlinks hr]
      split
      · obtain ⟨ss, hss, hdots⟩ := exists_dots hp
        obtain ⟨ns, hns, hchildren, hchildren'⟩ := exists_children dirs h hlinks hr
        rw [hdots, hdots, hchildren, hchildren', List.flatMap_map, List.flatMap_map,
          List.flatMap_map, List.flatMap_map]
        refine List.rel_append (forall₂_flatMap fun s hs => ?_) (forall₂_flatMap fun n hn => ?_)
        · obtain rfl := hss s hs
          rw [child_under, child_under]
          exact ih hrest (hr.extend (by decide) (by decide)) (hk.trans (depth_le_extend r "."))
        · have hdeep : k < depth (extend r n.text) := by
            rw [depth_extend_name]
            exact Nat.lt_succ_of_le hk
          exact hvisit _ _ hps (hr.extend_name n) hdeep (hns n hn)
      · exact .nil

theorem found_moved (h : d.Holds a t) (hlinks : t.LinkFree)
    {fill fill' : List Pattern → Path → List Path} (hps : ∀ p ∈ ps, p.StaysInside)
    (hr : Descends r) (hdeep : 0 < depth r)
    (hfill : ∀ ps, (∀ p ∈ ps, p.StaysInside) →
      List.Forall₂ (Moved a) (fill ps (under [] r)) (fill' ps (under a r))) :
    List.Forall₂ (Moved a) ((Search.mk t.disk dirs).found fill ps (under [] r))
      ((Search.mk d dirs).found fill' ps (under a r)) := by
  unfold found
  rw [fileName?_under a hdeep]
  split
  · split
    · split
      · exact keep_moved h hlinks hr
      · exact hfill _ (List.forall_mem_cons.mp hps).2
    · exact .nil
  · exact .nil

theorem visit_moved (h : d.Holds a t) (hlinks : t.LinkFree)
    {fill fill' : List Pattern → Path → List Path}
    (hfill : ∀ ps r, (∀ p ∈ ps, p.StaysInside) → Descends r → k < depth r →
      List.Forall₂ (Moved a) (fill ps (under [] r)) (fill' ps (under a r))) :
    Agree t a k ((Search.mk t.disk dirs).visit fill) ((Search.mk d dirs).visit fill') := by
  intro ps r hps hr hdeep _
  have hpos : 0 < depth r := Nat.zero_lt_of_lt hdeep
  have hgo (ps) (hps : ∀ p ∈ ps, p.StaysInside) := hfill ps r hps hr hdeep
  cases ps with
  | nil => exact .nil
  | cons p ps =>
    obtain ⟨hp, hrest⟩ := List.forall_mem_cons.mp hps
    have hothers : ∀ q ∈ ps.dropWhile isRecursive, q.StaysInside := fun q hq =>
      hrest q ((List.dropWhile_sublist _).subset hq)
    simp only [visit, h.isDirectory_under hlinks hr]
    split
    · refine List.rel_append ?_ ?_
      · split
        · split
          · exact forall₂_singleton hr
          · exact .nil
        · exact found_moved h hlinks hothers hr hpos hgo
      · split
        · exact hgo _ (List.forall_mem_cons.mpr ⟨hp, hothers⟩)
        · exact .nil
    · exact found_moved h hlinks hps hr hpos hgo

/-- Components stand for the same places in the copy and in the tree, if no entry lies deeper than
both expansions may go. -/
theorem fill_moved (h : d.Holds a t) (hlinks : t.LinkFree) {m n : ℕ}
    (hm : t.DepthAtMost (k + m)) (hn : t.DepthAtMost (k + n)) (hps : ∀ p ∈ ps, p.StaysInside)
    (hr : Descends r) (hk : k ≤ depth r) :
    List.Forall₂ (Moved a) ((Search.mk t.disk dirs).fill m ps (under [] r))
      ((Search.mk d dirs).fill n ps (under a r)) := by
  induction m generalizing n k ps r with
  | zero =>
    obtain ⟨visit, hvisit⟩ : ∃ visit,
        (Search.mk d dirs).fill n = (Search.mk d dirs).fillWith visit := by
      cases n <;> exact ⟨_, rfl⟩
    rw [hvisit]
    exact fillWith_moved h hlinks (agree_of_depthAtMost hm _ _) hps hr hk
  | succ m ih =>
    cases n with
    | zero => exact fillWith_moved h hlinks (agree_of_depthAtMost hn _ _) hps hr hk
    | succ n =>
      rw [← Nat.add_assoc, Nat.add_right_comm] at hm hn
      refine fillWith_moved h hlinks (visit_moved h hlinks ?_) hps hr hk
      exact fun ps r hps hr hdeep => ih hm hn hps hr hdeep

/-! ## The names above the directory -/

theorem fillWith_names {front b : Address} {visit : List Pattern → Path → List Path}
    (hget : d.tree.get? (front ++ b) = some .directory) :
    (Search.mk d dirs).fillWith visit (front.reverse.map (fun n => literal n.text) ++ ps)
      (ofAddress b) = (Search.mk d dirs).fillWith visit ps (ofAddress (front ++ b)) := by
  induction front using List.reverseRecOn generalizing b with
  | nil => rfl
  | append_singleton front n ih =>
    rw [List.append_assoc, List.singleton_append] at hget ⊢
    have hchild : (ofAddress b).child n.text = ofAddress (n :: b) := by
      rw [← under_nil, child_under, under_of_ne_nil _ (by simp [extend]), ofAddress, ofSegments]
      simp [extend]
    have hleads : (Search.mk d dirs).leadsTo (ofAddress b) n.text = true := by
      rw [leadsTo, if_neg fun h => h.elim (fun hdot => n.not_current (Or.inr hdot)) n.isStep.2,
        hchild, Disk.hasEntry, Disk.entryAt_ofAddress (get?_directory_of_append hget)]
      rfl
    rw [List.reverse_concat, List.map_cons, List.cons_append, fillWith, literal?_literal]
    simp only [hleads, if_true, hchild]
    exact ih hget

/-- Plain names in front of a pattern are followed to the directory that they spell. -/
theorem fill_base (depth : ℕ) (hget : d.tree.get? a = some .directory) :
    (Search.mk d dirs).fill depth (a.reverse.map (fun n => literal n.text) ++ ps) Path.root =
      (Search.mk d dirs).fill depth ps (under a []) := by
  rw [← List.append_nil a] at hget
  have hnames (visit : List Pattern → Path → List Path) : (Search.mk d dirs).fillWith visit
      (a.reverse.map (fun n => literal n.text) ++ ps) Path.root =
        (Search.mk d dirs).fillWith visit ps (ofAddress (a ++ [])) := fillWith_names hget
  rw [List.append_nil] at hnames
  rw [under_nil]
  cases depth <;> exact hnames _

end Search

/-! ## Patterns below a directory -/

variable {ps : List Pattern} {cs ss : List String}

theorem mapM_compile_append (h : ∀ s ∈ ss, Plain s) :
    (ss ++ cs).mapM compile = (cs.mapM compile).map fun ps => ss.map literal ++ ps := by
  induction ss with
  | nil =>
    rw [List.nil_append]
    cases cs.mapM compile <;> rfl
  | cons s ss ih =>
    obtain ⟨hs, hss⟩ := List.forall_mem_cons.mp h
    rw [List.cons_append, List.mapM_cons, compile_of_plain hs, ih hss]
    cases cs.mapM compile <;> rfl

/-- Whether the text of a pattern compiles does not depend on plain names in front. -/
theorem toBool_compile_under (hplain : ∀ n ∈ a, Plain n.text) (hr : r ≠ []) :
    (compile (under a r).text).toBool = (compile (under [] r).text).toBool := by
  have hnames (ns : List EntryName) (hns : ∀ n ∈ ns, Plain n.text) (position : ℕ)
      (done : List Token) : (compileFrom position (some '/') done
        (joinSegments (ns.map EntryName.text ++ r)).toList).toBool =
      (compileFrom 0 (some '/') [] (joinSegments r).toList).toBool := by
    induction ns generalizing position done with
    | nil => exact toBool_compileFrom _ _ _ _ _ _
    | cons n ns ih =>
      obtain ⟨hn, hns⟩ := List.forall_mem_cons.mp hns
      rw [List.map_cons, List.cons_append, toList_joinSegments_cons _ (by simp [hr]),
        toBool_compileFrom_plain hn]
      exact ih hns 0 []
  have hslash (a : Address) (hplain : ∀ n ∈ a, Plain n.text) : (compile (under a r).text).toBool =
      (compileFrom 0 (some '/') [] (joinSegments r).toList).toBool := by
    have htext : (under a r).text.toList =
        '/' :: (joinSegments (a.reverse.map EntryName.text ++ r)).toList := by
      rw [under_of_ne_nil a hr, Path.text, if_pos rfl, String.toList_append]
      rfl
    rw [compile, htext, compileFrom_plain (by decide)]
    exact hnames a.reverse (fun n hn => hplain n (List.mem_reverse.mp hn)) _ _
  rw [hslash a hplain, hslash [] (List.forall_mem_nil _)]

theorem componentsOf_under (a : Address) (hr : r ≠ []) (hr' : r ≠ [""]) :
    componentsOf (under a r) = a.reverse.map EntryName.text ++ componentsOf (under [] r) ∧
      componentsOf (under [] r) ⊆ r := by
  have hfront : r.getLast? = some "" → r.dropLast ≠ [] := by
    intro hlast hnil
    obtain ⟨front, rfl⟩ := List.getLast?_eq_some_iff.mp hlast
    rw [List.dropLast_concat] at hnil
    exact hr' (by rw [hnil, List.nil_append])
  have hunder (a : Address) : componentsOf (under a r) = a.reverse.map EntryName.text ++
      if r.getLast? = some "" then r.dropLast else r := by
    rw [under_of_ne_nil a hr, componentsOf]
    simp only [List.getLast?_append_of_ne_nil _ hr, List.dropLast_append_of_ne_nil hr]
    split
    · rename_i hlast
      rw [if_neg (List.append_ne_nil_of_right_ne_nil _ (hfront hlast))]
    · rw [if_neg (List.append_ne_nil_of_right_ne_nil _ hr)]
  rw [hunder a, hunder []]
  refine ⟨rfl, ?_⟩
  rw [List.reverse_nil, List.map_nil, List.nil_append]
  split
  · exact List.dropLast_subset r
  · exact List.Subset.refl r

theorem getD_expand (d : Disk) (p : Path) : (expand d p).toOption.getD [] =
    if (compile p.text).toBool then
      ((componentsOf p).mapM compile).toOption.elim [] fun ps =>
        (Search.mk d (p.segments.getLast? == some "")).fill d.reach ps
          (if p.rooted then Path.root else .ofText ".")
    else [] := by
  rw [expand]
  cases compile p.text with
  | error e => rfl
  | ok _ => cases (componentsOf p).mapM compile <;> rfl

/-- A pattern stands for the same places below the directory of the copy as below the root. -/
theorem expand_moved (h : d.Holds a t) (hlinks : t.LinkFree) (hplain : ∀ n ∈ a, Plain n.text)
    (hr : Descends r) (hne : r ≠ []) (hne' : r ≠ [""]) (hup : ∀ s ∈ r, ¬LeadsUp s) :
    List.Forall₂ (Moved a) ((expand t.disk (under [] r)).toOption.getD [])
      ((expand d (under a r)).toOption.getD []) := by
  obtain ⟨hcomponents, hsub⟩ := componentsOf_under a hne hne'
  have hnames : ∀ s ∈ a.reverse.map EntryName.text, Plain s := by
    intro s hs
    obtain ⟨n, hn, rfl⟩ := List.mem_map.mp hs
    exact hplain n (List.mem_reverse.mp hn)
  have hdirs (a : Address) : (under a r).segments.getLast? = r.getLast? := by
    rw [under_of_ne_nil a hne]
    exact List.getLast?_append_of_ne_nil _ hne
  have hrooted (a : Address) : (under a r).rooted = true := rfl
  rw [getD_expand t.disk, getD_expand d, toBool_compile_under hplain hne, hcomponents,
    mapM_compile_append hnames, hdirs, hdirs, hrooted, hrooted, if_pos rfl]
  split
  · cases hps : (componentsOf (under [] r)).mapM compile with
    | error e => exact .nil
    | ok ps =>
      have hinside : ∀ p ∈ ps, p.StaysInside := by
        intro p hp
        obtain ⟨c, hc, hcompile⟩ := exists_of_mem_mapM hps hp
        exact staysInside_of_compile hcompile (hr c (hsub hc)).2 (hup c (hsub hc))
      have hmoved : List.Forall₂ (Moved a)
          ((Search.mk t.disk (r.getLast? == some "")).fill t.disk.reach ps (under [] []))
          ((Search.mk d (r.getLast? == some "")).fill d.reach ps (under a [])) := by
        refine Search.fill_moved (k := 0) h hlinks ?_ ?_ hinside (List.forall_mem_nil _)
          (Nat.zero_le _)
        · rw [Nat.zero_add]
          exact (Disk.holds_disk t).depthAtMost_reach
        · rw [Nat.zero_add]
          exact h.depthAtMost_reach
      rw [← Search.fill_base d.reach h.get?_base] at hmoved
      rw [List.map_map]
      exact hmoved
  · exact .nil

end Glob

end CmsVariables
