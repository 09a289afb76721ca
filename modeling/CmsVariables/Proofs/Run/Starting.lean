import CmsVariables.Proofs.Config.Printing
import CmsVariables.Proofs.Config.Lookup
import CmsVariables.Proofs.Discovery.Addition
import CmsVariables.Proofs.Run.Confinement
import CmsVariables.Proofs.Run.Correspondence
import CmsVariables.Run.Init

/-!
# Runs after a project was started

Starting a project writes the default settings into the working directory. A run after that finds
them where before it would have found none, and reads the same settings for the same directory. So
it does the same, as long as it has nothing to do with the new file itself.

* `disk_init`: what starting a project has made.
* `Unstarted.load_started`: the settings that are read then.
* `Unstarted.prepare_started`: what a run starts from.
* `runs_init`: so runs do the same as before.
-/

namespace CmsVariables

open Disk FileTree CmsVariables.Path

namespace Run

variable {d : Disk} {c : Context} {o : Overrides}

/-! ## The new file -/

/-- The address of the config file of the working directory. -/
def configAddress (d : Disk) : Address := Config.entryName :: d.here

/-- The disk with the default settings in the working directory. -/
def started (d : Disk) : Disk := d.put (configAddress d) (.file (Config.render {}).toUTF8)

/-- There is nothing where a config file would be, and room for one. -/
structure Unstarted (d : Disk) : Prop where
  linkFree : d.tree.LinkFree
  room : d.tree.hasRoom (configAddress d) = true
  missing : d.tree.get? (configAddress d) = none

/-- A project is started where there is room for a config file, by making that file. -/
theorem disk_init (hlinks : d.tree.LinkFree) (h : (init d).exitStatus = 0) :
    Unstarted d ∧ (init d).disk = started d := by
  unfold init at h ⊢
  split at h
  · cases h
  rename_i hexists
  rw [if_neg hexists]
  unfold Disk.writeFile at h ⊢
  cases hplace : d.resolve .writing newConfigPath with
  | error e =>
    rw [hplace] at h
    cases h
  | ok place =>
    have haddress : place.address = configAddress d := by
      have hnames := (resolve_eq_ok_iff.mp hplace).2.2.names_address hlinks
      refine List.map_injective_iff.mpr EntryName.text_injective (hnames.trans ?_)
      exact namesFrom_names _ [Config.entryName]
    simp only [hplace, haddress] at h ⊢
    by_cases hroom : d.tree.hasRoom (configAddress d) = true
    · refine ⟨⟨hlinks, hroom, ?_⟩, ?_⟩
      · by_contra hget
        obtain ⟨e, he⟩ := Option.ne_none_iff_exists'.mp hget
        exact hexists (exists?_iff.mpr ⟨_, stat_eq_ok_iff.mpr
          ⟨place, resolve_target_of_writing hplace, haddress, he⟩⟩)
      · rw [if_pos hroom]
        rfl
    · rw [if_neg hroom] at h
      cases h

/-- Without a config file the defaults hold, for the working directory. -/
theorem load_of_search_eq_none (hsearch : Config.search d (.ofAddress d.here) = none) :
    Config.load d (.ofAddress d.here) = .ok ⟨{}, false, .ofAddress d.here⟩ := by
  unfold Config.load
  rw [hsearch]

namespace Unstarted

theorem here (h : Unstarted d) : d.tree.get? d.here = some .directory :=
  tail_directory_of_hasRoom h.room

/-- Starting makes one more file. -/
theorem oneMore (h : Unstarted d) :
    OneMore d.here (configAddress d) (Config.render {}).toUTF8 d (started d) :=
  oneMore_put h.linkFree h.room h.missing

/-- The settings read after starting are those that hold without a config file. -/
theorem load_started (h : Unstarted d) :
    Config.load (started d) (.ofAddress d.here) = .ok ⟨{}, true, .ofAddress d.here⟩ :=
  Config.load_of_file h.oneMore.added (Config.parse_render {}) (by decide +kernel)

end Unstarted

/-! ## What a run starts from -/

/-- A path of the command line avoids the new file. -/
def FlagPasses (d : Disk) (flag : Option Path) : Prop :=
  ∀ p, flag = some p → PassesBy d.here (configAddress d) p

namespace Unstarted

/-- A path that is settled avoids the new file if the path given does. -/
theorem passesBy_settle (h : Unstarted d) {flag : Option Path} {setting : String}
    (hflag : FlagPasses d flag) (hsetting : PassesBy d.here (configAddress d) (ofText setting)) :
    PassesBy d.here (configAddress d)
      (settle (.ofAddress d.here) (.ofAddress d.here) flag setting) := by
  have hcwd : PassesBy d.here (configAddress d) (.ofAddress d.here) :=
    passesBy_ofAddress h.missing h.here
  unfold settle
  cases flag with
  | none =>
    refine Avoids.join hcwd ?_
    rw [namesTo_ofAddress]
    exact hsetting
  | some p =>
    refine Avoids.join hcwd ?_
    rw [namesTo_ofAddress]
    exact hflag p rfl

theorem extension?_config (b : Address) :
    (ofAddress (Config.entryName :: b)).extension? = some "json" := by
  have hbelow := Discovery.extension?_below .root (List.cons_ne_nil Config.entryName []) b
  exact hbelow.symm.trans (by decide)

theorem contextFrom_started (h : Unstarted d) (hsource : FlagPasses d o.sourceRoot) :
    contextFrom (started d) o ⟨{}, true, .ofAddress d.here⟩ =
      contextFrom d o ⟨{}, false, .ofAddress d.here⟩ := by
  have hdefault : PassesBy d.here (configAddress d) (ofText ({} : Config).sourceRoot) :=
    passesBy_of_notMem (by decide) (by decide) (by decide)
  have hroot := h.passesBy_settle hsource hdefault
  have hcanonical := (oneMore_correspondence d.here (configAddress d) _).canonical_eq h.oneMore hroot
  unfold contextFrom
  simp only [show (started d).here = d.here from rfl, hcanonical]
  cases hfound : d.canonical
      (settle (.ofAddress d.here) (.ofAddress d.here) o.sourceRoot ({} : Config).sourceRoot) with
  | error e => rfl
  | ok sourceRoot =>
    obtain ⟨⟨b, e⟩, hstat, rfl⟩ := Config.ok_of_map hfound
    obtain ⟨-, -, -, hget⟩ := stat_eq_ok_iff.mp hstat
    have hbase : PassesBy d.here (configAddress d) (.ofAddress b) :=
      passesBy_ofAddress h.missing hget
    have hextension : Discovery.hasExtension ["js"] (.ofAddress (configAddress d)) = false := by
      unfold Discovery.hasExtension configAddress
      rw [extension?_config]
      decide
    have hdiscover : discover (started d) (discovery (({} : Config).withOverrides o) (.ofAddress b)) =
        discover d (discovery (({} : Config).withOverrides o) (.ofAddress b)) :=
      Discovery.discover_put h.linkFree h.room h.missing hextension rfl hbase
    simp only [hdiscover]

/-- A run after starting starts from what it started from before, without a remark. -/
theorem prepare_started (h : Unstarted d)
    (hsearch : Config.search d (.ofAddress d.here) = none) (hsource : FlagPasses d o.sourceRoot) :
    (prepare d o).1 = .usingDefaults :: (prepare (started d) o).1 ∧
      (prepare d o).2 = (prepare (started d) o).2 := by
  unfold prepare
  rw [show (started d).here = d.here from rfl, load_of_search_eq_none hsearch, h.load_started]
  simp only [h.contextFrom_started hsource]
  cases contextFrom d o ⟨{}, false, .ofAddress d.here⟩ <;> exact ⟨rfl, rfl⟩

/-- The source files avoid the new file. -/
theorem passesBy_files (h : Unstarted d) (hprepare : (prepare d o).2 = .ok c) :
    ∀ p ∈ c.files, PassesBy d.here (configAddress d) p := by
  obtain ⟨-, -, hfiles⟩ := prepare_eq_ok hprepare
  rw [hfiles]
  intro p hp
  obtain ⟨start, e, -, hmeets, -⟩ := Discovery.mem_sources_iff.mp (mem_of_mem_distinct hp)
  exact hmeets.passesBy h.linkFree h.missing

/-- The output avoids the new file if it was not given as a path that does not. -/
theorem passesBy_output (h : Unstarted d) (hsearch : Config.search d (.ofAddress d.here) = none)
    (houtput : FlagPasses d o.output) (hprepare : (prepare d o).2 = .ok c) :
    PassesBy d.here (configAddress d) c.output := by
  have hdefault : PassesBy d.here (configAddress d) (ofText ({} : Config).output) :=
    passesBy_of_notMem (by decide) (by decide) (by decide)
  obtain ⟨loaded, a, e, hload, -, rfl⟩ := exists_of_prepare hprepare
  rw [load_of_search_eq_none hsearch] at hload
  cases hload
  exact h.passesBy_settle houtput hdefault

end Unstarted

/-! ## Runs -/

/-- What was changed from `d` to `e` is what was changed from `d'` to `e'`. -/
def ChangedAlike (d d' e e' : Disk) : Prop :=
  ∀ a entry, (a, entry) ∈ e'.tree.changesSince d'.tree ↔ (a, entry) ∈ e.tree.changesSince d.tree

theorem SameRun.imp {R S : Disk → Disk → Prop} {r r' : Outcome} (h : SameRun R r r')
    (hRS : ∀ e e', R e e' → S e e') : SameRun S r r' :=
  ⟨h.result, h.stdout, h.stderr, hRS _ _ h.disk⟩

/-- A quiet build prints no remarks. -/
theorem build_of_quiet (d : Disk) {o : BuildOptions} (hquiet : o.verbose = false) :
    build d o = match (prepare d o.overrides).2 with
      | .error f => ⟨.error f, [], [], d⟩
      | .ok c => buildFrom d o c [] := by
  unfold build
  rw [hquiet]
  cases prepare d o.overrides with
  | mk rs prepared => cases prepared <;> rfl

/-- A quiet rewriting run prints no remarks. -/
theorem rewriteProject_of_quiet (d : Disk) {o : RewriteOptions} (hquiet : o.verbose = false) :
    rewriteProject d o = match (prepare d { sourceRoot := o.sourceRoot }).2 with
      | .error f => ⟨.error f, [], [], d⟩
      | .ok c => rewriteFrom d o.mode c [] := by
  unfold rewriteProject
  rw [hquiet]
  cases prepare d { sourceRoot := o.sourceRoot } with
  | mk rs prepared => cases prepared <;> rfl

/-- Runs without remarks that have nothing to do with the config file do the same on both disks:
they end alike, print the same lines and make the same changes. -/
structure RunsAlike (d d' : Disk) : Prop where
  build (o : BuildOptions) (hquiet : o.verbose = false)
    (hsource : FlagPasses d o.overrides.sourceRoot) (houtput : FlagPasses d o.overrides.output) :
    SameRun (ChangedAlike d d') (Run.build d o) (Run.build d' o)
  rewrite (o : RewriteOptions) (hquiet : o.verbose = false) (hsource : FlagPasses d o.sourceRoot)
    (hcopies : ∀ c, (prepare d { sourceRoot := o.sourceRoot }).2 = .ok c →
      CopiesGood (PassesBy d.here (configAddress d)) c o.mode) :
    SameRun (ChangedAlike d d') (rewriteProject d o) (rewriteProject d' o)

/-- Starting a project does not change what runs do. -/
theorem runs_init {d : Disk} (hlinks : d.tree.LinkFree)
    (hsearch : Config.search d (.ofAddress d.here) = none) (hinit : (init d).exitStatus = 0) :
    RunsAlike d (init d).disk := by
  obtain ⟨h, hdisk⟩ := disk_init hlinks hinit
  have hchanged : ∀ e e', OneMore d.here (configAddress d) _ e e' →
      ChangedAlike d (started d) e e' := fun e e' hmore => h.oneMore.mem_changesSince_iff hmore
  have hnothing : ChangedAlike d (started d) d (started d) := hchanged _ _ h.oneMore
  have hsame := oneMore_correspondence d.here (configAddress d) (Config.render {}).toUTF8
  rw [hdisk]
  constructor
  · intro o hquiet hsource houtput
    obtain ⟨-, hprepare⟩ := h.prepare_started hsearch hsource
    rw [build_of_quiet d hquiet, build_of_quiet (started d) hquiet, hprepare]
    cases hc : (prepare (started d) o.overrides).2 with
    | error f => exact ⟨rfl, rfl, rfl, hnothing⟩
    | ok c =>
      have hc : (prepare d o.overrides).2 = .ok c := by rw [hprepare, hc]
      exact (buildFrom_alike hsame h.oneMore o (h.passesBy_files hc)
        (h.passesBy_output hsearch houtput hc)).imp hchanged
  · intro o hquiet hsource hcopies
    obtain ⟨-, hprepare⟩ :=
      h.prepare_started (o := { sourceRoot := o.sourceRoot }) hsearch hsource
    rw [rewriteProject_of_quiet d hquiet, rewriteProject_of_quiet (started d) hquiet, hprepare]
    cases hc : (prepare (started d) { sourceRoot := o.sourceRoot }).2 with
    | error f => exact ⟨rfl, rfl, rfl, hnothing⟩
    | ok c =>
      have hc : (prepare d { sourceRoot := o.sourceRoot }).2 = .ok c := by rw [hprepare, hc]
      exact (rewriteFrom_alike hsame h.oneMore (h.passesBy_files hc) (hcopies c hc)).imp hchanged

/-- A project with one script and without a config file. -/
def freshProject : Disk where
  tree := (FileTree.empty.put [⟨"src", Eq.refl true⟩] .directory).put
    [⟨"a.js", Eq.refl true⟩, ⟨"src", Eq.refl true⟩] (.file "/*r:a*/'x'/**/".toUTF8)
  here := []

theorem linkFree_freshProject : freshProject.tree.LinkFree := by
  refine (linkFree_empty.put _ ?_).put _ ?_
  all_goals
    intro target h
    cases h

/-- A build and a run that copies, with paths given for both. -/
theorem runs_init_freshProject :
    (init freshProject).exitStatus = 0 ∧
      (build freshProject { overrides := { output := some (ofText "out.txt") } }).exitStatus = 0 ∧
      SameRun (ChangedAlike freshProject (init freshProject).disk)
        (build freshProject { overrides := { output := some (ofText "out.txt") } })
        (build (init freshProject).disk { overrides := { output := some (ofText "out.txt") } }) ∧
      SameRun (ChangedAlike freshProject (init freshProject).disk)
        (rewriteProject freshProject { mode := .copies (ofText "copies") })
        (rewriteProject (init freshProject).disk { mode := .copies (ofText "copies") }) := by
  have hinit : (init freshProject).exitStatus = 0 := by decide +kernel
  have hruns := runs_init linkFree_freshProject (by decide +kernel) hinit
  have hnone : FlagPasses freshProject none := fun p hp => nomatch hp
  refine ⟨hinit, by decide +kernel, hruns.build _ rfl hnone ?_, hruns.rewrite _ rfl hnone ?_⟩
  · intro p hp
    cases hp
    decide
  · intro c hc targets htargets
    have hall : (prepare freshProject {}).2.toOption.map (fun c =>
        (copyPaths c.sourceRoot (c.workingDirectory.join (ofText "copies")) c.files).toOption) =
          some (some [ofText "/copies/src/a.js"]) := by decide +kernel
    rw [hc] at hall
    have hplaces : (copyPaths c.sourceRoot (c.workingDirectory.join (ofText "copies"))
        c.files).toOption = some [ofText "/copies/src/a.js"] := Option.some.inj hall
    rw [htargets] at hplaces
    obtain rfl := Option.some.inj hplaces
    decide

/-- A script below a directory that is called like a config file. -/
def nestedProject : Disk where
  tree := ((FileTree.empty.put [⟨"sub", Eq.refl true⟩] .directory).put
    [Config.entryName, ⟨"sub", Eq.refl true⟩] .directory).put
      [⟨"a.js", Eq.refl true⟩, Config.entryName, ⟨"sub", Eq.refl true⟩] (.file .empty)
  here := []

theorem linkFree_nestedProject : nestedProject.tree.LinkFree := by
  refine ((linkFree_empty.put _ ?_).put _ ?_).put _ ?_
  all_goals
    intro target h
    cases h

/-- Copies of what lies in `sub`, into the working directory. -/
def nestedCopies : RewriteOptions where
  sourceRoot := some (ofText "sub")
  mode := .copies (ofText ".")

/-- The place of a copy may go through the config file although no path that was given does. -/
theorem runs_init_differ : ¬∀ (d : Disk) (o : RewriteOptions), d.tree.LinkFree →
    Config.search d (.ofAddress d.here) = none → d.hasEntry newConfigPath = false →
      (init d).exitStatus = 0 → o.verbose = false → FlagPasses d o.sourceRoot →
        (∀ dir, o.mode = .copies dir → PassesBy d.here (configAddress d) dir) →
          SameRun (ChangedAlike d (init d).disk) (rewriteProject d o)
            (rewriteProject (init d).disk o) := by
  intro h
  have hinit : (init nestedProject).exitStatus = 0 := by decide +kernel
  have hsearch : Config.search nestedProject (.ofAddress nestedProject.here) = none := by
    decide +kernel
  have hsource : FlagPasses nestedProject nestedCopies.sourceRoot := by
    intro p hp
    cases hp
    decide
  have hdir : ∀ dir, nestedCopies.mode = .copies dir →
      PassesBy nestedProject.here (configAddress nestedProject) dir := by
    intro dir hdir
    cases hdir
    decide
  obtain ⟨hresult, -, -, -⟩ := h nestedProject nestedCopies linkFree_nestedProject hsearch
    (by decide +kernel) hinit rfl hsource hdir
  obtain ⟨hunstarted, hdisk⟩ := disk_init linkFree_nestedProject hinit
  obtain ⟨-, hprepare⟩ :=
    hunstarted.prepare_started (o := { sourceRoot := nestedCopies.sourceRoot }) hsearch hsource
  have hbefore : (rewriteProject nestedProject nestedCopies).result.toBool = true := by
    decide +kernel
  have hafter : (prepare nestedProject { sourceRoot := nestedCopies.sourceRoot }).2.toOption.map
      (fun c => (rewriteFrom (started nestedProject) nestedCopies.mode c []).result.toBool) =
        some false := by decide +kernel
  rw [← hresult, hdisk, rewriteProject_of_quiet (started nestedProject) rfl, ← hprepare] at hbefore
  cases hc : (prepare nestedProject { sourceRoot := nestedCopies.sourceRoot }).2 with
  | error f =>
    rw [hc] at hafter
    cases hafter
  | ok c =>
    rw [hc] at hafter hbefore
    have hfails : (rewriteFrom (started nestedProject) nestedCopies.mode c []).result.toBool =
        false := Option.some.inj hafter
    rw [hfails] at hbefore
    cases hbefore

end Run

end CmsVariables
