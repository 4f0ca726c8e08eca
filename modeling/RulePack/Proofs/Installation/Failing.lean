import RulePack.Command
import RulePack.Proofs.Installation.Effects

/-!
# Installations that fail

* `Installation.place_eq_error`, `Installation.prepare_eq_error`, `Installation.registerIf_eq_error` —
  each stage fails with a fault of the disk only;
* `Installation.copyRules_eq_missingRules`, `Installation.copyRules_eq_nothingCopied` — when there is
  no bundle, and when it has no file;
* `Installation.CleanFailure` — what a failure leaves as it was;
* `Installation.failure_law` — how installations fail.
-/

namespace RulePack

namespace Installation

variable {i : Installation} {destination : Path} {r : Rule} {rules copied : List Rule}
  {request : Request} {d : Disk} {failure : Failure} {dir : Path}

/-! ### How the stages fail -/

/-- Copying files fails with a fault of the disk. -/
theorem place_eq_error (h : (i.place destination rules d).result = .error failure) :
    ∃ path fault, failure = .disk path fault := by
  induction rules generalizing d with
  | nil => cases h
  | cons r rest ih =>
    cases hfile : d.isFile (i.catalog.rulePath r) with
    | false =>
      rw [place_absent hfile] at h
      exact ih h
    | true =>
      cases hsame : d.sameFile (i.catalog.rulePath r) (destination.child r.fileName) with
      | true =>
        rw [place_inPlace hfile hsame] at h
        exact ih (Run.map_result_eq_error.mp h)
      | false =>
        cases hcopy : d.copy (i.catalog.rulePath r) (destination.child r.fileName) with
        | error fault =>
          rw [place_failed hfile hsame hcopy] at h
          cases h
          exact ⟨_, fault, rfl⟩
        | ok d' =>
          rw [place_copied hfile hsame hcopy] at h
          exact ih (Run.map_result_eq_error.mp h)

/-- Is the destination there, or can it be made? -/
def Available (destination : Path) (d : Disk) : Prop :=
  d.holds destination = true ∨ (d.makeDirectories destination).fault = none

theorem prepare_eq_ok : (prepare destination d).result = .ok () ↔ Available destination d := by
  rw [prepare, Available]
  by_cases hholds : d.holds destination = true
  · simp [hholds, Run.done]
  · rw [if_neg hholds]
    cases hfault : (d.makeDirectories destination).fault with
    | none => simp [hfault, Run.done, Run.noting]
    | some fault => simp [hfault, hholds]

theorem prepare_eq_error (h : (prepare destination d).result = .error failure) :
    ∃ path fault, failure = .disk path fault := by
  rw [prepare] at h
  split at h
  · cases h
  · simp only at h
    split at h
    · rename_i fault _
      cases h
      exact ⟨_, fault, rfl⟩
    · cases h

theorem someCopied_eq_error :
    (someCopied rules d).result = .error failure ↔ rules = [] ∧ failure = .nothingCopied := by
  cases rules with
  | nil => simp [someCopied, eq_comm]
  | cons r rest => simp [someCopied, Run.done]

/-- Registering fails with a fault of the disk, which it leaves as it was. -/
theorem registerIf_eq_error (h : (i.registerIf request copied d).result = .error failure) :
    (i.registerIf request copied d).disk = d ∧ ∃ path fault, failure = .disk path fault := by
  cases hregister : request.register with
  | false =>
    rw [registerIf_of_not_register hregister] at h
    cases h
  | true =>
    rw [registerIf_of_register hregister] at h ⊢
    have hregisters := registers i request.dir copied d
    rw [Run.map_result_eq_error.mp h] at hregisters
    refine ⟨hregisters.disk_of_error, ?_⟩
    generalize (i.register request.dir copied d).disk = d' at hregisters
    cases hregisters with
    | failed => exact ⟨_, _, rfl⟩

/-! ### How copying the rules fails -/

theorem copyRules_of_bundled (h : i.catalog.isBundled d = true) (dir : Path) :
    i.copyRules dir d = ((prepare (i.destination dir) d).andThen fun _ d =>
      i.place (i.destination dir) Rule.all d).andThen someCopied := by
  rw [copyRules, if_pos h]

/-- How copying the rules fails if there is a bundle. -/
theorem copyRules_eq_error (hbundled : i.catalog.isBundled d = true) :
    (i.copyRules dir d).result = .error failure
      ↔ (prepare (i.destination dir) d).result = .error failure
      ∨ (prepare (i.destination dir) d).result = .ok ()
        ∧ ((i.place (i.destination dir) Rule.all (prepare (i.destination dir) d).disk).result
            = .error failure
          ∨ (i.place (i.destination dir) Rule.all (prepare (i.destination dir) d).disk).result
              = .ok [] ∧ failure = .nothingCopied) := by
  rw [copyRules_of_bundled hbundled, Run.andThen_result_eq_error, Run.andThen_result_eq_error]
  simp only [Run.andThen_result_eq_ok, someCopied_eq_error]
  constructor
  · intro h
    rcases h with (hprepare | ⟨_, hprepare, hplace⟩) | ⟨_, ⟨_, hprepare, hplace⟩, rfl, hfailure⟩
    · exact Or.inl hprepare
    · exact Or.inr ⟨hprepare, Or.inl hplace⟩
    · exact Or.inr ⟨hprepare, Or.inr ⟨hplace, hfailure⟩⟩
  · intro h
    rcases h with hprepare | ⟨hprepare, hplace | ⟨hplace, hfailure⟩⟩
    · exact Or.inl (Or.inl hprepare)
    · exact Or.inl (Or.inr ⟨(), hprepare, hplace⟩)
    · exact Or.inr ⟨[], ⟨(), hprepare, hplace⟩, rfl, hfailure⟩

/-- There is no bundle, or copying the rules fails with one of two failures. -/
theorem copyRules_error_cases (h : (i.copyRules dir d).result = .error failure) :
    (i.catalog.isBundled d = false ∧ failure = .missingRules i.catalog.rulesDir)
      ∨ i.catalog.isBundled d = true
        ∧ (failure = .nothingCopied ∨ ∃ path fault, failure = .disk path fault) := by
  cases hbundled : i.catalog.isBundled d with
  | false =>
    rw [copyRules_of_not_bundled hbundled] at h
    cases h
    exact Or.inl ⟨rfl, rfl⟩
  | true =>
    refine Or.inr ⟨rfl, ?_⟩
    rcases (copyRules_eq_error hbundled).mp h with hprepare | ⟨-, hplace | ⟨-, hfailure⟩⟩
    · exact Or.inr (prepare_eq_error hprepare)
    · exact Or.inr (place_eq_error hplace)
    · exact Or.inl hfailure

theorem copyRules_eq_missingRules : (i.copyRules dir d).result
      = .error (.missingRules i.catalog.rulesDir) ↔ i.catalog.isBundled d = false := by
  constructor
  · intro h
    rcases copyRules_error_cases h with ⟨hbundled, -⟩ | ⟨-, hother | ⟨_, _, hother⟩⟩
    · exact hbundled
    · cases hother
    · cases hother
  · intro hbundled
    rw [copyRules_of_not_bundled hbundled]

/-- Nothing is placed if the bundle has no file. -/
theorem place_of_none (hlink : RulesUnlinked d) (h : ∀ r, i.catalog.holdsRule d r = false) :
    (i.place destination Rule.all d).disk = d
      ∧ (i.place destination Rule.all d).result = .ok [] := by
  have hsettled : ∀ r ∈ Rule.all, i.catalog.holdsRule d r = true → Settled i destination d r := by
    intro r _ hholds
    rw [h r] at hholds
    cases hholds
  have hplaced := place_of_settled hlink hsettled
  rwa [List.filter_eq_nil_iff.mpr (by simp [h])] at hplaced

theorem place_eq_nil (hlink : RulesUnlinked d) {bundle : Location}
    (hbundle : d.dirOf i.catalog.rulesDir = some bundle) :
    (i.place destination Rule.all d).result = .ok [] ↔ ∀ r, i.catalog.holdsRule d r = false := by
  constructor
  · intro h r
    obtain ⟨hnone, -⟩ := place_eq_ok hlink hbundle Rule.nodup_all h
    have hr := List.filter_eq_nil_iff.mp hnone.symm r (Rule.mem_all r)
    simpa using hr
  · intro h
    exact (place_of_none hlink h).2

/-- The bundle has none of the files, and the destination is there by then. -/
theorem copyRules_eq_nothingCopied (hlink : RulesUnlinked d) :
    (i.copyRules dir d).result = .error .nothingCopied ↔ i.catalog.isBundled d = true
      ∧ Available (i.destination dir) d ∧ ∀ r, i.catalog.holdsRule d r = false := by
  cases hbundled : i.catalog.isBundled d with
  | false =>
    rw [copyRules_of_not_bundled hbundled]
    simp
  | true =>
    obtain ⟨-, bundle, hbundle⟩ := Disk.isDirectory_iff.mp hbundled
    have hkeeps := (grows_prepare (i.destination dir) d).keeps
    have hbundle' := Disk.dirOf_of_keeps hkeeps hbundle
    rw [copyRules_eq_error hbundled, prepare_eq_ok, place_eq_nil (hlink.keeps hkeeps) hbundle']
    simp only [holdsRule_prepare hlink hbundled, true_and, and_true]
    constructor
    · intro h
      rcases h with hprepare | ⟨hready, hplace | hnone⟩
      · obtain ⟨_, _, hother⟩ := prepare_eq_error hprepare
        cases hother
      · obtain ⟨_, _, hother⟩ := place_eq_error hplace
        cases hother
      · exact ⟨hready, hnone⟩
    · intro h
      exact Or.inr ⟨h.1, Or.inr h.2⟩

/-- Where nothing could be copied, no more than directories have been made. -/
theorem grows_of_nothingCopied (hlink : RulesUnlinked d)
    (h : (i.copyRules dir d).result = .error .nothingCopied) :
    d.Grows (i.copyRules dir d).disk := by
  obtain ⟨hbundled, -, hnone⟩ := (copyRules_eq_nothingCopied hlink).mp h
  have hgrows := grows_prepare (i.destination dir) d
  have hplaced : (i.place (i.destination dir) Rule.all (prepare (i.destination dir) d).disk).disk
      = (prepare (i.destination dir) d).disk := by
    refine (place_of_none (hlink.keeps hgrows.keeps) fun r => ?_).1
    rw [holdsRule_prepare hlink hbundled, hnone r]
  rcases copyRules_disk i dir d with hdisk | hdisk | hdisk <;> rw [hdisk]
  · exact Disk.Grows.refl d
  · exact hgrows
  · rwa [hplaced]

/-! ### How installations fail -/

/-- An installation fails as copying the rules does, or as registering them does. -/
theorem install_eq_error : (i.install request d).result = .error failure
    ↔ (i.copyRules request.dir d).result = .error failure
      ∨ ∃ copied, (i.copyRules request.dir d).result = .ok copied
        ∧ (i.registerIf request copied (i.copyRules request.dir d).disk).result
          = .error failure := by
  rw [install, Run.andThen_result_eq_error]
  simp only [Run.map_result_eq_error]

/-- An installation that fails leaves the disk as copying the rules does. -/
theorem install_disk_of_error (h : (i.install request d).result = .error failure) :
    (i.install request d).disk = (i.copyRules request.dir d).disk := by
  rcases install_eq_error.mp h with hcopy | ⟨copied, hcopy, hregister⟩
  · exact (install_of_failure hcopy).1
  · rw [(install_of_copied hcopy).1, (registerIf_eq_error hregister).1]

theorem install_error_cases (h : (i.install request d).result = .error failure) :
    failure = .missingRules i.catalog.rulesDir ∨ failure = .nothingCopied
      ∨ ∃ path fault, failure = .disk path fault := by
  rcases install_eq_error.mp h with hcopy | ⟨copied, -, hregister⟩
  · rcases copyRules_error_cases hcopy with ⟨-, hmissing⟩ | ⟨-, hother⟩
    · exact Or.inl hmissing
    · exact Or.inr hother
  · exact Or.inr (Or.inr (registerIf_eq_error hregister).2)

/-- Failures of other kinds than disk faults come from copying the rules. -/
theorem install_eq_error_of_ne (hdisk : ∀ path fault, failure ≠ .disk path fault) :
    (i.install request d).result = .error failure
      ↔ (i.copyRules request.dir d).result = .error failure := by
  rw [install_eq_error]
  constructor
  · intro h
    rcases h with hcopy | ⟨copied, -, hregister⟩
    · exact hcopy
    · obtain ⟨path, fault, hfailure⟩ := (registerIf_eq_error hregister).2
      exact absurd hfailure (hdisk path fault)
  · intro h
    exact Or.inl h

/-- Failures that are not the configuration's stay what they are when the command ends. -/
theorem init_of_error (h : (i.install request d).result = .error failure) :
    (Command.init i request d).result = .error failure := by
  have hfatal : failure.isFatal = true := by
    rcases install_error_cases h with rfl | rfl | ⟨_, _, rfl⟩
    · rfl
    · rfl
    · rfl
  simp only [Command.init, h, Command.softened, Command.soften, hfatal, if_true]

/-- What a failed installation leaves behind on the disk `d'`. -/
structure CleanFailure (i : Installation) (destination : Path) (d d' : Disk) : Prop where
  /-- The configuration files are those that were there, with the same bytes. -/
  configs : ∀ name ∈ Config.fileNames, ∀ l bytes,
    d'.entryAt (Text.bytes name :: l) = some (.file bytes)
      ↔ d.entryAt (Text.bytes name :: l) = some (.file bytes)
  /-- Every file is as it was unless it is one of a rule in the destination. -/
  others : ∀ l bytes, d.entryAt l = some (.file bytes) →
    (∀ r : Rule, d'.locate? (destination.child r.fileName) ≠ some l) →
    d'.entryAt l = some (.file bytes)
  /-- What has changed of the rules' files in the destination is a complete copy, or it is a
  directory that has been made on the way to the destination.  A file that was overlooked to be the
  bundle's own is left out of this. -/
  copies : ∀ (r : Rule) l, d'.locate? (destination.child r.fileName) = some l →
    ¬Overlooks i destination d' r → d'.entryAt l ≠ d.entryAt l →
    (∃ bytes, d.readBytes (i.catalog.rulePath r) = .ok bytes ∧ d'.entryAt l = some (.file bytes))
      ∨ d.entryAt l = none ∧ d'.entryAt l = some .directory
        ∧ ∃ p ∈ destination :: destination.strictAncestors, d'.locate? p = some l

/-- A place in the destination belongs to one rule. -/
theorem rule_of_locate? (hlink : RulesUnlinked d) {r s : Rule} {l : Location}
    (hr : d.locate? (destination.child r.fileName) = some l)
    (hs : d.locate? (destination.child s.fileName) = some l) : r = s := by
  obtain ⟨-, m, -, hl, -⟩ :=
    (Disk.locate?_child_eq_some r.isName_fileName (hlink r)).mp hr
  obtain ⟨-, m', -, hl', -⟩ :=
    (Disk.locate?_child_eq_some s.isName_fileName (hlink s)).mp hs
  rw [hl] at hl'
  exact Rule.fileName_injective (List.cons.inj hl').1

/-- However far copying the rules gets, it leaves no more than that. -/
theorem cleanFailure_copyRules (hlink : RulesUnlinked d) (dir : Path) :
    CleanFailure i (i.destination dir) d (i.copyRules dir d).disk := by
  have hlink' := hlink.keeps (keeps_copyRules (i := i) hlink dir)
  refine ⟨fun name hname l bytes => ?_, fun l bytes he hother => ?_,
    fun r l hr hfound hchanged => ?_⟩
  · apply entryAt_copyRules hlink dir
    intro r heq
    exact r.fileName_not_mem_fileNames (Text.bytes_injective heq ▸ hname)
  · cases effect_copyRules hlink dir l with
    | untouched hsame => exact hsame.trans he
    | made _ _ hnone _ => cases hnone.symm.trans he
    | copied _ hleads _ => exact absurd hleads (hother _)
    | lost _ _ hleads _ => exact absurd hleads (hother _)
  · cases effect_copyRules hlink dir l with
    | untouched hsame => exact absurd hsame hchanged
    | made hp hleads hnone hnew => exact Or.inr ⟨hnone, hnew, _, hp, hleads⟩
    | copied hsource hleads hfile =>
      cases rule_of_locate? hlink' hr hleads
      exact Or.inl ⟨_, hsource, hfile⟩
    | lost _ hoverlooks hleads _ =>
      cases rule_of_locate? hlink' hr hleads
      exact absurd hoverlooks hfound

/-- **How installations fail.**  The package has no bundle, and nothing changes; or the bundle has no
file, and only directories are made; or an operation on the disk fails.  None of these failures is
softened, and none touches a configuration or leaves half a file, unless it was overlooked that the
target is the bundle's own file. -/
theorem failure_law (hlink : RulesUnlinked d) (request : Request) :
    (∀ failure, (i.install request d).result = .error failure →
      (failure = .missingRules i.catalog.rulesDir ∨ failure = .nothingCopied
        ∨ ∃ path fault, failure = .disk path fault)
      ∧ (Command.init i request d).result = .error failure
      ∧ CleanFailure i (i.destination request.dir) d (i.install request d).disk)
    ∧ ((i.install request d).result = .error (.missingRules i.catalog.rulesDir)
      ↔ d.isDirectory i.catalog.rulesDir = false)
    ∧ (d.isDirectory i.catalog.rulesDir = false → (i.install request d).disk = d)
    ∧ ((i.install request d).result = .error .nothingCopied
      ↔ d.isDirectory i.catalog.rulesDir = true ∧ Available (i.destination request.dir) d
        ∧ ∀ r, d.isFile (i.catalog.rulePath r) = false)
    ∧ ((i.install request d).result = .error .nothingCopied →
      d.Grows (i.install request d).disk) := by
  have hmissing : (i.install request d).result = .error (.missingRules i.catalog.rulesDir)
      ↔ (i.copyRules request.dir d).result = .error (.missingRules i.catalog.rulesDir) :=
    install_eq_error_of_ne (fun _ _ => Failure.noConfusion)
  have hnothing : (i.install request d).result = .error .nothingCopied
      ↔ (i.copyRules request.dir d).result = .error .nothingCopied :=
    install_eq_error_of_ne (fun _ _ => Failure.noConfusion)
  refine ⟨fun failure h => ⟨install_error_cases h, init_of_error h, ?_⟩,
    hmissing.trans copyRules_eq_missingRules, fun hbundled => ?_,
    hnothing.trans (copyRules_eq_nothingCopied hlink), fun h => ?_⟩
  · rw [install_disk_of_error h]
    exact cleanFailure_copyRules hlink request.dir
  · rw [install_disk_of_error (hmissing.mpr (copyRules_eq_missingRules.mpr hbundled)),
      copyRules_of_not_bundled hbundled]
  · rw [install_disk_of_error h]
    exact grows_of_nothingCopied hlink (hnothing.mp h)

/-- The project behind the link, with a directory in the place of a rule's file. -/
def obstructedProject : Disk :=
  (linkedProject.put [Text.bytes "lib", Text.bytes "web"] .directory).put
    [Text.bytes "no-props-array-sort.grit", Text.bytes "lib", Text.bytes "web"] .directory

theorem rulesUnlinked_obstructedProject : RulesUnlinked obstructedProject := by
  have hfirst : linkedProject.Grows
      (linkedProject.put [Text.bytes "lib", Text.bytes "web"] .directory) :=
    Disk.Grows.put_directory (by decide)
  exact rulesUnlinked_linkedProject.keeps
    (hfirst.trans (Disk.Grows.put_directory (by decide +kernel))).keeps

/-- One rule has been copied in full when the next one cannot be. -/
theorem failure_law_obstructedProject :
    RulesUnlinked obstructedProject
      ∧ (linkedInstallation.install ⟨Path.ofText "lib", true⟩ obstructedProject).result
        = .error (.disk (Path.ofText "home/lib/no-props-array-sort.grit") .isADirectory)
      ∧ (Command.init linkedInstallation ⟨Path.ofText "lib", true⟩ obstructedProject).result
        = .error (.disk (Path.ofText "home/lib/no-props-array-sort.grit") .isADirectory)
      ∧ CleanFailure linkedInstallation (Path.ofText "home/lib") obstructedProject
        (linkedInstallation.install ⟨Path.ofText "lib", true⟩ obstructedProject).disk
      ∧ (linkedInstallation.install ⟨Path.ofText "lib", true⟩ obstructedProject).disk.entryAt
          [Text.bytes "no-prop-mutation.grit", Text.bytes "lib", Text.bytes "web"]
        = some (.file (Text.bytes "language js\n")) := by
  have hresult : (linkedInstallation.install ⟨Path.ofText "lib", true⟩ obstructedProject).result
      = .error (.disk (Path.ofText "home/lib/no-props-array-sort.grit") .isADirectory) :=
    error?_eq_some.mp (by decide +kernel)
  obtain ⟨-, hcommand, hclean⟩ :=
    (failure_law rulesUnlinked_obstructedProject ⟨Path.ofText "lib", true⟩).1 _ hresult
  exact ⟨rulesUnlinked_obstructedProject, hresult, hcommand, hclean, by decide +kernel⟩

/-- Not everything that changes in the place of a rule's file is a copy: the destination
`a/no-prop-mutation.grit/..` is `a`, but a directory with the name of a rule is made on the way. -/
theorem not_changed_only_by_copying :
    ¬∀ (i : Installation) (request : Request) (d : Disk), RulesUnlinked d → ConfigsUnlinked d →
      ∀ failure, (i.install request d).result = .error failure → ∀ (r : Rule) (l : Location),
        (i.install request d).disk.locate? ((i.destination request.dir).child r.fileName)
          = some l →
        (i.install request d).disk.entryAt l ≠ d.entryAt l →
        ∃ bytes, d.readBytes (i.catalog.rulePath r) = .ok bytes
          ∧ (i.install request d).disk.entryAt l = some (.file bytes) := by
  intro h
  have hmade := h linkedInstallation ⟨Path.ofText "a/no-prop-mutation.grit/..", true⟩ linkedProject
    rulesUnlinked_linkedProject configsUnlinked_linkedProject
    (.disk (Path.ofText "home/a/no-prop-mutation.grit/../no-prop-mutation.grit") .isADirectory)
    (error?_eq_some.mp (by decide +kernel)) .propMutation
    [Text.bytes "no-prop-mutation.grit", Text.bytes "a", Text.bytes "web"]
    (by decide +kernel) (by decide +kernel)
  obtain ⟨bytes, -, hfile⟩ := hmade
  have hdirectory : (linkedInstallation.install
      ⟨Path.ofText "a/no-prop-mutation.grit/..", true⟩ linkedProject).disk.entryAt
        [Text.bytes "no-prop-mutation.grit", Text.bytes "a", Text.bytes "web"]
      = some .directory := by decide +kernel
  cases hdirectory.symm.trans hfile

end Installation

end RulePack
