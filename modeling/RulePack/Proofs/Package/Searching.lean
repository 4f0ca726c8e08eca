import RulePack.Package
import RulePack.Proofs.Installation.Failing
import RulePack.Proofs.Path.Ancestors

/-!
# Searching for a package

* `Installation.mem_of_place` — a rule whose file is there is copied, if copying does not fail;
* `Installation.copyRules_of_holdsRule` — from a catalog that has a rule, copying fails with a fault
  of the disk only;
* `Package.rootAbove_nearest` — the root that is found above a path is the nearest one that has a
  rule.
-/

namespace RulePack

namespace Installation

variable {i : Installation} {destination dir : Path} {r : Rule} {rules copied : List Rule}
  {d : Disk} {failure : Failure}

theorem isEmpty_rulesDir (root : Path) : (Catalog.ofRoot root).rulesDir.isEmpty = false :=
  Path.isEmpty_child (by decide)

/-- The directory of a rule's file is there. -/
theorem isBundled_of_holdsRule {root : Path} (h : (Catalog.ofRoot root).holdsRule d r = true) :
    (Catalog.ofRoot root).isBundled d = true :=
  Disk.isDirectory_of_isFile_child r.isName_fileName (isEmpty_rulesDir root) h

theorem holdsRule_of_keeps {c : Catalog} {d' : Disk} (h : d.Keeps d')
    (hholds : c.holdsRule d r = true) : c.holdsRule d' r = true := by
  rw [Catalog.holdsRule] at hholds ⊢
  exact Disk.isFile_of_keeps h hholds

/-- A rule whose file is there is copied, through whatever links, if copying does not fail. -/
theorem mem_of_place (hr : r ∈ rules) (hholds : i.catalog.holdsRule d r = true)
    (h : (i.place destination rules d).result = .ok copied) : r ∈ copied := by
  induction rules generalizing d copied with
  | nil => cases hr
  | cons s rest ih =>
    cases hfile : d.isFile (i.catalog.rulePath s) with
    | false =>
      have hne : r ≠ s := by
        rintro rfl
        rw [Catalog.holdsRule, hfile] at hholds
        cases hholds
      rw [place_absent hfile] at h
      exact ih ((List.mem_cons.mp hr).resolve_left hne) hholds h
    | true =>
      cases hsame : d.sameFile (i.catalog.rulePath s) (destination.child s.fileName) with
      | true =>
        rw [place_inPlace hfile hsame] at h
        obtain ⟨later, hplaced, rfl⟩ := Run.map_result_eq_ok.mp h
        rcases List.mem_cons.mp hr with rfl | hrest
        · exact List.mem_cons_self
        · exact List.mem_cons_of_mem s (ih hrest hholds hplaced)
      | false =>
        cases hcopy : d.copy (i.catalog.rulePath s) (destination.child s.fileName) with
        | error fault =>
          rw [place_failed hfile hsame hcopy] at h
          cases h
        | ok d' =>
          rw [place_copied hfile hsame hcopy] at h
          obtain ⟨later, hplaced, rfl⟩ := Run.map_result_eq_ok.mp h
          rcases List.mem_cons.mp hr with rfl | hrest
          · exact List.mem_cons_self
          · have hholds' := holdsRule_of_keeps (Disk.keeps_copy hcopy) hholds
            exact List.mem_cons_of_mem s (ih hrest hholds' hplaced)

/-- From a catalog that has a rule, copying fails with a fault of the disk only. -/
theorem copyRules_of_holdsRule (hbundled : i.catalog.isBundled d = true)
    (hholds : i.catalog.holdsRule d r = true) (h : (i.copyRules dir d).result = .error failure) :
    ∃ path fault, failure = .disk path fault := by
  rcases (copyRules_eq_error hbundled).mp h with hprepare | ⟨-, hplace | ⟨hnone, -⟩⟩
  · exact prepare_eq_error hprepare
  · exact place_eq_error hplace
  · -- making the destination leaves the file of the rule where it is
    have hkeeps := (grows_prepare (i.destination dir) d).keeps
    have hholds' := holdsRule_of_keeps hkeeps hholds
    exact absurd (mem_of_place (Rule.mem_all r) hholds' hnone) List.not_mem_nil

end Installation

namespace Package

variable {d : Disk} {start root : Path}

theorem holdsRules_iff :
    holdsRules d root = true ↔ ∃ r, (Catalog.ofRoot root).holdsRule d r = true := by
  rw [holdsRules, List.any_eq_true]
  constructor
  · intro h
    obtain ⟨r, -, hr⟩ := h
    exact ⟨r, hr⟩
  · intro h
    obtain ⟨r, hr⟩ := h
    exact ⟨r, Rule.mem_all r, hr⟩

theorem holdsRules_eq_false_iff :
    holdsRules d root = false ↔ ∀ r, (Catalog.ofRoot root).holdsRule d r = false := by
  rw [← Bool.not_eq_true, holdsRules_iff, not_exists]
  simp only [Bool.not_eq_true]

theorem rootAbove_eq_some : rootAbove d start = some root
    ↔ ∃ count < start.parts.length, start.IsAncestor count root
      ∧ (∃ r, (Catalog.ofRoot root).holdsRule d r = true)
      ∧ ∀ more q, count < more → more < start.parts.length → start.IsAncestor more q →
        ∀ r, (Catalog.ofRoot q).holdsRule d r = false := by
  rw [rootAbove, Path.find?_strictAncestors_eq_some]
  simp only [holdsRules_iff, holdsRules_eq_false_iff]

theorem rootAbove_eq_none : rootAbove d start = none
    ↔ ∀ count < start.parts.length, ∀ q, start.IsAncestor count q →
      ∀ r, (Catalog.ofRoot q).holdsRule d r = false := by
  rw [rootAbove, List.find?_eq_none]
  simp only [Path.mem_strictAncestors, Bool.not_eq_true, holdsRules_eq_false_iff]
  constructor
  · intro h count hcount q hq
    exact h q ⟨count, hcount, hq⟩
  · intro h q hq
    obtain ⟨count, hcount, hancestor⟩ := hq
    exact h count hcount q hancestor

/-- The search above a path looks at exactly one path for every number of parts that can be left of
it, and finds the one with the most parts that has the file of a rule, or nothing if none has.  From
a root that is found, copying the rules fails with a fault of the disk only. -/
theorem rootAbove_nearest (d : Disk) (start : Path) :
    (∀ count < start.parts.length, ∃! q, start.IsAncestor count q)
    ∧ (∀ root, rootAbove d start = some root
      ↔ ∃ count < start.parts.length, start.IsAncestor count root
        ∧ (∃ r, d.isFile ((Catalog.ofRoot root).rulePath r) = true)
        ∧ ∀ more q, count < more → more < start.parts.length → start.IsAncestor more q →
          ∀ r, d.isFile ((Catalog.ofRoot q).rulePath r) = false)
    ∧ (rootAbove d start = none
      ↔ ∀ count < start.parts.length, ∀ q, start.IsAncestor count q →
        ∀ r, d.isFile ((Catalog.ofRoot q).rulePath r) = false)
    ∧ ∀ root, rootAbove d start = some root → ∀ projectRoot dir failure,
      ((Installation.mk (Catalog.ofRoot root) projectRoot).copyRules dir d).result
        = .error failure → ∃ path fault, failure = .disk path fault := by
  refine ⟨fun count hcount => Path.existsUnique_isAncestor hcount, fun root => rootAbove_eq_some,
    rootAbove_eq_none, fun root hroot projectRoot dir failure h => ?_⟩
  obtain ⟨-, -, -, ⟨r, hholds⟩, -⟩ := rootAbove_eq_some.mp hroot
  exact Installation.copyRules_of_holdsRule (i := ⟨Catalog.ofRoot root, projectRoot⟩)
    (Installation.isBundled_of_holdsRule hholds) hholds h

/-- A package whose only rule is a link, with a directory of unrelated rules beside the program. -/
def nestedPackage : Disk :=
  ⟨[], [([Text.bytes "pkg"], .directory),
    ([Text.bytes "kept", Text.bytes "pkg"], .file (Text.bytes "language js")),
    ([Text.bytes "out", Text.bytes "pkg"], .file []),
    ([Text.bytes "rules", Text.bytes "pkg"], .directory),
    ([Text.bytes "no-prop-mutation.grit", Text.bytes "rules", Text.bytes "pkg"],
      .link (Path.ofText "../kept")),
    ([Text.bytes "bin", Text.bytes "pkg"], .directory),
    ([Text.bytes "rules", Text.bytes "bin", Text.bytes "pkg"], .directory),
    ([Text.bytes "other.grit", Text.bytes "rules", Text.bytes "bin", Text.bytes "pkg"], .file [])]⟩

/-- An installation from the root that is found. -/
def nestedInstallation : Installation :=
  ⟨Catalog.ofRoot (Path.ofText "//pkg/./bin//.."), Path.ofText "/pkg"⟩

/-- The search passes over the directory of unrelated rules; copying to a file fails. -/
theorem rootAbove_nearest_nestedPackage :
    rootAbove nestedPackage (Path.ofText "//pkg/./bin//../bin/./tool")
        = some (Path.ofText "//pkg/./bin//..")
      ∧ (∃ count < (Path.ofText "//pkg/./bin//../bin/./tool").parts.length,
        (Path.ofText "//pkg/./bin//../bin/./tool").IsAncestor count
          (Path.ofText "//pkg/./bin//.."))
      ∧ (nestedInstallation.copyRules (Path.ofText "out") nestedPackage).result
        = .error (.disk (Path.ofText "/pkg/out/no-prop-mutation.grit") .notADirectory)
      ∧ ∃ path fault, Failure.disk (Path.ofText "/pkg/out/no-prop-mutation.grit") .notADirectory
        = .disk path fault := by
  have hfound : rootAbove nestedPackage (Path.ofText "//pkg/./bin//../bin/./tool")
      = some (Path.ofText "//pkg/./bin//..") := by decide +kernel
  have hresult : (nestedInstallation.copyRules (Path.ofText "out") nestedPackage).result
      = .error (.disk (Path.ofText "/pkg/out/no-prop-mutation.grit") .notADirectory) :=
    error?_eq_some.mp (by decide +kernel)
  obtain ⟨-, hsome, -, hfails⟩ :=
    rootAbove_nearest nestedPackage (Path.ofText "//pkg/./bin//../bin/./tool")
  obtain ⟨count, hcount, hancestor, -⟩ := (hsome _).mp hfound
  exact ⟨hfound, ⟨count, hcount, hancestor⟩, hresult, hfails _ hfound _ _ _ hresult⟩

end Package

end RulePack
