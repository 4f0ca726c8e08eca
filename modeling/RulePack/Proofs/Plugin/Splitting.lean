import Mathlib.Data.List.Nodup
import RulePack.Proofs.Plugin.Directories
import RulePack.Proofs.Plugin.Merging

/-!
# The parts of a plugin path

A plugin path is a base without the slashes at its end, a separator and the name of a rule's file.

* `PluginPath.separator`, `PluginPath.ofRule_eq_append` — the three parts;
* `PluginPath.trimSlashes_append` — slashes behind a base make no difference;
* `PluginPath.getLast?_trimSlashes` — the first part does not end in a slash, so that there is exactly
  one in front of the name;
* `PluginPath.append_separator_inj` — the first part and the separator, written as one text;
* `PluginPath.ofRule_parts` — a plugin path determines its parts.
-/

namespace RulePack.PluginPath

variable {base other : String} {r s : Rule}

/-! ### Three parts -/

/-- What stands between a base and the name of a rule's file: nothing if there is no base. -/
def separator (base : String) : String := if base = "" then "" else "/"

theorem separator_empty : separator "" = "" := if_pos rfl

theorem separator_of_ne (h : base ≠ "") : separator base = "/" := if_neg h

theorem trimSlashes_empty : trimSlashes "" = "" := by
  rw [trimSlashes, String.toList_empty]
  rfl

/-- A text that is not trimmed to nothing was not empty. -/
theorem ne_empty_of_trimSlashes (h : trimSlashes base ≠ "") : base ≠ "" := by
  intro hbase
  rw [hbase] at h
  exact h trimSlashes_empty

theorem toList_trimSlashes_eq (text : String) :
    (trimSlashes text).toList = text.toList.rdropWhile (· == '/') := by
  rw [trimSlashes, String.toList_ofList, List.rdropWhile]

/-- Slashes behind a text are trimmed with its own. -/
theorem trimSlashes_append (text : String) (count : Nat) :
    trimSlashes (text ++ String.ofList (List.replicate count '/')) = trimSlashes text := by
  rw [← String.toList_inj, toList_trimSlashes_eq, toList_trimSlashes_eq, String.toList_append,
    String.toList_ofList]
  induction count with
  | zero => rw [List.replicate_zero, List.append_nil]
  | succ count ih =>
    rw [List.replicate_succ', ← List.append_assoc, List.rdropWhile_concat_pos _ _ _ rfl, ih]

/-- A trimmed text does not end in a slash. -/
theorem getLast?_trimSlashes (text : String) :
    (trimSlashes text).toList.getLast? ≠ some '/' := by
  rw [toList_trimSlashes_eq]
  intro h
  obtain ⟨hne, hlast⟩ := List.mem_getLast?_eq_getLast h
  have hnot := List.rdropWhile_last_not (· == '/') text.toList hne
  rw [← hlast] at hnot
  exact hnot rfl

/-- A plugin path is the trimmed base, the separator and the name of the file. -/
theorem ofRule_eq_append (base : String) (r : Rule) :
    ofRule base r = trimSlashes base ++ separator base ++ r.fileName := by
  by_cases h : base = ""
  · rw [h, ofRule, trimSlashes_empty, separator_empty, String.empty_append, String.empty_append]
    rfl
  · rw [ofRule_of_ne h, separator_of_ne h]

/-! ### Telling them apart -/

/-- The name of the file is what stands behind the last slash, or all of it. -/
theorem afterSlashes_ofRule (base : String) (r : Rule) :
    afterSlashes (ofRule base r) = r.fileName.toList := by
  by_cases h : base = ""
  · have hname : ∀ c ∈ r.fileName.toList, decide (c ≠ '/') = true := by
      intro c hc
      rw [decide_eq_true_eq]
      rintro rfl
      exact slash_not_mem_fileName r hc
    rw [ofRule_eq_append, h, trimSlashes_empty, separator_empty, String.empty_append,
      String.empty_append]
    exact List.rtakeWhile_eq_self_iff.mpr hname
  · rw [ofRule_of_ne h]
    exact afterSlashes_append (slash_not_mem_fileName r) (trimSlashes base)

theorem empty_of_append_separator (h : trimSlashes base ++ separator base = "") : base = "" := by
  by_contra hbase
  rw [separator_of_ne hbase, String.append_eq_empty_iff] at h
  exact absurd h.2 (by decide)

/-- Written as one text, the trimmed base and the separator determine both. -/
theorem append_separator_inj :
    trimSlashes base ++ separator base = trimSlashes other ++ separator other
      ↔ trimSlashes base = trimSlashes other ∧ (base = "" ↔ other = "") := by
  by_cases hbase : base = ""
  · rw [hbase, trimSlashes_empty, separator_empty, String.empty_append]
    constructor
    · intro h
      have hother : other = "" := empty_of_append_separator h.symm
      rw [hother, trimSlashes_empty]
      exact ⟨rfl, Iff.rfl⟩
    · intro h
      rw [h.2.mp rfl, trimSlashes_empty, separator_empty, String.empty_append]
  · by_cases hother : other = ""
    · rw [hother, trimSlashes_empty, separator_empty, String.empty_append]
      constructor
      · intro h
        exact absurd (empty_of_append_separator h) hbase
      · intro h
        exact absurd (h.2.mpr rfl) hbase
    · rw [separator_of_ne hbase, separator_of_ne hother, String.append_left_inj]
      simp only [hbase, hother, and_true]

/-- Plugin paths in one directory are different for different rules. -/
theorem nodup_ofRules (base : String) (rules : List Rule) :
    (ofRules base rules).Nodup ↔ rules.Nodup :=
  List.nodup_map_iff fun _ _ => ofRule_injective

/-- **A plugin path determines its parts.**  They are the name of the rule's file, which has no slash,
in front of it one separator, or none if there is no base, and in front of that the base without the
slashes at its end.  So the paths of rules in a directory are repeated only if the rules are. -/
theorem ofRule_parts :
    (∀ base other r s, ofRule base r = ofRule other s
      ↔ r = s ∧ trimSlashes base = trimSlashes other
        ∧ (trimSlashes base = "" → (base = "" ↔ other = "")))
    ∧ (∀ base r, ofRule base r = trimSlashes base ++ separator base ++ r.fileName
        ∧ '/' ∉ r.fileName.toList)
    ∧ (∀ base, (trimSlashes base).toList.getLast? ≠ some '/'
        ∧ ∃ count, base.toList = (trimSlashes base).toList ++ List.replicate count '/')
    ∧ ∀ base rules, (ofRules base rules).Nodup ↔ rules.Nodup := by
  refine ⟨fun base other r s => ?_, fun base r => ?_, fun base => ?_, nodup_ofRules⟩
  · constructor
    · intro h
      have hname := congrArg afterSlashes h
      rw [afterSlashes_ofRule, afterSlashes_ofRule, String.toList_inj] at hname
      have hrule : r = s := Rule.fileName_injective (congrArg Text.bytes hname)
      rw [ofRule_eq_append, ofRule_eq_append, hrule, String.append_left_inj] at h
      obtain ⟨htrimmed, hempty⟩ := append_separator_inj.mp h
      exact ⟨hrule, htrimmed, fun _ => hempty⟩
    · rintro ⟨rfl, htrimmed, hempty⟩
      have hboth : base = "" ↔ other = "" := by
        by_cases hnone : trimSlashes base = ""
        · exact hempty hnone
        · have hbase := ne_empty_of_trimSlashes hnone
          have hother := ne_empty_of_trimSlashes (htrimmed ▸ hnone)
          simp only [hbase, hother]
      rw [ofRule_eq_append, ofRule_eq_append, append_separator_inj.mpr ⟨htrimmed, hboth⟩]
  · exact ⟨ofRule_eq_append base r, slash_not_mem_fileName r⟩
  · exact ⟨getLast?_trimSlashes base, toList_trimSlashes base⟩

/-- The empty base, the root and a base that ends like a rule's file are told apart. -/
example : ofRule "" .propMutation = "no-prop-mutation.grit"
    ∧ ofRule "//" .propMutation = "/no-prop-mutation.grit"
    ∧ ofRule "/no-prop-mutation.grit/" .propMutation
      = "/no-prop-mutation.grit/no-prop-mutation.grit" := by
  decide +kernel

end RulePack.PluginPath
