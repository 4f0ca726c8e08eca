import RulePack.Proofs.Package.Given
import RulePack.Proofs.Text.Shown

/-!
# Rules by name

A rule is looked up by its name or by the name of its file, and its text is what the file holds.

* `Rule.ofText?_eq_some_iff` — the texts that name a rule;
* `Catalog.pathOf_eq_ok_iff`, `Catalog.pathOf_eq_error_iff` — where the rule that a text names should
  be, and when there is none;
* `Disk.readText_of_entry` — the text of the file that a path leads to;
* `Catalog.Answers`, `Catalog.readRule_eq_iff` — the outcomes of reading a rule, each with its reason;
* `Catalog.readRule_outcomes` — which outcome there is, and when.
-/

namespace RulePack

namespace Rule

variable {text : String} {r : Rule}

/-- The extension was taken off, or the text is as it was. -/
theorem eq_of_stem (text : String) : text = stem text ++ extension ∨ text = stem text := by
  rw [stem]
  split
  · rename_i hsuffix
    left
    obtain ⟨front, hfront⟩ := List.isSuffixOf_iff_suffix.mp hsuffix
    have htake : text.toList.take (text.toList.length - extension.toList.length) = front := by
      rw [← hfront, List.length_append, Nat.add_sub_cancel, List.take_left]
    rw [htake, ← String.toList_inj, String.toList_append, String.toList_ofList, hfront]
  · exact Or.inr rfl

/-- A text names a rule if it is the name of the rule or of its file, and no other text does. -/
theorem ofText?_eq_some_iff : ofText? text = some r ↔ text = r.name ∨ text = r.fileName := by
  constructor
  · intro h
    have hname : r.name = stem text := by
      rw [ofText?] at h
      simpa using List.find?_some h
    rcases eq_of_stem text with hextended | hplain
    · right
      rw [fileName, hname]
      exact hextended
    · left
      rw [hname]
      exact hplain
  · rintro (rfl | rfl)
    · exact ofText?_name r
    · exact ofText?_fileName r

theorem ofText?_eq_none_iff :
    ofText? text = none ↔ ∀ r : Rule, text ≠ r.name ∧ text ≠ r.fileName := by
  simp only [Option.eq_none_iff_forall_ne_some, ne_eq, ofText?_eq_some_iff, not_or]

/-- The extension is taken off once, as it is written, and with its dot. -/
example : ofText? "no-prop-mutation.grit.grit" = none ∧ ofText? "no-prop-mutation.GRIT" = none
    ∧ ofText? "no-prop-mutationgrit" = none ∧ ofText? ".grit" = none := by
  decide

end Rule

namespace Disk

variable {d : Disk} {p : Path} {bytes : List UInt8}

theorem readBytes_eq_ok_iff_entry :
    d.readBytes p = .ok bytes ↔ d.entry? p = some (.file bytes) := by
  rw [readBytes_eq_ok]
  unfold entry?
  cases d.find p with
  | error fault => simp
  | ok l => simp

theorem isFile_iff_entry : d.isFile p = true ↔ ∃ bytes, d.entry? p = some (.file bytes) := by
  simp only [isFile_iff, readBytes_eq_ok_iff_entry]

theorem readText_of_entry (h : d.entry? p = some (.file bytes)) :
    d.readText p = (Text.ofBytes? bytes).elim (.error .notText) .ok := by
  simp only [readText, readBytes_eq_ok_iff_entry.mpr h]
  cases Text.ofBytes? bytes with
  | none => rfl
  | some text => rfl

end Disk

namespace Catalog

variable {c : Catalog} {d : Disk} {name text : String} {r : Rule} {path : Path}
  {failure : Failure} {bytes : List UInt8}

/-! ### Where rules should be -/

theorem pathOf_eq_ok_iff :
    c.pathOf name = .ok path ↔ ∃ r, Rule.ofText? name = some r ∧ path = c.rulePath r := by
  rw [pathOf]
  cases Rule.ofText? name with
  | none => simp
  | some r => simp [eq_comm]

theorem pathOf_eq_error_iff :
    c.pathOf name = .error failure ↔ Rule.ofText? name = none ∧ failure = .unknownRule name := by
  rw [pathOf]
  cases Rule.ofText? name with
  | none => simp [eq_comm]
  | some r => simp

/-! ### What they hold -/

/-- What a catalog answers when it is asked for the text of a rule, and why. -/
inductive Answers (c : Catalog) (d : Disk) (name : String) : Except Failure String → Prop
  | unnamed : Rule.ofText? name = none → Answers c d name (.error (.unknownRule name))
  | missing {r : Rule} : Rule.ofText? name = some r →
      (∀ bytes, d.entry? (c.rulePath r) ≠ some (.file bytes)) →
      Answers c d name (.error (.unknownRule name))
  | garbled {r : Rule} {bytes : List UInt8} : Rule.ofText? name = some r →
      d.entry? (c.rulePath r) = some (.file bytes) → (∀ text, bytes ≠ Text.bytes text) →
      Answers c d name (.error (.disk (c.rulePath r) .notText))
  | held {r : Rule} {text : String} : Rule.ofText? name = some r →
      d.entry? (c.rulePath r) = some (.file (Text.bytes text)) → Answers c d name (.ok text)

theorem readRule_of_none (h : Rule.ofText? name = none) :
    c.readRule d name = .error (.unknownRule name) := by
  rw [readRule, pathOf, h]

theorem readRule_of_missing (hname : Rule.ofText? name = some r)
    (hmissing : ∀ bytes, d.entry? (c.rulePath r) ≠ some (.file bytes)) :
    c.readRule d name = .error (.unknownRule name) := by
  have hfile : c.holdsRule d r = false := by
    rw [holdsRule, Bool.eq_false_iff]
    intro h
    obtain ⟨bytes, he⟩ := Disk.isFile_iff_entry.mp h
    exact hmissing bytes he
  rw [readRule_of_ofText? hname, hfile, if_neg Bool.false_ne_true]

theorem readRule_of_entry (hname : Rule.ofText? name = some r)
    (he : d.entry? (c.rulePath r) = some (.file bytes)) :
    c.readRule d name
      = (Text.ofBytes? bytes).elim (.error (.disk (c.rulePath r) .notText)) .ok := by
  have hfile : c.holdsRule d r = true := Disk.isFile_iff_entry.mpr ⟨bytes, he⟩
  rw [readRule_of_ofText? hname, hfile, if_pos rfl, Disk.readText_of_entry he]
  cases Text.ofBytes? bytes with
  | none => rfl
  | some text => rfl

theorem answers_readRule (c : Catalog) (d : Disk) (name : String) :
    Answers c d name (c.readRule d name) := by
  cases hname : Rule.ofText? name with
  | none =>
    rw [readRule_of_none hname]
    exact .unnamed hname
  | some r =>
    by_cases hheld : ∃ bytes, d.entry? (c.rulePath r) = some (.file bytes)
    · obtain ⟨bytes, he⟩ := hheld
      rw [readRule_of_entry hname he]
      cases htext : Text.ofBytes? bytes with
      | none => exact .garbled hname he (Text.ofBytes?_eq_none_iff.mp htext)
      | some text =>
        rw [Text.ofBytes?_eq_some_iff.mp htext] at he
        exact .held hname he
    · have hmissing : ∀ bytes, d.entry? (c.rulePath r) ≠ some (.file bytes) := by
        intro bytes he
        exact hheld ⟨bytes, he⟩
      rw [readRule_of_missing hname hmissing]
      exact .missing hname hmissing

/-- There is one answer. -/
theorem Answers.eq {answer : Except Failure String} (h : Answers c d name answer) :
    c.readRule d name = answer := by
  cases h with
  | unnamed hname => exact readRule_of_none hname
  | missing hname hmissing => exact readRule_of_missing hname hmissing
  | garbled hname he hgarbled =>
    rw [readRule_of_entry hname he, Text.ofBytes?_eq_none_iff.mpr hgarbled, Option.elim_none]
  | held hname he => rw [readRule_of_entry hname he, Text.ofBytes?_bytes, Option.elim_some]

theorem readRule_eq_iff {answer : Except Failure String} :
    c.readRule d name = answer ↔ Answers c d name answer := by
  constructor
  · rintro rfl
    exact answers_readRule c d name
  · exact Answers.eq

theorem readRule_eq_ok_iff : c.readRule d name = .ok text
    ↔ ∃ r, Rule.ofText? name = some r
      ∧ d.entry? (c.rulePath r) = some (.file (Text.bytes text)) := by
  rw [readRule_eq_iff]
  constructor
  · rintro (_ | _ | _ | ⟨hname, he⟩)
    exact ⟨_, hname, he⟩
  · rintro ⟨r, hname, he⟩
    exact .held hname he

theorem readRule_eq_unknownRule_iff : c.readRule d name = .error (.unknownRule name)
    ↔ Rule.ofText? name = none ∨ ∃ r, Rule.ofText? name = some r
      ∧ ∀ bytes, d.entry? (c.rulePath r) ≠ some (.file bytes) := by
  rw [readRule_eq_iff]
  constructor
  · rintro (hname | ⟨hname, hmissing⟩)
    · exact Or.inl hname
    · exact Or.inr ⟨_, hname, hmissing⟩
  · rintro (hname | ⟨r, hname, hmissing⟩)
    · exact .unnamed hname
    · exact .missing hname hmissing

theorem readRule_eq_notText_iff : c.readRule d name = .error (.disk path .notText)
    ↔ ∃ r bytes, Rule.ofText? name = some r ∧ path = c.rulePath r
      ∧ d.entry? path = some (.file bytes) ∧ ∀ text, bytes ≠ Text.bytes text := by
  rw [readRule_eq_iff]
  constructor
  · rintro (_ | _ | ⟨hname, he, hgarbled⟩)
    exact ⟨_, _, hname, rfl, he, hgarbled⟩
  · rintro ⟨r, bytes, hname, rfl, he, hgarbled⟩
    exact .garbled hname he hgarbled

/-- There are no other failures. -/
theorem readRule_cases (c : Catalog) (d : Disk) (name : String) :
    (∃ text, c.readRule d name = .ok text) ∨ c.readRule d name = .error (.unknownRule name)
      ∨ ∃ path, c.readRule d name = .error (.disk path .notText) := by
  generalize hanswer : c.readRule d name = answer
  cases readRule_eq_iff.mp hanswer with
  | unnamed _ => exact Or.inr (Or.inl rfl)
  | missing _ _ => exact Or.inr (Or.inl rfl)
  | garbled _ _ _ => exact Or.inr (Or.inr ⟨_, rfl⟩)
  | held _ _ => exact Or.inl ⟨_, rfl⟩

/-- **Looking up a rule.**  A text names a rule exactly if it is the name of the rule or of its file;
any other text is an unknown rule, and is told as it was given.  Reading by a name gives a text
exactly if the path of the rule leads to a file whose bytes are the writing of that text.  The rule
is unknown exactly if the text names none or its path does not lead to a file.  In all other cases
the file at its path is reported to hold no text. -/
theorem readRule_outcomes (c : Catalog) (d : Disk) (name : String) :
    (∀ r, Rule.ofText? name = some r ↔ name = r.name ∨ name = r.fileName)
    ∧ (∀ path, c.pathOf name = .ok path ↔ ∃ r, Rule.ofText? name = some r ∧ path = c.rulePath r)
    ∧ (∀ failure, c.pathOf name = .error failure
      ↔ (∀ r : Rule, name ≠ r.name ∧ name ≠ r.fileName) ∧ failure = .unknownRule name)
    ∧ (∀ text, c.readRule d name = .ok text
      ↔ ∃ r, Rule.ofText? name = some r
        ∧ d.entry? (c.rulePath r) = some (.file (Text.bytes text)))
    ∧ (c.readRule d name = .error (.unknownRule name)
      ↔ Rule.ofText? name = none ∨ ∃ r, Rule.ofText? name = some r
        ∧ ∀ bytes, d.entry? (c.rulePath r) ≠ some (.file bytes))
    ∧ (∀ path, c.readRule d name = .error (.disk path .notText)
      ↔ ∃ r bytes, Rule.ofText? name = some r ∧ path = c.rulePath r
        ∧ d.entry? path = some (.file bytes) ∧ ∀ text, bytes ≠ Text.bytes text)
    ∧ ((∃ text, c.readRule d name = .ok text) ∨ c.readRule d name = .error (.unknownRule name)
      ∨ ∃ path, c.readRule d name = .error (.disk path .notText)) := by
  refine ⟨fun r => Rule.ofText?_eq_some_iff, fun path => pathOf_eq_ok_iff, fun failure => ?_,
    fun text => readRule_eq_ok_iff, readRule_eq_unknownRule_iff,
    fun path => readRule_eq_notText_iff, readRule_cases c d name⟩
  rw [pathOf_eq_error_iff, Rule.ofText?_eq_none_iff]

/-- A package in which one rule is a link to a file, one a link to nothing, one a directory and one
a file whose bytes are the writing of no text. -/
def mixedPackage : Disk :=
  let place (r : Rule) : Location := [Text.bytes r.fileName, Text.bytes dirName]
  ⟨[], [([Text.bytes dirName], .directory), ([Text.bytes "kept"], .file (Text.bytes "language js")),
    (place .propMutation, .link (Path.ofText "../kept")),
    (place .propsArrayPop, .link (Path.ofText "../lost")),
    (place .propsArrayPush, .directory), (place .propsArraySort, .file [0x2F, 0xFF])]⟩

/-- Through the link a text is read; otherwise the rule is unknown, or its file holds no text. -/
example : let c := ofRoot (Path.ofText "/")
    c.readRule mixedPackage "no-prop-mutation.grit" = .ok "language js"
      ∧ c.readRule mixedPackage "no-props-array-pop" = .error (.unknownRule "no-props-array-pop")
      ∧ c.readRule mixedPackage "no-props-array-push" = .error (.unknownRule "no-props-array-push")
      ∧ c.readRule mixedPackage "no-props-array-sort"
        = .error (.disk (Path.ofText "/rules/no-props-array-sort.grit") .notText)
      ∧ c.readRule mixedPackage ".grit" = .error (.unknownRule ".grit") := by
  decide +kernel

end Catalog

end RulePack
