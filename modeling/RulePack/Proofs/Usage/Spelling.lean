import RulePack.Usage.Invocation

/-!
# How command lines are written

The command lines that are no calls for help, as a grammar over their words.

* `Setting`, `Spells` — an option with its value, and the words that give it;
* `Written` — the words that give several settings, one after the other;
* `Proper` — settings of which a scope knows each, and that are given once;
* `CommandLine`, `CommandLine.Reads` — settings, a command and its settings, and the words of all;
* `CommandLine.Says`, `CommandLine.Asks` — what a command line asks for;
* `Word.eq_of_ofText_long`, `Word.ofText_eq_plain` — the words that are options, and that are not.
-/

namespace RulePack.Usage

/-- An option with its value; that of a flag is empty. -/
abbrev Setting := Opt × String

/-! ### The grammar -/

/-- The words that give a setting.  A value that is a word of its own does not start with a dash,
unless it is nothing but one. -/
inductive Spells : Setting → List String → Prop
  | joined {o : Opt} {value : String} : o.takesValue = true → value ≠ "" →
      Spells (o, value) ["--" ++ o.name ++ "=" ++ value]
  | apart {o : Opt} {value : String} : o.takesValue = true → value ≠ "" →
      value = "-" ∨ value.toList.head? ≠ some '-' → Spells (o, value) ["--" ++ o.name, value]
  | flag : Spells (.noUpdate, "") ["--" ++ Opt.noUpdate.name]

/-- The words that give settings, one after the other. -/
inductive Written : List Setting → List String → Prop
  | nil : Written [] []
  | cons {p : Setting} {ps : List Setting} {ws rest : List String} :
      Spells p ws → Written ps rest → Written (p :: ps) (ws ++ rest)

/-- The options that can be set in a scope. -/
def Scope.settable : Scope → List Opt
  | program | list => [.packageRoot, .logLevel]
  | init => [.packageRoot, .logLevel, .dir, .noUpdate]

/-- Settings that are in order: the scope knows every option, each is given at most once, and the
level is one of the five. -/
structure Proper (s : Scope) (settings : List Setting) : Prop where
  known : ∀ p ∈ settings, p.1 ∈ s.settable
  once : (settings.map Prod.fst).Nodup
  level : ∀ word, (.logLevel, word) ∈ settings → ∃ l : Level, word = l.word

/-- The words of the commands. -/
def commandWords : List (String × Scope) := [("init", .init), ("list", .list)]

/-- The settings of the program, and a command with its own settings. -/
structure CommandLine where
  outer : List Setting
  command : Option (Scope × List Setting)

namespace CommandLine

/-- The words of a command line.  Two dashes may stand at its end. -/
inductive Reads : CommandLine → List String → Prop
  | bare {outer : List Setting} {words ending : List String} :
      Proper .program outer → Written outer words → ending = [] ∨ ending = ["--"] →
      Reads ⟨outer, none⟩ (words ++ ending)
  | command {outer inner : List Setting} {s : Scope} {word : String}
      {before behind ending : List String} :
      Proper .program outer → Written outer before → (word, s) ∈ commandWords →
      Proper s inner → Written inner behind → ending = [] ∨ ending = ["--"] →
      Reads ⟨outer, some (s, inner)⟩ (before ++ word :: (behind ++ ending))

/-- The settings of the command; without one there are none. -/
def inner (line : CommandLine) : List Setting :=
  match line.command with
  | some (_, settings) => settings
  | none => []

/-- Does the command line say that an option has a value?  A setting of the command counts before
one of the program. -/
def Says (line : CommandLine) (o : Opt) (value : String) : Prop :=
  (o, value) ∈ line.inner ∨ (o, value) ∈ line.outer ∧ ∀ other, (o, other) ∉ line.inner

/-- The action that a command with its settings stands for. -/
inductive Performs : Option (Scope × List Setting) → Option Action → Prop
  | nothing : Performs none none
  | list (settings : List Setting) : Performs (some (.list, settings)) (some .list)
  | init {settings : List Setting} {dir : String} {noUpdate : Bool} :
      (.dir, dir) ∈ settings ∨ dir = "biome-plugins" ∧ (∀ other, (.dir, other) ∉ settings) →
      (noUpdate = true ↔ ∃ text, (.noUpdate, text) ∈ settings) →
      Performs (some (.init, settings)) (some (.init dir noUpdate))

/-- What a command line asks for. -/
structure Asks (line : CommandLine) (i : Invocation) : Prop where
  action : Performs line.command i.action
  packageRoot : ∀ root, i.packageRoot = some root ↔ line.Says .packageRoot root
  logLevel : line.Says .logLevel i.logLevel.word
    ∨ i.logLevel = .warn ∧ ∀ word, ¬line.Says .logLevel word

end CommandLine

/-! ### Single words -/

theorem splitEquals_append {cs : List Char} (h : '=' ∉ cs) (value : List Char) :
    splitEquals (cs ++ '=' :: value) = (cs, some value) := by
  have hall : ∀ c ∈ cs, (c != '=') = true := by
    intro c hc
    have hne : c ≠ '=' := fun heq => h (heq ▸ hc)
    simpa using hne
  rw [splitEquals, List.dropWhile_append_of_pos hall, List.takeWhile_append_of_pos hall]
  simp

/-- A text is what stands before its first equals sign, the sign, and what stands behind it. -/
theorem eq_of_splitEquals {cs name : List Char} {value : Option (List Char)}
    (h : splitEquals cs = (name, value)) :
    cs = name ++ match value with
      | none => []
      | some value => '=' :: value := by
  rw [splitEquals] at h
  have hsplit : cs.takeWhile (· != '=') ++ cs.dropWhile (· != '=') = cs :=
    List.takeWhile_append_dropWhile
  split at h
  · cases h
    exact (List.append_nil cs).symm
  · rename_i c behind hdrop
    cases h
    have hc : (c != '=') = false := by
      have hhead := List.head?_dropWhile_not (· != '=') cs
      simpa [hdrop] using hhead
    have heq : c = '=' := by simpa using hc
    rw [hdrop, heq] at hsplit
    exact hsplit.symm

namespace Word

theorem ofText_dashes {text : String} (h : ofText text = .dashes) : text = "--" := by
  rw [ofText] at h
  split at h
  · rename_i hlist
    exact String.toList_injective (by rw [hlist]; rfl)
  all_goals cases h

/-- A word with two dashes in front is an option by its name, with or without a value. -/
theorem eq_of_ofText_long {text name : String} {value : Option String}
    (h : ofText text = .long name value) :
    text = match value with
      | none => "--" ++ name
      | some value => "--" ++ name ++ "=" ++ value := by
  rw [ofText] at h
  split at h
  · cases h
  · rename_i cs _ hlist
    cases hsplit : splitEquals cs with
    | mk front behind =>
      rw [hsplit] at h
      cases h
      have hcs := eq_of_splitEquals hsplit
      refine String.toList_injective ?_
      rw [hlist, hcs]
      cases behind <;> simp
  · cases h
  · cases h

/-- The words that are no options. -/
theorem ofText_eq_plain {text word : String} :
    ofText text = .plain word
      ↔ word = text ∧ (text = "-" ∨ text.toList.head? ≠ some '-') := by
  rw [ofText]
  constructor
  · intro h
    split at h
    · cases h
    · cases h
    · cases h
    · rename_i hdashes hlong hshort
      cases h
      refine ⟨rfl, ?_⟩
      cases hlist : text.toList with
      | nil => exact Or.inr (by simp)
      | cons c rest =>
        by_cases hc : c = '-'
        · subst hc
          cases rest with
          | nil => exact Or.inl (String.toList_injective (by rw [hlist]; rfl))
          | cons d more => exact absurd hlist (hshort d more)
        · exact Or.inr (by simpa using hc)
  · rintro ⟨rfl, hword⟩
    split
    · rename_i hlist
      rcases hword with rfl | hhead
      · cases hlist
      · simp [hlist] at hhead
    · rename_i hlist
      rcases hword with rfl | hhead
      · cases hlist
      · simp [hlist] at hhead
    · rename_i hlist
      rcases hword with rfl | hhead
      · cases hlist
      · simp [hlist] at hhead
    · rfl

end Word

theorem Opt.not_mem_name (o : Opt) : '=' ∉ o.name.toList := by
  cases o <;> decide

/-- The name of an option is found behind two dashes. -/
theorem Word.ofText_name (o : Opt) : ofText ("--" ++ o.name) = .long o.name none := by
  cases o <;> decide

theorem Word.ofText_name_value (o : Opt) (value : String) :
    ofText ("--" ++ o.name ++ "=" ++ value) = .long o.name (some value) := by
  have hlist : ("--" ++ o.name ++ "=" ++ value).toList
      = '-' :: '-' :: (o.name.toList ++ '=' :: value.toList) := by
    simp
  rw [ofText, hlist]
  split
  · rename_i heq
    simp at heq
  · rename_i cs _ heq
    cases heq
    rw [splitEquals_append o.not_mem_name]
    simp
  · rename_i hlong heq
    cases heq
    exact (hlong rfl).elim
  · rename_i hlong _
    exact (hlong _ rfl).elim

end RulePack.Usage
