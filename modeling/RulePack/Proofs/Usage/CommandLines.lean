import RulePack.Proofs.Usage.Spelling

/-!
# The arguments that are accepted

* `Given.accept_eq_ok`, `Given.settle_cases` — when one more option is taken, and a pending one
  settled;
* `long_eq_ok` — what an option with two dashes does when it is taken;
* `written_of_readScope`, `readScope_written` — a scope is read exactly where its words give
  settings that are in order;
* `CommandLine.asks_of_proper`, `CommandLine.Asks.unique` — a command line asks for one invocation;
* `parse_eq_ok_iff` — the arguments that are accepted are the command lines.
-/

namespace RulePack

theorem Level.ofWord?_word (l : Level) : ofWord? l.word = some l := by
  cases l <;> decide

theorem Level.eq_word_of_ofWord? {l : Level} {text : String} (h : ofWord? text = some l) :
    text = l.word := by
  have hword := List.find?_some h
  exact (beq_iff_eq.mp hword).symm

theorem Level.isNone_ofWord? {text : String} :
    (ofWord? text).isNone = true ↔ ¬∃ l : Level, text = l.word := by
  rw [Option.isNone_iff_eq_none]
  constructor
  · rintro hnone ⟨l, rfl⟩
    rw [ofWord?_word] at hnone
    cases hnone
  · intro h
    cases hfound : ofWord? text with
    | none => rfl
    | some l => exact absurd ⟨l, eq_word_of_ofWord? hfound⟩ h

theorem Level.word_injective {l l' : Level} (h : l.word = l'.word) : l = l' := by
  have hfound := ofWord?_word l
  rw [h, ofWord?_word] at hfound
  exact (Option.some.inj hfound).symm

namespace Usage

variable {s : Scope} {g g' g'' : Given} {o : Opt} {value : String} {settings ps : List Setting}
  {ws tail words : List String} {next : Option (String × List String)}

/-! ### Settings that are in order -/

theorem proper_nil (s : Scope) : Proper s [] where
  known := by simp
  once := List.nodup_nil
  level := by simp

theorem Proper.of_append (h : Proper s (settings ++ ps)) : Proper s settings where
  known p hp := h.known p (List.mem_append_left _ hp)
  once := by
    have honce := h.once
    rw [List.map_append] at honce
    exact (List.nodup_append.mp honce).1
  level word hword := h.level word (List.mem_append_left _ hword)

/-- One more setting is in order if it is known, new, and a level that there is. -/
theorem proper_concat :
    Proper s (settings ++ [(o, value)])
      ↔ Proper s settings ∧ o ∈ s.settable ∧ (∀ other, (o, other) ∉ settings)
        ∧ (o = .logLevel → ∃ l : Level, value = l.word) := by
  constructor
  · intro h
    have hlast : (o, value) ∈ settings ++ [(o, value)] := by simp
    refine ⟨h.of_append, h.known _ hlast, ?_, ?_⟩
    · intro other hother
      have honce := h.once
      rw [List.map_append, List.nodup_append] at honce
      exact honce.2.2 o (List.mem_map_of_mem hother) o (by simp) rfl
    · rintro rfl
      exact h.level value hlast
  · rintro ⟨h, hknown, hnew, hlevel⟩
    refine ⟨?_, ?_, ?_⟩
    · intro p hp
      rcases List.mem_append.mp hp with hold | hlast
      · exact h.known p hold
      · rw [List.mem_singleton.mp hlast]
        exact hknown
    · rw [List.map_append]
      refine List.nodup_append.mpr ⟨h.once, by simp, ?_⟩
      intro p hp q hq hpq
      obtain ⟨⟨k, other⟩, hmem, rfl⟩ := List.mem_map.mp hp
      have heq : k = o := hpq.trans (List.mem_singleton.mp hq)
      exact hnew other (heq ▸ hmem)
    · intro word hword
      rcases List.mem_append.mp hword with hold | hlast
      · exact h.level word hold
      · cases List.mem_singleton.mp hlast
        exact hlevel rfl

/-- Of an option that is given once there is one value. -/
theorem value_unique (h : (settings.map Prod.fst).Nodup) {other : String}
    (hvalue : (o, value) ∈ settings) (hother : (o, other) ∈ settings) : value = other := by
  induction settings with
  | nil => cases hvalue
  | cons p rest ih =>
    rw [List.map_cons, List.nodup_cons] at h
    rcases List.mem_cons.mp hvalue with rfl | hrest
    · rcases List.mem_cons.mp hother with heq | hrest
      · cases heq
        rfl
      · exact absurd (List.mem_map_of_mem hrest) h.1
    · rcases List.mem_cons.mp hother with rfl | hrest'
      · exact absurd (List.mem_map_of_mem hrest) h.1
      · exact ih h.2 hrest hrest'

/-! ### Taking an option -/

namespace Given

theorem has_eq_false : g.has o = false ↔ ∀ other, (o, other) ∉ g.settled := by
  rw [has, List.any_eq_false]
  constructor
  · intro h other hmem
    exact h _ hmem (by simp)
  · rintro h ⟨p, other⟩ hmem hp
    have heq : p = o := by simpa using hp
    exact h other (heq ▸ hmem)

/-- One more option is taken if it is the first of its kind, and its value will do. -/
theorem accept_eq_ok :
    accept s g o value = .ok g'
      ↔ (∀ other, (o, other) ∉ g.settled) ∧ (o.takesValue = true → value ≠ "")
        ∧ (o = .logLevel → ∃ l : Level, value = l.word)
        ∧ g' = ⟨g.settled ++ [(o, value)], .none⟩ := by
  rw [accept]
  cases hhas : g.has o with
  | true =>
    have hgiven : ¬∀ other, (o, other) ∉ g.settled := by
      rw [← has_eq_false, hhas]
      exact Bool.noConfusion
    simp [hgiven]
  | false =>
    have hnew := has_eq_false.mp hhas
    rw [if_neg Bool.false_ne_true]
    by_cases hempty : o.takesValue = true ∧ value.isEmpty = true
    · have hvalue : value = "" := by simpa using hempty.2
      rw [if_pos hempty]
      constructor
      · intro h
        cases h
      · rintro ⟨-, hne, -⟩
        exact absurd hvalue (hne hempty.1)
    · rw [if_neg hempty]
      have hne : o.takesValue = true → value ≠ "" := by
        rintro htakes rfl
        exact hempty ⟨htakes, rfl⟩
      by_cases hlevel : o = .logLevel ∧ (Level.ofWord? value).isNone = true
      · rw [if_pos hlevel]
        constructor
        · intro h
          cases h
        · rintro ⟨-, -, hword, -⟩
          exact absurd (hword hlevel.1) (Level.isNone_ofWord?.mp hlevel.2)
      · rw [if_neg hlevel]
        have hword : o = .logLevel → ∃ l : Level, value = l.word := by
          intro ho
          by_cases hex : ∃ l : Level, value = l.word
          · exact hex
          · exact absurd ⟨ho, Level.isNone_ofWord?.mpr hex⟩ hlevel
        constructor
        · intro h
          cases h
          exact ⟨hnew, hne, hword, rfl⟩
        · rintro ⟨-, -, -, rfl⟩
          rfl

/-- What settling the pending option does: nothing if there is none, and otherwise it is taken. -/
theorem settle_cases (h : g.settle s = .ok g') :
    (g.pending = .none ∧ g' = g)
      ∨ ∃ o value, g.pending = some (o, some value) ∧ accept s g o value = .ok g' := by
  rw [settle] at h
  split at h
  · rename_i hnone
    cases h
    exact Or.inl ⟨hnone, rfl⟩
  · cases h
  · rename_i o value hpending
    exact Or.inr ⟨o, value, hpending, h⟩

theorem settle_of_pending_none (h : g.pending = .none) : g.settle s = .ok g := by
  rw [settle, h]

/-- An option that waits for its value cannot be settled. -/
theorem pending_ne_of_settle (h : g.settle s = .ok g') : g.pending ≠ some (o, .none) := by
  intro hpending
  rw [settle, hpending] at h
  cases h

theorem awaitsValue_eq_true : g.awaitsValue = true ↔ ∃ o, g.pending = some (o, .none) := by
  rw [awaitsValue]
  split
  · rename_i o hpending
    simp [hpending]
  · rename_i hpending
    simpa using hpending

theorem awaitsValue_of_settle (h : g.settle s = .ok g') : g.awaitsValue = false := by
  cases hawaits : g.awaitsValue with
  | false => rfl
  | true =>
    obtain ⟨o, hpending⟩ := awaitsValue_eq_true.mp hawaits
    exact absurd hpending (pending_ne_of_settle h)

/-- The options of a scope as they are read: those that are settled are in order, and the pending
one can be set and takes a value. -/
structure Sound (s : Scope) (g : Given) : Prop where
  proper : Proper s g.settled
  pending : ∀ o value, g.pending = some (o, value) → o ∈ s.settable ∧ o.takesValue = true

theorem Sound.accept (h : Proper s g.settled) (ho : o ∈ s.settable)
    (haccept : Given.accept s g o value = .ok g') : Sound s g' := by
  obtain ⟨hnew, -, hlevel, rfl⟩ := accept_eq_ok.mp haccept
  exact ⟨proper_concat.mpr ⟨h, ho, hnew, hlevel⟩, by simp⟩

/-- Settling leaves no option pending. -/
theorem Sound.settle (h : Sound s g) (hsettle : g.settle s = .ok g') :
    Sound s g' ∧ g' = ⟨g'.settled, .none⟩ := by
  rcases settle_cases hsettle with ⟨hnone, rfl⟩ | ⟨o, value, hpending, haccept⟩
  · refine ⟨h, ?_⟩
    rw [← hnone]
  · refine ⟨Sound.accept h.proper (h.pending o _ hpending).1 haccept, ?_⟩
    obtain ⟨-, -, -, rfl⟩ := accept_eq_ok.mp haccept
    rfl

end Given

/-! ### Options of a scope -/

theorem Scope.option?_eq_some {name : String} (h : s.option? name = some o) :
    o ∈ s.options ∧ o.name = name := by
  rw [Scope.option?] at h
  have hname := List.find?_some h
  exact ⟨List.mem_of_find?_eq_some h, by simpa using hname⟩

theorem Scope.option?_name (h : o ∈ s.settable) : s.option? o.name = some o := by
  revert h
  cases s <;> cases o <;> decide

/-- The options that take a value can be set, and of the flags it is the one that asks for nothing
else. -/
theorem Scope.settable_of_option (h : o ∈ s.options) :
    o ∈ s.settable ∨ o.takesValue = false ∧ (o = .help ∨ o = .version) := by
  revert h
  cases s <;> cases o <;> decide

theorem Scope.noUpdate_of_settable (h : o ∈ s.settable) (hflag : o.takesValue = false) :
    o = .noUpdate := by
  revert h
  cases s <;> cases o <;> first | decide | cases hflag

theorem flag_noUpdate (s : Scope) (g : Given) :
    flag s g .noUpdate = match g.settle s with
      | .error halt => .error halt
      | .ok g => g.accept s .noUpdate "" := by
  unfold flag
  cases g.settle s with
  | error halt => rfl
  | ok settled => cases s <;> rfl

/-- The other flags end the reading. -/
theorem flag_ne_ok (ho : o = .help ∨ o = .version) : flag s g o ≠ .ok g' := by
  intro h
  rw [flag] at h
  cases hsettle : g.settle s with
  | error halt =>
    rw [hsettle] at h
    cases h
  | ok settled =>
    rw [hsettle] at h
    rcases ho with rfl | rfl
    · cases s <;> cases h
    · cases s <;> cases h

/-- What an option with two dashes does when it is taken: it settles the one before it, and then it
is taken with its value, waits for one, or is the flag that can be set. -/
theorem long_eq_ok {value : Option String} (ho : o ∈ s.options)
    (h : long s g o value = .ok g') :
    o ∈ s.settable ∧ ∃ settled, g.settle s = .ok settled
      ∧ ((o.takesValue = true ∧ ∃ text, value = some text ∧ settled.accept s o text = .ok g')
        ∨ (o.takesValue = true ∧ value = none ∧ g' = ⟨settled.settled, some (o, none)⟩)
        ∨ (o = .noUpdate ∧ value = none ∧ settled.accept s .noUpdate "" = .ok g')) := by
  rw [long.eq_def] at h
  split at h
  · rename_i text htakes
    split at h
    · cases h
    · rename_i settled hsettle
      have hset := (Scope.settable_of_option ho).resolve_right (by simp [htakes])
      exact ⟨hset, settled, hsettle, Or.inl ⟨htakes, text, rfl, h⟩⟩
  · rename_i htakes
    split at h
    · cases h
    · rename_i settled hsettle
      cases h
      have hset := (Scope.settable_of_option ho).resolve_right (by simp [htakes])
      exact ⟨hset, settled, hsettle, Or.inr (Or.inl ⟨htakes, rfl, rfl⟩)⟩
  · cases h
  · rename_i hflag
    have hset := (Scope.settable_of_option ho).resolve_right fun hother => flag_ne_ok hother.2 h
    cases Scope.noUpdate_of_settable hset hflag
    rw [flag_noUpdate] at h
    split at h
    · cases h
    · rename_i settled hsettle
      exact ⟨hset, settled, hsettle, Or.inr (Or.inr ⟨rfl, rfl, h⟩)⟩

/-! ### Reading one word -/

/-- The commands are words without dashes. -/
theorem plain_of_isCommand {word : String} (h : isCommand word = true) :
    Word.ofText word = .plain word := by
  have hword : word = "init" ∨ word = "list" ∨ word = "help" := by
    rw [isCommand, commandScope?] at h
    by_cases hinit : word = "init"
    · exact Or.inl hinit
    · by_cases hlist : word = "list"
      · exact Or.inr (Or.inl hlist)
      · exact Or.inr (Or.inr (by simpa [hinit, hlist] using h))
  rcases hword with rfl | rfl | rfl <;> decide

theorem isCommand_of_not_plain {word : String} (h : Word.ofText word ≠ .plain word) :
    isCommand word = false := by
  cases hcommand : isCommand word with
  | false => rfl
  | true => exact absurd (plain_of_isCommand hcommand) h

/-- An option with two dashes is taken before the words behind it are read. -/
theorem readScope_long {word name : String} {value : Option String} (rest : List String)
    (hword : Word.ofText word = .long name value) (ho : s.option? name = some o)
    (hlong : long s g o value = .ok g') :
    readScope s g (word :: rest) = readScope s g' rest := by
  have hcommand := isCommand_of_not_plain (by rw [hword]; exact Word.noConfusion)
  rw [readScope.eq_def]
  dsimp only
  rw [hcommand, hword]
  simp [ho, hlong]

/-- A word that a pending option waits for is its value. -/
theorem readScope_value {word : String} (rest : List String)
    (hword : Word.ofText word = .plain word) (hpending : g.pending = some (o, none)) :
    readScope s g (word :: rest) = readScope s ⟨g.settled, some (o, some word)⟩ rest := by
  have hawaits : g.awaitsValue = true := by rw [Given.awaitsValue, hpending]
  rw [readScope.eq_def]
  dsimp only
  rw [hawaits, hword]
  simp [hpending]

/-- What is left of the words where a scope ends: nothing but two dashes, or a command. -/
inductive Remains (s : Scope) : Option (String × List String) → List String → Prop
  | nothing : Remains s none []
  | dashes : Remains s none ["--"]
  | command {word : String} {rest : List String} : s = .program → isCommand word = true →
      Remains s (some (word, rest)) (word :: rest)

/-- What one word does that a scope is read with, unless the scope ends there. -/
inductive Takes (s : Scope) (g : Given) (word : String) : Given → Prop
  | joined {settled taken : Given} {o : Opt} {value : String} : g.settle s = .ok settled →
      o ∈ s.settable → Spells (o, value) [word] → settled.accept s o value = .ok taken →
      Takes s g word taken
  | awaiting {settled : Given} {o : Opt} : g.settle s = .ok settled → o ∈ s.settable →
      o.takesValue = true → word = "--" ++ o.name →
      Takes s g word ⟨settled.settled, some (o, none)⟩
  | value {o : Opt} : g.pending = some (o, none) →
      word = "-" ∨ word.toList.head? ≠ some '-' →
      Takes s g word ⟨g.settled, some (o, some word)⟩

/-- A word ends the scope, or it is taken and the words behind it are read. -/
theorem readScope_cons_eq_ok {word : String} {rest : List String}
    (h : readScope s g (word :: rest) = .ok (g', next)) :
    (g' = g ∧ Remains s next (word :: rest) ∧ (next ≠ none → g.awaitsValue = false))
      ∨ ∃ taken, Takes s g word taken ∧ readScope s taken rest = .ok (g', next) := by
  rw [readScope.eq_def] at h
  dsimp only at h
  split at h
  · rename_i hcommand
    cases h
    have hawaits : g.awaitsValue = false := by simpa using hcommand.2.1
    exact Or.inl ⟨rfl, .command hcommand.1 hcommand.2.2, fun _ => hawaits⟩
  split at h
  · rename_i hdashes
    cases rest with
    | nil =>
      cases h
      cases Word.ofText_dashes hdashes
      exact Or.inl ⟨rfl, .dashes, fun hne => absurd rfl hne⟩
    | cons extra more => cases h
  · rename_i name value hword
    split at h
    · cases h
    · rename_i o ho
      obtain ⟨hoption, rfl⟩ := Scope.option?_eq_some ho
      have htext := Word.eq_of_ofText_long hword
      split at h
      · cases h
      · rename_i taken hlong
        refine Or.inr ⟨taken, ?_, h⟩
        obtain ⟨hset, settled, hsettle, hcases⟩ := long_eq_ok hoption hlong
        rcases hcases with ⟨htakes, text, rfl, haccept⟩ | ⟨htakes, rfl, rfl⟩ | ⟨rfl, rfl, haccept⟩
        · have hne := (Given.accept_eq_ok.mp haccept).2.1 htakes
          exact .joined hsettle hset (by rw [htext]; exact .joined htakes hne) haccept
        · exact .awaiting hsettle hset htakes htext
        · exact .joined hsettle hset (by rw [htext]; exact .flag) haccept
  · split at h
    · cases h
    · rename_i c _ o ho
      have hflag : o = .help ∨ o = .version := by
        rw [Scope.letter?] at ho
        split at ho
        · cases ho
          exact Or.inl rfl
        · split at ho
          · cases ho
            exact Or.inr rfl
          · cases ho
      split at h
      · cases h
      · rename_i taken hshort
        exact absurd hshort (flag_ne_ok hflag)
  · rename_i text hword
    obtain ⟨rfl, hplain⟩ := Word.ofText_eq_plain.mp hword
    split at h
    · rename_i o hpending
      exact Or.inr ⟨_, .value hpending hplain, h⟩
    · cases h

/-! ### Reading a scope -/

/-- The words of a scope from a place on: they give settings behind those that are settled there,
and the scope ends. -/
def Continues (s : Scope) (g : Given) (words : List String)
    (next : Option (String × List String)) (g'' : Given) : Prop :=
  ∃ settings ps ws tail, g.settle s = .ok ⟨settings, .none⟩ ∧ words = ws ++ tail ∧ Written ps ws
    ∧ Remains s next tail ∧ g'' = ⟨settings ++ ps, .none⟩ ∧ Proper s (settings ++ ps)

theorem Given.Sound.takes {word : String} {taken : Given} (h : g.Sound s)
    (htakes : Takes s g word taken) : taken.Sound s := by
  cases htakes with
  | joined hsettle hset _ haccept => exact .accept (h.settle hsettle).1.proper hset haccept
  | awaiting hsettle hset hvalue =>
    refine ⟨(h.settle hsettle).1.proper, ?_⟩
    intro o value heq
    cases heq
    exact ⟨hset, hvalue⟩
  | value hpending _ =>
    refine ⟨h.proper, ?_⟩
    intro o value heq
    cases heq
    exact h.pending _ _ hpending

/-- Where the scope ends nothing but the pending option is left to be settled. -/
theorem continues_of_remains (hsound : g.Sound s) (hsettle : g.settle s = .ok g'')
    (hremains : Remains s next words) : Continues s g words next g'' := by
  obtain ⟨hproper, hnone⟩ := hsound.settle hsettle
  rw [hnone] at hsettle ⊢
  refine ⟨g''.settled, [], [], words, hsettle, rfl, .nil, hremains, ?_, ?_⟩
  · rw [List.append_nil]
  · rw [List.append_nil]
    exact hproper.proper

/-- A setting and the words behind it. -/
theorem Continues.cons {settled taken : Given} {rest : List String} {p : Setting}
    (hsound : g.Sound s) (hsettle : g.settle s = .ok settled) (hspells : Spells p ws)
    (htaken : taken.settle s = .ok ⟨settled.settled ++ [p], .none⟩)
    (h : Continues s taken rest next g'') : Continues s g (ws ++ rest) next g'' := by
  obtain ⟨settings, ps, ws', tail, hsettle', rfl, hwritten, hremains, rfl, hproper⟩ := h
  cases hsettle'.symm.trans htaken
  rw [(hsound.settle hsettle).2] at hsettle
  rw [List.append_assoc] at hproper
  refine ⟨settled.settled, p :: ps, ws ++ ws', tail, hsettle, ?_, .cons hspells hwritten, hremains,
    ?_, hproper⟩
  · rw [List.append_assoc]
  · rw [List.append_assoc]
    rfl

/-- The words of a scope that is read give settings that are in order.  Where an option waits for
its value, that comes first. -/
theorem written_of_readScope (hsound : g.Sound s) (h : readScope s g words = .ok (g', next))
    (hsettle : g'.settle s = .ok g'') :
    (g.awaitsValue = false → Continues s g words next g'')
      ∧ ∀ o, g.pending = some (o, none) → ∃ value rest, words = value :: rest
        ∧ (value = "-" ∨ value.toList.head? ≠ some '-')
        ∧ Continues s ⟨g.settled, some (o, some value)⟩ rest next g'' := by
  induction words generalizing g with
  | nil =>
    rw [readScope] at h
    cases h
    exact ⟨fun _ => continues_of_remains hsound hsettle .nothing,
      fun o hpending => absurd hpending (Given.pending_ne_of_settle hsettle)⟩
  | cons word rest ih =>
    rcases readScope_cons_eq_ok h with ⟨rfl, hremains, -⟩ | ⟨taken, htakes, hrest⟩
    · exact ⟨fun _ => continues_of_remains hsound hsettle hremains,
        fun o hpending => absurd hpending (Given.pending_ne_of_settle hsettle)⟩
    have hmore := ih (hsound.takes htakes) hrest
    cases htakes with
    | @joined settled _ o value hsettled _ hspells haccept =>
      obtain ⟨-, -, -, rfl⟩ := Given.accept_eq_ok.mp haccept
      refine ⟨fun _ => ?_, fun o hpending => absurd hpending (Given.pending_ne_of_settle hsettled)⟩
      exact .cons hsound hsettled hspells (Given.settle_of_pending_none rfl) (hmore.1 rfl)
    | @awaiting settled o hsettled _ htakes hword =>
      refine ⟨fun _ => ?_, fun o hpending => absurd hpending (Given.pending_ne_of_settle hsettled)⟩
      obtain ⟨value, behind, rfl, hplain, hcontinues⟩ := hmore.2 o rfl
      have hvalue := hcontinues
      obtain ⟨_, _, _, _, haccept, _⟩ := hvalue
      obtain ⟨-, hne, -, heq⟩ := Given.accept_eq_ok.mp haccept
      rw [heq] at haccept
      rw [hword]
      exact .cons hsound hsettled (.apart htakes (hne htakes) hplain) haccept hcontinues
    | @value o hpending hplain =>
      constructor
      · intro hawaits
        rw [Given.awaitsValue, hpending] at hawaits
        cases hawaits
      · intro o' hpending'
        cases hpending.symm.trans hpending'
        exact ⟨word, rest, rfl, hplain, hmore.1 rfl⟩

/-! ### Words that are read -/

/-- A scope is read where its words give settings that are in order. -/
theorem readScope_written (hg : g.settle s = .ok ⟨settings, .none⟩)
    (hproper : Proper s (settings ++ ps)) (hwritten : Written ps ws)
    (hremains : Remains s next tail) :
    ∃ g', readScope s g (ws ++ tail) = .ok (g', next)
      ∧ g'.settle s = .ok ⟨settings ++ ps, .none⟩ := by
  induction hwritten generalizing g settings with
  | nil =>
    refine ⟨g, ?_, by rw [List.append_nil]; exact hg⟩
    rw [List.nil_append]
    cases hremains with
    | nothing => rw [readScope]
    | dashes =>
      have hcommand : isCommand "--" = false := by decide
      have hdashes : Word.ofText "--" = .dashes := by decide
      rw [readScope.eq_def]
      dsimp only
      rw [hcommand, hdashes]
      simp
    | command hs hcommand =>
      have hawaits := Given.awaitsValue_of_settle hg
      rw [readScope.eq_def]
      dsimp only
      rw [if_pos ⟨hs, by simp [hawaits], hcommand⟩]
  | @cons p ps ws rest hspells _ ih =>
    have hproper' : Proper s (settings ++ [p] ++ ps) := by simpa using hproper
    obtain ⟨-, hknown, hnew, hlevel⟩ := proper_concat.mp hproper'.of_append
    have hname := Scope.option?_name hknown
    -- the setting is taken, and the words behind it are read
    suffices hstep : ∃ g₁, readScope s g (ws ++ (rest ++ tail)) = readScope s g₁ (rest ++ tail)
        ∧ g₁.settle s = .ok ⟨settings ++ [p], .none⟩ by
      obtain ⟨g₁, hread₁, hsettle₁⟩ := hstep
      obtain ⟨g', hread, hsettle⟩ := ih hsettle₁ hproper'
      refine ⟨g', ?_, by simpa using hsettle⟩
      rw [List.append_assoc, hread₁, hread]
    cases hspells with
    | @joined o value htakes hne =>
      have haccept := (Given.accept_eq_ok (s := s) (g := ⟨settings, .none⟩)).mpr
        ⟨hnew, fun _ => hne, hlevel, rfl⟩
      have hlong : long s g o (some value) = .ok ⟨settings ++ [(o, value)], .none⟩ := by
        rw [long.eq_def, htakes]
        simp only [hg]
        exact haccept
      exact ⟨_, readScope_long _ (Word.ofText_name_value o value) hname hlong,
        Given.settle_of_pending_none rfl⟩
    | @apart o value htakes hne hplain =>
      have hlong : long s g o none = .ok ⟨settings, some (o, none)⟩ := by
        rw [long.eq_def, htakes]
        simp only [hg]
      have hword := Word.ofText_eq_plain.mpr ⟨rfl, hplain⟩
      refine ⟨⟨settings, some (o, some value)⟩, ?_, ?_⟩
      · exact (readScope_long _ (Word.ofText_name o) hname hlong).trans
          (readScope_value _ hword rfl)
      · exact Given.accept_eq_ok.mpr ⟨hnew, fun _ => hne, hlevel, rfl⟩
    | flag =>
      have haccept := (Given.accept_eq_ok (s := s) (g := ⟨settings, .none⟩)).mpr
        ⟨hnew, fun h => absurd h (by decide), hlevel, rfl⟩
      have hlong : long s g .noUpdate none = .ok ⟨settings ++ [(.noUpdate, "")], .none⟩ := by
        show flag s g .noUpdate = _
        rw [flag_noUpdate, hg]
        exact haccept
      exact ⟨_, readScope_long _ (Word.ofText_name .noUpdate) hname hlong,
        Given.settle_of_pending_none rfl⟩

/-- The words with which a scope is read from its beginning. -/
theorem readScope_eq_ok_iff :
    (∃ g', readScope s .none words = .ok (g', next) ∧ g'.settle s = .ok g'')
      ↔ ∃ ps ws tail, words = ws ++ tail ∧ Written ps ws ∧ Proper s ps ∧ Remains s next tail
        ∧ g'' = ⟨ps, .none⟩ := by
  constructor
  · rintro ⟨g', hread, hsettle⟩
    obtain ⟨settings, ps, ws, tail, hnone, hwords, hwritten, hremains, rfl, hproper⟩ :=
      (written_of_readScope ⟨proper_nil s, by simp [Given.none]⟩ hread hsettle).1 rfl
    cases hnone
    exact ⟨ps, ws, tail, hwords, hwritten, hproper, hremains, rfl⟩
  · rintro ⟨ps, ws, tail, rfl, hwritten, hproper, hremains, rfl⟩
    have hsettle : Given.none.settle s = .ok ⟨[], .none⟩ := rfl
    exact readScope_written hsettle hproper hwritten hremains

/-! ### What a command line asks for -/

theorem Given.value?_eq_some (h : (settings.map Prod.fst).Nodup) :
    Given.value? ⟨settings, .none⟩ o = some value ↔ (o, value) ∈ settings := by
  rw [value?, Option.map_eq_some_iff]
  constructor
  · rintro ⟨⟨p, text⟩, hfind, rfl⟩
    have hp : p = o := by simpa using List.find?_some hfind
    exact hp ▸ List.mem_of_find?_eq_some hfind
  · intro hmem
    cases hfind : settings.find? (fun p => p.1 = o) with
    | none =>
      have hnone := List.find?_eq_none.mp hfind _ hmem
      simp at hnone
    | some found =>
      obtain ⟨p, text⟩ := found
      have hp : p = o := by simpa using List.find?_some hfind
      subst hp
      exact ⟨(p, text), rfl, value_unique h (List.mem_of_find?_eq_some hfind) hmem⟩

theorem Given.value?_eq_none (h : (settings.map Prod.fst).Nodup) :
    Given.value? ⟨settings, .none⟩ o = .none ↔ ∀ value, (o, value) ∉ settings := by
  rw [Option.eq_none_iff_forall_ne_some]
  exact forall_congr' fun value => not_congr (value?_eq_some h)

namespace CommandLine

variable {line : CommandLine} {i j : Invocation}

/-- The settings of a command line are in order. -/
structure Ordered (line : CommandLine) : Prop where
  outer : (line.outer.map Prod.fst).Nodup
  inner : (line.inner.map Prod.fst).Nodup
  level : ∀ word, line.Says .logLevel word → ∃ l : Level, word = l.word

theorem Reads.ordered (h : line.Reads words) : line.Ordered := by
  cases h with
  | bare houter =>
    refine ⟨houter.once, List.nodup_nil, ?_⟩
    rintro word (hinner | ⟨hword, -⟩)
    · cases hinner
    · exact houter.level word hword
  | command houter _ _ hinner =>
    refine ⟨houter.once, hinner.once, ?_⟩
    rintro word (hword | ⟨hword, -⟩)
    · exact hinner.level word hword
    · exact houter.level word hword

/-- The value of an option behind the command, or else of the same option before it. -/
def value? (line : CommandLine) (o : Opt) : Option String :=
  (Given.value? ⟨line.inner, .none⟩ o).orElse fun _ => Given.value? ⟨line.outer, .none⟩ o

theorem Ordered.value?_eq_some (h : line.Ordered) :
    line.value? o = some value ↔ line.Says o value := by
  rw [CommandLine.value?]
  cases hinner : Given.value? ⟨line.inner, .none⟩ o with
  | none =>
    have hnone := (Given.value?_eq_none (o := o) h.inner).mp hinner
    rw [Option.orElse_none, Given.value?_eq_some h.outer]
    exact ⟨fun hmem => Or.inr ⟨hmem, hnone⟩, fun hgiven => (hgiven.resolve_left (hnone value)).1⟩
  | some text =>
    have hmem := (Given.value?_eq_some h.inner).mp hinner
    rw [Option.orElse_some, Option.some.injEq]
    constructor
    · rintro rfl
      exact Or.inl hmem
    · rintro (hvalue | ⟨-, hnone⟩)
      · exact value_unique h.inner hmem hvalue
      · exact absurd hmem (hnone text)

theorem Ordered.says_unique (h : line.Ordered) {other : String} (hvalue : line.Says o value)
    (hother : line.Says o other) : value = other :=
  Option.some.inj ((h.value?_eq_some.mpr hvalue).symm.trans (h.value?_eq_some.mpr hother))

/-- A command line asks for the invocation that is made of its settings. -/
theorem Ordered.asks (h : line.Ordered) {action : Option Action}
    (haction : Performs line.command action) :
    line.Asks ⟨action, rootOf none ⟨line.inner, .none⟩ ⟨line.outer, .none⟩,
      levelOf ⟨line.inner, .none⟩ ⟨line.outer, .none⟩⟩ := by
  refine ⟨haction, ?_, ?_⟩
  · intro root
    rw [← h.value?_eq_some]
    show Option.orElse (line.value? .packageRoot) (fun _ => none) = some root ↔ _
    cases line.value? .packageRoot <;> rfl
  · show line.Says .logLevel (Level.word (((line.value? .logLevel).bind Level.ofWord?).getD .warn))
      ∨ ((line.value? .logLevel).bind Level.ofWord?).getD .warn = .warn ∧ _
    cases hvalue : line.value? .logLevel with
    | none =>
      refine Or.inr ⟨rfl, fun word hword => ?_⟩
      rw [h.value?_eq_some.mpr hword] at hvalue
      cases hvalue
    | some word =>
      have hgiven := h.value?_eq_some.mp hvalue
      obtain ⟨l, rfl⟩ := h.level word hgiven
      rw [Option.bind_some, Level.ofWord?_word]
      exact Or.inl hgiven

theorem performs_actionOf {inner : List Setting} {word : String} (hs : (word, s) ∈ commandWords)
    (hinner : Proper s inner) : Performs (some (s, inner)) (actionOf s ⟨inner, .none⟩) := by
  have hcases : s = .init ∨ s = .list := by
    simp only [commandWords, List.mem_cons, Prod.mk.injEq, List.not_mem_nil, or_false] at hs
    exact hs.imp And.right And.right
  rcases hcases with rfl | rfl
  · refine .init ?_ ?_
    · cases hdir : Given.value? ⟨inner, .none⟩ .dir with
      | none => exact Or.inr ⟨rfl, (Given.value?_eq_none hinner.once).mp hdir⟩
      | some dir => exact Or.inl ((Given.value?_eq_some hinner.once).mp hdir)
    · rw [← Bool.not_eq_false, Given.has_eq_false]
      simp
  · exact .list inner

theorem Performs.unique {command : Option (Scope × List Setting)} {action other : Option Action}
    (h : ∀ s settings, command = some (s, settings) → (settings.map Prod.fst).Nodup)
    (haction : Performs command action) (hother : Performs command other) : action = other := by
  cases haction with
  | nothing =>
    cases hother
    rfl
  | list =>
    cases hother
    rfl
  | init hdir hflag =>
    cases hother with
    | init hdir' hflag' =>
      have honce := h _ _ rfl
      have hflags := Bool.eq_iff_iff.mpr (hflag.trans hflag'.symm)
      rcases hdir with hmem | ⟨rfl, hnone⟩
      · rcases hdir' with hmem' | ⟨-, hnone⟩
        · rw [value_unique honce hmem hmem', hflags]
        · exact absurd hmem (hnone _)
      · rcases hdir' with hmem' | ⟨rfl, -⟩
        · exact absurd hmem' (hnone _)
        · rw [hflags]

/-- A command line asks for one invocation. -/
theorem Asks.unique (h : line.Ordered) (hi : line.Asks i) (hj : line.Asks j) : i = j := by
  have haction : i.action = j.action := by
    refine hi.action.unique ?_ hj.action
    intro s settings hcommand
    have hinner := h.inner
    rwa [CommandLine.inner, hcommand] at hinner
  have hroot : i.packageRoot = j.packageRoot :=
    Option.ext fun root => (hi.packageRoot root).trans (hj.packageRoot root).symm
  have hlevel : i.logLevel = j.logLevel := by
    rcases hi.logLevel with hgiven | ⟨hwarn, hnone⟩
    · rcases hj.logLevel with hgiven' | ⟨-, hnone⟩
      · exact Level.word_injective (h.says_unique hgiven hgiven')
      · exact absurd hgiven (hnone _)
    · rcases hj.logLevel with hgiven' | ⟨hwarn', -⟩
      · exact absurd hgiven' (hnone _)
      · rw [hwarn, hwarn']
  cases i
  cases j
  cases haction
  cases hroot
  cases hlevel
  rfl

end CommandLine

/-! ### The arguments of the program -/

/-- Without the variable nothing is left to be done at the end of a scope but to settle. -/
theorem finish_none (s : Scope) (g : Given) : finish s none g = g.settle s := by
  rw [finish]
  cases g.settle s with
  | error halt => rfl
  | ok settled => rfl

theorem commandScope?_eq_some {word : String} :
    commandScope? word = some s ↔ (word, s) ∈ commandWords := by
  rw [commandScope?, commandWords]
  by_cases hinit : word = "init"
  · simp [hinit, eq_comm]
  · by_cases hlist : word = "list"
    · simp [hlist, eq_comm]
    · simp [hinit, hlist]

theorem isCommand_of_mem {word : String} (h : (word, s) ∈ commandWords) :
    isCommand word = true := by
  rw [isCommand, commandScope?_eq_some.mpr h]
  rfl

theorem remains_none : Remains s none tail ↔ tail = [] ∨ tail = ["--"] := by
  constructor
  · rintro (_ | _)
    · exact Or.inl rfl
    · exact Or.inr rfl
  · rintro (rfl | rfl)
    · exact .nothing
    · exact .dashes

/-- The scope of a command is read to the end of the words. -/
theorem remains_of_command (hs : s ≠ .program) (h : Remains s next tail) :
    next = none ∧ (tail = [] ∨ tail = ["--"]) := by
  cases h with
  | nothing => exact ⟨rfl, Or.inl rfl⟩
  | dashes => exact ⟨rfl, Or.inr rfl⟩
  | command hprogram => exact absurd hprogram hs

theorem ne_program_of_mem {word : String} (h : (word, s) ∈ commandWords) : s ≠ .program := by
  rintro rfl
  revert h
  simp [commandWords]

/-- The words behind a command that are accepted. -/
theorem readCommand_eq_ok {outer : Given} {word : String} {i : Invocation}
    (hs : (word, s) ∈ commandWords) :
    readCommand none outer s words = .ok i
      ↔ ∃ settled inner ws ending, outer.settle .program = .ok settled ∧ words = ws ++ ending
        ∧ Written inner ws ∧ Proper s inner ∧ (ending = [] ∨ ending = ["--"])
        ∧ i = ⟨actionOf s ⟨inner, .none⟩, rootOf none ⟨inner, .none⟩ settled,
            levelOf ⟨inner, .none⟩ settled⟩ := by
  rw [readCommand]
  simp only [finish_none]
  constructor
  · intro h
    split at h
    · cases h
    · rename_i g next hread
      split at h
      · cases h
      · rename_i inner hsettle
        split at h
        · cases h
        · rename_i settled houter
          cases h
          obtain ⟨ps, ws, tail, hwords, hwritten, hproper, hremains, rfl⟩ :=
            readScope_eq_ok_iff.mp ⟨g, hread, hsettle⟩
          obtain ⟨-, hending⟩ := remains_of_command (ne_program_of_mem hs) hremains
          exact ⟨settled, ps, ws, tail, houter, hwords, hwritten, hproper, hending, rfl⟩
  · rintro ⟨settled, inner, ws, ending, houter, hwords, hwritten, hproper, hending, rfl⟩
    obtain ⟨g, hread, hsettle⟩ := readScope_eq_ok_iff.mpr
      ⟨inner, ws, ending, hwords, hwritten, hproper, remains_none.mpr hending, rfl⟩
    simp only [hread, hsettle, houter]

/-- **The arguments that are accepted are the command lines**, and what is accepted is what a
command line asks for, whatever the order and the spelling of its settings. -/
theorem parse_eq_ok_iff {i : Invocation} :
    parse none words = .ok i ↔ ∃ line : CommandLine, line.Reads words ∧ line.Asks i := by
  constructor
  · intro h
    rw [parse] at h
    simp only [finish_none] at h
    split at h
    · cases h
    · rename_i g hread
      split at h
      · cases h
      · rename_i outer hsettle
        cases h
        obtain ⟨ps, ws, tail, rfl, hwritten, hproper, hremains, rfl⟩ :=
          readScope_eq_ok_iff.mp ⟨g, hread, hsettle⟩
        have hreads : CommandLine.Reads ⟨ps, none⟩ (ws ++ tail) :=
          .bare hproper hwritten (remains_none.mp hremains)
        exact ⟨_, hreads, hreads.ordered.asks .nothing⟩
    · rename_i g word rest hread
      split at h
      · rename_i s hs
        have hs := commandScope?_eq_some.mp hs
        obtain ⟨outer, inner, behind, ending, houter, rfl, hinner, hproper', hending, rfl⟩ :=
          (readCommand_eq_ok hs).mp h
        obtain ⟨ps, before, tail, rfl, hwritten, hproper, hremains, rfl⟩ :=
          readScope_eq_ok_iff.mp ⟨g, hread, houter⟩
        cases hremains
        have hreads := CommandLine.Reads.command hproper hwritten hs hproper' hinner hending
        exact ⟨_, hreads, hreads.ordered.asks (CommandLine.performs_actionOf hs hproper')⟩
      · cases h
  · rintro ⟨line, hreads, hasks⟩
    have hordered := hreads.ordered
    cases hreads with
    | @bare outer words ending hproper hwritten hending =>
      obtain ⟨g, hread, hsettle⟩ := readScope_eq_ok_iff.mpr
        ⟨outer, words, ending, rfl, hwritten, hproper, remains_none.mpr hending, rfl⟩
      rw [parse]
      simp only [finish_none, hread, hsettle]
      rw [hasks.unique hordered (hordered.asks .nothing)]
      rfl
    | @command outer inner s word before behind ending hproper hwritten hs hproper' hinner
        hending =>
      obtain ⟨g, hread, hsettle⟩ := readScope_eq_ok_iff.mpr
        ⟨outer, before, word :: (behind ++ ending), rfl, hwritten, hproper,
          .command rfl (isCommand_of_mem hs), rfl⟩
      have hcommand := (readCommand_eq_ok hs).mpr
        ⟨_, inner, behind, ending, hsettle, rfl, hinner, hproper', hending, rfl⟩
      rw [parse]
      simp only [hread, commandScope?_eq_some.mpr hs, hcommand]
      rw [hasks.unique hordered (hordered.asks (CommandLine.performs_actionOf hs hproper'))]
      rfl

/-- The name of a command is a value where an option waits for one. -/
example : parse none ["--package-root", "init", "init", "--no-update", "--dir=-a=b", "--"]
    = .ok ⟨some (.init "-a=b" true), some "init", .warn⟩ := rfl

end Usage

end RulePack
