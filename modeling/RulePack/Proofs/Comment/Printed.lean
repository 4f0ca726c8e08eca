import RulePack.Comment
import RulePack.Proofs.Json.Numerals
import RulePack.Proofs.Json.RoundTrip

/-!
# Printed documents hold no comments

A printed value has slashes in its string literals only, and what the printer writes for a quote or
a backslash in a text keeps the reader of comments inside of the literal.

* `Plain` — characters that stripping passes over, whatever stands behind them;
* `plain_quoted`, `plain_print` — string literals and values;
* `strip_of_plain`, `strip_render` — a printed document is its own stripped form.
-/

namespace RulePack.Comment

open Json

/-- Characters that are kept outside of literals and comments and lead back there. -/
def Plain (cs : List Char) : Prop :=
  ∀ rest, stripFrom .code (cs ++ rest) = cs ++ stripFrom .code rest

theorem plain_nil : Plain [] := fun _ => rfl

theorem Plain.append {cs ds : List Char} (hcs : Plain cs) (hds : Plain ds) : Plain (cs ++ ds) := by
  intro rest
  rw [List.append_assoc, hcs, hds, List.append_assoc]

theorem plain_cons {c : Char} (hslash : c ≠ '/') (hquote : c ≠ '"') {cs : List Char}
    (hcs : Plain cs) : Plain (c :: cs) := by
  intro rest
  rw [List.cons_append, stripFrom_code_cons hslash, if_neg hquote, hcs, List.cons_append]

theorem plain_of_forall {cs : List Char} (h : ∀ c ∈ cs, c ≠ '/' ∧ c ≠ '"') : Plain cs := by
  induction cs with
  | nil => exact plain_nil
  | cons c cs ih =>
    rw [List.forall_mem_cons] at h
    exact plain_cons h.1.1 h.1.2 (ih h.2)

/-! ### String literals -/

theorem stripFrom_escaped (c : Char) (rest : List Char) :
    stripFrom (.literal false) (escaped c ++ rest)
      = escaped c ++ stripFrom (.literal false) rest := by
  rcases escaped_cases c with ⟨e, he, hc⟩ | ⟨hlt, hc⟩ | ⟨hquote, hback, -, hc⟩
  · rw [hc]
    simp [stripFrom]
  · have hdigit : ∀ n < 16, hexDigit n ≠ '"' ∧ hexDigit n ≠ '\\' := by decide
    have hhigh := hdigit (c.toNat / 16) (by omega)
    have hlow := hdigit (c.toNat % 16) (by omega)
    rw [hc]
    simp [stripFrom, hhigh, hlow]
  · rw [hc]
    simp [stripFrom, hquote, hback]

theorem plain_quoted (text : String) : Plain (quoted text) := by
  have hinside (cs rest : List Char) :
      stripFrom (.literal false) (cs.flatMap escaped ++ '"' :: rest)
        = cs.flatMap escaped ++ '"' :: stripFrom .code rest := by
    induction cs with
    | nil => rfl
    | cons c cs ih => rw [List.flatMap_cons, List.append_assoc, stripFrom_escaped, ih,
        List.append_assoc]
  intro rest
  simp only [quoted, List.cons_append, List.append_assoc, List.nil_append]
  rw [stripFrom_code_cons (by decide), if_pos rfl, hinside]

/-! ### Values -/

theorem plain_newLine (level : Nat) : Plain (newLine level) := by
  refine plain_cons (by decide) (by decide) (plain_of_forall fun c hc => ?_)
  rw [(List.mem_replicate.mp hc).2]
  decide

theorem plain_text (n : Number) : Plain n.text := by
  refine plain_of_forall fun c hc => ?_
  have hword := n.text_word.2 c hc
  constructor <;>
    · rintro rfl
      exact absurd hword (by decide)

theorem plain_printElements {vs : List Json} (h : ∀ v ∈ vs, ∀ level, Plain (print level v))
    (level : Nat) : Plain (printElements level vs) := by
  induction vs with
  | nil =>
    rw [printElements]
    exact plain_nil
  | cons v vs ih =>
    rw [List.forall_mem_cons] at h
    rw [printElements]
    exact (plain_cons (by decide) (by decide) (plain_newLine level)).append (h.1 level)
      |>.append (ih h.2)

theorem plain_printMembers {ms : Members} (h : ∀ m ∈ ms, ∀ level, Plain (print level m.2))
    (level : Nat) : Plain (printMembers level ms) := by
  induction ms with
  | nil =>
    rw [printMembers]
    exact plain_nil
  | cons m ms ih =>
    rw [List.forall_mem_cons] at h
    have hvalue := plain_cons (c := ':') (by decide) (by decide)
      (plain_cons (c := ' ') (by decide) (by decide) (h.1 level))
    rw [printMembers]
    exact ((plain_cons (by decide) (by decide) (plain_newLine level)).append (plain_quoted m.1)
      |>.append hvalue).append (ih h.2)

theorem plain_print {depth : Nat} {v : Json} (h : Fits depth v) (level : Nat) :
    Plain (print level v) := by
  induction h generalizing level with
  | null =>
    rw [print]
    exact plain_of_forall (by simp)
  | bool b =>
    cases b
    · rw [print]
      exact plain_of_forall (by simp)
    · rw [print]
      exact plain_of_forall (by simp)
  | number n =>
    rw [print]
    exact plain_text n
  | string s =>
    rw [print]
    exact plain_quoted s
  | @array _ vs _ ih =>
    cases vs with
    | nil =>
      rw [print]
      exact plain_of_forall (by simp)
    | cons v vs =>
      rw [List.forall_mem_cons] at ih
      have hopen := plain_cons (c := '[') (by decide) (by decide) (plain_newLine (level + 1))
      rw [print]
      exact (((hopen.append (ih.1 (level + 1))).append (plain_printElements ih.2 (level + 1))).append
        (plain_newLine level)).append (plain_of_forall (by simp))
  | @object _ ms _ _ ih =>
    cases ms with
    | nil =>
      rw [print]
      exact plain_of_forall (by simp)
    | cons m ms =>
      rw [List.forall_mem_cons] at ih
      have hopen := plain_cons (c := '\x7b') (by decide) (by decide) (plain_newLine (level + 1))
      have hvalue := plain_cons (c := ':') (by decide) (by decide)
        (plain_cons (c := ' ') (by decide) (by decide) (ih.1 (level + 1)))
      rw [print]
      exact ((((hopen.append (plain_quoted m.1)).append hvalue).append
        (plain_printMembers ih.2 (level + 1))).append (plain_newLine level)).append
        (plain_of_forall (by simp))

theorem strip_of_plain {cs : List Char} (h : Plain cs) :
    strip (String.ofList cs) = String.ofList cs := by
  have hcs := h []
  rw [List.append_nil, stripFrom, List.append_nil] at hcs
  rw [strip, String.toList_ofList, hcs]

/-- A printed document is its own stripped form. -/
theorem strip_render {depth : Nat} {v : Json} (h : Fits depth v) : strip v.render = v.render :=
  strip_of_plain (plain_print h 0)

theorem strip_render_newline {depth : Nat} {v : Json} (h : Fits depth v) :
    strip (v.render ++ "\n") = v.render ++ "\n" := by
  have hline : Plain ['\n'] := plain_cons (by decide) (by decide) plain_nil
  have htext : v.render ++ "\n" = String.ofList (print 0 v ++ ['\n']) := by
    rw [String.ofList_append]
    rfl
  rw [htext]
  exact strip_of_plain ((plain_print h 0).append hline)

end RulePack.Comment
