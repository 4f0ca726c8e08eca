import RulePack.Json.Printer
import RulePack.Proofs.Json.Tokens
import RulePack.Proofs.Json.Words

/-!
# Printed numbers are words

* `AllWord` — characters of which words are made;
* `allWord_decimalText` — a decimal is written with such;
* `Number.text_word` — a printed number is one word, whether or not it is read back.
-/

namespace RulePack

theorem Decimal.isDigit_of_mem_digits {d : Decimal} {c : Char} (h : c ∈ d.digits) :
    c.isDigit = true := by
  rw [digits] at h
  split at h
  · rw [List.mem_singleton.mp h]
    rfl
  · have hmem := (List.dropWhile_sublist _).subset (List.mem_reverse.mp h)
    rw [List.mem_reverse, Nat.toList_repr] at hmem
    exact Json.isDigit_of_mem_toDigits hmem

namespace Json

/-- Characters that are all word characters. -/
def AllWord (cs : List Char) : Prop := ∀ c ∈ cs, isWordChar c = true

theorem AllWord.append {cs ds : List Char} (hcs : AllWord cs) (hds : AllWord ds) :
    AllWord (cs ++ ds) :=
  List.forall_mem_append.mpr ⟨hcs, hds⟩

theorem AllWord.cons {c : Char} (hc : isWordChar c = true) {cs : List Char} (hcs : AllWord cs) :
    AllWord (c :: cs) :=
  List.forall_mem_cons.mpr ⟨hc, hcs⟩

theorem AllWord.of_subset {cs ds : List Char} (h : ∀ c ∈ cs, c ∈ ds) (hds : AllWord ds) :
    AllWord cs :=
  fun c hc => hds c (h c hc)

theorem allWord_repr (n : Nat) : AllWord (Nat.repr n).toList := by
  intro c hc
  rw [Nat.toList_repr] at hc
  exact isWordChar_of_isDigit (isDigit_of_mem_toDigits hc)

theorem allWord_zeros (n : Nat) : AllWord (List.replicate n '0') := by
  intro c hc
  rw [List.eq_of_mem_replicate hc]
  rfl

theorem allWord_decimalText (d : Decimal) : AllWord (decimalText d) := by
  have hdigits : AllWord d.digits := fun c hc =>
    isWordChar_of_isDigit (Decimal.isDigit_of_mem_digits hc)
  rw [decimalText]
  dsimp only
  split
  · refine .append (.of_subset (fun c => List.mem_of_mem_take) (hdigits.append (allWord_zeros _)))
      (.cons rfl ?_)
    split
    · exact .cons rfl fun c hc => absurd hc List.not_mem_nil
    · exact .of_subset (fun c => List.mem_of_mem_drop) hdigits
  split
  · exact .cons rfl (.cons rfl ((allWord_zeros _).append hdigits))
  · refine .append ?_ (.cons rfl (.cons ?_ (allWord_repr _)))
    · split
      · exact fun c hc => absurd hc List.not_mem_nil
      · rename_i h
        rw [h] at hdigits
        exact hdigits
      · rename_i h
        rw [h] at hdigits
        exact .cons (hdigits _ (List.mem_cons_self ..))
          (.cons rfl fun c hc => hdigits c (List.mem_cons_of_mem _ hc))
    · split <;> rfl

theorem decimalText_ne_nil (d : Decimal) : decimalText d ≠ [] := by
  rw [decimalText]
  dsimp only
  split
  · simp
  split
  · simp
  · simp

/-- A printed number is one word. -/
theorem Number.text_word (n : Number) : n.text ≠ [] ∧ AllWord n.text := by
  have hminus : AllWord ['-'] := .cons rfl fun c hc => absurd hc List.not_mem_nil
  have hnone : AllWord [] := fun c hc => absurd hc List.not_mem_nil
  cases n with
  | whole n =>
    rw [text]
    refine ⟨?_, .append ?_ (allWord_repr _)⟩
    · rw [Nat.toList_repr]
      simp [Nat.toDigits_ne_nil]
    · split
      · exact hminus
      · exact hnone
  | real x =>
    rw [text]
    split
    · refine ⟨by simp [decimalText_ne_nil], .append ?_ (allWord_decimalText _)⟩
      split
      · exact hnone
      · exact hminus
    · exact ⟨by decide, List.all_eq_true.mp rfl⟩

end Json

end RulePack
