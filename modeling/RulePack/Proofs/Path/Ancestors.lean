import Mathlib.Data.List.Forall2
import Mathlib.Data.List.Induction
import RulePack.Proofs.Path.Components

/-!
# The paths above a path

* `Path.parts` — what a path is cut into: its components, and a single dot that it begins with;
* `Path.size_lt_concat` — a path that ends in a part says less without its last byte;
* `Path.IsAncestor` — the shortest piece of a path that has its first parts;
* `Path.strictAncestors_forall₂`, `Path.existsUnique_isAncestor` — there is one for every number of
  parts, and the paths above a path are these, from the longest one on.
-/

namespace RulePack.Path

variable {bs : List UInt8} {s : Segment} {ss before : List Segment} {p q : Path}

/-! ### Parts -/

/-- The parts among segments: the first one unless it is empty, and every other one that is not
silent. -/
def partsOf : List Segment → List Segment
  | [] => []
  | first :: rest => [first].filter (· ≠ []) ++ rest.filter (fun s => !isSilent s)

/-- What a path is cut into: its components, and a single dot that it begins with. -/
def parts (p : Path) : List Segment := partsOf p.segments

theorem partsOf_append (h : before ≠ []) (more : List Segment) :
    partsOf (before ++ more) = partsOf before ++ more.filter (fun s => !isSilent s) := by
  obtain ⟨first, rest, rfl⟩ := List.exists_cons_of_ne_nil h
  rw [List.cons_append, partsOf, partsOf, List.filter_append, List.append_assoc]

theorem partsOf_concat_silent (h : before ≠ []) (hs : isSilent s = true) :
    partsOf (before ++ [s]) = partsOf before := by
  rw [partsOf_append h, List.filter_singleton, hs]
  exact List.append_nil _

theorem partsOf_concat (h : before ≠ []) (hs : isSilent s = false) :
    partsOf (before ++ [s]) = partsOf before ++ [s] := by
  rw [partsOf_append h, List.filter_singleton, hs]
  rfl

/-- Segments that come first make the first parts. -/
theorem partsOf_prefix (hne : ss ≠ []) (h : ss <+: p.segments) : partsOf ss <+: p.parts := by
  obtain ⟨more, hmore⟩ := h
  exact ⟨more.filter (fun s => !isSilent s), by rw [← partsOf_append hne, hmore, parts]⟩

/-! ### How much a path says -/

/-- One more byte that is no slash is added to the last segment. -/
theorem splitSlashes_concat (bs : List UInt8) {b : UInt8} (hb : b ≠ slash) :
    ∃ front last, splitSlashes bs = front ++ [last]
      ∧ splitSlashes (bs ++ [b]) = front ++ [last ++ [b]] := by
  induction bs with
  | nil =>
    refine ⟨[], [], rfl, ?_⟩
    rw [List.nil_append, splitSlashes_of_not_mem (by simpa using hb.symm)]
    rfl
  | cons c rest ih =>
    obtain ⟨front, last, hrest, hmore⟩ := ih
    rw [List.cons_append, splitSlashes, splitSlashes, hrest, hmore]
    by_cases hc : c = slash
    · rw [if_pos hc, if_pos hc]
      exact ⟨[] :: front, last, rfl, rfl⟩
    · rw [if_neg hc, if_neg hc]
      cases front with
      | nil => exact ⟨[], c :: last, rfl, rfl⟩
      | cons t ts => exact ⟨(c :: t) :: ts, last, rfl, rfl⟩

/-- The bytes in the parts among segments. -/
def size (ss : List Segment) : Nat := (partsOf ss).flatten.length

/-- Is a segment behind the given ones a part? -/
def Counts (before : List Segment) (s : Segment) : Prop := before = [] ∨ isSilent s = false

instance (before : List Segment) (s : Segment) : Decidable (Counts before s) :=
  inferInstanceAs (Decidable (_ ∨ _))

/-- The bytes that a segment adds to the parts. -/
def worth (before : List Segment) (s : Segment) : Nat := if Counts before s then s.length else 0

theorem size_concat (before : List Segment) (s : Segment) :
    size (before ++ [s]) = size before + worth before s := by
  rw [size, size, worth]
  by_cases hnil : before = []
  · have hcounts : Counts [] s := Or.inl rfl
    rw [hnil, if_pos hcounts, List.nil_append]
    by_cases hs : s = [] <;> simp [partsOf, hs]
  · cases hs : isSilent s with
    | true => simp [partsOf_concat_silent hnil hs, Counts, hnil, hs]
    | false => simp [partsOf_concat hnil hs, Counts, hs]

/-- A part is worth more than it was without its last byte. -/
theorem worth_lt_concat {b : UInt8} (h : Counts before (s ++ [b])) :
    worth before s < worth before (s ++ [b]) := by
  have hle : worth before s ≤ s.length := by
    rw [worth]
    split
    · exact Nat.le_refl _
    · exact Nat.zero_le _
  rw [worth.eq_1 before (s ++ [b]), if_pos h, List.length_append, List.length_singleton]
  omega

theorem worth_le_concat (before : List Segment) (s : Segment) (b : UInt8) :
    worth before s ≤ worth before (s ++ [b]) := by
  by_cases h : Counts before (s ++ [b])
  · exact Nat.le_of_lt (worth_lt_concat h)
  · -- the only silent segment with a byte is a single dot, and nothing stands in front of it
    rw [Counts, not_or, Bool.not_eq_false, isSilent, Bool.or_eq_true, beq_iff_eq, beq_iff_eq] at h
    have hs : s = [] := by
      rcases h.2 with hnil | hhere
      · exact (List.append_eq_nil_iff.mp hnil).1
      · exact List.length_eq_zero_iff.mp (by simpa [here] using congrArg List.length hhere)
    have hworth : worth before [] = 0 := by
      rw [worth]
      split <;> rfl
    rw [hs, hworth]
    exact Nat.zero_le _

/-- A path says no less with one more byte. -/
theorem size_le_concat (bs : List UInt8) (b : UInt8) :
    size (splitSlashes bs) ≤ size (splitSlashes (bs ++ [b])) := by
  by_cases hb : b = slash
  · rw [hb, splitSlashes_append_slash]
    show size (splitSlashes bs) ≤ size (splitSlashes bs ++ [[]])
    rw [size_concat]
    exact Nat.le_add_right _ _
  · obtain ⟨front, last, hbs, hmore⟩ := splitSlashes_concat bs hb
    rw [hbs, hmore, size_concat, size_concat]
    exact Nat.add_le_add_left (worth_le_concat front last b) _

theorem size_le_append (bs more : List UInt8) :
    size (splitSlashes bs) ≤ size (splitSlashes (bs ++ more)) := by
  induction more using List.reverseRec with
  | nil => exact Nat.le_of_eq (by rw [List.append_nil])
  | append_singleton more b ih =>
    rw [← List.append_assoc]
    exact Nat.le_trans ih (size_le_concat _ b)

/-- A path that ends in a part does not end in a slash. -/
theorem ne_slash_of_counts {b : UInt8} (hsplit : splitSlashes (bs ++ [b]) = before ++ [s])
    (hs : Counts before s) : b ≠ slash := by
  intro hb
  rw [hb, splitSlashes_append_slash] at hsplit
  obtain ⟨rfl, hlast⟩ := List.append_inj' hsplit rfl
  rw [← (List.cons.inj hlast).1] at hs
  rcases hs with hnil | hsilent
  · exact splitSlashes_ne_nil _ hnil
  · cases hsilent

/-- A path that ends in a part says less without its last byte. -/
theorem size_lt_concat {b : UInt8} (hsplit : splitSlashes (bs ++ [b]) = before ++ [s])
    (hs : Counts before s) : size (splitSlashes bs) < size (splitSlashes (bs ++ [b])) := by
  obtain ⟨front, last, hbs, hmore⟩ := splitSlashes_concat bs (ne_slash_of_counts hsplit hs)
  rw [hmore] at hsplit
  obtain ⟨rfl, hlast⟩ := List.append_inj' hsplit rfl
  rw [← (List.cons.inj hlast).1] at hs
  rw [hbs, hmore, size_concat, size_concat]
  exact Nat.add_lt_add_left (worth_lt_concat hs) _

/-! ### Ancestors -/

/-- The path `q` is what `p` is cut to when `count` of its parts are left: the shortest piece at the
front of its writing that starts at the same place and has these parts. -/
structure IsAncestor (p : Path) (count : Nat) (q : Path) : Prop where
  written : q.bytes <+: p.bytes
  isAbsolute : q.isAbsolute = p.isAbsolute
  parts : q.parts = p.parts.take count
  shortest : ∀ r : Path, r.bytes <+: q.bytes → r.isAbsolute = q.isAbsolute → r.parts = q.parts →
    r = q

/-- There is at most one path above a path for every number of parts. -/
theorem IsAncestor.unique {count : Nat} {r : Path} (hq : p.IsAncestor count q)
    (hr : p.IsAncestor count r) : q = r := by
  have habsolute : q.isAbsolute = r.isAbsolute := hq.isAbsolute.trans hr.isAbsolute.symm
  have hparts : q.parts = r.parts := hq.parts.trans hr.parts.symm
  rcases List.prefix_or_prefix_of_prefix hq.written hr.written with h | h
  · exact hr.shortest q h habsolute hparts
  · exact (hq.shortest r h habsolute.symm hparts.symm).symm

/-- A path that ends in a part is the shortest one that says as much. -/
theorem eq_of_piece (hq : q.segments = before ++ [s]) (hs : Counts before s) {r : Path}
    (hwritten : r.bytes <+: q.bytes) (hparts : r.parts = q.parts) : r = q := by
  obtain ⟨rbytes⟩ := r
  obtain ⟨qbytes⟩ := q
  obtain ⟨more, hmore⟩ := hwritten
  change rbytes ++ more = qbytes at hmore
  subst hmore
  rcases List.eq_nil_or_concat more with rfl | ⟨init, b, rfl⟩
  · rw [List.append_nil]
  · exfalso
    rw [List.concat_eq_append, segments, ← List.append_assoc] at hq
    have hlt := size_lt_concat hq hs
    have hle := size_le_append rbytes init
    have heq : size (splitSlashes rbytes) = size (splitSlashes (rbytes ++ init ++ [b])) := by
      rw [List.append_assoc, ← List.concat_eq_append]
      exact congrArg (fun parts => parts.flatten.length) hparts
    omega

/-- Leaving out silent segments at the end leaves the parts; what is left ends in a part. -/
theorem dropSilent_spec {rev : List Segment} (h : rev ≠ []) :
    ∃ s before, (dropSilent rev).reverse = before ++ [s] ∧ Counts before s
      ∧ before ++ [s] <+: rev.reverse ∧ partsOf (before ++ [s]) = partsOf rev.reverse := by
  fun_induction dropSilent rev with
  | case1 => exact absurd rfl h
  | case2 first => exact ⟨first, [], rfl, Or.inl rfl, List.prefix_refl _, rfl⟩
  | case3 s before hbefore hsilent ih =>
    have hne : before ≠ [] := fun hnil => hbefore hnil
    obtain ⟨t, front, hdrop, hcounts, hprefix, hparts⟩ := ih hne
    refine ⟨t, front, hdrop, hcounts, ?_, ?_⟩
    · rw [List.reverse_cons]
      exact hprefix.trans (List.prefix_append _ _)
    · rw [hparts, List.reverse_cons,
        partsOf_concat_silent (fun hnil => hne (List.reverse_eq_nil_iff.mp hnil)) hsilent]
  | case4 s before hbefore hsilent =>
    have hspoken : isSilent s = false := by simpa using hsilent
    rw [List.reverse_cons]
    exact ⟨s, before.reverse, rfl, Or.inr hspoken, List.prefix_refl _, rfl⟩

/-- Segments that come first in a path, but not all of them, make an ancestor. -/
theorem isAncestor_ofSegments (hs : Counts before s) {more : List Segment} (hmore : more ≠ [])
    (hp : p.segments = before ++ [s] ++ more) :
    p.IsAncestor (partsOf (before ++ [s])).length (ofSegments (before ++ [s])) := by
  have hne : before ++ [s] ≠ [] := by simp
  have hbytes : p.bytes = List.intercalate [slash] (before ++ [s])
      ++ slash :: List.intercalate [slash] more := by
    rw [← intercalate_append hne hmore, ← hp, segments, intercalate_splitSlashes]
  have hparts : partsOf (before ++ [s]) = p.parts.take (partsOf (before ++ [s])).length := by
    have hprefix : partsOf (before ++ [s]) <+: p.parts := partsOf_prefix hne ⟨more, hp.symm⟩
    exact List.prefix_iff_eq_take.mp hprefix
  by_cases hroot : before ++ [s] = [[]]
  · rw [hroot] at hbytes hparts ⊢
    refine ⟨⟨List.intercalate [slash] more, hbytes.symm⟩, ?_, hparts, ?_⟩
    · rw [isAbsolute, isAbsolute, hbytes]
      rfl
    · intro r hwritten habsolute _
      obtain ⟨rbytes⟩ := r
      rcases List.prefix_cons_iff.mp hwritten with hnil | ⟨rest, hrest, hmore⟩
      · cases show rbytes = [] from hnil
        cases habsolute
      · cases List.prefix_nil.mp hmore
        exact congrArg Path.mk hrest
  · have hof : ofSegments (before ++ [s]) = ⟨List.intercalate [slash] (before ++ [s])⟩ := by
      rw [ofSegments.eq_2]
      exact fun h => hroot h
    have hslash : ∀ t ∈ before ++ [s], slash ∉ t := by
      intro t ht
      have hmem : t ∈ p.segments := by
        rw [hp]
        exact List.mem_append_left more ht
      exact slash_not_mem_of_mem hmem
    have hsegments : (ofSegments (before ++ [s])).segments = before ++ [s] := by
      rw [hof, segments, splitSlashes_intercalate hne hslash]
    refine ⟨?_, ?_, ?_, fun r hwritten _ => eq_of_piece hsegments hs hwritten⟩
    · rw [hof, hbytes]
      exact List.prefix_append _ _
    · rw [Bool.eq_iff_iff, isAbsolute_iff_segments, isAbsolute_iff_segments, hsegments, hp]
      obtain ⟨t, ts, hts⟩ := List.exists_cons_of_ne_nil hne
      obtain ⟨u, us, rfl⟩ := List.exists_cons_of_ne_nil hmore
      rw [hts] at hroot ⊢
      cases ts with
      | nil => simpa using hroot
      | cons v vs => simp
    · rw [parts, hsegments, ← hparts]

/-! ### The paths above a path -/

/-- What stands in the first of two related lists is related to something in the second. -/
theorem exists_of_forall₂ {α β : Type} {R : α → β → Prop} {as : List α} {bs : List β} {a : α}
    (h : List.Forall₂ R as bs) (ha : a ∈ as) : ∃ b ∈ bs, R a b := by
  induction h with
  | nil => cases ha
  | cons hab _ ih =>
    rcases List.mem_cons.mp ha with rfl | hrest
    · exact ⟨_, List.mem_cons_self, hab⟩
    · obtain ⟨b, hb, hrel⟩ := ih hrest
      exact ⟨b, List.mem_cons_of_mem _ hb, hrel⟩

/-- The paths above the one that some of the first segments make are ancestors, one for every number
of parts that can be left. -/
theorem ancestorsOfReversed_forall₂ {rev : List Segment} (hne : rev ≠ [])
    (h : rev.reverse <+: p.segments) : List.Forall₂ (fun count q => p.IsAncestor count q)
      (List.range (partsOf rev.reverse).length).reverse (ancestorsOfReversed rev) := by
  fun_induction ancestorsOfReversed rev with
  | case1 => exact absurd rfl hne
  | case2 => exact List.Forall₂.nil
  | case3 first hfirst =>
    -- a relative path: the empty one is above it
    have hparts : partsOf [first] = [first] := by simp [partsOf, hfirst]
    have habsolute : p.isAbsolute = false := by
      rw [Bool.eq_false_iff, ne_eq, isAbsolute_iff_segments]
      intro hsegments
      obtain ⟨s, more, hsegments⟩ := hsegments
      rw [hsegments] at h
      exact hfirst (List.cons_prefix_cons.mp h).1
    have hempty : p.IsAncestor 0 ⟨[]⟩ := by
      refine ⟨List.nil_prefix, habsolute.symm, rfl, fun r hwritten _ _ => ?_⟩
      exact congrArg Path.mk (List.prefix_nil.mp hwritten)
    rw [List.reverse_singleton, hparts]
    exact List.Forall₂.cons hempty List.Forall₂.nil
  | case4 s before hbefore hsilent ih =>
    have hnil : before.reverse ≠ [] := fun hnil => hbefore (List.reverse_eq_nil_iff.mp hnil)
    rw [List.reverse_cons] at h ⊢
    rw [partsOf_concat_silent hnil hsilent]
    exact ih hbefore ((List.prefix_append _ _).trans h)
  | case5 s before hbefore hsilent ih =>
    have hspoken : isSilent s = false := by simpa using hsilent
    have hnil : before.reverse ≠ [] := fun hnil => hbefore (List.reverse_eq_nil_iff.mp hnil)
    rw [List.reverse_cons] at h ⊢
    have habove := ih hbefore ((List.prefix_append _ _).trans h)
    obtain ⟨t, front, hdrop, hcounts, ⟨silent, hsplit⟩, hparts⟩ := dropSilent_spec hbefore
    obtain ⟨more, hmore⟩ := h
    have hsegments : p.segments = front ++ [t] ++ (silent ++ s :: more) := by
      rw [← hmore, ← hsplit]
      simp
    have hnearest := isAncestor_ofSegments hcounts (by simp) hsegments
    rw [partsOf_concat hnil hspoken, List.length_append, List.length_singleton, List.range_succ,
      List.reverse_append, List.reverse_singleton, List.singleton_append, hdrop, ← hparts]
    rw [← hparts] at habove
    exact List.Forall₂.cons hnearest habove

/-- The paths above a path are its ancestors, one for every number of parts that can be left, from
the longest on. -/
theorem strictAncestors_forall₂ (p : Path) : List.Forall₂ (fun count q => p.IsAncestor count q)
    (List.range p.parts.length).reverse p.strictAncestors := by
  have hne : p.segments.reverse ≠ [] := fun hnil =>
    splitSlashes_ne_nil p.bytes (List.reverse_eq_nil_iff.mp hnil)
  have hall : p.segments.reverse.reverse <+: p.segments :=
    ⟨[], by rw [List.append_nil, List.reverse_reverse]⟩
  have h := ancestorsOfReversed_forall₂ hne hall
  rw [List.reverse_reverse] at h
  exact h

/-- There is exactly one path above a path for every number of parts that can be left. -/
theorem existsUnique_isAncestor {count : Nat} (h : count < p.parts.length) :
    ∃! q, p.IsAncestor count q := by
  have hmem : count ∈ (List.range p.parts.length).reverse :=
    List.mem_reverse.mpr (List.mem_range.mpr h)
  obtain ⟨q, -, hq⟩ := exists_of_forall₂ (strictAncestors_forall₂ p) hmem
  exact ⟨q, hq, fun r hr => hr.unique hq⟩

example : (ofText "//a/./b/../").strictAncestors
    = [ofText "//a/./b", ofText "//a", ofText "/"] := by decide +kernel

theorem mem_strictAncestors :
    q ∈ p.strictAncestors ↔ ∃ count < p.parts.length, p.IsAncestor count q := by
  have h := strictAncestors_forall₂ p
  constructor
  · intro hq
    have hflip : List.Forall₂ (fun q count => p.IsAncestor count q) p.strictAncestors
        (List.range p.parts.length).reverse := h.flip
    obtain ⟨count, hcount, hancestor⟩ := exists_of_forall₂ hflip hq
    exact ⟨count, List.mem_range.mp (List.mem_reverse.mp hcount), hancestor⟩
  · intro hq
    obtain ⟨count, hcount, hancestor⟩ := hq
    have hmem : count ∈ (List.range p.parts.length).reverse :=
      List.mem_reverse.mpr (List.mem_range.mpr hcount)
    obtain ⟨r, hr, hancestor'⟩ := exists_of_forall₂ h hmem
    rwa [hancestor.unique hancestor']

/-- The first of the paths above a path that meets a condition has the most parts. -/
theorem find?_strictAncestors_eq_some {f : Path → Bool} : p.strictAncestors.find? f = some q
    ↔ ∃ count < p.parts.length, p.IsAncestor count q ∧ f q = true
      ∧ ∀ more r, count < more → more < p.parts.length → p.IsAncestor more r → f r = false := by
  have h := strictAncestors_forall₂ p
  generalize p.parts.length = n at h ⊢
  generalize p.strictAncestors = qs at h ⊢
  induction n generalizing qs with
  | zero =>
    cases h
    simp
  | succ n ih =>
    rw [List.range_succ, List.reverse_append, List.reverse_singleton, List.singleton_append] at h
    cases h with
    | cons hr hrest =>
      rename_i r rest
      cases hf : f r with
      | true =>
        rw [List.find?_cons_of_pos hf, Option.some.injEq]
        constructor
        · intro heq
          subst heq
          refine ⟨n, Nat.lt_succ_self n, hr, hf, fun more _ hmore hn => ?_⟩
          omega
        · intro hfirst
          obtain ⟨count, hcount, hq, -, hnone⟩ := hfirst
          rcases Nat.lt_succ_iff_lt_or_eq.mp hcount with hlt | rfl
          · rw [hnone n r hlt (Nat.lt_succ_self n) hr] at hf
            cases hf
          · exact hr.unique hq
      | false =>
        rw [List.find?_cons_of_neg (by simp [hf])]
        refine (ih rest hrest).trans ?_
        constructor
        · intro hfirst
          obtain ⟨count, hcount, hq, hfq, hnone⟩ := hfirst
          refine ⟨count, Nat.lt_succ_of_lt hcount, hq, hfq, fun more r' hmore hn hr' => ?_⟩
          rcases Nat.lt_succ_iff_lt_or_eq.mp hn with hlt | rfl
          · exact hnone more r' hmore hlt hr'
          · rwa [hr'.unique hr]
        · intro hfirst
          obtain ⟨count, hcount, hq, hfq, hnone⟩ := hfirst
          rcases Nat.lt_succ_iff_lt_or_eq.mp hcount with hlt | rfl
          · exact ⟨count, hlt, hq, hfq, fun more r' hmore hn =>
              hnone more r' hmore (Nat.lt_succ_of_lt hn)⟩
          · rw [hr.unique hq, hfq] at hf
            cases hf

end RulePack.Path
