import Mathlib.Data.List.Infix
import Mathlib.Data.Nat.Digits.Defs
import Mathlib.Tactic.IntervalCases

/-!
# FlashNext.Str

Python strings as lists of characters.

`p in s` is `p <:+: s`, `startswith` and `endswith` are `<+:` and `<:+`.  Dotted
names are cut at a separator that the searched text does not contain:

* `infix_append_cons` — such a text lies on one side of a separator;
* `prefix_append_cons` — a dotted prefix is one component after another;
* `occurrence_cases` — where a text with one separator can occur in another;
* `replace_of_first`, `replace_of_notMem` — what `replace` does.
-/

namespace FlashNext

abbrev Str := List Char

namespace Str

/-- `str(n)`. -/
def ofNat (n : Nat) : Str := Nat.toDigits 10 n

/-- `replace`, with the next `skip` characters already replaced. -/
def replaceFrom (old new : Str) : Nat → Str → Str
  | _, [] => []
  | skip + 1, _ :: s => replaceFrom old new skip s
  | 0, c :: s =>
    if old <+: c :: s then new ++ replaceFrom old new (old.length - 1) s
    else c :: replaceFrom old new 0 s

/-- `s.replace(old, new)`, for `old` not empty. -/
def replace (s old new : Str) : Str := replaceFrom old new 0 s

/-- `s.removeprefix(p)`. -/
def removePrefix (s p : Str) : Str := if p <+: s then s.drop p.length else s

/-- `s.split(sep, 1)[0]`. -/
def splitFirst (sep : Str) : Str → Str
  | [] => []
  | c :: s => if sep <+: c :: s then [] else c :: splitFirst sep s

/-! ## numbers -/

theorem ofNat_ne_nil (n : Nat) : ofNat n ≠ [] := Nat.toDigits_ne_nil

theorem isDigit_of_mem_ofNat {n : Nat} {c : Char} (h : c ∈ ofNat n) : c.isDigit = true :=
  Nat.isDigit_of_mem_toDigits (by decide) (by decide) h

/-- The ten digits. -/
def digits : List Char := ['0', '1', '2', '3', '4', '5', '6', '7', '8', '9']

theorem mem_digits {c : Char} (h : c.isDigit = true) : c ∈ digits := by
  have hc : 48 ≤ c.toNat ∧ c.toNat ≤ 57 := by
    simpa [Char.isDigit, UInt32.le_iff_toNat_le] using h
  obtain ⟨n, hn⟩ : ∃ n, c.toNat = n := ⟨_, rfl⟩
  rw [hn] at hc
  rw [← Char.ofNat_toNat c, hn]
  obtain ⟨hlow, hhigh⟩ := hc
  interval_cases n <;> decide

theorem ofNat_injective : Function.Injective ofNat := by
  intro m n h
  have := congrArg (Nat.ofDigitChars 10 · 0) h
  simpa only [ofNat, Nat.ofDigitChars_ten_toDigits] using this

/-! ## separators -/

section separator

variable {c : Char}

/-- A prefix without the separator ends before it. -/
theorem prefix_append_cons_of_notMem {w : Str} (hw : c ∉ w) {a b : Str} :
    w <+: a ++ c :: b ↔ w <+: a := by
  constructor
  · intro h
    cases List.prefix_or_prefix_of_prefix h (List.prefix_append a (c :: b)) with
    | inl h => exact h
    | inr ha =>
      obtain ⟨t, rfl⟩ := ha
      rw [List.prefix_append_right_inj] at h
      cases t with
      | nil => rw [List.append_nil]
      | cons d t =>
        rw [List.cons_prefix_cons] at h
        rw [h.1] at hw
        simp at hw
  · intro h
    exact h.trans (List.prefix_append _ _)

/-- A text without the separator lies on one side of it. -/
theorem infix_append_cons {w : Str} (hw : c ∉ w) {a b : Str} :
    w <:+: a ++ c :: b ↔ w <:+: a ∨ w <:+: b := by
  induction a with
  | nil =>
    rw [List.nil_append, List.infix_cons_iff]
    constructor
    · rintro (h | h)
      · have : w <+: [] := (prefix_append_cons_of_notMem hw (a := [])).1 h
        exact .inl this.isInfix
      · exact .inr h
    · rintro (h | h)
      · rw [List.infix_nil] at h
        exact .inl (h ▸ List.nil_prefix)
      · exact .inr h
  | cons x a ih =>
    rw [List.cons_append, List.infix_cons_iff, List.infix_cons_iff, ih, ← List.cons_append,
      prefix_append_cons_of_notMem hw, or_assoc]

/-- A prefix with a separator goes on behind the separator of the text. -/
theorem prefix_append_cons {w w' a b : Str} (hw : c ∉ w) (ha : c ∉ a) :
    w ++ c :: w' <+: a ++ c :: b ↔ w = a ∧ w' <+: b := by
  induction w generalizing a with
  | nil =>
    cases a with
    | nil => simp
    | cons x a =>
      rw [List.nil_append, List.cons_append, List.cons_prefix_cons]
      constructor
      · rintro ⟨rfl, -⟩
        exact absurd List.mem_cons_self ha
      · rintro ⟨h, -⟩
        cases h
  | cons y w ih =>
    rw [List.mem_cons, not_or] at hw
    cases a with
    | nil =>
      rw [List.nil_append, List.cons_append, List.cons_prefix_cons]
      constructor
      · rintro ⟨rfl, -⟩
        exact absurd rfl hw.1
      · rintro ⟨h, -⟩
        cases h
    | cons x a =>
      rw [List.mem_cons, not_or] at ha
      rw [List.cons_append, List.cons_append, List.cons_prefix_cons, ih hw.2 ha.2,
        List.cons.injEq, and_assoc]

/-- Where a text with a separator behind `k` occurs in `x ++ c :: y`. -/
theorem occurrence_cases {k r x y u v : Str} (hk : c ∉ k)
    (h : x ++ c :: y = u ++ k ++ c :: r ++ v) :
    (x = u ++ k ∧ y = r ++ v) ∨
      (∃ t, y = t ++ k ++ c :: r ++ v ∧ u = x ++ c :: t) ∨
      ∃ t, x = u ++ k ++ c :: t ∧ r ++ v = t ++ c :: y := by
  rw [List.append_assoc, List.cons_append, List.append_eq_append_iff] at h
  obtain ⟨t, hx, ht⟩ | ⟨t, hx, ht⟩ := h
  · cases t with
    | nil =>
      rw [List.append_nil] at hx
      rw [List.nil_append, List.cons.injEq] at ht
      exact .inl ⟨hx.symm, ht.2⟩
    | cons d t =>
      rw [List.cons_append, List.cons.injEq] at ht
      obtain ⟨rfl, ht⟩ := ht
      rw [List.append_eq_append_iff] at hx
      obtain ⟨s, hs, hs'⟩ | ⟨s, hs, hs'⟩ := hx
      · rw [hs'] at hk
        simp at hk
      · cases s with
        | nil =>
          rw [List.nil_append] at hs'
          rw [← hs'] at hk
          simp at hk
        | cons e s =>
          rw [List.cons_append, List.cons.injEq] at hs'
          obtain ⟨rfl, rfl⟩ := hs'
          refine .inr (.inl ⟨s, ?_, hs⟩)
          rw [ht, List.append_assoc, List.append_assoc, List.append_assoc, List.cons_append]
  · cases t with
    | nil =>
      rw [List.append_nil] at hx
      rw [List.nil_append, List.cons.injEq] at ht
      exact .inl ⟨hx, ht.2.symm⟩
    | cons d t =>
      rw [List.cons_append, List.cons.injEq] at ht
      obtain ⟨rfl, ht⟩ := ht
      exact .inr (.inr ⟨t, hx, ht⟩)

/-- Where a text between two separators occurs. -/
theorem enclosed_infix_append_cons {w : Str} (hw : c ∉ w) {a b : Str} :
    c :: (w ++ [c]) <:+: a ++ c :: b ↔
      c :: (w ++ [c]) <:+: a ∨ c :: w <:+ a ∨ w ++ [c] <+: b ∨ c :: (w ++ [c]) <:+: b := by
  constructor
  · rintro ⟨u, v, huv⟩
    have h : a ++ c :: b = u ++ [] ++ c :: (w ++ [c]) ++ v := by
      rw [← huv]
      simp
    obtain ⟨-, hb⟩ | ⟨t, hb, -⟩ | ⟨t, ha, ht⟩ := occurrence_cases List.not_mem_nil h
    · exact .inr (.inr (.inl ⟨v, hb.symm⟩))
    · exact .inr (.inr (.inr ⟨t, v, by rw [hb]; simp⟩))
    · -- the text starts in `a`, and ends there or at the separator
      have hpre : w ++ c :: [] <+: t ++ c :: b := ⟨v, ht⟩
      by_cases hc : c ∈ t
      · obtain ⟨t₁, t₂, rfl, ht₁⟩ := List.eq_append_cons_of_mem hc
        rw [List.append_assoc, List.cons_append, prefix_append_cons hw ht₁] at hpre
        refine .inl ⟨u, t₂, ?_⟩
        rw [ha, hpre.1]
        simp
      · refine .inr (.inl ⟨u, ?_⟩)
        rw [ha, ((prefix_append_cons hw hc).1 hpre).1]
        simp
  · rintro (⟨u, v, rfl⟩ | ⟨u, rfl⟩ | ⟨v, rfl⟩ | ⟨u, v, rfl⟩)
    · exact ⟨u, v ++ c :: b, by simp⟩
    · exact ⟨u, b, by simp⟩
    · exact ⟨a, v, by simp⟩
    · exact ⟨a ++ c :: u, v, by simp⟩

end separator

/-! ## replacement -/

theorem replaceFrom_eq_drop (old new : Str) (skip : Nat) (s : Str) :
    replaceFrom old new skip s = replaceFrom old new 0 (s.drop skip) := by
  induction skip generalizing s with
  | zero => rfl
  | succ skip ih =>
    cases s with
    | nil => rfl
    | cons d s => exact ih s

theorem replace_append_self {old : Str} (hold : old ≠ []) (new s : Str) :
    replace (old ++ s) old new = new ++ replace s old new := by
  cases old with
  | nil => exact absurd rfl hold
  | cons d old =>
    have hpre : d :: old <+: d :: (old ++ s) := List.prefix_append (d :: old) s
    rw [replace, List.cons_append, replaceFrom, if_pos hpre, replaceFrom_eq_drop,
      List.length_cons, Nat.add_sub_cancel, List.drop_left, replace]

theorem replace_cons_of_not_start {old : Str} {d : Char} {s : Str} (h : ¬ old <+: d :: s)
    (new : Str) : replace (d :: s) old new = d :: replace s old new := by
  rw [replace, replaceFrom, if_neg h, replace]

/-- A text that does not occur is not replaced. -/
theorem replace_of_not_infix {old s : Str} (h : ¬ old <:+: s) (new : Str) :
    replace s old new = s := by
  induction s with
  | nil => rfl
  | cons d s ih =>
    rw [List.infix_cons_iff, not_or] at h
    rw [replace_cons_of_not_start h.1, ih h.2]

/-- A beginning that no occurrence starts in is kept. -/
theorem replace_append_of_le {old a s : Str}
    (h : ∀ u v, a ++ s = u ++ old ++ v → a.length ≤ u.length) (new : Str) :
    replace (a ++ s) old new = a ++ replace s old new := by
  induction a with
  | nil => rfl
  | cons d a ih =>
    have hd : ¬ old <+: d :: (a ++ s) := by
      rintro ⟨v, hv⟩
      have := h [] v hv.symm
      simp at this
    have ha : ∀ u v, a ++ s = u ++ old ++ v → a.length ≤ u.length := by
      intro u v huv
      have := h (d :: u) v (congrArg (d :: ·) huv)
      simpa using this
    rw [List.cons_append, replace_cons_of_not_start hd, ih ha]
    rfl

/-- The first occurrence is replaced and the search goes on behind it. -/
theorem replace_of_first {old a b : Str} (hold : old ≠ [])
    (h : ∀ u v, a ++ old ++ b = u ++ old ++ v → a.length ≤ u.length) (new : Str) :
    replace (a ++ old ++ b) old new = a ++ new ++ replace b old new := by
  rw [List.append_assoc] at h ⊢
  rw [replace_append_of_le h, replace_append_self hold, List.append_assoc]

/-- Where something is replaced, the new text occurs. -/
theorem infix_replace {old s : Str} (hold : old ≠ []) (h : old <:+: s) (new : Str) :
    new <:+: replace s old new := by
  induction s with
  | nil => exact absurd (List.infix_nil.1 h) hold
  | cons d s ih =>
    by_cases hpre : old <+: d :: s
    · obtain ⟨t, ht⟩ := hpre
      rw [← ht, replace_append_self hold]
      exact (List.prefix_append _ _).isInfix
    · rw [replace_cons_of_not_start hpre]
      exact (ih ((List.infix_cons_iff.1 h).resolve_left hpre)).trans (List.suffix_cons d _).isInfix

theorem removePrefix_append (p s : Str) : removePrefix (p ++ s) p = s := by
  rw [removePrefix, if_pos (List.prefix_append p s), List.drop_left]

/-- What `split` leaves in front is followed by the separator. -/
theorem splitFirst_append_start {sep s : Str} (h : sep <:+: s) : splitFirst sep s ++ sep <+: s := by
  induction s with
  | nil =>
    rw [List.infix_nil] at h
    rw [h]
    exact List.nil_prefix
  | cons d s ih =>
    rw [splitFirst]
    split
    · next hpre => exact hpre
    · next hpre =>
      rw [List.cons_append, List.cons_prefix_cons]
      exact ⟨rfl, ih ((List.infix_cons_iff.1 h).resolve_left hpre)⟩

/-- The text is cut at a separator whose first character has not come before. -/
theorem splitFirst_append {c : Char} {a : Str} (ha : c ∉ a) (sep b : Str) :
    splitFirst (c :: sep) (a ++ c :: (sep ++ b)) = a := by
  induction a with
  | nil => exact if_pos (List.prefix_append (c :: sep) b)
  | cons d a ih =>
    rw [List.mem_cons, not_or] at ha
    have hd : ¬ c :: sep <+: d :: (a ++ c :: (sep ++ b)) := by
      rw [List.cons_prefix_cons]
      exact fun h => ha.1 h.1
    rw [List.cons_append, splitFirst, if_neg hd, ih ha.2]

end Str

end FlashNext
