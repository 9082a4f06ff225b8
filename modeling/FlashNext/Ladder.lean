import Mathlib.Data.Int.Range
import Mathlib.Data.List.Sort
import Mathlib.Order.Bounds.Defs

/-!
# FlashNext.Ladder

Rungs of increasing size, and the rung that serves an index.

An index is served by the items of the least size not below it (`Serves`).  A
ladder in ascending order is cut into groups of equal size (`groupBy`), and a table
holds, for every index, the group that serves it: `fillRanges` writes each group at
the indices from where the previous group ended up to its own size.

* `mem_serving_iff` — the group found for an index is what serves it;
* `fillRanges_at` — the table appends that group to what it held before.
-/

namespace FlashNext

variable {α κ : Type*}

/-- An item of the least size that is not below the index. -/
structure Serves (size : α → Int) (xs : List α) (i : Int) (x : α) : Prop where
  mem : x ∈ xs
  le : i ≤ size x
  least : ∀ y ∈ xs, i ≤ size y → size x ≤ size y

/-- Runs of consecutive items with one key, each with its key. -/
def groupBy (size : α → Int) : List α → List (Int × List α)
  | [] => []
  | x :: xs =>
    match groupBy size xs with
    | [] => [(size x, [x])]
    | (n, g) :: gs => if size x = n then (n, x :: g) :: gs else (size x, [x]) :: (n, g) :: gs

/-- The first group whose key is not below the index. -/
def serving (size : α → Int) (xs : List α) (i : Int) : List α :=
  (((groupBy size xs).find? fun g => i ≤ g.1).map Prod.snd).getD []

/-! ## groups -/

section groupBy

variable {size : α → Int} {xs : List α}

/-- A further item joins the first group or stands before it. -/
theorem groupBy_cons_cases (size : α → Int) (x : α) (xs : List α) :
    (∃ g gs, groupBy size xs = (size x, g) :: gs ∧
      groupBy size (x :: xs) = (size x, x :: g) :: gs) ∨
    ((∀ g ∈ (groupBy size xs).head?, size x ≠ g.1) ∧
      groupBy size (x :: xs) = (size x, [x]) :: groupBy size xs) := by
  rcases hgs : groupBy size xs with _ | ⟨⟨n, g⟩, gs⟩
  · right
    simp [groupBy, hgs]
  · by_cases hn : size x = n
    · subst hn
      left
      simp [groupBy, hgs]
    · right
      simp [groupBy, hgs, hn]

theorem groupBy_ne_nil {g : Int × List α} (hg : g ∈ groupBy size xs) : g.2 ≠ [] := by
  induction xs with
  | nil => simp [groupBy] at hg
  | cons x xs ih =>
    rcases groupBy_cons_cases size x xs with ⟨g₀, gs, htail, hgs⟩ | ⟨-, hgs⟩
    · rw [hgs, List.mem_cons] at hg
      rcases hg with rfl | hg
      · simp
      · exact ih (by simp [htail, hg])
    · rw [hgs, List.mem_cons] at hg
      rcases hg with rfl | hg
      · simp
      · exact ih hg

/-- The groups hold the items of the list. -/
theorem flatMap_groupBy (size : α → Int) (xs : List α) :
    (groupBy size xs).flatMap Prod.snd = xs := by
  induction xs with
  | nil => rfl
  | cons x xs ih =>
    rcases groupBy_cons_cases size x xs with ⟨g, gs, htail, hgs⟩ | ⟨-, hgs⟩
    · rw [htail] at ih
      simpa [hgs] using ih
    · simpa [hgs] using ih

/-- The items of a group have the group's key. -/
theorem size_of_mem_groupBy :
    ∀ g ∈ groupBy size xs, ∀ x ∈ g.2, size x = g.1 := by
  induction xs with
  | nil => simp [groupBy]
  | cons x xs ih =>
    rcases groupBy_cons_cases size x xs with ⟨g, gs, htail, hgs⟩ | ⟨-, hgs⟩
    · simp only [htail, List.mem_cons, forall_eq_or_imp] at ih
      simpa [hgs] using ih
    · simpa [hgs] using ih

theorem mem_of_mem_groupBy {g : Int × List α} (hg : g ∈ groupBy size xs) {x : α} (hx : x ∈ g.2) :
    x ∈ xs := by
  rw [← flatMap_groupBy size xs]
  exact List.mem_flatMap.mpr ⟨g, hg, hx⟩

theorem exists_mem_groupBy (size : α → Int) {x : α} (hx : x ∈ xs) :
    ∃ g ∈ groupBy size xs, x ∈ g.2 := by
  rw [← flatMap_groupBy size xs] at hx
  exact List.mem_flatMap.mp hx

/-- The groups of an ascending list have ascending keys. -/
theorem pairwise_groupBy (h : xs.Pairwise fun x y => size x ≤ size y) :
    (groupBy size xs).Pairwise fun g g' => g.1 < g'.1 := by
  induction xs with
  | nil => simp [groupBy]
  | cons x xs ih =>
    have htail := ih (List.pairwise_cons.mp h).2
    rcases groupBy_cons_cases size x xs with ⟨g, gs, hgs', hgs⟩ | ⟨hne, hgs⟩
    · rw [hgs'] at htail
      simpa [hgs] using htail
    · rw [hgs]
      refine List.pairwise_cons.mpr ⟨fun g hg => ?_, htail⟩
      -- a group's key is the size of one of its items, so it is not below the new item
      have hle : ∀ g ∈ groupBy size xs, size x ≤ g.1 := by
        intro g hg
        obtain ⟨y, hy⟩ := List.exists_mem_of_ne_nil _ (groupBy_ne_nil hg)
        rw [← size_of_mem_groupBy g hg y hy]
        exact (List.pairwise_cons.mp h).1 y (mem_of_mem_groupBy hg hy)
      rcases hfirst : groupBy size xs with _ | ⟨g₀, gs⟩
      · simp [hfirst] at hg
      · rw [hfirst] at hg hle htail
        have hx : size x < g₀.1 := by
          have := hne g₀ (by simp [hfirst])
          have := hle g₀ (by simp)
          omega
        rcases List.mem_cons.mp hg with rfl | hg
        · exact hx
        · exact hx.trans ((List.pairwise_cons.mp htail).1 g hg)

/-- The group found for an index holds the items that serve it. -/
theorem mem_serving_iff (h : xs.Pairwise fun x y => size x ≤ size y) {i : Int} {x : α} :
    x ∈ serving size xs i ↔ Serves size xs i x := by
  have hasc := pairwise_groupBy h
  rw [serving]
  constructor
  · intro hx
    rcases hfind : (groupBy size xs).find? fun g => i ≤ g.1 with _ | g
    · simp [hfind] at hx
    · simp only [hfind, Option.map_some, Option.getD_some] at hx
      obtain ⟨hi, pre, post, hsplit, hpre⟩ := List.find?_eq_some_iff_append.mp hfind
      have hg : g ∈ groupBy size xs := List.mem_of_find?_eq_some hfind
      have hsize := size_of_mem_groupBy g hg x hx
      refine ⟨mem_of_mem_groupBy hg hx, ?_, fun y hy hiy => ?_⟩
      · simpa [hsize] using hi
      · obtain ⟨g', hg', hy'⟩ := exists_mem_groupBy size hy
        rw [hsize, size_of_mem_groupBy g' hg' y hy'] at *
        rw [hsplit] at hg' hasc
        rcases List.mem_append.mp hg' with hmem | hmem
        · have := hpre g' hmem
          simp at this
          omega
        · rcases List.mem_cons.mp hmem with rfl | hmem
          · exact le_refl _
          · have := (List.pairwise_cons.mp (List.pairwise_append.mp hasc).2.1).1 g' hmem
            omega
  · rintro ⟨hx, hi, hleast⟩
    obtain ⟨g, hg, hxg⟩ := exists_mem_groupBy size hx
    have hsize := size_of_mem_groupBy g hg x hxg
    have hfind : (groupBy size xs).find? (fun g => i ≤ g.1) = some g := by
      obtain ⟨pre, post, hsplit⟩ := List.append_of_mem hg
      refine List.find?_eq_some_iff_append.mpr ⟨by simpa [← hsize] using hi, pre, post, hsplit, ?_⟩
      intro g' hg'
      have hmem : g' ∈ groupBy size xs := by simp [hsplit, hg']
      obtain ⟨y, hy⟩ := List.exists_mem_of_ne_nil _ (groupBy_ne_nil hmem)
      have hy' := size_of_mem_groupBy g' hmem y hy
      have hlt : g'.1 < g.1 := by
        rw [hsplit] at hasc
        exact (List.pairwise_append.mp hasc).2.2 g' hg' g (by simp)
      have := hleast y (mem_of_mem_groupBy hmem hy)
      simp
      omega
    simpa [hfind] using hxg

end groupBy

/-! ## the table -/

section table

variable [DecidableEq κ]

/-- `table.setdefault(k, []).extend(xs)` -/
def extendAt (table : κ → Option (List α)) (k : κ) (xs : List α) : κ → Option (List α) :=
  Function.update table k (some ((table k).getD [] ++ xs))

/-- Extend the entries of all indices in `range(lo, hi)`. -/
def extendRange (key : Int → κ) (lo hi : Int) (xs : List α) (table : κ → Option (List α)) :
    κ → Option (List α) :=
  (Int.range lo hi).foldl (fun table i => extendAt table (key i) xs) table

/-- Write each group at the indices from `start`, where the previous group ended, up to
its own key. -/
def fillRanges (key : Int → κ) : Int → List (Int × List α) → (κ → Option (List α)) →
    κ → Option (List α)
  | _, [], table => table
  | start, (n, g) :: gs, table =>
    fillRanges key (n + 1) gs (extendRange key start (n + 1) g table)

variable {key : Int → κ} {table : κ → Option (List α)} {k : κ}

@[simp] theorem extendAt_self (xs : List α) :
    extendAt table k xs k = some ((table k).getD [] ++ xs) :=
  Function.update_self ..

theorem extendAt_of_ne {k' : κ} (h : k ≠ k') (xs : List α) :
    extendAt table k' xs k = table k :=
  Function.update_of_ne h ..

theorem foldl_extendAt_of_ne {is : List Int} {xs : List α} (h : ∀ i ∈ is, key i ≠ k) :
    is.foldl (fun table i => extendAt table (key i) xs) table k = table k := by
  induction is generalizing table with
  | nil => rfl
  | cons i is ih =>
    rw [List.foldl_cons, ih fun i hi => h i (List.mem_cons_of_mem _ hi)]
    exact extendAt_of_ne (h i List.mem_cons_self).symm xs

/-- An entry outside the range is unchanged. -/
theorem extendRange_frame {lo hi : Int} {xs : List α} (h : ∀ i, lo ≤ i → i < hi → key i ≠ k) :
    extendRange key lo hi xs table k = table k :=
  foldl_extendAt_of_ne fun i hi => h i (Int.mem_range_iff.mp hi).1 (Int.mem_range_iff.mp hi).2

theorem nodup_range (lo hi : Int) : (Int.range lo hi).Nodup :=
  List.nodup_range.map fun a b (h : lo + a = lo + b) => by omega

/-- An entry of the range is extended once. -/
theorem extendRange_at (hkey : Function.Injective key) {lo hi i : Int} (hlo : lo ≤ i) (hhi : i < hi)
    (xs : List α) :
    extendRange key lo hi xs table (key i) = some ((table (key i)).getD [] ++ xs) := by
  obtain ⟨pre, post, hsplit⟩ := List.append_of_mem (Int.mem_range_iff.mpr ⟨hlo, hhi⟩)
  have hnodup := nodup_range lo hi
  rw [hsplit, List.nodup_middle, List.nodup_cons, List.mem_append, not_or] at hnodup
  rw [extendRange, hsplit, List.foldl_append, List.foldl_cons, foldl_extendAt_of_ne, extendAt_self,
    foldl_extendAt_of_ne]
  · intro j hj hji
    exact hnodup.1.1 (hkey hji ▸ hj)
  · intro j hj hji
    exact hnodup.1.2 (hkey hji ▸ hj)

/-- The entry of a key that is no index is unchanged. -/
theorem fillRanges_frame {start : Int} {gs : List (Int × List α)} (h : ∀ i, key i ≠ k) :
    fillRanges key start gs table k = table k := by
  induction gs generalizing start table with
  | nil => rfl
  | cons g gs ih => rw [fillRanges, ih, extendRange_frame fun i _ _ => h i]

/-- An index below the start keeps its entry. -/
theorem fillRanges_below (hkey : Function.Injective key) {start i : Int} (hi : i < start)
    {gs : List (Int × List α)} (hasc : gs.Pairwise fun g g' => g.1 < g'.1)
    (hstart : ∀ g ∈ gs, start ≤ g.1) : fillRanges key start gs table (key i) = table (key i) := by
  induction gs generalizing start table with
  | nil => rfl
  | cons g gs ih =>
    have hg := hstart g List.mem_cons_self
    rw [List.pairwise_cons] at hasc
    rw [fillRanges, ih (by omega) hasc.2 fun g' hg' => hasc.1 g' hg', extendRange_frame]
    intro j hj _ hji
    have := hkey hji
    omega

/-- The entry of an index is extended by the first group that is not below it. -/
theorem fillRanges_at (hkey : Function.Injective key) {start i : Int} (hi : start ≤ i)
    {gs : List (Int × List α)} (hasc : gs.Pairwise fun g g' => g.1 < g'.1) :
    (fillRanges key start gs table (key i)).getD [] =
      (table (key i)).getD [] ++ ((gs.find? fun g => i ≤ g.1).map Prod.snd).getD [] := by
  induction gs generalizing start table with
  | nil => simp [fillRanges]
  | cons g gs ih =>
    rw [List.pairwise_cons] at hasc
    rw [fillRanges]
    by_cases hig : i ≤ g.1
    · rw [fillRanges_below hkey (by omega) hasc.2 fun g' hg' => hasc.1 g' hg',
        extendRange_at hkey hi (by omega)]
      simp [hig]
    · rw [ih (by omega) hasc.2, extendRange_frame]
      · simp [hig]
      · intro j _ hj hji
        have := hkey hji
        omega

/-- Filled from the bottom, the table holds at each index what serves it. -/
theorem fillRanges_groupBy (hkey : Function.Injective key) {size : α → Int} {xs : List α}
    (h : xs.Pairwise fun x y => size x ≤ size y) {start i : Int} (hi : start ≤ i) :
    (fillRanges key start (groupBy size xs) table (key i)).getD [] =
      (table (key i)).getD [] ++ serving size xs i :=
  fillRanges_at hkey hi (pairwise_groupBy h)

end table

/-! ## rungs that are numbers -/

section rungs

variable {rungs : List Int}

/-- The first of ascending rungs not below the index is the least. -/
theorem isLeast_of_find? (h : rungs.Pairwise (· ≤ ·)) {i c : Int}
    (hc : rungs.find? (i ≤ ·) = some c) : IsLeast {c | c ∈ rungs ∧ i ≤ c} c := by
  obtain ⟨hi, pre, post, rfl, hpre⟩ := List.find?_eq_some_iff_append.mp hc
  constructor
  · exact ⟨by simp, by simpa using hi⟩
  · rintro c' ⟨hmem, hi'⟩
    rcases List.mem_append.mp hmem with hmem | hmem
    · have := hpre c' hmem
      simp at this
      omega
    · rcases List.mem_cons.mp hmem with rfl | hmem
      · exact le_refl _
      · exact (List.pairwise_cons.mp (List.pairwise_append.mp h).2.1).1 c' hmem

/-- Passing the rungs below a smaller index first makes no difference. -/
theorem dropWhile_dropWhile {i j : Int} (hij : i ≤ j) (rungs : List Int) :
    (rungs.dropWhile (· < i)).dropWhile (· < j) = rungs.dropWhile (· < j) := by
  induction rungs with
  | nil => rfl
  | cons c cs ih =>
    by_cases hc : c < i
    · have hcj : c < j := by omega
      simp [hc, hcj, ih]
    · simp [hc]

/-- The first rung that is left is the one found for the index. -/
theorem head?_dropWhile_lt (i : Int) (rungs : List Int) :
    (rungs.dropWhile (· < i)).head? = rungs.find? (i ≤ ·) := by
  induction rungs with
  | nil => rfl
  | cons c cs ih =>
    by_cases hc : c < i
    · have hic : ¬ i ≤ c := by omega
      simp [hc, hic, ih]
    · have hic : i ≤ c := by omega
      simp [hc, hic]

end rungs

end FlashNext
