import FlashNext.Scatter

/-!
# FlashNext.Ragged

Ragged batches: the concatenation of rows of different lengths, addressed either
by a flat position or by a row and a column.

A batch with row lengths `lens` is described by the offsets
`cuSeqlens lens = [0, l₀, l₀ + l₁, …]`.  The row of a flat position is found by a
binary search in those offsets (`searchsortedRight`), its column by subtracting
the row's offset.  `rowCol_range` says that this enumerates exactly `ragged lens`,
the rows one after another with their columns in order; `mem_entries` says which
value the flat sequence holds at a row and a column.
-/

namespace FlashNext

variable {ρ σ : Type*}

/-! ## offsets and searching -/

/-- The number of leading entries that are at most `v`: in a sorted sequence, the
insertion point to the right of every entry equal to `v`. -/
def searchsortedRight (xs : List Nat) (v : Nat) : Nat := (xs.takeWhile (· ≤ v)).length

theorem searchsortedRight_cons (x : Nat) (xs : List Nat) (v : Nat) :
    searchsortedRight (x :: xs) v = if x ≤ v then searchsortedRight xs v + 1 else 0 := by
  by_cases h : x ≤ v <;> simp [searchsortedRight, h]

/-- Offsets of the rows of a batch that starts at `a`, with the end of the last row. -/
def cuSeqlensFrom (a : Nat) : List Nat → List Nat
  | [] => [a]
  | n :: ns => a :: cuSeqlensFrom (a + n) ns

/-- Offsets of the rows of a batch, with the end of the last row. -/
def cuSeqlens (lens : List Nat) : List Nat := cuSeqlensFrom 0 lens

@[simp] theorem length_cuSeqlensFrom (a : Nat) (lens : List Nat) :
    (cuSeqlensFrom a lens).length = lens.length + 1 := by
  induction lens generalizing a with
  | nil => rfl
  | cons n ns ih => simp [cuSeqlensFrom, ih]

theorem cuSeqlensFrom_eq_cons (a : Nat) (lens : List Nat) :
    cuSeqlensFrom a lens = a :: (cuSeqlensFrom a lens).tail := by
  cases lens <;> rfl

@[simp] theorem tail_cuSeqlensFrom_cons (a n : Nat) (ns : List Nat) :
    (cuSeqlensFrom a (n :: ns)).tail = (a + n) :: (cuSeqlensFrom (a + n) ns).tail := by
  rw [cuSeqlensFrom, List.tail_cons, ← cuSeqlensFrom_eq_cons]

theorem getD_cuSeqlensFrom_length (a : Nat) (lens : List Nat) :
    (cuSeqlensFrom a lens).getD lens.length 0 = a + lens.sum := by
  induction lens generalizing a with
  | nil => rfl
  | cons n ns ih =>
      rw [cuSeqlensFrom, List.length_cons, List.getD_cons_succ, ih, List.sum_cons, Nat.add_assoc]

/-- Every offset lies between the first one and the end of the batch. -/
theorem mem_cuSeqlensFrom {a v : Nat} {lens : List Nat} (h : v ∈ cuSeqlensFrom a lens) :
    a ≤ v ∧ v ≤ a + lens.sum := by
  induction lens generalizing a with
  | nil => simp_all [cuSeqlensFrom]
  | cons n ns ih =>
      rcases List.mem_cons.mp h with rfl | h
      · simp
      · have := ih h
        simp only [List.sum_cons]
        omega

/-- The differences of the offsets are the row lengths. -/
theorem diff_cuSeqlensFrom (a : Nat) (lens : List Nat) :
    List.zipWith (· - ·) (cuSeqlensFrom a lens).tail (cuSeqlensFrom a lens) = lens := by
  induction lens generalizing a with
  | nil => rfl
  | cons n ns ih =>
      have hdiff := ih (a + n)
      rw [tail_cuSeqlensFrom_cons, cuSeqlensFrom, List.zipWith_cons_cons, hdiff,
        Nat.add_sub_cancel_left]

/-- Each offset is the one before it plus the row length between them. -/
theorem getD_cuSeqlensFrom_succ (a : Nat) (lens : List Nat) {r : Nat} (hr : r < lens.length) :
    (cuSeqlensFrom a lens).getD (r + 1) 0 = (cuSeqlensFrom a lens).getD r 0 + lens[r] := by
  induction lens generalizing a r with
  | nil => simp at hr
  | cons n ns ih =>
      cases r with
      | zero =>
          rw [cuSeqlensFrom, List.getD_cons_succ, cuSeqlensFrom_eq_cons]
          rfl
      | succ r =>
          rw [cuSeqlensFrom, List.getD_cons_succ, ih (a + n) (by simpa using hr)]
          rfl

/-- Past the end of the batch every offset is at most the position. -/
theorem searchsortedRight_of_forall_le {xs : List Nat} {v : Nat} (h : ∀ x ∈ xs, x ≤ v) :
    searchsortedRight xs v = xs.length := by
  unfold searchsortedRight
  rw [List.takeWhile_eq_self_iff.mpr]
  simpa using h

/-! ## enumerating rows and columns -/

/-- The rows of a batch one after another, each with its columns in order. -/
def ragged : List Nat → List (Nat × Nat)
  | [] => []
  | n :: ns => (List.range n).map (0, ·) ++ (ragged ns).map (Prod.map (· + 1) id)

@[simp] theorem length_ragged (lens : List Nat) : (ragged lens).length = lens.sum := by
  induction lens with
  | nil => rfl
  | cons n ns ih => simp [ragged, ih]

/-- Row of the flat position `p`. -/
def rowOf (offsets : List Nat) (p : Nat) : Nat := searchsortedRight offsets.tail p

/-- Column of the flat position `p` in its row. -/
def colOf (offsets : List Nat) (p : Nat) : Nat := p - offsets.getD (rowOf offsets p) 0

theorem rowOf_cuSeqlensFrom_cons (a n p : Nat) (ns : List Nat) :
    rowOf (cuSeqlensFrom a (n :: ns)) p =
      if a + n ≤ p then rowOf (cuSeqlensFrom (a + n) ns) p + 1 else 0 := by
  rw [rowOf, tail_cuSeqlensFrom_cons, searchsortedRight_cons]
  rfl

theorem rowCol_rangeFrom (a : Nat) (lens : List Nat) :
    (List.range lens.sum).map
        (fun i => (rowOf (cuSeqlensFrom a lens) (a + i), colOf (cuSeqlensFrom a lens) (a + i))) =
      ragged lens := by
  induction lens generalizing a with
  | nil => rfl
  | cons n ns ih =>
      rw [List.sum_cons, List.range_add, List.map_append, ragged]
      congr 1
      · apply List.map_congr_left
        intro i hi
        have hlt : ¬ a + n ≤ a + i := by simpa using hi
        rw [colOf, rowOf_cuSeqlensFrom_cons, if_neg hlt]
        simp [cuSeqlensFrom]
      · rw [← ih (a + n), List.map_map, List.map_map]
        apply List.map_congr_left
        intro i _
        have hrow : rowOf (cuSeqlensFrom a (n :: ns)) (a + (n + i)) =
            rowOf (cuSeqlensFrom (a + n) ns) (a + n + i) + 1 := by
          rw [rowOf_cuSeqlensFrom_cons, if_pos (by omega), Nat.add_assoc]
        simp only [Function.comp_apply, Prod.map_apply, id_eq, colOf, hrow]
        rw [cuSeqlensFrom, List.getD_cons_succ, Nat.add_assoc]

/-- Searching the offsets enumerates the rows and columns of the batch in order. -/
theorem rowCol_range (lens : List Nat) :
    (List.range lens.sum).map (fun p => (rowOf (cuSeqlens lens) p, colOf (cuSeqlens lens) p)) =
      ragged lens := by
  simpa [cuSeqlens] using rowCol_rangeFrom 0 lens

/-- A position past the batch belongs to no row. -/
theorem rowOf_of_sum_le {lens : List Nat} {p : Nat} (h : lens.sum ≤ p) :
    rowOf (cuSeqlens lens) p = lens.length := by
  unfold rowOf
  rw [searchsortedRight_of_forall_le]
  · simp [cuSeqlens]
  · intro v hv
    have := mem_cuSeqlensFrom (List.mem_of_mem_tail hv)
    omega

/-- Evaluating a function of the row index along the rows is evaluating it row by row. -/
theorem map_range_eq_map {rs : List ρ} {f : Nat → σ} {g : ρ → σ}
    (h : ∀ r (hr : r < rs.length), f r = g rs[r]) :
    (List.range rs.length).map f = rs.map g := by
  apply List.ext_getElem
  · simp
  · intro r hr _
    rw [List.getElem_map, List.getElem_map, List.getElem_range]
    exact h r (by simpa using hr)

/-- Zipping with a list that does not matter is mapping. -/
theorem zipWith_eq_map {κ : Type*} {ks : List κ} {rs : List ρ} {f : κ → ρ → σ} {g : ρ → σ}
    (hlen : ks.length = rs.length) (h : ∀ k ∈ ks, ∀ q ∈ rs, f k q = g q) :
    List.zipWith f ks rs = rs.map g := by
  apply List.ext_getElem
  · simp [hlen]
  · intro i hi _
    rw [List.getElem_zipWith, List.getElem_map]
    exact h _ (List.getElem_mem _) _ (List.getElem_mem _)

theorem flatten_map_singleton (rs : List ρ) (g : ρ → σ) :
    (rs.map fun q => [g q]).flatten = rs.map g := by
  rw [← List.flatMap_def, ← List.map_eq_flatMap]

/-- The rows and columns of a batch lie inside it. -/
theorem mem_ragged {lens : List Nat} {rc : Nat × Nat} (h : rc ∈ ragged lens) :
    ∃ n, lens[rc.1]? = some n ∧ rc.2 < n := by
  induction lens generalizing rc with
  | nil => simp [ragged] at h
  | cons n ns ih =>
      rcases List.mem_append.mp h with h | h
      · obtain ⟨j, hj, rfl⟩ := List.mem_map.mp h
        exact ⟨n, rfl, List.mem_range.mp hj⟩
      · obtain ⟨rc', h', rfl⟩ := List.mem_map.mp h
        obtain ⟨m, hm, hlt⟩ := ih h'
        exact ⟨m, by simpa using hm, hlt⟩

/-- A position inside the batch belongs to one of its rows. -/
theorem rowOf_lt {lens : List Nat} {p : Nat} (h : p < lens.sum) :
    rowOf (cuSeqlens lens) p < lens.length := by
  have hmem : (rowOf (cuSeqlens lens) p, colOf (cuSeqlens lens) p) ∈ ragged lens := by
    rw [← rowCol_range]
    exact List.mem_map.mpr ⟨p, List.mem_range.mpr h, rfl⟩
  obtain ⟨n, hn, _⟩ := mem_ragged hmem
  exact (List.getElem?_eq_some_iff.mp hn).1

/-- Evaluating a function of row and column along the batch is evaluating it row by row. -/
theorem map_ragged_eq_flatten (rs : List ρ) (len : ρ → Nat) (f : Nat → Nat → σ)
    (g : ρ → Nat → σ)
    (h : ∀ r (hr : r < rs.length) j, j < len rs[r] → f r j = g rs[r] j) :
    (ragged (rs.map len)).map (fun rc => f rc.1 rc.2) =
      (rs.map fun q => (List.range (len q)).map (g q)).flatten := by
  induction rs generalizing f with
  | nil => rfl
  | cons q rs ih =>
      simp only [List.map_cons, ragged, List.map_append, List.map_map, List.flatten_cons]
      congr 1
      · apply List.map_congr_left
        intro j hj
        exact h 0 (by simp) j (by simpa using hj)
      · rw [← ih (fun r j => f (r + 1) j)]
        · apply List.map_congr_left
          intro rc _
          rfl
        · intro r hr j hj
          exact h (r + 1) (by simpa using hr) j hj

/-! ## the flat sequence, row by row -/

/-- The values of a batch with their rows and columns. -/
def entries : List (List ρ) → List ((Nat × Nat) × ρ)
  | [] => []
  | row :: rows => row.zipIdx.map (fun w => ((0, w.2), w.1)) ++
      (entries rows).map (Prod.map (Prod.map (· + 1) id) id)

theorem range_zip_eq_zipIdx (row : List ρ) :
    ((List.range row.length).map ((0 : Nat), ·)).zip row =
      row.zipIdx.map (fun w => ((0, w.2), w.1)) := by
  apply List.ext_getElem <;> simp

theorem ragged_zip_flatten (rows : List (List ρ)) :
    (ragged (rows.map List.length)).zip rows.flatten = entries rows := by
  induction rows with
  | nil => rfl
  | cons row rows ih =>
      simp only [List.map_cons, ragged, List.flatten_cons, entries]
      rw [List.zip_append (by simp), range_zip_eq_zipIdx, ← ih, List.zip_map_left]

/-- A batch holds `x` at row `r` and column `j` when its `r`-th row holds `x` at `j`. -/
theorem mem_entries {rows : List (List ρ)} {r j : Nat} {x : ρ} :
    ((r, j), x) ∈ entries rows ↔ ∃ row, rows[r]? = some row ∧ row[j]? = some x := by
  induction rows generalizing r with
  | nil => simp [entries]
  | cons row rows ih =>
      rw [entries, List.mem_append]
      cases r with
      | zero => simp [List.mem_zipIdx_iff_getElem?]
      | succ r => simp [← ih]

/-- Packing onto a constant reads back each row, and the constant past its end. -/
theorem scatter_entries {rows : List (List ρ)} {z : ρ} {r : Nat} {row : List ρ} (j : Nat)
    (hrow : rows[r]? = some row) :
    scatter (fun _ => z) (entries rows) (r, j) = row.getD j z := by
  by_cases hj : j < row.length
  · rw [List.getD_eq_getElem _ _ hj]
    apply scatter_of_mem
    · exact mem_entries.mpr ⟨row, hrow, List.getElem?_eq_getElem hj⟩
    · intro v hv
      obtain ⟨row', hrow', hv'⟩ := mem_entries.mp hv
      have heq : row' = row := by simpa [hrow] using hrow'.symm
      subst heq
      simpa [List.getElem?_eq_getElem hj] using hv'.symm
  · rw [List.getD_eq_default _ _ (by omega)]
    apply scatter_eq_base
    intro v hv
    obtain ⟨row', hrow', hv'⟩ := mem_entries.mp hv
    have heq : row' = row := by simpa [hrow] using hrow'.symm
    subst heq
    exact absurd (List.getElem?_eq_some_iff.mp hv').1 hj

/-- Packing a sequence under its own positions reads it back. -/
theorem scatter_range_zip (row : List ρ) (z : ρ) (j : Nat) :
    scatter (fun _ => z) ((List.range row.length).zip row) j = row.getD j z := by
  have hinj : Function.Injective fun k : Nat => ((0 : Nat), k) := fun a b h => by simpa using h
  have hmap : ((List.range row.length).zip row).map (Prod.map (fun k => ((0 : Nat), k)) id) =
      entries [row] := by
    rw [← List.zip_map_left, range_zip_eq_zipIdx]
    simp [entries]
  have hread := scatter_map_key hinj (fun _ => z) ((List.range row.length).zip row) j
  rw [hmap, scatter_entries j (show [row][0]? = some row from rfl)] at hread
  exact hread.symm

/-- The element at column `j` of row `r` stands `j` places behind the row's offset. -/
theorem getElem?_flatten_cuSeqlensFrom (a : Nat) {rows : List (List ρ)} {r j : Nat}
    {row : List ρ} (hr : rows[r]? = some row) (hj : j < row.length) :
    rows.flatten[(cuSeqlensFrom a (rows.map List.length)).getD r 0 + j - a]? = row[j]? := by
  induction rows generalizing a r with
  | nil => simp at hr
  | cons row' rows ih =>
      rw [List.map_cons, cuSeqlensFrom, List.flatten_cons]
      cases r with
      | zero =>
          have heq : row' = row := by simpa using hr
          rw [List.getD_cons_zero, Nat.add_sub_cancel_left, heq, List.getElem?_append_left hj]
      | succ r =>
          have hr : rows[r]? = some row := by simpa using hr
          have hlt : r < (cuSeqlensFrom (a + row'.length) (rows.map List.length)).length := by
            have := (List.getElem?_eq_some_iff.mp hr).1
            simp
            omega
          have hge : a + row'.length ≤
              (cuSeqlensFrom (a + row'.length) (rows.map List.length)).getD r 0 := by
            rw [List.getD_eq_getElem _ _ hlt]
            exact (mem_cuSeqlensFrom (List.getElem_mem hlt)).1
          rw [List.getD_cons_succ, List.getElem?_append_right (by omega), ← ih (a + row'.length) hr]
          congr 1
          omega

theorem getElem?_flatten_cuSeqlens {rows : List (List ρ)} {r j : Nat} {row : List ρ}
    (hr : rows[r]? = some row) (hj : j < row.length) :
    rows.flatten[(cuSeqlens (rows.map List.length)).getD r 0 + j]? = row[j]? :=
  getElem?_flatten_cuSeqlensFrom 0 hr hj

/-- In rows of one length `w` the offset of row `r` is `r * w`. -/
theorem getElem?_flatten_uniform {rows : List (List ρ)} {w r j : Nat}
    (hw : ∀ row ∈ rows, row.length = w) (hj : j < w) :
    rows.flatten[r * w + j]? = rows[r]?.bind (·[j]?) := by
  induction rows generalizing r with
  | nil => simp
  | cons row rows ih =>
      have hlen : row.length = w := hw row List.mem_cons_self
      rw [List.flatten_cons]
      cases r with
      | zero => rw [Nat.zero_mul, Nat.zero_add, List.getElem?_append_left (by omega)]; rfl
      | succ r =>
          rw [List.getElem?_append_right (by rw [Nat.succ_mul]; omega), List.getElem?_cons_succ,
            ← ih fun row hrow => hw row (List.mem_cons_of_mem _ hrow)]
          congr 1
          rw [Nat.succ_mul]
          omega

/-- A sequence written under its own positions, in a longer buffer of `z`. -/
theorem map_scatter_range_zip (row : List ρ) (z : ρ) {n : Nat} (hn : row.length ≤ n) :
    (List.range n).map (scatter (fun _ => z) ((List.range row.length).zip row)) =
      row ++ List.replicate (n - row.length) z := by
  apply List.ext_getElem
  · simp only [List.length_map, List.length_range, List.length_append, List.length_replicate]
    omega
  · intro j hj _
    rw [List.getElem_map, List.getElem_range, scatter_range_zip, List.getElem_append]
    split
    · next h => rw [List.getD_eq_getElem _ _ h]
    · next h => rw [List.getD_eq_default _ _ (by omega), List.getElem_replicate]

/-- Zipping two flattened sequences is flattening what is zipped piece by piece. -/
theorem zip_flatten {κ τ : Type*} (rs : List ρ) (f : ρ → List κ) (g : ρ → List τ)
    (h : ∀ r ∈ rs, (f r).length = (g r).length) :
    (rs.map f).flatten.zip (rs.map g).flatten = (rs.map fun r => (f r).zip (g r)).flatten := by
  induction rs with
  | nil => rfl
  | cons r rs ih =>
      simp only [List.map_cons, List.flatten_cons]
      rw [List.zip_append (h r List.mem_cons_self), ih fun r hr => h r (List.mem_cons_of_mem _ hr)]

/-- Packing with the columns renamed by `f`: a row is read from the writes of that row alone. -/
theorem scatter_entries_map {rows : List (List ρ)} {z : ρ} {r : Nat} {row : List ρ}
    (f : Nat → Nat) (j : Nat) (hrow : rows[r]? = some row) :
    scatter (fun _ => z) ((entries rows).map (Prod.map (Prod.map id f) id)) (r, j) =
      scatter (fun _ => z) (((List.range row.length).map f).zip row) j := by
  induction rows generalizing r with
  | nil => simp at hrow
  | cons row' rows ih =>
      have hfirst : (row'.zipIdx.map fun w => (((0 : Nat), w.2), w.1)).map
          (Prod.map (Prod.map id f) id) =
            (((List.range row'.length).map f).zip row').map
              (Prod.map (fun k => ((0 : Nat), k)) id) := by
        rw [← range_zip_eq_zipIdx, List.zip_map_left, List.zip_map_left, List.map_map,
          List.map_map]
        rfl
      have hlater : ((entries rows).map (Prod.map (Prod.map (· + 1) id) id)).map
          (Prod.map (Prod.map id f) id) =
            ((entries rows).map (Prod.map (Prod.map id f) id)).map
              (Prod.map (Prod.map (· + 1) id) id) := by
        rw [List.map_map, List.map_map]
        rfl
      rw [entries, List.map_append, scatter_append, hfirst, hlater]
      cases r with
      | zero =>
          have heq : row' = row := by simpa using hrow
          have hinj : Function.Injective fun k : Nat => ((0 : Nat), k) :=
            fun a b h => by simpa using h
          rw [scatter_of_notMem, heq]
          · exact scatter_map_key hinj (fun _ => z) _ j
          · simp [List.mem_map]
      | succ r =>
          have hinj : Function.Injective (Prod.map (· + 1) id : Nat × Nat → Nat × Nat) :=
            Function.Injective.prodMap (fun a b h => by simpa using h) Function.injective_id
          rw [← ih (by simpa using hrow)]
          rw [show ((r + 1, j) : Nat × Nat) = Prod.map (· + 1) id (r, j) from rfl,
            scatter_map_key hinj]
          apply scatter_congr_base
          apply scatter_of_notMem
          simp [List.mem_map]

end FlashNext
