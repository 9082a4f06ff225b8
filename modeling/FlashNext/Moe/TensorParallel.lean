import FlashNext.Moe.WeightLoader
import Mathlib.Tactic.Linarith

/-!
# FlashNext.Moe.TensorParallel

How the ranks share a checkpoint tensor.

Each rank narrows the tensor to `size / tp_size` of the sharded dimension and its
target to what the tensor fills (`load_eq_ok`).  The loaders only move entries
(`load_map`), so what arrives where is read off a tensor of positions:

* `nothingLost_iff` — unless a rank refuses the tensor, the ranks together hold the whole
  of it, each index once and in order, exactly when its size is a multiple of `tp_size`
  (and the target is not empty).
-/

namespace FlashNext

variable {ρ τ : Type}

/-! ## one rank -/

/-- The part of the target that a tensor fills. -/
def Region.crop (r : Region) (m : Mat ρ) : Region :=
  ⟨r.row, r.col, min r.rows m.rows, min r.cols m.cols⟩

/-- The tensor is no larger than the target, or is broadcast. -/
def Region.Fits (r : Region) (m : Mat ρ) : Prop :=
  (m.rows ≤ r.rows ∨ m.rows = 1) ∧ (m.cols ≤ r.cols ∨ m.cols = 1)

theorem fits_iff (dim : Dim) (r : Region) (m : Mat ρ) :
    r.Fits m ↔ (m.size dim ≤ r.size dim ∨ m.size dim = 1) ∧
      (m.size dim.other ≤ r.size dim.other ∨ m.size dim.other = 1) := by
  cases dim with
  | zero => rfl
  | one => exact and_comm

theorem narrowPadding_eq_slice (m : Mat ρ) (r : Region) (dim : Dim) :
    narrowPadding m r dim = r.slice dim 0 (min (r.size dim) (m.size dim)) := by
  rw [narrowPadding]
  split
  · next h => rw [Nat.min_eq_right (Nat.le_of_lt h)]
  · next h =>
    rw [Nat.min_eq_left (Nat.not_lt.1 h)]
    cases dim <;> rfl

theorem narrowExpertDataForPadding_eq_crop (r : Region) (m : Mat ρ) (dim : Dim) :
    narrowExpertDataForPadding r m dim.other (some dim) = r.crop m := by
  cases dim with
  | zero =>
    show narrowPadding m (narrowPadding m r .one) .zero = _
    rw [narrowPadding_eq_slice, narrowPadding_eq_slice]
    rfl
  | one =>
    show narrowPadding m (narrowPadding m r .zero) .one = _
    rw [narrowPadding_eq_slice, narrowPadding_eq_slice]
    rfl

theorem crop_fill (r : Region) (m : Mat ρ) (i j : Nat) :
    (r.crop m).fill m i j =
      if (r.crop m).Mem i j then some (m.get (i - r.row) (j - r.col)) else none := by
  rw [Region.fill]
  by_cases hm : (r.crop m).Mem i j
  · rw [if_pos hm, if_pos hm]
    simp only [Region.crop, Region.Mem] at hm ⊢
    have hi : (if m.rows = 1 then 0 else i - r.row) = i - r.row := by split <;> omega
    have hj : (if m.cols = 1 then 0 else j - r.col) = j - r.col := by split <;> omega
    rw [hi, hj]
  · rw [if_neg hm, if_neg hm]

theorem copy_crop_eq_ok {r : Region} {m : Mat ρ} {values : Values ρ} :
    (r.crop m).copy m = .ok values ↔ r.Fits m ∧ values = (r.crop m).fill m := by
  rw [Region.copy_eq_ok]
  refine and_congr_left fun _ => ?_
  simp only [Region.crop, Region.Fits]
  omega

theorem slice_size (m : Mat ρ) (dim : Dim) (start length : Nat) :
    (m.slice dim start length).size dim = length := by
  cases dim <;> rfl

theorem slice_size_other (m : Mat ρ) (dim : Dim) (start length : Nat) :
    (m.slice dim start length).size dim.other = m.size dim.other := by
  cases dim <;> rfl

/-- The part of the tensor that a rank takes. -/
def FusedMoEConfig.rankSlice (M : FusedMoEConfig) (dim : Dim) (m : Mat ρ) : Mat ρ :=
  m.slice dim (m.size dim / M.tpSize * M.tpRank) (m.size dim / M.tpSize)

/-- The rank's part lies in the tensor, and there is something left for every rank. -/
theorem rankSlice_bounds (M : FusedMoEConfig) {size : Nat} (hsize : 0 < size) :
    size / M.tpSize * M.tpRank + size / M.tpSize ≤ size ∧ size / M.tpSize * M.tpRank < size := by
  have hle : size / M.tpSize * (M.tpRank + 1) ≤ size / M.tpSize * M.tpSize :=
    Nat.mul_le_mul_left _ M.tpRank_lt
  have hdiv := Nat.div_mul_le_self size M.tpSize
  rw [Nat.mul_succ] at hle
  refine ⟨by omega, ?_⟩
  cases Nat.eq_zero_or_pos (size / M.tpSize) with
  | inl hzero => simpa [hzero] using hsize
  | inr hpos => omega

/-- The early return is never taken, and narrowing the tensor never fails. -/
theorem narrow_rankSlice (M : FusedMoEConfig) (m : Mat ρ) (dim : Dim) (hsize : 0 < m.size dim) :
    m.narrow dim (m.size dim / M.tpSize * M.tpRank)
      (min (m.size dim / M.tpSize) (m.size dim - m.size dim / M.tpSize * M.tpRank)) =
        .ok (M.rankSlice dim m) := by
  have hle := (rankSlice_bounds M hsize).1
  rw [Nat.min_eq_left (by omega), Mat.narrow_of_le hle, FusedMoEConfig.rankSlice]

theorem loadW13_eq (M : FusedMoEConfig) (r : Region) (dim : Dim) (s : Shard) {m : Mat ρ}
    (hsize : 0 < m.size dim) :
    M.loadW13 r dim s m = (do
      let target ← M.narrowToShard r dim s
      (target.crop (M.rankSlice dim m)).copy (M.rankSlice dim m)) := by
  have hlt := (rankSlice_bounds M hsize).2
  unfold FusedMoEConfig.loadW13
  dsimp only
  rw [if_neg (Nat.not_le.2 hlt), narrow_rankSlice M m dim hsize]
  simp only [← narrowExpertDataForPadding_eq_crop _ _ dim]
  rfl

theorem loadW2_eq (M : FusedMoEConfig) (r : Region) (dim : Dim) {m : Mat ρ}
    (hsize : 0 < m.size dim) :
    M.loadW2 r dim m = (r.crop (M.rankSlice dim m)).copy (M.rankSlice dim m) := by
  have hlt := (rankSlice_bounds M hsize).2
  unfold FusedMoEConfig.loadW2
  dsimp only
  rw [if_neg (Nat.not_le.2 hlt), narrow_rankSlice M m dim hsize,
    ← narrowExpertDataForPadding_eq_crop _ _ dim]
  rfl

/-- The part of a parameter that a shard is loaded into. -/
def FusedMoEConfig.target (M : FusedMoEConfig) (r : Region) (dim : Dim) (s : Shard) : Region :=
  let shardSize := M.shardSize (r.size dim)
  match s with
  | .w1 => r.slice dim 0 shardSize
  | .w2 => r
  | .w3 => r.slice dim shardSize shardSize

theorem narrowToShard_eq_ok_iff (M : FusedMoEConfig) (r : Region) (dim : Dim) {s : Shard}
    (hs : s ≠ .w2) {target : Region} :
    M.narrowToShard r dim s = .ok target ↔
      (s = .w3 → M.shardSize (r.size dim) + M.shardSize (r.size dim) ≤ r.size dim) ∧
        target = M.target r dim s := by
  have hle : M.shardSize (r.size dim) ≤ r.size dim := by
    rw [FusedMoEConfig.shardSize]
    split <;> omega
  cases s with
  | w1 =>
    show Region.narrow _ dim 0 (M.shardSize (r.size dim)) = _ ↔ _
    rw [Region.narrow_of_le (by simpa using hle), Except.ok.injEq]
    exact ⟨fun h => ⟨nofun, h.symm⟩, fun h => h.2.symm⟩
  | w2 => exact absurd rfl hs
  | w3 =>
    show Region.narrow _ dim (M.shardSize (r.size dim)) (M.shardSize (r.size dim)) = _ ↔ _
    rw [Region.narrow, guard_eq_ok, Except.ok.injEq]
    exact ⟨fun h => ⟨fun _ => h.1, h.2.symm⟩, fun h => ⟨h.1 rfl, h.2.symm⟩⟩

/-- **What a rank loads of a tensor of a shard, and when it refuses to.** -/
theorem load_eq_ok (M : FusedMoEConfig) (r : Region) (dim : Dim) (s : Shard) {m : Mat ρ}
    (hsize : 0 < m.size dim) {values : Values ρ} :
    M.loadModelWeightOrGroupWeightScale r dim s m = .ok values ↔
      (s = .w3 → M.shardSize (r.size dim) + M.shardSize (r.size dim) ≤ r.size dim) ∧
        (M.target r dim s).Fits (M.rankSlice dim m) ∧
        values = ((M.target r dim s).crop (M.rankSlice dim m)).fill (M.rankSlice dim m) := by
  have hw13 : ∀ s : Shard, s ≠ .w2 →
      (M.loadW13 r dim s m = .ok values ↔
        (s = .w3 → M.shardSize (r.size dim) + M.shardSize (r.size dim) ≤ r.size dim) ∧
        (M.target r dim s).Fits (M.rankSlice dim m) ∧
        values = ((M.target r dim s).crop (M.rankSlice dim m)).fill (M.rankSlice dim m)) := by
    intro s hs
    rw [loadW13_eq M r dim s hsize, bind_eq_ok]
    constructor
    · rintro ⟨target, htarget, hcopy⟩
      obtain ⟨hw3, rfl⟩ := (narrowToShard_eq_ok_iff M r dim hs).1 htarget
      exact ⟨hw3, copy_crop_eq_ok.1 hcopy⟩
    · rintro ⟨hw3, hcopy⟩
      exact ⟨_, (narrowToShard_eq_ok_iff M r dim hs).2 ⟨hw3, rfl⟩, copy_crop_eq_ok.2 hcopy⟩
  cases s with
  | w1 => exact hw13 .w1 nofun
  | w2 =>
    show M.loadW2 r dim m = _ ↔ _
    rw [loadW2_eq M r dim hsize, copy_crop_eq_ok]
    exact ⟨fun h => ⟨nofun, h⟩, And.right⟩
  | w3 => exact hw13 .w3 nofun

/-- Of an empty tensor nothing is loaded. -/
theorem load_of_empty (M : FusedMoEConfig) (r : Region) (dim : Dim) (s : Shard) {m : Mat ρ}
    (hzero : m.size dim = 0) :
    M.loadModelWeightOrGroupWeightScale r dim s m = .ok fun _ _ => none := by
  have hle : m.size dim ≤ m.size dim / M.tpSize * M.tpRank := by simp [hzero]
  cases s with
  | w1 => exact if_pos hle
  | w2 => exact if_pos hle
  | w3 => exact if_pos hle

/-- A part that has the shape of its target is copied whole. -/
theorem load_of_same_shape (M : FusedMoEConfig) (r : Region) (dim : Dim) (s : Shard) {m : Mat ρ}
    (hw3 : s = .w3 → M.shardSize (r.size dim) + M.shardSize (r.size dim) ≤ r.size dim)
    (hrows : (M.rankSlice dim m).rows = (M.target r dim s).rows)
    (hcols : (M.rankSlice dim m).cols = (M.target r dim s).cols) :
    M.loadModelWeightOrGroupWeightScale r dim s m =
      .ok ((M.target r dim s).fill (M.rankSlice dim m)) := by
  cases Nat.eq_zero_or_pos (m.size dim) with
  | inl hzero =>
    rw [load_of_empty M r dim s hzero, Except.ok.injEq]
    funext i j
    refine (Region.fill_eq_none ?_).symm
    have hempty : (M.rankSlice dim m).size dim = 0 := by
      rw [FusedMoEConfig.rankSlice, slice_size, hzero, Nat.zero_div]
    cases dim <;> simp only [Mat.size] at hempty <;> simp only [Region.Mem] <;> omega
  | inr hsize =>
    rw [load_eq_ok M r dim s hsize]
    refine ⟨hw3, ⟨.inl hrows.le, .inl hcols.le⟩, ?_⟩
    rw [Region.crop, hrows, hcols, Nat.min_self, Nat.min_self]

/-! ## entries are only moved -/

/-- The same cells with each value converted. -/
def Values.map (f : ρ → τ) (values : Values ρ) : Values τ := fun i j => (values i j).map f

theorem Mat.narrow_map (f : ρ → τ) (m : Mat ρ) (dim : Dim) (start length : Nat) :
    (m.map f).narrow dim start length = Mat.map f <$> m.narrow dim start length := by
  have hslice : (m.map f).slice dim start length = (m.slice dim start length).map f := by
    cases dim <;> rfl
  have hsize : (m.map f).size dim = m.size dim := by
    cases dim <;> rfl
  rw [Mat.narrow, Mat.narrow, hslice, hsize]
  by_cases hle : start + length ≤ m.size dim
  · rw [if_pos hle, if_pos hle]
    rfl
  · rw [if_neg hle, if_neg hle]
    rfl

theorem Region.copy_map (f : ρ → τ) (r : Region) (m : Mat ρ) :
    r.copy (m.map f) = Values.map f <$> r.copy m := by
  have hfill : r.fill (m.map f) = Values.map f (r.fill m) := by
    funext i j
    simp only [Region.fill, Values.map, Mat.map]
    by_cases hm : r.Mem i j
    · rw [if_pos hm, if_pos hm]
      rfl
    · rw [if_neg hm, if_neg hm]
      rfl
  rw [Region.copy, Region.copy, hfill]
  by_cases hfits : (m.rows = r.rows ∨ m.rows = 1) ∧ (m.cols = r.cols ∨ m.cols = 1)
  · rw [if_pos hfits]
    exact if_pos hfits
  · rw [if_neg hfits]
    exact if_neg hfits

theorem narrowExpertDataForPadding_map (f : ρ → τ) (r : Region) (m : Mat ρ) (dim : Dim)
    (shardDim : Option Dim) :
    narrowExpertDataForPadding r (m.map f) dim shardDim =
      narrowExpertDataForPadding r m dim shardDim := by
  have hone : narrowPadding (m.map f) = narrowPadding m := by
    funext r dim
    cases dim <;> rfl
  rw [narrowExpertDataForPadding, narrowExpertDataForPadding, hone]

theorem loadW13_map (M : FusedMoEConfig) (f : ρ → τ) (r : Region) (dim : Dim) (s : Shard)
    (m : Mat ρ) : M.loadW13 r dim s (m.map f) = Values.map f <$> M.loadW13 r dim s m := by
  have hsize : (m.map f).size dim = m.size dim := by
    cases dim <;> rfl
  unfold FusedMoEConfig.loadW13
  simp only [hsize, Mat.narrow_map]
  split
  · rfl
  · cases m.narrow dim (m.size dim / M.tpSize * M.tpRank)
      (min (m.size dim / M.tpSize) (m.size dim - m.size dim / M.tpSize * M.tpRank)) with
    | error e => rfl
    | ok n =>
      cases M.narrowToShard r dim s with
      | error e => rfl
      | ok target =>
        show (narrowExpertDataForPadding target (n.map f) _ _).copy (n.map f) = _
        rw [narrowExpertDataForPadding_map, Region.copy_map]
        rfl

theorem loadW2_map (M : FusedMoEConfig) (f : ρ → τ) (r : Region) (dim : Dim) (m : Mat ρ) :
    M.loadW2 r dim (m.map f) = Values.map f <$> M.loadW2 r dim m := by
  have hsize : (m.map f).size dim = m.size dim := by
    cases dim <;> rfl
  unfold FusedMoEConfig.loadW2
  simp only [hsize, Mat.narrow_map]
  split
  · rfl
  · cases m.narrow dim (m.size dim / M.tpSize * M.tpRank)
      (min (m.size dim / M.tpSize) (m.size dim - m.size dim / M.tpSize * M.tpRank)) with
    | error e => rfl
    | ok n =>
      show (narrowExpertDataForPadding r (n.map f) _ _).copy (n.map f) = _
      rw [narrowExpertDataForPadding_map, Region.copy_map]
      rfl

/-- A tensor with its entries converted is loaded as the tensor is. -/
theorem load_map (M : FusedMoEConfig) (f : ρ → τ) (r : Region) (dim : Dim) (s : Shard)
    (m : Mat ρ) :
    M.loadModelWeightOrGroupWeightScale r dim s (m.map f) =
      Values.map f <$> M.loadModelWeightOrGroupWeightScale r dim s m := by
  cases s with
  | w1 => exact loadW13_map M f r dim .w1 m
  | w2 => exact loadW2_map M f r dim m
  | w3 => exact loadW13_map M f r dim .w3 m

/-! ## all ranks -/

/-- The configuration of another rank. -/
def FusedMoEConfig.atRank (M : FusedMoEConfig) (rank : Fin M.tpSize) : FusedMoEConfig :=
  { M with tpRank := rank, tpRank_lt := rank.isLt }

/-- The tensor whose entries are their positions. -/
def Mat.positions (rows cols : Nat) : Mat (Nat × Nat) := ⟨rows, cols, Prod.mk⟩

/-- The coordinate of a position in a dimension. -/
def Dim.coord : Dim → Nat × Nat → Nat
  | .zero, p => p.1
  | .one, p => p.2

theorem coord_ext (dim : Dim) {p q : Nat × Nat} (h : dim.coord p = dim.coord q)
    (h' : dim.other.coord p = dim.other.coord q) : p = q := by
  cases dim with
  | zero => exact Prod.ext h h'
  | one => exact Prod.ext h' h

theorem exists_coord (dim : Dim) (x y : Nat) : ∃ p, dim.coord p = x ∧ dim.other.coord p = y := by
  cases dim with
  | zero => exact ⟨(x, y), rfl, rfl⟩
  | one => exact ⟨(y, x), rfl, rfl⟩

/-- A load of a tensor of a shard into a parameter, on one of the ranks. -/
def FusedMoEConfig.loadAt (M : FusedMoEConfig) (r : Region) (dim : Dim) (s : Shard) (m : Mat ρ)
    (rank : Fin M.tpSize) : Except PyError (Values ρ) :=
  (M.atRank rank).loadModelWeightOrGroupWeightScale r dim s m

/-- What the ranks have received of a tensor of positions is the whole tensor: every index of the
sharded dimension on one rank, every position once, in order, in the shard's half of the
parameter and not in the padding. -/
structure SharedOut (M : FusedMoEConfig) (r : Region) (dim : Dim) (s : Shard) (m : Mat (Nat × Nat))
    (values : Fin M.tpSize → Values (Nat × Nat)) : Prop where
  covered : ∀ i < m.rows, ∀ j < m.cols, ∃ rank a b, values rank a b = some (i, j)
  oneRank : ∀ rank a b p rank' a' b' p', values rank a b = some p → values rank' a' b' = some p' →
    dim.coord p = dim.coord p' → rank = rank'
  once : ∀ rank a b rank' a' b' p, values rank a b = some p → values rank' a' b' = some p →
    (a, b) = (a', b')
  ordered : ∀ rank a b p rank' a' b' p', values rank a b = some p → values rank' a' b' = some p' →
    dim.coord p < dim.coord p' →
    rank < rank' ∨ rank = rank' ∧ dim.coord (a, b) < dim.coord (a', b')
  inHalf : ∀ rank, (values rank).Within (M.target r dim s)
  apart : ∀ rank a b p, values rank a b = some p → ∀ s', s ≠ s' → s ≠ .w2 → s' ≠ .w2 →
    ¬ (M.target r dim s').Mem a b
  padding : ∀ rank a b p, values rank a b = some p →
    let offset := (a - (M.target r dim s).row, b - (M.target r dim s).col)
    dim.coord offset < m.size dim / M.tpSize ∧
      dim.other.coord offset < m.size dim.other

/-- Some rank refuses the tensor, or what the ranks receive of it is what they receive of its
positions, and that is all of them. -/
def NothingLost (M : FusedMoEConfig) (r : Region) (dim : Dim) (s : Shard) (m : Mat ρ) : Prop :=
  (∃ rank e, M.loadAt r dim s m rank = .error e) ∨
    ∃ values, (∀ rank, M.loadAt r dim s (.positions m.rows m.cols) rank = .ok (values rank)) ∧
      (∀ rank, M.loadAt r dim s m rank = .ok ((values rank).map fun p => m.get p.1 p.2)) ∧
      SharedOut M r dim s (.positions m.rows m.cols) values

/-- A part of a rank is too large for its target. -/
def FusedMoEConfig.TooLarge (M : FusedMoEConfig) (r : Region) (dim : Dim) (s : Shard)
    (m : Mat ρ) : Prop :=
  let target := M.target r dim s
  let perRank := m.size dim / M.tpSize
  (s = .w3 ∧ r.size dim < M.shardSize (r.size dim) + M.shardSize (r.size dim)) ∨
    (target.size dim < perRank ∧ perRank ≠ 1) ∨
    (target.size dim.other < m.size dim.other ∧ m.size dim.other ≠ 1)

/-- The ranks' parts make up the tensor, and there is room for them. -/
def FusedMoEConfig.EvenlyShared (M : FusedMoEConfig) (r : Region) (dim : Dim) (s : Shard)
    (m : Mat ρ) : Prop :=
  let target := M.target r dim s
  M.tpSize ∣ m.size dim ∧ m.size dim / M.tpSize ≤ target.size dim ∧
    m.size dim.other ≤ target.size dim.other

instance (M : FusedMoEConfig) (r : Region) (dim : Dim) (s : Shard) (m : Mat ρ) :
    Decidable (M.TooLarge r dim s m) :=
  inferInstanceAs (Decidable (_ ∨ _ ∨ _))

instance (M : FusedMoEConfig) (r : Region) (dim : Dim) (s : Shard) (m : Mat ρ) :
    Decidable (M.EvenlyShared r dim s m) :=
  inferInstanceAs (Decidable (_ ∧ _ ∧ _))

section ranks

variable {M : FusedMoEConfig} {r : Region} {dim : Dim} {s : Shard}

/-- A part fits its target unless it is too large. -/
theorem fits_rankSlice_iff (M : FusedMoEConfig) (m : Mat ρ) :
    (s = .w3 → M.shardSize (r.size dim) + M.shardSize (r.size dim) ≤ r.size dim) ∧
        (M.target r dim s).Fits (M.rankSlice dim m) ↔ ¬ M.TooLarge r dim s m := by
  rw [fits_iff dim, FusedMoEConfig.rankSlice, slice_size, slice_size_other]
  simp only [FusedMoEConfig.TooLarge, not_or, not_and, Nat.not_lt]
  refine and_congr_right fun _ => ?_
  omega

theorem loadAt_eq_ok {m : Mat ρ} (hsize : 0 < m.size dim) {rank : Fin M.tpSize}
    {values : Values ρ} :
    M.loadAt r dim s m rank = .ok values ↔
      ¬ M.TooLarge r dim s m ∧
        values = ((M.target r dim s).crop ((M.atRank rank).rankSlice dim m)).fill
          ((M.atRank rank).rankSlice dim m) := by
  rw [FusedMoEConfig.loadAt, load_eq_ok _ _ _ _ hsize, ← and_assoc]
  exact and_congr_left fun _ => fits_rankSlice_iff (M.atRank rank) m

/-- All ranks refuse a tensor, or none. -/
theorem loadAt_ok_iff {m : Mat ρ} (hsize : 0 < m.size dim) (rank : Fin M.tpSize) :
    (∃ values, M.loadAt r dim s m rank = .ok values) ↔ ¬ M.TooLarge r dim s m := by
  simp [loadAt_eq_ok hsize]

theorem crop_mem_iff (dim : Dim) (r : Region) (m : Mat ρ) (a b : Nat) :
    (r.crop m).Mem a b ↔ (r.row ≤ a ∧ r.col ≤ b) ∧
      dim.coord (a - r.row, b - r.col) < min (r.size dim) (m.size dim) ∧
      dim.other.coord (a - r.row, b - r.col) < min (r.size dim.other) (m.size dim.other) := by
  cases dim <;>
    simp only [Region.Mem, Region.crop, Dim.coord, Dim.other, Region.size, Mat.size] <;> omega

theorem crop_sub (r : Region) (m : Mat ρ) : (r.crop m).Sub r := by
  intro a b hmem
  simp only [Region.Mem, Region.crop] at hmem ⊢
  omega

theorem slice_positions_get (dim : Dim) (trows tcols start length i j : Nat) (p : Nat × Nat) :
    ((Mat.positions trows tcols).slice dim start length).get i j = p ↔
      dim.coord p = start + dim.coord (i, j) ∧ dim.other.coord p = dim.other.coord (i, j) := by
  obtain ⟨i', j'⟩ := p
  cases dim <;>
    simp only [Mat.slice, Mat.positions, Dim.coord, Dim.other, Prod.mk.injEq] <;> omega

/-- What a rank loads of a shard stays in the shard's half of the parameter. -/
theorem loadAt_within {m : Mat ρ} (hsize : 0 < m.size dim) {rank : Fin M.tpSize}
    {values : Values ρ} (hload : M.loadAt r dim s m rank = .ok values) :
    values.Within (M.target r dim s) := by
  intro a b hmem
  rw [((loadAt_eq_ok hsize).1 hload).2]
  exact Region.fill_eq_none fun hcrop => hmem (crop_sub _ _ _ _ hcrop)

/-- Which position a cell has received. -/
theorem loadAt_eq_some {trows tcols : Nat} (hsize : 0 < (Mat.positions trows tcols).size dim)
    {rank : Fin M.tpSize} {values : Values (Nat × Nat)}
    (hload : M.loadAt r dim s (Mat.positions trows tcols) rank = .ok values) {a b : Nat}
    {p : Nat × Nat} :
    let target := M.target r dim s
    let size := (Mat.positions trows tcols).size
    let offset := (a - target.row, b - target.col)
    values a b = some p ↔
      ((target.row ≤ a ∧ target.col ≤ b) ∧
      dim.coord offset < min (target.size dim) (size dim / M.tpSize) ∧
      dim.other.coord offset <
        min (target.size dim.other) (size dim.other)) ∧
      dim.coord p = size dim / M.tpSize * rank + dim.coord offset ∧
      dim.other.coord p = dim.other.coord offset := by
  intro target size offset
  rw [((loadAt_eq_ok hsize).1 hload).2, crop_fill, Option.ite_none_right_eq_some,
    Option.some.injEq, crop_mem_iff dim, FusedMoEConfig.rankSlice, slice_positions_get,
    slice_size, slice_size_other]
  rfl

/-- Blocks of one length do not overlap. -/
theorem block_unique {n k k' x y : Nat} (hx : x < n) (hy : y < n)
    (h : n * k + x = n * k' + y) : k = k' ∧ x = y := by
  have hk := congrArg (· / n) h
  simp only [Nat.mul_add_div (Nat.zero_lt_of_lt hx), Nat.div_eq_of_lt hx, Nat.div_eq_of_lt hy,
    Nat.add_zero] at hk
  subst hk
  exact ⟨rfl, by omega⟩

/-- Positions of blocks of one length are ordered by block, then by offset. -/
theorem block_order {n k k' x y : Nat} (hy : y < n) (h : n * k + x < n * k' + y) :
    k < k' ∨ k = k' ∧ x < y := by
  by_cases hk : k' ≤ k
  · have hle := Nat.mul_le_mul_left n hk
    by_cases heq : k = k'
    · subst heq
      exact .inr ⟨rfl, by omega⟩
    · have hsucc := Nat.mul_le_mul_left n (show k' + 1 ≤ k by omega)
      rw [Nat.mul_succ] at hsucc
      omega
  · exact .inl (by omega)

/-- Blocks of length `n / k` cover `n` positions only if `k` divides `n`. -/
theorem dvd_of_blocks_cover {n k room : Nat} (hn : 0 < n)
    (h : ∀ x < n, ∃ b < k, ∃ y < n / k, x = n / k * b + y ∧ y < room) :
    k ∣ n ∧ n / k ≤ room := by
  have hdiv : n / k * k ≤ n := Nat.div_mul_le_self n k
  constructor
  · obtain ⟨b, hb, y, hy, hlast, -⟩ := h (n - 1) (by omega)
    have hle := Nat.mul_le_mul_left (n / k) (Nat.succ_le_of_lt hb)
    rw [Nat.mul_succ] at hle
    exact ⟨n / k, by rw [Nat.mul_comm]; omega⟩
  · by_contra hlt
    have hself : n / k ≤ n := Nat.div_le_self n k
    obtain ⟨b, -, y, hy, hlast, hroom⟩ := h (n / k - 1) (by omega)
    have hzero : b = 0 := by
      by_contra hne
      have hle := Nat.mul_le_mul_left (n / k) (Nat.one_le_iff_ne_zero.2 hne)
      omega
    rw [hzero] at hlast
    omega

/-- What the ranks receive of a tensor, from what they receive of its positions. -/
theorem loadAt_of_positions {m : Mat ρ} {rank : Fin M.tpSize} {values : Values (Nat × Nat)}
    (hload : M.loadAt r dim s (.positions m.rows m.cols) rank = .ok values) :
    M.loadAt r dim s m rank = .ok (values.map fun p => m.get p.1 p.2) := by
  have hmap := load_map (M.atRank rank) (fun p => m.get p.1 p.2) r dim s (.positions m.rows m.cols)
  exact hmap.trans (congrArg _ hload)

section SharedOut

variable {trows tcols : Nat} {values : Fin M.tpSize → Values (Nat × Nat)}

/-- Every pair of coordinates is one of a position. -/
theorem SharedOut.covered_coord (h : SharedOut M r dim s (.positions trows tcols) values)
    {x y : Nat} (hx : x < (Mat.positions trows tcols).size dim)
    (hy : y < (Mat.positions trows tcols).size dim.other) :
    ∃ rank a b p, values rank a b = some p ∧ dim.coord p = x ∧
      dim.other.coord p = y := by
  cases dim with
  | zero =>
    obtain ⟨rank, a, b, hab⟩ := h.covered x hx y hy
    exact ⟨rank, a, b, _, hab, rfl, rfl⟩
  | one =>
    obtain ⟨rank, a, b, hab⟩ := h.covered y hy x hx
    exact ⟨rank, a, b, _, hab, rfl, rfl⟩

/-- What is shared out wholly is shared out evenly: the last index is on some rank, and only the
ranks' parts are. -/
theorem SharedOut.evenlyShared (h : SharedOut M r dim s (.positions trows tcols) values)
    (hsize : 0 < (Mat.positions trows tcols).size dim)
    (hother : 0 < (Mat.positions trows tcols).size dim.other)
    (hload : ∀ rank, M.loadAt r dim s (.positions trows tcols) rank = .ok (values rank)) :
    M.EvenlyShared r dim s (Mat.positions trows tcols) := by
  -- the cell of a position, in coordinates
  have hcell : ∀ x < (Mat.positions trows tcols).size dim,
      ∀ y < (Mat.positions trows tcols).size dim.other, ∃ rank < M.tpSize,
      ∃ k < (Mat.positions trows tcols).size dim / M.tpSize,
        x = (Mat.positions trows tcols).size dim / M.tpSize * rank + k ∧
        k < (M.target r dim s).size dim ∧
        y < (M.target r dim s).size dim.other := by
    intro x hx y hy
    obtain ⟨rank, a, b, p, hab, rfl, rfl⟩ := h.covered_coord hx hy
    obtain ⟨⟨-, hk, ho⟩, hx', hy'⟩ := (loadAt_eq_some hsize (hload rank)).1 hab
    exact ⟨rank, rank.isLt, _, (Nat.lt_min.1 hk).2, hx', (Nat.lt_min.1 hk).1,
      hy' ▸ (Nat.lt_min.1 ho).1⟩
  have hblocks := dvd_of_blocks_cover hsize fun x hx => by
    obtain ⟨rank, hrank, k, hk, hx', hroom, -⟩ := hcell x hx 0 hother
    exact ⟨rank, hrank, k, hk, hx', hroom⟩
  obtain ⟨_, _, _, _, _, _, hroom⟩ := hcell 0 hsize _ (Nat.sub_lt hother Nat.one_pos)
  exact ⟨hblocks.1, hblocks.2, Nat.le_of_pred_lt hroom⟩

/-- A cell that has received something, in coordinates. -/
theorem SharedOut.of_cells
    (hsize : 0 < (Mat.positions trows tcols).size dim)
    (hload : ∀ rank, M.loadAt r dim s (.positions trows tcols) rank = .ok (values rank))
    (hcovered : ∀ i < trows, ∀ j < tcols, ∃ rank a b, values rank a b = some (i, j)) :
    SharedOut M r dim s (.positions trows tcols) values := by
  have hsome := fun rank a b p => loadAt_eq_some (a := a) (b := b) (p := p) hsize (hload rank)
  dsimp only at hsome
  refine ⟨hcovered, ?_, ?_, ?_, fun rank => loadAt_within hsize (hload rank), ?_, ?_⟩
  · intro rank a b p rank' a' b' p' hab hab' heq
    obtain ⟨⟨_, hk, _⟩, hx, _⟩ := (hsome _ _ _ _).1 hab
    obtain ⟨⟨_, hk', _⟩, hx', _⟩ := (hsome _ _ _ _).1 hab'
    rw [hx, hx'] at heq
    exact Fin.ext (block_unique (Nat.lt_min.1 hk).2 (Nat.lt_min.1 hk').2 heq).1
  · intro rank a b rank' a' b' p hab hab'
    obtain ⟨⟨_, hk, _⟩, hx, hy⟩ := (hsome _ _ _ _).1 hab
    obtain ⟨⟨_, hk', _⟩, hx', hy'⟩ := (hsome _ _ _ _).1 hab'
    have hoffset := coord_ext dim
      (block_unique (Nat.lt_min.1 hk).2 (Nat.lt_min.1 hk').2 (hx ▸ hx')).2 (hy ▸ hy')
    rw [Prod.mk.injEq] at hoffset ⊢
    omega
  · intro rank a b p rank' a' b' p' hab hab' hlt
    obtain ⟨⟨_, hk, _⟩, hx, _⟩ := (hsome _ _ _ _).1 hab
    obtain ⟨⟨_, hk', _⟩, hx', _⟩ := (hsome _ _ _ _).1 hab'
    rw [hx, hx'] at hlt
    obtain hrank | ⟨hrank, hoffset⟩ := block_order (Nat.lt_min.1 hk').2 hlt
    · exact .inl hrank
    · refine .inr ⟨Fin.ext hrank, ?_⟩
      cases dim <;> simp only [Dim.coord] at hoffset ⊢ <;> omega
  · intro rank a b p hab s' hne hs hs' hin
    have hin' : (M.target r dim s).Mem a b := by
      by_contra hout
      exact nomatch hab.symm.trans (loadAt_within hsize (hload rank) a b hout)
    cases s <;> cases s' <;> simp only [ne_eq, reduceCtorEq, not_true_eq_false, not_false_eq_true]
      at hne hs hs' <;> cases dim <;>
      simp only [FusedMoEConfig.target, Region.slice, Region.Mem] at hin hin' <;> omega
  · intro rank a b p hab
    obtain ⟨⟨_, hk, ho⟩, _⟩ := (hsome _ _ _ _).1 hab
    exact ⟨(Nat.lt_min.1 hk).2, (Nat.lt_min.1 ho).2⟩

/-- What is shared out evenly is shared out wholly: index `x` is on rank `x / perRank`. -/
theorem SharedOut.of_evenlyShared (h : M.EvenlyShared r dim s (Mat.positions trows tcols))
    (hsize : 0 < (Mat.positions trows tcols).size dim)
    (hload : ∀ rank, M.loadAt r dim s (.positions trows tcols) rank = .ok (values rank)) :
    SharedOut M r dim s (.positions trows tcols) values := by
  obtain ⟨hdvd, hroom, hroom'⟩ := h
  refine .of_cells hsize hload ?_
  intro i hi j hj
  have hx : dim.coord (i, j) < (Mat.positions trows tcols).size dim := by
    cases dim
    · exact hi
    · exact hj
  have hy : dim.other.coord (i, j) <
      (Mat.positions trows tcols).size dim.other := by
    cases dim
    · exact hj
    · exact hi
  obtain ⟨perRank, hperRank⟩ :
      ∃ n, n = (Mat.positions trows tcols).size dim / M.tpSize := ⟨_, rfl⟩
  have hmul : perRank * M.tpSize = (Mat.positions trows tcols).size dim :=
    hperRank ▸ Nat.div_mul_cancel hdvd
  have hpos : 0 < perRank := Nat.pos_of_mul_pos_right (hmul ▸ hsize)
  have hrank : dim.coord (i, j) / perRank < M.tpSize :=
    Nat.div_lt_of_lt_mul (hmul ▸ hx)
  obtain ⟨offset, hoffset, hoffset'⟩ := exists_coord dim
    (dim.coord (i, j) % perRank) (dim.other.coord (i, j))
  refine ⟨⟨_, hrank⟩, (M.target r dim s).row + offset.1,
    (M.target r dim s).col + offset.2, (loadAt_eq_some hsize (hload _)).2 ?_⟩
  simp only [Nat.add_sub_cancel_left, Prod.mk.eta, hoffset, hoffset', Nat.le_add_right, true_and,
    Nat.lt_min, ← hperRank, Nat.div_add_mod, and_true]
  have hmod := Nat.mod_lt (dim.coord (i, j)) hpos
  omega

theorem SharedOut.of_empty (hother : (Mat.positions trows tcols).size dim.other = 0)
    (hsize : 0 < (Mat.positions trows tcols).size dim)
    (hload : ∀ rank, M.loadAt r dim s (.positions trows tcols) rank = .ok (values rank)) :
    SharedOut M r dim s (.positions trows tcols) values := by
  refine .of_cells hsize hload ?_
  intro i hi j hj
  cases dim <;> simp only [Dim.other, Mat.size, Mat.positions] at hother <;> omega

end SharedOut

/-- **The ranks lose nothing of a tensor exactly when they refuse it or share it evenly.** -/
theorem nothingLost_iff (M : FusedMoEConfig) (r : Region) (dim : Dim) (s : Shard) (m : Mat ρ)
    (hsize : 0 < m.size dim) :
    NothingLost M r dim s m ↔
      M.TooLarge r dim s m ∨ m.size dim.other = 0 ∨ M.EvenlyShared r dim s m := by
  constructor
  · rintro (⟨rank, e, herror⟩ | ⟨values, hload, -, hshared⟩)
    · refine .inl (by_contra fun hlarge => ?_)
      obtain ⟨values, hvalues⟩ := (loadAt_ok_iff hsize rank).2 hlarge
      exact nomatch herror.symm.trans hvalues
    · refine .inr ((Nat.eq_zero_or_pos _).imp_right fun hother => ?_)
      exact hshared.evenlyShared hsize hother hload
  · intro h
    by_cases hlarge : M.TooLarge r dim s m
    · -- the rank at hand refuses the tensor
      obtain ⟨rank⟩ : Nonempty (Fin M.tpSize) := ⟨⟨M.tpRank, M.tpRank_lt⟩⟩
      cases hload : M.loadAt r dim s m rank with
      | error e => exact .inl ⟨rank, e, hload⟩
      | ok values => exact absurd hlarge ((loadAt_ok_iff hsize rank).1 ⟨values, hload⟩)
    · obtain ⟨values, hload⟩ := Classical.skolem.1 fun rank =>
        (loadAt_ok_iff (m := Mat.positions m.rows m.cols) hsize rank).2 hlarge
      refine .inr ⟨values, hload, fun rank => loadAt_of_positions (hload rank), ?_⟩
      cases h.resolve_left hlarge with
      | inl hother => exact .of_empty hother hsize hload
      | inr heven => exact .of_evenlyShared heven hsize hload

end ranks

/-- Two ranks of a gated layer. -/
def twoRanks : FusedMoEConfig where
  numExperts := 1
  numLogicalExperts := 1
  numLocalExperts := 1
  tpSize := 2
  tpRank := 0
  isActAndMul := true
  tpRank_lt := Nat.two_pos

/-- Four rows are shared out. -/
theorem nothingLost_four_rows :
    NothingLost twoRanks (.whole 4 1) .zero .w1 (Mat.positions 4 1) :=
  (nothingLost_iff twoRanks (.whole 4 1) .zero .w1 (.positions 4 1) (by decide)).2
    (.inr (.inr (by decide)))

/-- Of three rows, the third is on no rank, and no rank raises. -/
theorem third_row_lost :
    (∀ rank, ∃ values, twoRanks.loadAt (.whole 4 1) .zero .w1 (.positions 3 1) rank = .ok values ∧
      ∀ a b, values a b ≠ some (2, 0)) ∧
    ¬ NothingLost twoRanks (.whole 4 1) .zero .w1 (.positions 3 1) := by
  have hfits : ¬ twoRanks.TooLarge (.whole 4 1) .zero .w1 (.positions 3 1) := by decide
  have hload : ∀ rank, ∃ values,
      twoRanks.loadAt (.whole 4 1) .zero .w1 (.positions 3 1) rank = .ok values :=
    fun rank => (loadAt_ok_iff (by decide) rank).2 hfits
  constructor
  · intro rank
    obtain ⟨values, hvalues⟩ := hload rank
    refine ⟨values, hvalues, fun a b hab => ?_⟩
    obtain ⟨⟨-, hk, -⟩, hx, -⟩ := (loadAt_eq_some (by decide) hvalues).1 hab
    simp only [Dim.coord] at hk hx
    have hrank := rank.isLt
    simp only [twoRanks] at hrank
    change 2 = 1 * (rank : Nat) + _ at hx
    change _ < 1 at hk
    omega
  · rintro (⟨rank, e, herror⟩ | ⟨values, hvalues, -, hshared⟩)
    · obtain ⟨values, hvalues⟩ := hload rank
      exact nomatch herror.symm.trans hvalues
    · have heven := hshared.evenlyShared (by decide) (by decide) hvalues
      exact absurd heven.1 (by decide)

end FlashNext
