import FlashNext.Moe.Layouts
import FlashNext.Moe.Faithful

/-!
# FlashNext.Moe.Tiles

Tensors of which an entry serves a tile of a matrix.

A packed weight holds some neighbouring inputs, a scale belongs to a block of outputs and inputs.
When the ranks are cut between whole tiles (`Tile.Cuts`), the loader stores on each rank the
entries of the tiles of its slice:

* `load_tiled` — what the loader makes of a tensor of tiles;
* `write_tiled` — where a rank reads the entry of an output and an input of its slice.
-/

namespace FlashNext

variable {α ρ : Type}

/-- The outputs and inputs that one entry of a tensor serves. -/
structure Tile where
  outputs : Nat
  inputs : Nat
  outputs_pos : 0 < outputs
  inputs_pos : 0 < inputs

/-- The size of the tile along a dimension of the tensor. -/
def Tile.size (T : Tile) : Dim → Nat
  | .zero => T.outputs
  | .one => T.inputs

theorem Tile.size_pos (T : Tile) (dim : Dim) : 0 < T.size dim := by
  cases dim with
  | zero => exact T.outputs_pos
  | one => exact T.inputs_pos

/-- The ranks' slices of a shard consist of whole tiles. -/
structure Tile.Cuts (T : Tile) (L : RoutedExperts α) (s : Shard) : Prop where
  sharded : T.size s.shardedDim ∣ L.intermediateSizePerPartition
  other : T.size s.shardedDim.other ∣ L.hiddenSize

/-- A tensor has the tiles of a shard's matrix. -/
structure Tiled (L : RoutedExperts α) (T : Tile) (s : Shard) (m : Mat ρ) : Prop where
  rows : m.rows = s.outputs L.hiddenSize L.intermediateSize / T.outputs
  cols : m.cols = s.inputs L.hiddenSize L.intermediateSize / T.inputs

namespace RoutedExperts

/-- The shape of an expert's slot in the parameter that a shard's tiles are loaded into. -/
def tileWhole (L : RoutedExperts α) (T : Tile) (s : Shard) : Region :=
  let perRank := L.intermediateSizePerPartition
  match s with
  | .w1 | .w3 => Region.whole (2 * (perRank / T.outputs)) (L.hiddenSize / T.inputs)
  | .w2 => Region.whole (L.hiddenSize / T.outputs) (perRank / T.inputs)

/-- The part of the slot that a shard's tiles have. -/
def tileRect (L : RoutedExperts α) (T : Tile) (s : Shard) : Region :=
  let perRank := L.intermediateSizePerPartition
  ⟨s.firstRow (perRank / T.outputs), 0, s.outputs (L.hiddenSize / T.outputs) (perRank / T.outputs),
    s.inputs (L.hiddenSize / T.inputs) (perRank / T.inputs)⟩

/-- The tiles of a rank's slice. -/
def rankTiles (L : RoutedExperts α) (T : Tile) (s : Shard) (m : Mat ρ) : Mat ρ :=
  let perRank := L.intermediateSizePerPartition / T.size s.shardedDim
  m.slice s.shardedDim (perRank * L.moeConfig.tpRank) perRank

end RoutedExperts

section tiles

variable {L : RoutedExperts α} {T : Tile} {s : Shard} {m : Mat ρ}

/-- The tiles of the whole dimension are those of all ranks. -/
theorem tiles_mul (ranks : Nat) {d perRank : Nat} (hd : 0 < d) (hdvd : d ∣ perRank) :
    perRank * ranks / d = perRank / d * ranks := by
  obtain ⟨c, rfl⟩ := hdvd
  rw [Nat.mul_assoc, Nat.mul_div_cancel_left _ hd, Nat.mul_div_cancel_left _ hd]

/-- **The loader fills the shard's part with the tiles of the rank's slice.** -/
theorem load_tiled (hgated : L.moeConfig.isActAndMul = true) (hcuts : T.Cuts L s)
    (hm : Tiled L T s m) :
    L.moeConfig.loadModelWeightOrGroupWeightScale (L.tileWhole T s) s.shardedDim s m =
      .ok ((L.tileRect T s).fill (L.rankTiles T s m)) := by
  have hshare := tiles_mul L.moeConfig.tpSize (T.size_pos _) hcuts.sharded
  cases s with
  | w1 => exact loadW13_of_even hgated (hm.rows.trans hshare) hm.cols nofun
  | w2 => exact loadW2_of_even (hm.cols.trans hshare) hm.rows
  | w3 => exact loadW13_of_even hgated (hm.rows.trans hshare) hm.cols nofun

/-- The tiles of a rank's slice fill its part. -/
theorem rankTiles_shape (hm : Tiled L T s m) :
    (L.rankTiles T s m).rows = (L.tileRect T s).rows ∧
      (L.rankTiles T s m).cols = (L.tileRect T s).cols := by
  cases s with
  | w1 => exact ⟨rfl, hm.cols⟩
  | w2 => exact ⟨hm.rows, rfl⟩
  | w3 => exact ⟨rfl, hm.cols⟩

/-- The tile of an output and an input of the rank's slice. -/
theorem rankTiles_get (hcuts : T.Cuts L s) (m : Mat ρ) (n k : Nat) :
    (L.rankTiles T s m).get (n / T.outputs) (k / T.inputs) =
      m.get (s.globalOutput L.intermediateSizePerPartition L.moeConfig.tpRank n / T.outputs)
        (s.globalInput L.intermediateSizePerPartition L.moeConfig.tpRank k / T.inputs) := by
  have hbehind := fun i => (div_behind_slice (T.size_pos _) hcuts.sharded L.moeConfig.tpRank i).1
  cases s with
  | w1 => exact congrArg (m.get · _) (hbehind n).symm
  | w2 => exact congrArg (m.get _) (hbehind k).symm
  | w3 => exact congrArg (m.get · _) (hbehind n).symm

/-- The position of the tile in the slot. -/
theorem tileRect_mem (hcuts : T.Cuts L s) {n k : Nat}
    (hn : n < s.outputs L.hiddenSize L.intermediateSizePerPartition)
    (hk : k < s.inputs L.hiddenSize L.intermediateSizePerPartition) :
    (s.firstRow L.intermediateSizePerPartition + n) / T.outputs =
        (L.tileRect T s).row + n / T.outputs ∧
      n / T.outputs < (L.tileRect T s).rows ∧ k / T.inputs < (L.tileRect T s).cols := by
  have hrow : n / T.outputs < (L.tileRect T s).rows ∧ k / T.inputs < (L.tileRect T s).cols := by
    obtain ⟨hsharded, hother⟩ := hcuts
    cases s with
    | w1 => exact ⟨Nat.div_lt_div_of_lt_of_dvd hsharded hn, Nat.div_lt_div_of_lt_of_dvd hother hk⟩
    | w2 => exact ⟨Nat.div_lt_div_of_lt_of_dvd hother hn, Nat.div_lt_div_of_lt_of_dvd hsharded hk⟩
    | w3 => exact ⟨Nat.div_lt_div_of_lt_of_dvd hsharded hn, Nat.div_lt_div_of_lt_of_dvd hother hk⟩
  refine ⟨?_, hrow⟩
  cases s with
  | w1 => exact (congrArg (· / T.outputs) (Nat.zero_add n)).trans (Nat.zero_add _).symm
  | w2 => exact (congrArg (· / T.outputs) (Nat.zero_add n)).trans (Nat.zero_add _).symm
  | w3 =>
    have hbehind := (div_behind_slice T.outputs_pos hcuts.sharded 1 n).1
    rw [Nat.mul_one, Nat.mul_one] at hbehind
    exact hbehind

/-- What is read at the tile of an output and an input, where the shard's part is filled. -/
theorem write_tileRect (hcuts : T.Cuts L s) {tiles : Mat (Elem α)}
    (hr : tiles.rows = (L.tileRect T s).rows) (hc : tiles.cols = (L.tileRect T s).cols)
    (name : Str) (param : Param) (slot : Nat) {n k : Nat}
    (hn : n < s.outputs L.hiddenSize L.intermediateSizePerPartition)
    (hk : k < s.inputs L.hiddenSize L.intermediateSizePerPartition) :
    L.write name param slot ((L.tileRect T s).fill tiles)
        ⟨name, slot, (s.firstRow L.intermediateSizePerPartition + n) / T.outputs, k / T.inputs⟩ =
      some (L.dtypes.convert param.dtype (tiles.get (n / T.outputs) (k / T.inputs))) := by
  obtain ⟨hrow, hrows, hcols⟩ := tileRect_mem hcuts hn hk
  have hcol : (L.tileRect T s).col = 0 := rfl
  have hmem : (L.tileRect T s).Mem ((L.tileRect T s).row + n / T.outputs) (k / T.inputs) :=
    ⟨Nat.le_add_right _ _, Nat.add_lt_add_left hrows _, Nat.zero_le _,
      Nat.lt_of_lt_of_le hcols (Nat.le_add_left _ _)⟩
  rw [RoutedExperts.write, if_pos ⟨rfl, rfl⟩, hrow, Region.fill_eq_some hr hc hmem,
    Nat.add_sub_cancel_left, hcol, Nat.sub_zero, Option.map_some]

/-- **What a rank reads at the tile of an output and an input of its slice.** -/
theorem write_tiled (hcuts : T.Cuts L s) {m : Mat (Elem α)} (hm : Tiled L T s m) (name : Str)
    (param : Param) (slot : Nat) {n k : Nat}
    (hn : n < s.outputs L.hiddenSize L.intermediateSizePerPartition)
    (hk : k < s.inputs L.hiddenSize L.intermediateSizePerPartition) :
    L.write name param slot ((L.tileRect T s).fill (L.rankTiles T s m))
        ⟨name, slot, (s.firstRow L.intermediateSizePerPartition + n) / T.outputs, k / T.inputs⟩ =
      some (L.dtypes.convert param.dtype
        (m.get (s.globalOutput L.intermediateSizePerPartition L.moeConfig.tpRank n / T.outputs)
          (s.globalInput L.intermediateSizePerPartition L.moeConfig.tpRank k / T.inputs))) := by
  obtain ⟨hr, hc⟩ := rankTiles_shape hm
  rw [write_tileRect hcuts hr hc name param slot hn hk, rankTiles_get hcuts]

/-- An output and an input have the same place in the tile of the slice and in that of the whole
matrix. -/
theorem mod_tile (hcuts : T.Cuts L s) (n k : Nat) :
    (s.firstRow L.intermediateSizePerPartition + n) % T.outputs =
        s.globalOutput L.intermediateSizePerPartition L.moeConfig.tpRank n % T.outputs ∧
      k % T.inputs =
        s.globalInput L.intermediateSizePerPartition L.moeConfig.tpRank k % T.inputs := by
  have hbehind := fun rank i => (div_behind_slice (T.size_pos _) hcuts.sharded rank i).2
  cases s with
  | w1 => exact ⟨(congrArg (· % T.outputs) (Nat.zero_add n)).trans (hbehind _ n).symm, rfl⟩
  | w2 => exact ⟨congrArg (· % T.outputs) (Nat.zero_add n), (hbehind _ k).symm⟩
  | w3 =>
    have hup := hbehind 1 n
    rw [Nat.mul_one] at hup
    exact ⟨hup.trans (hbehind _ n).symm, rfl⟩

theorem rankInput_lt {k : Nat} (hk : k < s.inputs L.hiddenSize L.intermediateSizePerPartition) :
    s.globalInput L.intermediateSizePerPartition L.moeConfig.tpRank k <
      s.inputs L.hiddenSize L.intermediateSize := by
  cases s with
  | w1 | w3 => exact hk
  | w2 => exact intermediate_lt L hk

theorem rankOutput_lt {n : Nat}
    (hn : n < s.outputs L.hiddenSize L.intermediateSizePerPartition) :
    s.globalOutput L.intermediateSizePerPartition L.moeConfig.tpRank n <
      s.outputs L.hiddenSize L.intermediateSize := by
  cases s with
  | w1 | w3 => exact intermediate_lt L hn
  | w2 => exact hn

/-- The parts of gate and up do not meet. -/
theorem tileRect_disjoint {s' : Shard} (hs : s ≠ s') (hw2 : s = .w2 ↔ s' = .w2) {i j : Nat}
    (h : (L.tileRect T s).Mem i j) : ¬ (L.tileRect T s').Mem i j := by
  cases s <;> cases s' <;>
    simp_all only [RoutedExperts.tileRect, Region.Mem, Shard.firstRow, Shard.outputs,
      ne_eq, reduceCtorEq, not_true_eq_false, iff_false, not_false_eq_true, iff_self] <;> omega

/-- Tensors of different parameters or shards are written to different cells. -/
theorem write_tiles_disjoint {name name' : Str} {param param' : Param} {slot : Nat} {T' : Tile}
    {s' : Shard} {m m' : Mat (Elem α)}
    (h : name = name' → T = T' ∧ s ≠ s' ∧ (s = .w2 ↔ s' = .w2)) :
    Patch.Disjoint (L.write name param slot ((L.tileRect T s).fill m))
      (L.write name' param' slot ((L.tileRect T' s').fill m')) := by
  intro cell
  by_cases hcell : cell.param = name ∧ cell.expert = slot ∧
      (L.tileRect T s).Mem cell.row cell.col
  · obtain ⟨hname, -, hmem⟩ := hcell
    right
    rw [RoutedExperts.write]
    split
    · next hcell =>
      obtain ⟨rfl, hs, hw2⟩ := h (hname.symm.trans hcell.1)
      rw [Region.fill_eq_none (tileRect_disjoint hs hw2 hmem), Option.map_none]
    · rfl
  · left
    rw [RoutedExperts.write]
    split
    · next hin =>
      rw [Region.fill_eq_none fun hmem => hcell ⟨hin.1, hin.2, hmem⟩, Option.map_none]
    · rfl

end tiles

end FlashNext
