import FlashNext.Mat
import Mathlib.Data.BitVec
import Mathlib.Tactic.Ring

/-!
# FlashNext.Moe.Awq

The conversion of packed int4 tensors in `moe_wna16.py`.

An AWQ checkpoint packs eight columns of a row into one int32 word, in the order
`awqPackOrder`; the layer packs two rows of a column into one byte, the even row in
the low nibble.  `convertAwqTensor` goes from the one to the other, and

* `convertAwqTensor_qweight`, `convertAwqTensor_qzeros` — no entry is lost or moved.
-/

namespace FlashNext

variable {α : Type}

/-- An element of a tensor; `α` are the floats. -/
inductive Elem (α : Type) where
  | int32 (w : BitVec 32)
  | uint8 (b : BitVec 8)
  | float (x : α)
deriving DecidableEq, Repr

/-- A two-dimensional checkpoint tensor, which has one dtype. -/
inductive Tensor (α : Type) where
  | int32 (m : Mat (BitVec 32))
  | uint8 (m : Mat (BitVec 8))
  | float (m : Mat α)

/-- What the loaders need to know of dtypes: the bytes of a float, and what `copy_` makes of an
element in a `torch.uint8` parameter and in one of `params_dtype`. -/
structure Dtypes (α : Type) where
  itemsize : Nat
  bytes : α → Nat → BitVec 8
  toUint8 : Elem α → BitVec 8
  toParams : Elem α → α
  toUint8_uint8 : ∀ b, toUint8 (.uint8 b) = b

/-- Byte `i` of a word, the lowest first. -/
def wordByte (w : BitVec 32) (i : Nat) : BitVec 8 := w.extractLsb' (8 * i) 8

namespace Tensor

/-- The entries without their common dtype. -/
def elems : Tensor α → Mat (Elem α)
  | .int32 m => m.map .int32
  | .uint8 m => m.map .uint8
  | .float m => m.map .float

/-- `.T` -/
def T : Tensor α → Tensor α
  | .int32 m => .int32 m.T
  | .uint8 m => .uint8 m.T
  | .float m => .float m.T

/-- `.view(torch.uint8)` -/
def viewUint8 (D : Dtypes α) : Tensor α → Mat (BitVec 8)
  | .int32 m => ⟨m.rows, 4 * m.cols, fun i j => wordByte (m.get i (j / 4)) (j % 4)⟩
  | .uint8 m => m
  | .float m =>
    ⟨m.rows, D.itemsize * m.cols, fun i j => D.bytes (m.get i (j / D.itemsize)) (j % D.itemsize)⟩

end Tensor

/-- `(tensor[:, :, None] >> shifter) & 0xF`, the two nibbles of a byte side by side. -/
def unpackNibbles (m : Mat (BitVec 8)) : Mat (BitVec 8) :=
  ⟨m.rows, 2 * m.cols, fun i j => (m.get i (j / 2) >>> (4 * (j % 2))) &&& 0xF⟩

def reverseAwqPackOrder : List Nat := [0, 4, 1, 5, 2, 6, 3, 7]

/-- `tensor.view(-1, 8)[:, reverse_awq_pack_order]` in the old shape. -/
def unpermute (m : Mat (BitVec 8)) : Except PyError (Mat (BitVec 8)) :=
  if 8 ∣ m.rows * m.cols ∧ 0 < m.rows then
    .ok ⟨m.rows, m.cols, fun i j =>
      let p := i * m.cols + j
      let source := 8 * (p / 8) + reverseAwqPackOrder.getD (p % 8) 0
      m.get (source / m.cols) (source % m.cols)⟩
  else .error (.runtimeError "shape is invalid for input")

inductive TensorType where
  | qweight
  | qzeros
deriving DecidableEq, Repr

/-- The dimension along which a converted tensor holds two entries in a byte. -/
def TensorType.packedDim : TensorType → Dim
  | .qweight => .one
  | .qzeros => .zero

/-- Neighbours along `dim` in one byte, the even one in the low nibble. -/
def repack (m : Mat (BitVec 8)) (dim : Dim) : Except PyError (Mat (BitVec 8)) :=
  Mat.zipWith (fun high low => high * 16 + low) (m.everySecond dim 1) (m.everySecond dim 0)

def convertAwqTensor (D : Dtypes α) (tensor : Tensor α) (tensorType : TensorType) :
    Except PyError (Mat (BitVec 8)) := do
  let tensor ← unpermute (unpackNibbles (tensor.viewUint8 D))
  repack tensor.T tensorType.packedDim

def convertGptqInt4Qzeros (tensor : Mat (BitVec 8)) : Mat (BitVec 8) :=
  tensor.map fun (b : BitVec 8) => (((b >>> 0) &&& 0xF) + 1) + (((b >>> 4) &&& 0xF) + 1) * 16

/-! ## nibbles -/

/-- The low or the high half of a byte. -/
def nibble (b : BitVec 8) (i : Nat) : BitVec 4 := b.extractLsb' (4 * i) 4

/-- Nibble `i` of an AWQ word holds column `awqPackOrder[i]` of the eight. -/
def awqPackOrder : List Nat := [0, 2, 4, 6, 1, 3, 5, 7]

/-- The entry of column `col` of the eight columns in a word. -/
def awqNibble (w : BitVec 32) (col : Nat) : BitVec 4 :=
  w.extractLsb' (4 * awqPackOrder.idxOf col) 4

/-- The logical entry of a packed tensor. -/
def awqEntry (m : Mat (BitVec 32)) (i j : Nat) : BitVec 4 := awqNibble (m.get i (j / 8)) (j % 8)

theorem reverseAwqPackOrder_getD {col : Nat} (h : col < 8) :
    reverseAwqPackOrder.getD col 0 = awqPackOrder.idxOf col := by
  have : ∀ col < 8, reverseAwqPackOrder.getD col 0 = awqPackOrder.idxOf col := by decide
  exact this col h

theorem reverseAwqPackOrder_getD_lt {col : Nat} (h : col < 8) :
    reverseAwqPackOrder.getD col 0 < 8 := by
  have : ∀ col < 8, reverseAwqPackOrder.getD col 0 < 8 := by decide
  exact this col h

/-- Shifting and masking a byte cuts four bits out of it. -/
theorem shift_and_mask (b : BitVec 8) (s : Nat) :
    (b >>> s) &&& 0xF = (b.extractLsb' s 4).setWidth 8 := by
  have hmask : ∀ i < 8, (0xF : BitVec 8).getLsbD i = decide (i < 4) := by decide
  apply BitVec.eq_of_getLsbD_eq
  intro i hi
  simp only [BitVec.getLsbD_and, BitVec.getLsbD_ushiftRight, hmask i hi, BitVec.getLsbD_setWidth,
    BitVec.getLsbD_extractLsb', hi, decide_true, Bool.true_and, Bool.and_comm]

/-- A nibble of a byte of a word is a nibble of the word. -/
theorem extractLsb'_wordByte (w : BitVec 32) (p : Nat) :
    (wordByte w (p / 2)).extractLsb' (4 * (p % 2)) 4 = w.extractLsb' (4 * p) 4 := by
  ext i hi
  have hlt : 4 * (p % 2) + i < 8 := by omega
  have hadd : 8 * (p / 2) + (4 * (p % 2) + i) = 4 * p + i := by omega
  simp only [wordByte, BitVec.getElem_extractLsb', BitVec.getLsbD_extractLsb', hlt, hadd,
    decide_true, Bool.true_and]

/-- Two nibbles in one byte stay apart. -/
theorem nibble_repacked (high low : BitVec 4) {i : Nat} (hi : i < 2) :
    nibble (high.setWidth 8 * 16 + low.setWidth 8) i = if i = 0 then low else high := by
  have : ∀ high low : BitVec 4, ∀ i < 2,
      nibble (high.setWidth 8 * 16 + low.setWidth 8) i = if i = 0 then low else high := by decide
  exact this high low i hi

/-! ## the unpacked tensor -/

/-- The unpacked columns of a word are its nibbles, the lowest first. -/
theorem unpackNibbles_viewUint8 (D : Dtypes α) (m : Mat (BitVec 32)) (i j : Nat) :
    (unpackNibbles ((Tensor.int32 m).viewUint8 D)).get i j =
      ((m.get i (j / 8)).extractLsb' (4 * (j % 8)) 4).setWidth 8 := by
  show (wordByte (m.get i (j / 2 / 4)) (j / 2 % 4) >>> (4 * (j % 2))) &&& 0xF = _
  have hword : j / 2 / 4 = j / 8 := by omega
  have hbyte : j / 2 % 4 = j % 8 / 2 := by omega
  have hshift : j % 2 = j % 8 % 2 := by omega
  rw [hword, hbyte, hshift, shift_and_mask, extractLsb'_wordByte]

/-- The permutation stays within the eight columns of a word. -/
theorem unpermute_of_cols {m : Mat (BitVec 8)} {words : Nat} (hc : m.cols = 8 * words)
    (hr : 0 < m.rows) :
    ∃ o, unpermute m = .ok o ∧ o.rows = m.rows ∧ o.cols = m.cols ∧
      ∀ i, ∀ j < m.cols,
        o.get i j = m.get i (8 * (j / 8) + reverseAwqPackOrder.getD (j % 8) 0) := by
  have hdvd : 8 ∣ m.rows * m.cols := ⟨m.rows * words, by rw [hc]; ring⟩
  refine ⟨_, if_pos ⟨hdvd, hr⟩, rfl, rfl, ?_⟩
  intro i j hj
  have hlt := reverseAwqPackOrder_getD_lt (Nat.mod_lt j (by omega : 0 < 8))
  have hflat : i * m.cols + j = 8 * (i * words) + j := by rw [hc]; ring
  have hblock : (i * m.cols + j) / 8 = i * words + j / 8 := by omega
  have hplace : (i * m.cols + j) % 8 = j % 8 := by omega
  -- the source lies in row `i` again
  have hsource : 8 * (i * words + j / 8) + reverseAwqPackOrder.getD (j % 8) 0 =
      m.cols * i + (8 * (j / 8) + reverseAwqPackOrder.getD (j % 8) 0) := by rw [hc]; ring
  have hin : 8 * (j / 8) + reverseAwqPackOrder.getD (j % 8) 0 < m.cols := by omega
  simp only [hblock, hplace, hsource, Nat.mul_add_div (Nat.zero_lt_of_lt hin),
    Nat.div_eq_of_lt hin, Nat.add_zero, Nat.mul_add_mod, Nat.mod_eq_of_lt hin]

/-- Unpacked and put in order, an AWQ tensor has its logical entries. -/
theorem unpermute_unpackNibbles (D : Dtypes α) {m : Mat (BitVec 32)} (hr : 0 < m.rows) :
    ∃ o, unpermute (unpackNibbles ((Tensor.int32 m).viewUint8 D)) = .ok o ∧
      o.rows = m.rows ∧ o.cols = 8 * m.cols ∧
      ∀ i, ∀ j < 8 * m.cols, o.get i j = (awqEntry m i j).setWidth 8 := by
  have hc : (unpackNibbles ((Tensor.int32 m).viewUint8 D)).cols = 8 * m.cols := by
    show 2 * (4 * m.cols) = 8 * m.cols
    omega
  obtain ⟨o, ho, hrows, hcols, hget⟩ := unpermute_of_cols hc hr
  refine ⟨o, ho, hrows, hcols.trans hc, ?_⟩
  intro i j hj
  have hlt := reverseAwqPackOrder_getD_lt (Nat.mod_lt j (by omega : 0 < 8))
  have hword : (8 * (j / 8) + reverseAwqPackOrder.getD (j % 8) 0) / 8 = j / 8 := by omega
  have hplace : (8 * (j / 8) + reverseAwqPackOrder.getD (j % 8) 0) % 8 =
      awqPackOrder.idxOf (j % 8) := by
    rw [Nat.mul_add_mod, Nat.mod_eq_of_lt hlt, reverseAwqPackOrder_getD (Nat.mod_lt j (by omega))]
  rw [hget i j (hc ▸ hj), unpackNibbles_viewUint8, hword, hplace]
  rfl

/-! ## the converted tensor -/

theorem nibble_of_pair {b high low : BitVec 8} {h l : BitVec 4} (hb : b = high * 16 + low)
    (hh : high = h.setWidth 8) (hl : low = l.setWidth 8) {i : Nat} (hi : i < 2) :
    nibble b i = if i = 0 then l else h := by
  rw [hb, hh, hl, nibble_repacked h l hi]

/-- **A converted `qweight` tensor has the logical entry of row `k` and column `n` in row `n`,
in the low nibble of byte `k / 2` when `k` is even and in the high one otherwise.** -/
theorem convertAwqTensor_qweight (D : Dtypes α) {m : Mat (BitVec 32)} (hr : 0 < m.rows)
    (heven : 2 ∣ m.rows) :
    ∃ o, convertAwqTensor D (.int32 m) .qweight = .ok o ∧
      o.rows = 8 * m.cols ∧ o.cols = m.rows / 2 ∧
      ∀ n < 8 * m.cols, ∀ k < m.rows, nibble (o.get n (k / 2)) (k % 2) = awqEntry m k n := by
  obtain ⟨u, hu, hurows, hucols, huget⟩ := unpermute_unpackNibbles D hr
  have hhalf : ((u.T.everySecond .one 1).cols) = m.rows / 2 := by
    show (u.rows + 1 - 1) / 2 = m.rows / 2
    rw [hurows, Nat.add_sub_cancel]
  have hhalf' : ((u.T.everySecond .one 0).cols) = m.rows / 2 := by
    show (u.rows + 1 - 0) / 2 = m.rows / 2
    omega
  obtain ⟨o, ho, horows, hocols, hoget⟩ := Mat.zipWith_of_same_shape
    (fun high low : BitVec 8 => high * 16 + low) (m := u.T.everySecond .one 1)
    (n := u.T.everySecond .one 0) rfl (hhalf.trans hhalf'.symm)
  refine ⟨o, ?_, horows.trans hucols, hocols.trans hhalf, ?_⟩
  · rw [convertAwqTensor, hu]
    exact ho
  · intro n hn k hk
    have hbyte := hoget n (hn.trans_eq hucols.symm) (k / 2) (by omega)
    have hhigh : (u.T.everySecond .one 1).get n (k / 2) =
      (awqEntry m (2 * (k / 2) + 1) n).setWidth 8 := huget _ n hn
    have hlow : (u.T.everySecond .one 0).get n (k / 2) =
      (awqEntry m (2 * (k / 2)) n).setWidth 8 := huget _ n hn
    rw [nibble_of_pair hbyte hhigh hlow (Nat.mod_lt k (by omega))]
    split
    · congr 1
      omega
    · congr 1
      omega

/-- **A converted `qzeros` tensor has the logical entry of row `g` and column `n` in column `g`,
in the low nibble of byte `n / 2` when `n` is even and in the high one otherwise.** -/
theorem convertAwqTensor_qzeros (D : Dtypes α) {m : Mat (BitVec 32)} (hr : 0 < m.rows) :
    ∃ o, convertAwqTensor D (.int32 m) .qzeros = .ok o ∧
      o.rows = 4 * m.cols ∧ o.cols = m.rows ∧
      ∀ n < 8 * m.cols, ∀ g < m.rows, nibble (o.get (n / 2) g) (n % 2) = awqEntry m g n := by
  obtain ⟨u, hu, hurows, hucols, huget⟩ := unpermute_unpackNibbles D hr
  have hhalf : ((u.T.everySecond .zero 1).rows) = 4 * m.cols := by
    show (u.cols + 1 - 1) / 2 = 4 * m.cols
    omega
  have hhalf' : ((u.T.everySecond .zero 0).rows) = 4 * m.cols := by
    show (u.cols + 1 - 0) / 2 = 4 * m.cols
    omega
  obtain ⟨o, ho, horows, hocols, hoget⟩ := Mat.zipWith_of_same_shape
    (fun high low : BitVec 8 => high * 16 + low) (m := u.T.everySecond .zero 1)
    (n := u.T.everySecond .zero 0) (hhalf.trans hhalf'.symm) rfl
  refine ⟨o, ?_, horows.trans hhalf, hocols.trans hurows, ?_⟩
  · rw [convertAwqTensor, hu]
    exact ho
  · intro n hn g hg
    have hbyte := hoget (n / 2) (by omega) g (hg.trans_eq hurows.symm)
    have hhigh : (u.T.everySecond .zero 1).get (n / 2) g =
      (awqEntry m g (2 * (n / 2) + 1)).setWidth 8 := huget g _ (by omega)
    have hlow : (u.T.everySecond .zero 0).get (n / 2) g =
      (awqEntry m g (2 * (n / 2))).setWidth 8 := huget g _ (by omega)
    rw [nibble_of_pair hbyte hhigh hlow (Nat.mod_lt n (by omega))]
    split
    · congr 1
      omega
    · congr 1
      omega

end FlashNext
