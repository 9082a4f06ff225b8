import FlashNext.Moe.Receive
import FlashNext.Moe.Reorder

/-!
# FlashNext.Moe.Layouts

The three layouts of an unquantized checkpoint.

The experts' matrices come one by one, or with gate and up of an expert in one tensor,
or as two tensors of all experts.  Whatever the layout, the loader is handed the same
matrices (`matrixPatch`); the layouts differ in the physical experts they reach:

* `layouts_agree_iff` — the layouts leave the same contents, with the matrices of its
  expert in every slot of the rank, exactly when the rank has no slot of a redundant
  expert.
-/

namespace FlashNext

variable {α : Type}

/-! ## checkpoints -/

/-- The matrices of an unquantized expert. -/
structure ExpertMatrices (α : Type) (hidden intermediate : Nat) where
  mat : Shard → Mat α
  rows : ∀ s, (mat s).rows = s.outputs hidden intermediate
  cols : ∀ s, (mat s).cols = s.inputs hidden intermediate

/-- Gate and up in one matrix. -/
def ExpertMatrices.gateUp {hidden intermediate : Nat} (E : ExpertMatrices α hidden intermediate) :
    Mat α :=
  (E.mat .w1).stack (E.mat .w3)

/-- The matrices of several experts in one tensor, in the orientation the layer expects. -/
def fuse (transposed : Bool) (rows cols : Nat) (mats : List (Mat α))
    (h : ∀ m ∈ mats, m.rows = rows ∧ m.cols = cols) : FusedTensor α where
  rows := if transposed then cols else rows
  cols := if transposed then rows else cols
  experts := mats.map fun m => .float (if transposed then m.T else m)
  shape := by
    intro t ht
    obtain ⟨m, hm, rfl⟩ := List.mem_map.1 ht
    cases transposed with
    | false => exact h m hm
    | true => exact (h m hm).symm

inductive Layout where
  | perExpert
  | perExpertFused
  | fused
deriving DecidableEq, Repr

/-- The experts that the checkpoint numbers. -/
def RoutedExperts.numCkptExperts (L : RoutedExperts α) : Nat :=
  L.moeConfig.numLogicalExperts + L.numFusedSharedExperts

/-- The checkpoint of a layer's experts, with the name that gate and up have in one tensor. -/
def RoutedExperts.checkpoint (L : RoutedExperts α) (gateUpName : Str)
    (E : Nat → ExpertMatrices α L.hiddenSize L.intermediateSize) : Layout → List (Weight α)
  | .perExpert => (List.range L.numCkptExperts).flatMap fun l => [Shard.w1, .w2, .w3].map fun s =>
      (expertName l (L.ckptProjName s) weightWord, .perExpert (.matrix (.float ((E l).mat s))))
  | .perExpertFused => (List.range L.numCkptExperts).flatMap fun l =>
      [(expertName l gateUpName weightWord, .perExpert (.matrix (.float (E l).gateUp))),
        (expertName l L.ckptDownProjName weightWord,
          .perExpert (.matrix (.float ((E l).mat .w2))))]
  | .fused =>
      [(gateUpName, .fused (fuse L.isFusedCheckpointTransposed
          (L.intermediateSize + L.intermediateSize) L.hiddenSize
          ((List.range L.numCkptExperts).map fun l => (E l).gateUp) (by
            intro m hm
            obtain ⟨l, -, rfl⟩ := List.mem_map.1 hm
            exact ⟨congrArg₂ _ ((E l).rows .w1) ((E l).rows .w3), (E l).cols .w1⟩))),
        (L.ckptDownProjName, .fused (fuse L.isFusedCheckpointTransposed
          L.hiddenSize L.intermediateSize
          ((List.range L.numCkptExperts).map fun l => (E l).mat .w2) (by
            intro m hm
            obtain ⟨l, -, rfl⟩ := List.mem_map.1 hm
            exact ⟨(E l).rows .w2, (E l).cols .w2⟩)))]

/-! ## the layer -/

/-- `w13_weight` or `w2_weight` -/
def Shard.weightName (s : Shard) : Str := s.paramPrefix ++ weightWord

/-- The parameter that a shard's matrix is loaded into. -/
def RoutedExperts.weightParam (L : RoutedExperts α) : Shard → Param
  | .w1 | .w3 =>
    ⟨L.moeConfig.numLocalExperts, 2 * L.intermediateSizePerPartition, L.hiddenSize, .params⟩
  | .w2 => ⟨L.moeConfig.numLocalExperts, L.hiddenSize, L.intermediateSizePerPartition, .params⟩

/-- Parts of a name that the loaders take for something else. -/
def hintWords : List Str :=
  ["bias".toList, "scale".toList, "g_idx".toList, "weight_shape".toList, ".gate_up_proj.".toList,
    ".w13.".toList]

/-- An unquantized gated layer with standard names, under a name that the loaders take no hint
from. -/
structure UnquantizedLayer (L : RoutedExperts α) : Prop where
  names : ExpertNames L
  standard : StandardNames L.ckptGateProjName L.ckptDownProjName L.ckptUpProjName
  clean : ∀ k ∈ hintWords, ¬ k <:+: L.layerName
  gated : L.moeConfig.isActAndMul = true
  registered : ∀ s : Shard, L.getattr s.weightName = some (L.weightParam s)
  slots : SlotsDistinct L
  slot_lt : ∀ e slot, L.mapGlobalToLocal e = some slot → slot < L.moeConfig.numLocalExperts
  numCkptExperts_pos : 0 < L.numCkptExperts
  logical : ∀ e < L.numPhysicalExperts, L.physicalToLogical e =
    if e < L.numCkptExperts then e else (e - L.numCkptExperts) % L.numCkptExperts

/-- The loader of an unquantized layer's parameters; `rest` takes the tensors that are no
matrices. -/
def RoutedExperts.ownLoader (L : RoutedExperts α) (rest : Loader α) : Loader α :=
  fun paramName param t weightName shardId expertId =>
    match t with
    | .matrix t => L.weightLoader paramName param t.elems weightName shardId expertId
    | t => rest paramName param t weightName shardId expertId

/-- The rows and columns of a slot that a shard has. -/
def RoutedExperts.shardRect (L : RoutedExperts α) (s : Shard) : Region :=
  ⟨s.firstRow L.intermediateSizePerPartition, 0,
    s.outputs L.hiddenSize L.intermediateSizePerPartition,
    s.inputs L.hiddenSize L.intermediateSizePerPartition⟩

/-- The rank's slice of a shard's matrix. -/
def RoutedExperts.rankMatrix (L : RoutedExperts α) (s : Shard) (m : Mat (Elem α)) : Mat (Elem α) :=
  m.slice s.shardedDim (L.intermediateSizePerPartition * L.moeConfig.tpRank)
    L.intermediateSizePerPartition

/-- What a matrix of a shard writes, loaded for a physical expert. -/
def RoutedExperts.matrixPatch (L : RoutedExperts α) (s : Shard) (m : Mat (Elem α)) (e : Nat) :
    Patch Cell (Elem α) :=
  match L.mapGlobalToLocal e with
  | none => Patch.empty
  | some slot => L.write s.weightName (L.weightParam s) slot
      ((L.shardRect s).fill (L.rankMatrix s m))

section layer

variable {L : RoutedExperts α}

theorem intermediate_lt (L : RoutedExperts α) {x : Nat} (hx : x < L.intermediateSizePerPartition) :
    L.intermediateSizePerPartition * L.moeConfig.tpRank + x < L.intermediateSize := by
  have hle := Nat.mul_le_mul_left L.intermediateSizePerPartition L.moeConfig.tpRank_lt
  rw [Nat.mul_succ] at hle
  rw [RoutedExperts.intermediateSize]
  omega

/-- A matrix has all of the shard's rows and columns. -/
structure WholeMatrix (L : RoutedExperts α) (s : Shard) (m : Mat (Elem α)) : Prop where
  rows : m.rows = s.outputs L.hiddenSize L.intermediateSize
  cols : m.cols = s.inputs L.hiddenSize L.intermediateSize

/-- The entry that a cell of the rank's slice gets. -/
theorem WholeMatrix.fill_rankMatrix {s : Shard} {m : Mat (Elem α)} (h : WholeMatrix L s m)
    {i j : Nat} (hmem : (L.shardRect s).Mem i j) :
    (L.shardRect s).fill (L.rankMatrix s m) i j =
      some (m.get (s.globalOutput L.intermediateSizePerPartition L.moeConfig.tpRank
          (i - s.firstRow L.intermediateSizePerPartition))
        (s.globalInput L.intermediateSizePerPartition L.moeConfig.tpRank j)) := by
  cases s with
  | w1 => exact Region.fill_eq_some rfl h.cols hmem
  | w2 => exact Region.fill_eq_some h.rows rfl hmem
  | w3 => exact Region.fill_eq_some rfl h.cols hmem

/-- Only the entries of the matrix count. -/
theorem matrixPatch_congr {s : Shard} {m m' : Mat (Elem α)} (h : WholeMatrix L s m)
    (h' : WholeMatrix L s m') (hget : ∀ i < m.rows, ∀ j < m.cols, m.get i j = m'.get i j)
    (e : Nat) :
    L.matrixPatch s m e = L.matrixPatch s m' e := by
  unfold RoutedExperts.matrixPatch
  cases L.mapGlobalToLocal e with
  | none => rfl
  | some slot =>
    refine congrArg (L.write s.weightName (L.weightParam s) slot) ?_
    funext i j
    by_cases hmem : (L.shardRect s).Mem i j
    · rw [h.fill_rankMatrix hmem, h'.fill_rankMatrix hmem, hget]
      · rw [h.rows]
        have hi : i - s.firstRow L.intermediateSizePerPartition <
            s.outputs L.hiddenSize L.intermediateSizePerPartition := by
          simp only [RoutedExperts.shardRect, Region.Mem] at hmem
          omega
        cases s with
        | w1 => exact intermediate_lt L hi
        | w2 => exact hi
        | w3 => exact intermediate_lt L hi
      · rw [h.cols]
        have hj : j < s.inputs L.hiddenSize L.intermediateSizePerPartition := by
          simp only [RoutedExperts.shardRect, Region.Mem] at hmem
          omega
        cases s with
        | w1 => exact hj
        | w2 => exact intermediate_lt L hj
        | w3 => exact hj
    · rw [Region.fill_eq_none hmem, Region.fill_eq_none hmem]

/-- The loaders take no hint from a weight's qualified name. -/
theorem not_infix_weightName (hclean : ∀ k ∈ hintWords, ¬ k <:+: L.layerName) (s : Shard) {w : Str}
    (hw : w ∈ ["bias".toList, "input_scale".toList, "g_idx".toList, "weight_shape".toList,
      "scale".toList]) : ¬ w <:+: L.qualName s.weightName := by
  have hword : '.' ∉ w ∧ ¬ w <:+: s.weightName ∧ ∃ k ∈ hintWords, k <:+: w := by
    revert w
    cases s <;> decide
  obtain ⟨hdot, hname, k, hk, hkw⟩ := hword
  rw [RoutedExperts.qualName, Str.infix_append_cons hdot, not_or]
  exact ⟨fun hlayer => hclean k hk (hkw.trans hlayer), hname⟩

/-- A weight goes through `_load_w13` or `_load_w2`. -/
theorem loadExpert_weightName (hclean : ∀ k ∈ hintWords, ¬ k <:+: L.layerName) (s : Shard)
    (r : Region) (m : Mat (Elem α)) :
    L.moeConfig.loadExpert r s m (L.qualName s.weightName) =
      some <$> L.moeConfig.loadModelWeightOrGroupWeightScale r s.shardedDim s m := by
  have hnot := fun w hw => not_infix_weightName hclean s (w := w) hw
  have hweight : "weight".toList <:+: L.qualName s.weightName := by
    have hname : "weight".toList <:+: s.weightName := by cases s <;> decide
    exact (Str.infix_append_cons (by decide)).2 (.inr hname)
  unfold FusedMoEConfig.loadExpert
  rw [if_neg (hnot _ (by simp)), if_neg (hnot _ (by simp)), if_neg (hnot _ (by simp))]
  split
  · rfl
  · exact if_neg (hnot _ (by simp))

/-- A whole matrix is sliced evenly. -/
theorem load_wholeMatrix (h : UnquantizedLayer L) {s : Shard} {m : Mat (Elem α)}
    (hm : WholeMatrix L s m) :
    L.moeConfig.loadModelWeightOrGroupWeightScale
        (Region.whole (L.weightParam s).rows (L.weightParam s).cols) s.shardedDim s m =
      .ok ((L.shardRect s).fill (L.rankMatrix s m)) := by
  cases s with
  | w1 => exact loadW13_of_even h.gated hm.rows hm.cols nofun
  | w2 => exact loadW2_of_even hm.cols hm.rows
  | w3 => exact loadW13_of_even h.gated hm.rows hm.cols nofun

/-- **The loader writes the rank's slice of a matrix.** -/
theorem weightLoader_eq (h : UnquantizedLayer L) {s : Shard} {m : Mat (Elem α)}
    (hm : WholeMatrix L s m) (e : Nat) :
    ∃ r, L.weightLoader s.weightName (L.weightParam s) m (L.qualName s.weightName) s e = .ok r ∧
      r.patch = L.matrixPatch s m e := by
  rw [RoutedExperts.weightLoader, RoutedExperts.matrixPatch]
  cases hslot : L.mapGlobalToLocal e with
  | none => exact ⟨_, rfl, rfl⟩
  | some slot =>
    have hlt : slot < (L.weightParam s).numExperts := by
      cases s <;> exact h.slot_lt e slot hslot
    dsimp only
    rw [if_pos hlt, loadExpert_weightName h.clean, load_wholeMatrix h hm]
    exact ⟨_, rfl, rfl⟩

/-! ## what a tensor writes -/

theorem weightWord_clean : ¬ underExperts [] <:+: weightWord := by decide

/-- The name of an expert's matrix is rewritten into its parameter. -/
theorem resolve_expertName (h : UnquantizedLayer L) (e : Nat) (s : Shard) (proj : Str) :
    L.resolve (L.qualName (expertName (L.physicalToLogical e) proj weightWord))
        (L.entry proj e s) =
      .ok (.found s.weightName (L.weightParam s) (L.qualName s.weightName)) := by
  rw [resolve_entry h.names e s weightWord_clean]
  show L.resolveName _ (L.qualName s.weightName) = _
  rw [RoutedExperts.resolveName, paramNameOf_qualName, h.registered]

/-- An entry that is handed whole matrices writes the slice of each. -/
theorem entryEvents_patches (h : UnquantizedLayer L) (rest : Loader α) {w : Weight α}
    {m : MappingEntry} {s : Shard} (hs : m.shardId = s)
    (hres : L.resolve (L.qualName w.1) m =
      .ok (.found s.weightName (L.weightParam s) (L.qualName s.weightName)))
    (ts : List (Tensor α)) {start : Nat}
    (hshard : L.expertsShard w.2 (L.qualName w.1) (L.qualName s.weightName) m =
      .ok (ts.map .matrix, start)) (hts : ∀ t ∈ ts, WholeMatrix L s t.elems) :
    ∃ es, L.entryEvents (L.ownLoader rest) w m = .ok es ∧
      ∀ q, (∃ ev ∈ es, ev.patch = q) ↔
        ∃ t e, (t, e) ∈ ts.zipIdx start ∧ q = L.matrixPatch s t.elems e := by
  subst hs
  have hcall : ∀ t ∈ ts, ∀ e, ∃ r, L.ownLoader rest m.shardId.weightName
      (L.weightParam m.shardId) (.matrix t) (L.qualName m.shardId.weightName) m.shardId e = .ok r ∧
        r.patch = L.matrixPatch m.shardId t.elems e := by
    intro t ht e
    exact weightLoader_eq h (hts t ht) e
  have hmem : ∀ {x : ExpertTensor α} {e : Nat}, (x, e) ∈ (ts.map ExpertTensor.matrix).zipIdx start →
      ∃ t, (t, e) ∈ ts.zipIdx start ∧ .matrix t = x := by
    intro x e hx
    rw [List.zipIdx_map, List.mem_map] at hx
    obtain ⟨⟨t, e'⟩, ht, heq⟩ := hx
    cases heq
    exact ⟨t, ht, rfl⟩
  have hround : ∀ t e, (t, e) ∈ ts.zipIdx start → ∃ ev, (do
        let r ← L.ownLoader rest m.shardId.weightName (L.weightParam m.shardId) (.matrix t)
          (L.qualName m.shardId.weightName) m.shardId e
        return Event.loaded w m m.shardId.weightName e r) = .ok ev ∧
      ev.patch = L.matrixPatch m.shardId t.elems e := by
    intro t e ht
    obtain ⟨r, hr, hpatch⟩ := hcall t (List.fst_mem_of_mem_zipIdx ht) e
    exact ⟨_, bind_eq_ok.2 ⟨r, hr, rfl⟩, hpatch⟩
  obtain ⟨es, hloop⟩ := exists_mapM (fun p => do
      let r ← L.ownLoader rest m.shardId.weightName (L.weightParam m.shardId) p.1
        (L.qualName m.shardId.weightName) m.shardId p.2
      return Event.loaded w m m.shardId.weightName p.2 r)
    ((ts.map ExpertTensor.matrix).zipIdx start) (by
      rintro ⟨x, e⟩ hx
      obtain ⟨t, ht, rfl⟩ := hmem hx
      obtain ⟨ev, hev, -⟩ := hround t e ht
      exact ⟨ev, hev⟩)
  refine ⟨es, bind_eq_ok.2 ⟨_, hres, bind_eq_ok.2 ⟨_, hshard, hloop⟩⟩, fun q => ?_⟩
  constructor
  · rintro ⟨ev, hev, rfl⟩
    obtain ⟨⟨x, e⟩, hx, hev⟩ := exists_of_mapM hloop hev
    obtain ⟨t, ht, rfl⟩ := hmem hx
    obtain ⟨ev', hev', hpatch⟩ := hround t e ht
    cases hev.symm.trans hev'
    exact ⟨t, e, ht, hpatch⟩
  · rintro ⟨t, e, ht, rfl⟩
    obtain ⟨ev, hev, hpatch⟩ := hround t e ht
    have hx : (ExpertTensor.matrix t, e) ∈ (ts.map ExpertTensor.matrix).zipIdx start := by
      rw [List.zipIdx_map]
      exact List.mem_map.2 ⟨(t, e), ht, rfl⟩
    obtain ⟨ev', hmem', hev'⟩ := mapM_of_mem hloop hx
    cases hev.symm.trans hev'
    exact ⟨ev, hmem', hpatch⟩

/-- In the qualified name of an expert's matrix only the projection stands between two dots like a
fused name. -/
theorem UnquantizedLayer.enclosed_infix_iff (h : UnquantizedLayer L) {w : Str}
    (hw : w ∈ ["gate_up_proj".toList, "w13".toList]) (l : Nat) {proj : Str} (hproj : '.' ∉ proj) :
    '.' :: (w ++ ['.']) <:+: L.qualName (expertName l proj weightWord) ↔ w = proj := by
  refine enclosed_infix_qualName h.names (fun w hw => h.clean _ ?_) hw l hproj (by decide)
  rw [List.mem_pair] at hw
  obtain rfl | rfl := hw <;> decide

theorem isPerExpertFusedW13_iff (h : UnquantizedLayer L) (l : Nat) {proj : Str}
    (hproj : '.' ∉ proj) (s : Shard) :
    isPerExpertFusedW13 (L.qualName (expertName l proj weightWord)) s = true ↔
      s ≠ .w2 ∧ proj ∈ ["gate_up_proj".toList, "w13".toList] := by
  have hgate := h.enclosed_infix_iff (w := "gate_up_proj".toList) (by simp) l hproj
  have hw13 := h.enclosed_infix_iff (w := "w13".toList) (by simp) l hproj
  rw [isPerExpertFusedW13, decide_eq_true_eq, List.mem_pair]
  exact and_congr_right fun _ => or_congr (hgate.trans eq_comm) (hw13.trans eq_comm)

/-- The matrix of a shard that a physical expert is to hold, in its slot. -/
def RoutedExperts.expertPatch (L : RoutedExperts α)
    (E : Nat → ExpertMatrices α L.hiddenSize L.intermediateSize) (s : Shard) (e : Nat) :
    Patch Cell (Elem α) :=
  L.matrixPatch s (((E (L.physicalToLogical e)).mat s).map .float) e

variable {E : Nat → ExpertMatrices α L.hiddenSize L.intermediateSize}

theorem wholeMatrix_map (E : ExpertMatrices α L.hiddenSize L.intermediateSize) (s : Shard) :
    WholeMatrix L s ((E.mat s).map .float) := ⟨E.rows s, E.cols s⟩

/-- An entry for one expert writes the matrix it is handed. -/
theorem entryEvents_perExpert (h : UnquantizedLayer L) (rest : Loader α) {e : Nat} {s : Shard}
    {proj : Str} {t : Tensor α} (t' : Tensor α)
    (hshard : L.expertsShard (.perExpert (.matrix t))
      (L.qualName (expertName (L.physicalToLogical e) proj weightWord)) (L.qualName s.weightName)
      (L.entry proj e s) = .ok ([.matrix t'], e))
    (hwhole : WholeMatrix L s t'.elems)
    (hget : ∀ i < t'.elems.rows, ∀ j < t'.elems.cols,
      t'.elems.get i j = .float (((E (L.physicalToLogical e)).mat s).get i j)) :
    ∃ es, L.entryEvents (L.ownLoader rest)
        (expertName (L.physicalToLogical e) proj weightWord, .perExpert (.matrix t))
        (L.entry proj e s) = .ok es ∧
      ∀ q, (∃ ev ∈ es, ev.patch = q) ↔ q = L.expertPatch E s e := by
  obtain ⟨es, hes, hpatches⟩ := entryEvents_patches h rest
    (w := (expertName (L.physicalToLogical e) proj weightWord, .perExpert (.matrix t)))
    (m := L.entry proj e s) (s := s) rfl (resolve_expertName h e s proj) [t'] hshard
    (by simpa using hwhole)
  refine ⟨es, hes, fun q => ?_⟩
  have hpatch : L.matrixPatch s t'.elems e = L.expertPatch E s e :=
    matrixPatch_congr hwhole (wholeMatrix_map _ s) hget e
  rw [hpatches, ← hpatch]
  simp

/-- The entries that the name of an expert's matrix reaches. -/
theorem mem_reached_expertName (h : UnquantizedLayer L) {l : Nat} {proj : Str}
    (hproj : ProjName proj) {m : MappingEntry} :
    m ∈ reached (L.qualName (expertName l proj weightWord)) false false L.getExpertMapping ↔
      ∃ e < L.numPhysicalExperts, ∃ s, L.physicalToLogical e = l ∧ proj ∈ L.projNames s ∧
        m = L.entry proj e s := by
  rw [reached_eq_filter, List.mem_filter, decide_eq_true_eq]
  constructor
  · rintro ⟨hm, hmatch⟩
    exact (entry_infix_iff h.names hm hproj weightWord_clean).1 hmatch
  · rintro ⟨e, he, s, hl, hs, rfl⟩
    have hm : L.entry proj e s ∈ L.getExpertMapping :=
      (mem_getExpertMapping h.names).2 (.inr ⟨he, proj, hs, rfl⟩)
    exact ⟨hm, (entry_infix_iff h.names hm hproj weightWord_clean).2 ⟨e, he, s, hl, hs, rfl⟩⟩

/-! ## the layouts -/

theorem ckptProjName_ne_fused
    (hstd : StandardNames L.ckptGateProjName L.ckptDownProjName L.ckptUpProjName) (s : Shard) :
    L.ckptProjName s ∉ ["gate_up_proj".toList, "w13".toList] := by
  unfold RoutedExperts.ckptProjName
  obtain ⟨hgate, hdown, hup⟩ | ⟨hgate, hdown, hup⟩ := hstd <;> rw [hgate, hdown, hup] <;>
    cases s <;> decide

/-- The matrices of one expert, one by one. -/
theorem entryEvents_separate (h : UnquantizedLayer L) (rest : Loader α) {l : Nat} {s : Shard}
    {m : MappingEntry}
    (hm : m ∈ reached (L.qualName (expertName l (L.ckptProjName s) weightWord)) false false
      L.getExpertMapping) :
    m.shardId = s ∧ m.expertId < L.numPhysicalExperts ∧ L.physicalToLogical m.expertId = l ∧
    ∃ es, L.entryEvents (L.ownLoader rest)
        (expertName l (L.ckptProjName s) weightWord, .perExpert (.matrix (.float ((E l).mat s))))
        m =
          .ok es ∧
      ∀ q, (∃ ev ∈ es, ev.patch = q) ↔ q = L.expertPatch E m.shardId m.expertId := by
  have hproj := h.names.proj s _ (ckptProjName_mem L s)
  obtain ⟨e, he, s', rfl, hs', rfl⟩ := (mem_reached_expertName h hproj).1 hm
  obtain rfl : s = s' := h.names.inj s' s hs'
  refine ⟨rfl, he, rfl, entryEvents_perExpert h rest
    (.float ((E (L.physicalToLogical e)).mat s)) ?_ (wholeMatrix_map _ s) fun _ _ _ _ => rfl⟩
  have hsplit : ¬ isPerExpertFusedW13
      (L.qualName (expertName (L.physicalToLogical e) (L.ckptProjName s) weightWord)) s = true := by
    rw [isPerExpertFusedW13_iff h _ hproj.dotless]
    exact fun hfused => ckptProjName_ne_fused h.standard s hfused.2
  exact if_neg hsplit

theorem chunkBounds_add_self (n : Nat) : Mat.chunkBounds (n + n) = [(0, n), (n, n)] := by
  have hhalf : (n + n + 1) / 2 = n := by omega
  unfold Mat.chunkBounds
  rw [if_neg (by omega), hhalf, Nat.add_sub_cancel]

/-- Gate's or up's half of the matrix that has both. -/
def ExpertMatrices.half {hidden intermediate : Nat} (E : ExpertMatrices α hidden intermediate)
    (s : Shard) : Mat α :=
  E.gateUp.slice .zero (s.firstRow intermediate) intermediate

theorem half_get {hidden intermediate : Nat} (E : ExpertMatrices α hidden intermediate) {s : Shard}
    (hs : s ≠ .w2) {i : Nat} (hi : i < intermediate) (j : Nat) :
    (E.half s).get i j = (E.mat s).get i j := by
  have hrows : (E.mat .w1).rows = intermediate := E.rows .w1
  cases s with
  | w1 =>
    show (if 0 + i < (E.mat .w1).rows then (E.mat .w1).get (0 + i) j else _) = _
    rw [if_pos (by omega), Nat.zero_add]
  | w2 => exact absurd rfl hs
  | w3 =>
    show (if intermediate + i < (E.mat .w1).rows then _ else
      (E.mat .w3).get (intermediate + i - (E.mat .w1).rows) j) = _
    rw [if_neg (by omega), hrows, Nat.add_sub_cancel_left]

theorem wholeMatrix_half (E : ExpertMatrices α L.hiddenSize L.intermediateSize) {s : Shard}
    (hs : s ≠ .w2) : WholeMatrix L s ((E.half s).map .float) := by
  cases s with
  | w1 => exact ⟨rfl, E.cols .w1⟩
  | w2 => exact absurd rfl hs
  | w3 => exact ⟨rfl, E.cols .w1⟩

theorem gateUp_rows {hidden intermediate : Nat} (E : ExpertMatrices α hidden intermediate) :
    E.gateUp.rows = intermediate + intermediate :=
  congrArg₂ _ (E.rows .w1) (E.rows .w3)

/-- The names that gate and up can have in one tensor. -/
theorem UnquantizedLayer.gateUpName (h : UnquantizedLayer L) {g : Str}
    (hg : L.gateUpName = some g) : g ∈ ["gate_up_proj".toList, "w13".toList] ∧
      ¬ L.ckptDownProjName <+: g ∧ ¬ g <+: L.ckptDownProjName := by
  revert hg
  unfold RoutedExperts.gateUpName
  obtain ⟨hgate, hdown, hup⟩ | ⟨hgate, hdown, hup⟩ := h.standard <;> rw [hgate, hdown, hup] <;>
    rintro ⟨⟩ <;> decide

theorem mem_projNames_gateUp {g : Str} (hg : L.gateUpName = some g) {s : Shard} (hs : s ≠ .w2) :
    g ∈ L.projNames s := by
  cases s with
  | w1 => exact List.mem_append_left _ (Option.mem_toList.2 hg)
  | w2 => exact absurd rfl hs
  | w3 => exact List.mem_append_left _ (Option.mem_toList.2 hg)

/-- Gate and up of one expert in one tensor. -/
theorem entryEvents_gateUp (h : UnquantizedLayer L) (rest : Loader α) {g : Str}
    (hg : L.gateUpName = some g) {l : Nat} {m : MappingEntry}
    (hm : m ∈ reached (L.qualName (expertName l g weightWord)) false false L.getExpertMapping) :
    m.shardId ≠ .w2 ∧ m.expertId < L.numPhysicalExperts ∧ L.physicalToLogical m.expertId = l ∧
    ∃ es, L.entryEvents (L.ownLoader rest)
        (expertName l g weightWord, .perExpert (.matrix (.float (E l).gateUp))) m = .ok es ∧
      ∀ q, (∃ ev ∈ es, ev.patch = q) ↔ q = L.expertPatch E m.shardId m.expertId := by
  have hproj : ProjName g := h.names.proj .w1 g (mem_projNames_gateUp hg nofun)
  obtain ⟨hfused, hdown, -⟩ := h.gateUpName hg
  obtain ⟨e, he, s, rfl, hs, rfl⟩ := (mem_reached_expertName h hproj).1 hm
  have hne : s ≠ .w2 := by
    rintro rfl
    exact hdown (List.mem_singleton.1 hs ▸ List.prefix_refl _)
  refine ⟨hne, he, rfl, entryEvents_perExpert h rest
    (.float ((E (L.physicalToLogical e)).half s)) ?_ (wholeMatrix_half _ hne) ?_⟩
  · have hsplit : isPerExpertFusedW13
        (L.qualName (expertName (L.physicalToLogical e) g weightWord)) s = true :=
      (isPerExpertFusedW13_iff h _ hproj.dotless s).2 ⟨hne, hfused⟩
    have hchunk : (ExpertTensor.matrix (.float (E (L.physicalToLogical e)).gateUp)).chunk =
        .ok [.matrix (.float ((E (L.physicalToLogical e)).half .w1)),
          .matrix (.float ((E (L.physicalToLogical e)).half .w3))] := by
      show Except.ok ((Mat.chunkBounds (E (L.physicalToLogical e)).gateUp.rows).map _) = _
      rw [gateUp_rows, chunkBounds_add_self]
      rfl
    refine (if_pos hsplit).trans (bind_eq_ok.2 ⟨_, hchunk, ?_⟩)
    cases s with
    | w1 => rfl
    | w2 => exact absurd rfl hne
    | w3 => rfl
  · intro i hi j _
    exact congrArg Elem.float (half_get _ hne hi j)

theorem UnquantizedLayer.fused_dotless (h : UnquantizedLayer L) {g : Str}
    (hg : L.gateUpName = some g) {proj : Str} (hproj : proj ∈ [g, L.ckptDownProjName]) :
    '.' ∉ proj := by
  rw [List.mem_pair] at hproj
  obtain rfl | rfl := hproj
  · exact (h.names.proj .w1 _ (mem_projNames_gateUp hg nofun)).dotless
  · exact (h.names.proj .w2 _ List.mem_cons_self).dotless

/-- The entries that occur in the name of a tensor of all experts. -/
theorem infix_fused_iff (h : UnquantizedLayer L) {g : Str} (hg : L.gateUpName = some g)
    {proj r : Str} (hproj : proj ∈ [g, L.ckptDownProjName]) (hr : r ∈ [g, L.ckptDownProjName]) :
    underExperts r <:+: L.qualName proj ↔ r = proj := by
  obtain ⟨-, hdown, hup⟩ := h.gateUpName hg
  have hdot := h.fused_dotless hg hproj
  rw [infix_qualName h.names (clear_of_dotless (h.fused_dotless hg hr) (h.names.noFused g hg r hr)),
    or_iff_left fun hsub => hdot (hsub.subset (dot_mem_underExperts r))]
  rw [List.mem_pair] at hproj hr
  obtain rfl | rfl := hproj <;> obtain rfl | rfl := hr
  · exact iff_of_true (List.prefix_refl _) rfl
  · exact iff_of_false hdown fun heq => hdown (heq ▸ List.prefix_refl _)
  · exact iff_of_false hup fun heq => hup (heq ▸ List.prefix_refl _)
  · exact iff_of_true (List.prefix_refl _) rfl

/-- No entry of one expert occurs in it. -/
theorem not_infix_fused (h : UnquantizedLayer L) {g : Str} (hg : L.gateUpName = some g) {proj : Str}
    (hproj : proj ∈ [g, L.ckptDownProjName]) {m : MappingEntry} (hm : L.PerExpert m) :
    ¬ m.weightName <:+: L.qualName proj := by
  obtain ⟨-, p, -, hm⟩ := hm
  have hdot := h.fused_dotless hg hproj
  rw [hm, entry_weightName h.names, infix_qualName h.names (clear_expertName h.names _ p [])]
  rintro (hpre | hsub)
  · refine hdot (hpre.subset ?_)
    simp [expertName]
  · exact hdot (hsub.subset (dot_mem_underExperts _))

/-- The tensor of all experts that holds a shard. -/
def RoutedExperts.fusedProjName (L : RoutedExperts α) (g : Str) : Shard → Str
  | .w2 => L.ckptDownProjName
  | .w1 | .w3 => g

/-- The entry for a shard in a tensor of all experts. -/
def RoutedExperts.allExpertsEntry (L : RoutedExperts α) (g : Str) (s : Shard) : MappingEntry where
  paramName := underExperts (s.paramPrefix ++ weightWord)
  weightName := underExperts (L.fusedProjName g s)
  expertId := if s = .w3 then 1 else 0
  shardId := s

theorem fusedProjName_mem (L : RoutedExperts α) (g : Str) (s : Shard) :
    L.fusedProjName g s ∈ [g, L.ckptDownProjName] := by
  cases s <;> simp [RoutedExperts.fusedProjName]

theorem allExpertsEntries_eq {g : Str} (hg : L.gateUpName = some g) :
    L.allExpertsEntries = [Shard.w1, .w3, .w2].map (L.allExpertsEntry g) := by
  unfold RoutedExperts.allExpertsEntries
  rw [hg]
  rfl

/-- The entries that a tensor of all experts reaches. -/
theorem mem_reached_fused (h : UnquantizedLayer L) {g : Str} (hg : L.gateUpName = some g)
    {proj : Str} (hproj : proj ∈ [g, L.ckptDownProjName]) {m : MappingEntry} :
    m ∈ reached (L.qualName proj) true false L.getExpertMapping ↔
      ∃ s, m = L.allExpertsEntry g s ∧ L.fusedProjName g s = proj := by
  have hoccurs : ∀ s, (L.allExpertsEntry g s).weightName <:+: L.qualName proj ↔
      L.fusedProjName g s = proj := fun s => infix_fused_iff h hg hproj (fusedProjName_mem L g s)
  constructor
  · intro hm
    obtain ⟨hmap, hmatch⟩ := of_mem_reached hm
    cases (mem_getExpertMapping h.names).1 hmap with
    | inl hall =>
      rw [allExpertsEntries_eq hg] at hall
      obtain ⟨s, -, rfl⟩ := List.mem_map.1 hall
      exact ⟨s, rfl, (hoccurs s).1 hmatch⟩
    | inr hper => exact absurd hmatch (not_infix_fused h hg hproj hper)
  · rintro ⟨s, rfl, hs⟩
    rw [getExpertMapping_eq h.names.down_notMem, List.append_assoc, allExpertsEntries_eq hg]
    have hne : L.ckptDownProjName ≠ g :=
      fun heq => (h.gateUpName hg).2.1 (heq ▸ List.prefix_refl _)
    simp only [List.map_cons, List.cons_append]
    cases s with
    | w1 =>
      rw [reached_cons_pos ((hoccurs .w1).2 hs)]
      exact List.mem_cons_self
    | w2 =>
      have hgate : L.fusedProjName g .w1 ≠ proj := fun heq => hne (hs.trans heq.symm)
      rw [reached_cons_neg fun hsub => hgate ((hoccurs .w1).1 hsub),
        reached_cons_neg fun hsub => hgate ((hoccurs .w3).1 hsub),
        reached_cons_pos ((hoccurs .w2).2 hs)]
      exact List.mem_cons_self
    | w3 =>
      rw [reached_cons_pos ((hoccurs .w1).2 hs), reached_cons_pos ((hoccurs .w3).2 hs)]
      exact List.mem_cons_of_mem _ List.mem_cons_self

/-- The name of a tensor of all experts is rewritten into its parameter. -/
theorem resolve_fused (h : UnquantizedLayer L) {g : Str} (hg : L.gateUpName = some g)
    {proj : Str} (hproj : proj ∈ [g, L.ckptDownProjName]) {m : MappingEntry}
    (hname : m.weightName = underExperts proj)
    (hparam : m.paramName = underExperts (m.shardId.paramPrefix ++ weightWord)) :
    L.resolve (L.qualName proj) m = .ok (.found m.shardId.weightName (L.weightParam m.shardId)
      (L.qualName m.shardId.weightName)) := by
  have hdot := h.fused_dotless hg hproj
  have hreplace : Str.replace (L.qualName proj) (underExperts proj)
      (underExperts m.shardId.weightName) = L.qualName m.shardId.weightName := by
    have hclear := clear_of_dotless hdot (h.names.noFused g hg proj hproj)
    have hreplace := replace_qualName h.names hclear m.shardId.weightName []
    rwa [List.append_nil, Str.replace_of_not_infix (s := []) (by simp [underExperts]),
      List.append_nil] at hreplace
  rw [RoutedExperts.resolve, hname, hparam]
  show L.resolveName _ (Str.replace _ _ (underExperts m.shardId.weightName)) = _
  rw [hreplace, RoutedExperts.resolveName, paramNameOf_qualName, h.registered]

/-- An entry that enumerates the experts writes each of them under its own number. -/
theorem entryEvents_enumerated (h : UnquantizedLayer L) (rest : Loader α) {w : Weight α}
    {m : MappingEntry}
    (hres : L.resolve (L.qualName w.1) m = .ok (.found m.shardId.weightName
      (L.weightParam m.shardId) (L.qualName m.shardId.weightName)))
    {f : Nat → Mat α}
    (hshard : L.expertsShard w.2 (L.qualName w.1) (L.qualName m.shardId.weightName) m =
      .ok (((List.range L.numCkptExperts).map fun l => .float (f l)).map .matrix, 0))
    (hwhole : ∀ l, WholeMatrix L m.shardId ((f l).map .float))
    (hget : ∀ l, ∀ i < (f l).rows, ∀ j < (f l).cols,
      (f l).get i j = ((E l).mat m.shardId).get i j) :
    ∃ es, L.entryEvents (L.ownLoader rest) w m = .ok es ∧
      ∀ q, (∃ ev ∈ es, ev.patch = q) ↔ ∃ e < L.numCkptExperts, q = L.expertPatch E m.shardId e := by
  obtain ⟨es, hes, hpatches⟩ := entryEvents_patches h rest (w := w) rfl hres _ hshard (by
    intro t ht
    obtain ⟨l, -, rfl⟩ := List.mem_map.1 ht
    exact hwhole l)
  have hpatch : ∀ e < L.numCkptExperts,
      L.matrixPatch m.shardId ((f e).map .float) e = L.expertPatch E m.shardId e := by
    intro e he
    rw [RoutedExperts.expertPatch, h.logical e (Nat.lt_of_lt_of_le he (Nat.le_add_right _ _)),
      if_pos he]
    exact matrixPatch_congr (hwhole e) (wholeMatrix_map _ _)
      (fun i hi j hj => congrArg Elem.float (hget e i hi j hj)) e
  refine ⟨es, hes, fun q => ?_⟩
  rw [hpatches]
  constructor
  · rintro ⟨t, e, ht, rfl⟩
    rw [List.mk_mem_zipIdx_iff_getElem?, List.getElem?_eq_some_iff] at ht
    obtain ⟨he, rfl⟩ := ht
    rw [List.length_map, List.length_range] at he
    refine ⟨e, he, ?_⟩
    rw [List.getElem_map, List.getElem_range]
    exact hpatch e he
  · rintro ⟨e, he, rfl⟩
    refine ⟨.float (f e), e, ?_, (hpatch e he).symm⟩
    rw [List.mk_mem_zipIdx_iff_getElem?, List.getElem?_map, List.getElem?_range he]
    rfl

/-- The orientation does not depend on the name of a weight. -/
theorem transposed_weightName (h : UnquantizedLayer L) (s : Shard) :
    (L.isFusedCheckpointTransposed && !decide ("scale".toList <:+: L.qualName s.weightName)) =
      L.isFusedCheckpointTransposed := by
  rw [decide_eq_false (not_infix_weightName h.clean s (by simp)), Bool.not_false, Bool.and_true]

theorem fuse_unbind (transposed : Bool) {rows cols : Nat} {mats : List (Mat α)}
    (h : ∀ m ∈ mats, m.rows = rows ∧ m.cols = cols) :
    (fuse transposed rows cols mats h).unbind transposed = mats.map .float := by
  rw [FusedTensor.unbind, fuse, List.map_map]
  cases transposed <;> rfl

theorem fuse_chunkUnbind (transposed : Bool) {n cols : Nat} {mats : List (Mat α)}
    (h : ∀ m ∈ mats, m.rows = n + n ∧ m.cols = cols) :
    (fuse transposed (n + n) cols mats h).chunkUnbind transposed =
      [mats.map fun m => .float (m.slice .zero 0 n),
        mats.map fun m => .float (m.slice .zero n n)] := by
  have hsize : (if transposed then (fuse transposed (n + n) cols mats h).cols
      else (fuse transposed (n + n) cols mats h).rows) = n + n := by
    cases transposed <;> rfl
  rw [FusedTensor.chunkUnbind, hsize, chunkBounds_add_self]
  simp only [List.map_cons, List.map_nil, fuse, List.map_map]
  cases transposed <;> rfl

/-- A tensor of all experts. -/
theorem entryEvents_fused (h : UnquantizedLayer L) (rest : Loader α) {g : Str}
    (hg : L.gateUpName = some g) {w : Weight α} (hw : w ∈ L.checkpoint g E .fused)
    {m : MappingEntry} (hm : m ∈ reached (L.qualName w.1) w.2.isFused false L.getExpertMapping) :
    ∃ es, L.entryEvents (L.ownLoader rest) w m = .ok es ∧
      ∀ q, (∃ ev ∈ es, ev.patch = q) ↔ ∃ e < L.numCkptExperts, q = L.expertPatch E m.shardId e := by
  have hne : L.ckptDownProjName ≠ g := fun heq => (h.gateUpName hg).2.1 (heq ▸ List.prefix_refl _)
  have hres : ∀ s, L.resolve (L.qualName (L.fusedProjName g s)) (L.allExpertsEntry g s) =
      .ok (.found s.weightName (L.weightParam s) (L.qualName s.weightName)) :=
    fun s => resolve_fused h hg (fusedProjName_mem L g s) rfl rfl
  rw [RoutedExperts.checkpoint, List.mem_pair] at hw
  obtain rfl | rfl := hw
  · obtain ⟨s, rfl, hs⟩ := (mem_reached_fused h hg List.mem_cons_self).1 hm
    cases s with
    | w1 =>
      refine entryEvents_enumerated h rest (hres .w1) (f := fun l => (E l).half .w1) ?_
        (fun l => wholeMatrix_half _ nofun) fun l i hi j _ => half_get (s := .w1) (E l) nofun hi j
      dsimp only [RoutedExperts.expertsShard, RoutedExperts.allExpertsEntry]
      rw [transposed_weightName h, fuse_chunkUnbind]
      rw [List.map_map]
      exact bind_eq_ok.2
        ⟨(List.range L.numCkptExperts).map fun l => .float ((E l).half .w1), rfl, rfl⟩
    | w2 => exact absurd hs hne
    | w3 =>
      refine entryEvents_enumerated h rest (hres .w3) (f := fun l => (E l).half .w3) ?_
        (fun l => wholeMatrix_half _ nofun) fun l i hi j _ => half_get (s := .w3) (E l) nofun hi j
      dsimp only [RoutedExperts.expertsShard, RoutedExperts.allExpertsEntry]
      rw [transposed_weightName h, fuse_chunkUnbind]
      rw [List.map_map, List.map_map]
      exact bind_eq_ok.2
        ⟨(List.range L.numCkptExperts).map fun l => .float ((E l).half .w3), rfl, rfl⟩
  · obtain ⟨s, rfl, hs⟩ := (mem_reached_fused h hg (List.mem_cons_of_mem _ List.mem_cons_self)).1 hm
    cases s with
    | w1 => exact absurd hs.symm hne
    | w2 =>
      refine entryEvents_enumerated h rest (hres .w2) (f := fun l => (E l).mat .w2) ?_
        (fun l => wholeMatrix_map _ _) fun l i _ j _ => rfl
      dsimp only [RoutedExperts.expertsShard, RoutedExperts.allExpertsEntry]
      rw [transposed_weightName h, fuse_unbind]
      simp only [List.map_map]
      rfl
    | w3 => exact absurd hs.symm hne

/-- The physical experts whose slots a layout fills. -/
def RoutedExperts.numFilled (L : RoutedExperts α) : Layout → Nat
  | .perExpert | .perExpertFused => L.numPhysicalExperts
  | .fused => L.numCkptExperts

theorem numFilled_le (L : RoutedExperts α) (layout : Layout) :
    L.numFilled layout ≤ L.numPhysicalExperts := by
  cases layout with
  | perExpert => exact Nat.le_refl _
  | perExpertFused => exact Nat.le_refl _
  | fused => exact Nat.le_add_right _ _

theorem logical_lt (h : UnquantizedLayer L) {e : Nat} (he : e < L.numPhysicalExperts) :
    L.physicalToLogical e < L.numCkptExperts := by
  rw [h.logical e he]
  split
  · assumption
  · exact Nat.mod_lt _ h.numCkptExperts_pos

/-- A matrix of an expert that comes by itself. -/
theorem exists_separate (h : UnquantizedLayer L) (rest : Loader α) {e : Nat}
    (he : e < L.numPhysicalExperts) (s : Shard) :
    let w : Weight α := (expertName (L.physicalToLogical e) (L.ckptProjName s) weightWord,
      .perExpert (.matrix (.float ((E (L.physicalToLogical e)).mat s))))
    ∃ m ∈ reached (L.qualName w.1) w.2.isFused false L.getExpertMapping,
      ∃ es, L.entryEvents (L.ownLoader rest) w m = .ok es ∧
        ∃ ev ∈ es, ev.patch = L.expertPatch E s e := by
  have hm := (mem_reached_expertName h (h.names.proj s _ (ckptProjName_mem L s))).2
    ⟨e, he, s, rfl, ckptProjName_mem L s, rfl⟩
  obtain ⟨-, -, -, es, hes, hpatch⟩ := entryEvents_separate (E := E) h rest hm
  exact ⟨_, hm, es, hes, (hpatch _).2 rfl⟩

/-- A matrix of an expert that comes with the other one. -/
theorem exists_gateUp (h : UnquantizedLayer L) (rest : Loader α) {g : Str}
    (hg : L.gateUpName = some g) {e : Nat} (he : e < L.numPhysicalExperts) {s : Shard}
    (hs : s ≠ .w2) :
    let w : Weight α := (expertName (L.physicalToLogical e) g weightWord,
      .perExpert (.matrix (.float (E (L.physicalToLogical e)).gateUp)))
    ∃ m ∈ reached (L.qualName w.1) w.2.isFused false L.getExpertMapping,
      ∃ es, L.entryEvents (L.ownLoader rest) w m = .ok es ∧
        ∃ ev ∈ es, ev.patch = L.expertPatch E s e := by
  have hproj := mem_projNames_gateUp hg hs
  have hm := (mem_reached_expertName h (h.names.proj s g hproj)).2 ⟨e, he, s, rfl, hproj, rfl⟩
  obtain ⟨-, -, -, es, hes, hpatch⟩ := entryEvents_gateUp (E := E) h rest hg hm
  exact ⟨_, hm, es, hes, (hpatch _).2 rfl⟩

/-- A matrix of an expert that comes with all experts'. -/
theorem exists_fused (h : UnquantizedLayer L) (rest : Loader α) {g : Str}
    (hg : L.gateUpName = some g) {e : Nat} (he : e < L.numCkptExperts) (s : Shard) :
    ∃ w ∈ L.checkpoint g E .fused,
      ∃ m ∈ reached (L.qualName w.1) w.2.isFused false L.getExpertMapping,
        ∃ es, L.entryEvents (L.ownLoader rest) w m = .ok es ∧
          ∃ ev ∈ es, ev.patch = L.expertPatch E s e := by
  obtain ⟨w, hw, hfused, hname⟩ : ∃ w ∈ L.checkpoint g E .fused,
      w.2.isFused = true ∧ w.1 = L.fusedProjName g s := by
    cases s with
    | w1 => exact ⟨_, List.mem_cons_self, rfl, rfl⟩
    | w2 => exact ⟨_, List.mem_cons_of_mem _ List.mem_cons_self, rfl, rfl⟩
    | w3 => exact ⟨_, List.mem_cons_self, rfl, rfl⟩
  have hm : L.allExpertsEntry g s ∈
      reached (L.qualName w.1) w.2.isFused false L.getExpertMapping := by
    rw [hfused, hname]
    exact (mem_reached_fused h hg (fusedProjName_mem L g s)).2 ⟨s, rfl, rfl⟩
  obtain ⟨es, hes, hpatch⟩ := entryEvents_fused h rest hg hw hm
  exact ⟨w, hw, _, hm, es, hes, (hpatch _).2 ⟨e, he, rfl⟩⟩

/-- What the tensors of a layout write, in any order. -/
theorem loadEvents_layout (h : UnquantizedLayer L) (rest : Loader α) {g : Str}
    (hg : L.gateUpName = some g) (layout : Layout) {weights : List (Weight α)}
    (hperm : weights.Perm (L.checkpoint g E layout)) :
    ∃ events, L.loadEvents (L.ownLoader rest) weights = .ok events ∧
      ∀ q, q ∈ events.map Event.patch ↔
        ∃ e < L.numFilled layout, ∃ s, q = L.expertPatch E s e := by
  apply loadEvents_of_entries
  · intro w hw m hm
    rw [hperm.mem_iff] at hw
    cases layout with
    | perExpert =>
      obtain ⟨l, hl, hw⟩ := List.mem_flatMap.1 hw
      obtain ⟨s, -, rfl⟩ := List.mem_map.1 hw
      obtain ⟨-, he, -, es, hes, hpatch⟩ := entryEvents_separate (E := E) h rest hm
      exact ⟨es, hes, fun ev hev => ⟨_, he, _, (hpatch _).1 ⟨ev, hev, rfl⟩⟩⟩
    | perExpertFused =>
      obtain ⟨l, hl, hw⟩ := List.mem_flatMap.1 hw
      rw [List.mem_pair] at hw
      obtain rfl | rfl := hw
      · obtain ⟨-, he, -, es, hes, hpatch⟩ := entryEvents_gateUp (E := E) h rest hg hm
        exact ⟨es, hes, fun ev hev => ⟨_, he, _, (hpatch _).1 ⟨ev, hev, rfl⟩⟩⟩
      · obtain ⟨-, he, -, es, hes, hpatch⟩ := entryEvents_separate (E := E) (s := .w2) h rest hm
        exact ⟨es, hes, fun ev hev => ⟨_, he, _, (hpatch _).1 ⟨ev, hev, rfl⟩⟩⟩
    | fused =>
      obtain ⟨es, hes, hpatch⟩ := entryEvents_fused h rest hg hw hm
      refine ⟨es, hes, fun ev hev => ?_⟩
      obtain ⟨e, he, hq⟩ := (hpatch _).1 ⟨ev, hev, rfl⟩
      exact ⟨e, he, _, hq⟩
  · rintro q ⟨e, he, s, rfl⟩
    have hl := List.mem_range.2 (logical_lt h (Nat.lt_of_lt_of_le he (numFilled_le L layout)))
    simp only [hperm.mem_iff]
    cases layout with
    | perExpert =>
      obtain ⟨m, hm⟩ := exists_separate (E := E) h rest he s
      refine ⟨_, List.mem_flatMap.2 ⟨_, hl, List.mem_map.2 ⟨s, ?_, rfl⟩⟩, m, hm⟩
      cases s <;> decide
    | perExpertFused =>
      by_cases hs : s = .w2
      · subst hs
        obtain ⟨m, hm⟩ := exists_separate (E := E) h rest he .w2
        exact ⟨_, List.mem_flatMap.2 ⟨_, hl, List.mem_cons_of_mem _ List.mem_cons_self⟩, m, hm⟩
      · obtain ⟨m, hm⟩ := exists_gateUp (E := E) h rest hg he hs
        exact ⟨_, List.mem_flatMap.2 ⟨_, hl, List.mem_cons_self⟩, m, hm⟩
    | fused => exact exists_fused h rest hg he s

/-! ## the contents -/

/-- What a slot is to hold. -/
theorem expertPatch_eq_some {s : Shard} {e : Nat} {k : Cell} {v : Elem α} :
    L.expertPatch E s e k = some v ↔
      L.mapGlobalToLocal e = some k.expert ∧ k.param = s.weightName ∧
        (L.shardRect s).Mem k.row k.col ∧
        v = .float (L.dtypes.toParams (.float (((E (L.physicalToLogical e)).mat s).get
          (s.globalOutput L.intermediateSizePerPartition L.moeConfig.tpRank
            (k.row - s.firstRow L.intermediateSizePerPartition))
          (s.globalInput L.intermediateSizePerPartition L.moeConfig.tpRank k.col)))) := by
  have hdtype : (L.weightParam s).dtype = .params := by
    cases s <;> rfl
  unfold RoutedExperts.expertPatch RoutedExperts.matrixPatch
  cases hslot : L.mapGlobalToLocal e with
  | none => simp
  | some slot =>
    dsimp only
    rw [RoutedExperts.write, Option.ite_none_right_eq_some, hdtype]
    by_cases hmem : (L.shardRect s).Mem k.row k.col
    · rw [(wholeMatrix_map (E (L.physicalToLogical e)) s).fill_rankMatrix hmem, Option.map_some,
        Option.some.injEq, Option.some.injEq]
      constructor
      · rintro ⟨⟨hname, hexpert⟩, rfl⟩
        exact ⟨hexpert.symm, hname, hmem, rfl⟩
      · rintro ⟨hexpert, hname, -, rfl⟩
        exact ⟨⟨hname, hexpert.symm⟩, rfl⟩
    · rw [Region.fill_eq_none hmem, Option.map_none]
      simp [hmem]

/-- A cell belongs to one shard of one expert. -/
theorem expertPatch_unique (h : UnquantizedLayer L) {s s' : Shard} {e e' : Nat} {k : Cell}
    {v v' : Elem α} (hv : L.expertPatch E s e k = some v)
    (hv' : L.expertPatch E s' e' k = some v') :
    v' = v := by
  obtain ⟨hslot, hname, hmem, rfl⟩ := expertPatch_eq_some.1 hv
  obtain ⟨hslot', hname', hmem', rfl⟩ := expertPatch_eq_some.1 hv'
  obtain rfl := h.slots e e' _ hslot hslot'
  have hs : s = s' := by
    rw [hname] at hname'
    simp only [RoutedExperts.shardRect, Region.Mem] at hmem hmem'
    cases s <;> cases s'
    case w1.w1 | w2.w2 | w3.w3 => rfl
    case w1.w2 | w2.w1 | w2.w3 | w3.w2 => exact absurd hname' (by decide)
    all_goals
      simp only [Shard.firstRow, Shard.outputs] at hmem hmem'
      omega
  rw [hs]

/-- The contents after all patches of the first experts. -/
theorem applyAll_expertPatches (h : UnquantizedLayer L) {ps : List (Patch Cell (Elem α))} {n : Nat}
    (hps : ∀ q, q ∈ ps ↔ ∃ e < n, ∃ s, q = L.expertPatch E s e) (st : Params α) (k : Cell) :
    (∀ e < n, ∀ s v, L.expertPatch E s e k = some v → Patch.applyAll ps st k = v) ∧
      ((∀ e < n, ∀ s, L.expertPatch E s e k = none) → Patch.applyAll ps st k = st k) := by
  constructor
  · intro e he s v hv
    refine Patch.applyAll_of_agree ⟨_, (hps _).2 ⟨e, he, s, rfl⟩, hv⟩ ?_ st
    intro q hq w hw
    obtain ⟨e', -, s', rfl⟩ := (hps q).1 hq
    exact expertPatch_unique h hv hw
  · intro hnone
    refine Patch.applyAll_frame (fun q hq => ?_) st
    obtain ⟨e, he, s, rfl⟩ := (hps q).1 hq
    exact hnone e he s

/-- The slot holds the rank's slices of an expert's matrices. -/
def HoldsMatrices (L : RoutedExperts α) (M : ExpertMatrices α L.hiddenSize L.intermediateSize)
    (slot : Nat) (st : Params α) : Prop :=
  ∀ s : Shard, ∀ n < s.outputs L.hiddenSize L.intermediateSizePerPartition,
    ∀ k < s.inputs L.hiddenSize L.intermediateSizePerPartition,
      st ⟨s.weightName, slot, s.firstRow L.intermediateSizePerPartition + n, k⟩ =
        .float (L.dtypes.toParams (.float ((M.mat s).get
          (s.globalOutput L.intermediateSizePerPartition L.moeConfig.tpRank n)
          (s.globalInput L.intermediateSizePerPartition L.moeConfig.tpRank k))))

/-- Whatever the layout and the order of its tensors, the run ends in the same contents, and every
slot of the rank holds the matrices of its logical expert. -/
def LayoutsAgree (L : RoutedExperts α) (rest : Loader α) (gateUpName : Str)
    (E : Nat → ExpertMatrices α L.hiddenSize L.intermediateSize) : Prop :=
  ∀ st, ∃ st',
    (∀ layout weights, weights.Perm (L.checkpoint gateUpName E layout) →
      ∃ names, L.loadWeights (L.ownLoader rest) weights st = .ok (st', names)) ∧
    ∀ e < L.numPhysicalExperts, ∀ slot, L.mapGlobalToLocal e = some slot →
      HoldsMatrices L (E (L.physicalToLogical e)) slot st'

/-- A run over a layout. -/
theorem loadWeights_layout (h : UnquantizedLayer L) (rest : Loader α) {g : Str}
    (hg : L.gateUpName = some g) (layout : Layout) {weights : List (Weight α)}
    (hperm : weights.Perm (L.checkpoint g E layout)) (st : Params α) :
    ∃ ps names, L.loadWeights (L.ownLoader rest) weights st =
        .ok (Patch.applyAll ps st, names) ∧
      ∀ q, q ∈ ps ↔ ∃ e < L.numFilled layout, ∃ s, q = L.expertPatch E s e := by
  obtain ⟨events, hevents, hpatches⟩ := loadEvents_layout h rest hg layout hperm
  exact ⟨_, _, bind_eq_ok.2 ⟨events, hevents, rfl⟩, hpatches⟩

/-- A layout leaves out only what no slot is for. -/
theorem lt_numFilled (hred : L.hiddenSize = 0 ∨ L.intermediateSizePerPartition = 0 ∨
      ∀ e < L.numPhysicalExperts, L.numCkptExperts ≤ e → L.mapGlobalToLocal e = none)
    (layout : Layout) {e : Nat} (he : e < L.numPhysicalExperts) {s : Shard} {k : Cell} {v : Elem α}
    (hv : L.expertPatch E s e k = some v) : e < L.numFilled layout := by
  cases layout with
  | perExpert => exact he
  | perExpertFused => exact he
  | fused =>
    obtain ⟨hslot, -, hmem, -⟩ := expertPatch_eq_some.1 hv
    have hsizes : L.hiddenSize ≠ 0 ∧ L.intermediateSizePerPartition ≠ 0 := by
      simp only [RoutedExperts.shardRect, Region.Mem] at hmem
      cases s <;> simp only [Shard.outputs, Shard.inputs] at hmem <;> omega
    by_contra hge
    obtain hzero | hzero | hnone := hred
    · exact hsizes.1 hzero
    · exact hsizes.2 hzero
    · rw [hnone e he (Nat.le_of_not_lt hge)] at hslot
      cases hslot

/-- Tensors of all experts leave the slots of redundant experts alone. -/
theorem fused_frame (h : UnquantizedLayer L) {rest : Loader α} {g : Str}
    (hg : L.gateUpName = some g) {st st' : Params α} {names : List Str}
    (hrun : L.loadWeights (L.ownLoader rest) (L.checkpoint g E .fused) st = .ok (st', names))
    {e slot : Nat} (he : L.numCkptExperts ≤ e) (hslot : L.mapGlobalToLocal e = some slot)
    (name : Str) (row col : Nat) :
    st' ⟨name, slot, row, col⟩ = st ⟨name, slot, row, col⟩ := by
  obtain ⟨ps, names', hrun', hps⟩ := loadWeights_layout (E := E) h rest hg .fused (.refl _) st
  cases hrun.symm.trans hrun'
  refine (applyAll_expertPatches h hps st _).2 fun e' he' s => ?_
  by_contra hsome
  obtain ⟨v, hv⟩ := Option.ne_none_iff_exists'.1 hsome
  obtain rfl := h.slots e' e slot (expertPatch_eq_some.1 hv).1 hslot
  exact Nat.not_lt.2 he he'

/-- Where the layouts agree no redundant expert has a slot, since the contents before the run would
show through. -/
theorem LayoutsAgree.no_redundant (h : UnquantizedLayer L) {rest : Loader α} {g : Str}
    (hg : L.gateUpName = some g) (hagree : LayoutsAgree L rest g E) :
    L.hiddenSize = 0 ∨ L.intermediateSizePerPartition = 0 ∨
      ∀ e < L.numPhysicalExperts, L.numCkptExperts ≤ e → L.mapGlobalToLocal e = none := by
  by_contra hred
  simp only [not_or, not_forall] at hred
  obtain ⟨hhidden, hsize, e, he, hge, hlocal⟩ := hred
  obtain ⟨slot, hslot⟩ := Option.ne_none_iff_exists'.1 hlocal
  obtain ⟨st', hruns, hholds⟩ := hagree fun _ => .uint8 0
  obtain ⟨names, hrun⟩ := hruns .fused _ (.refl _)
  have hframe := fused_frame h hg hrun hge hslot (Shard.weightName .w2) 0 0
  have hcell := hholds e he slot hslot .w2 0 (Nat.pos_of_ne_zero hhidden) 0
    (Nat.pos_of_ne_zero hsize)
  cases hcell.symm.trans hframe

/-- **The layouts agree exactly when the rank has no slot of a redundant expert.** -/
theorem layoutsAgree_iff (h : UnquantizedLayer L) (rest : Loader α) {g : Str}
    (hg : L.gateUpName = some g) :
    LayoutsAgree L rest g E ↔
      L.hiddenSize = 0 ∨ L.intermediateSizePerPartition = 0 ∨
        ∀ e < L.numPhysicalExperts, L.numCkptExperts ≤ e → L.mapGlobalToLocal e = none := by
  constructor
  · exact LayoutsAgree.no_redundant h hg
  · intro hred st
    obtain ⟨ps, -, -, hps⟩ := loadWeights_layout (E := E) h rest hg .perExpert (.refl _) st
    refine ⟨Patch.applyAll ps st, ?_, ?_⟩
    · intro layout weights hperm
      obtain ⟨qs, names, hrun, hqs⟩ := loadWeights_layout (E := E) h rest hg layout hperm st
      refine ⟨names, hrun.trans ?_⟩
      congr 2
      funext k
      have hp := applyAll_expertPatches h hps st k
      have hq := applyAll_expertPatches h hqs st k
      by_cases hcovered : ∃ e < L.numPhysicalExperts, ∃ s v, L.expertPatch E s e k = some v
      · obtain ⟨e, he, s, v, hv⟩ := hcovered
        rw [hp.1 e he s v hv, hq.1 e (lt_numFilled hred layout he hv) s v hv]
      · have hnone : ∀ e < L.numPhysicalExperts, ∀ s, L.expertPatch E s e k = none := by
          intro e he s
          by_contra hsome
          obtain ⟨v, hv⟩ := Option.ne_none_iff_exists'.1 hsome
          exact hcovered ⟨e, he, s, v, hv⟩
        rw [hp.2 hnone, hq.2]
        exact fun e he => hnone e (Nat.lt_of_lt_of_le he (numFilled_le L layout))
    · intro e he slot hslot s n hn k hk
      refine (applyAll_expertPatches h hps st _).1 e he s _ (expertPatch_eq_some.2
        ⟨hslot, rfl, ⟨Nat.le_add_right _ _, Nat.add_lt_add_left hn _, Nat.zero_le _, ?_⟩, ?_⟩)
      · exact (Nat.zero_add _).symm ▸ hk
      · simp only [Nat.add_sub_cancel_left]

end layer

/-- A layer of five physical experts, on a rank that has the slot of one of them. -/
def plainExperts (numLogical localExpert : Nat) : RoutedExperts Nat where
  layerName := "model.layers.0.mlp.experts".toList
  ckptGateProjName := "gate_proj".toList
  ckptDownProjName := "down_proj".toList
  ckptUpProjName := "up_proj".toList
  loraBaseLayerPrefix := []
  isFusedCheckpointTransposed := true
  moeConfig := ⟨5, numLogical, 1, 1, 0, true, by decide⟩
  numFusedSharedExperts := 0
  mapGlobalToLocal := fun e => if e = localExpert then some 0 else none
  physicalToLogical := fun e => if e < numLogical then e else (e - numLogical) % numLogical
  hiddenSize := 2
  intermediateSizePerPartition := 1
  parameters :=
    [(Shard.weightName .w1, ⟨1, 2, 2, .params⟩), (Shard.weightName .w2, ⟨1, 2, 1, .params⟩)]
  dtypes := wholeFloats

theorem unquantizedLayer_plainExperts {numLogical localExpert : Nat} (hpos : 0 < numLogical) :
    UnquantizedLayer (plainExperts numLogical localExpert) where
  names := expertNames_of_unique rfl (.inl ⟨rfl, rfl, rfl⟩)
    (show experts <:+ "model.layers.0.mlp.experts".toList by decide)
    (show ¬ experts ++ ['.'] <:+: "model.layers.0.mlp.experts".toList by decide)
  standard := .inl ⟨rfl, rfl, rfl⟩
  clean := show ∀ k ∈ hintWords, ¬ k <:+: "model.layers.0.mlp.experts".toList by
    unfold hintWords
    decide
  gated := rfl
  registered := by
    intro s
    cases s <;> rfl
  slots := by
    intro e e' slot h h'
    exact (Option.ite_none_right_eq_some.1 h).1.trans (Option.ite_none_right_eq_some.1 h').1.symm
  slot_lt := by
    intro e slot h
    cases (Option.ite_none_right_eq_some.1 h).2
    exact Nat.one_pos
  numCkptExperts_pos := hpos
  logical := fun _ _ => rfl

/-- Matrices of ones. -/
def onesExpert : ExpertMatrices Nat 2 (1 * 1) where
  mat := fun s => ⟨s.outputs 2 1, s.inputs 2 1, fun _ _ => 1⟩
  rows := fun _ => rfl
  cols := fun _ => rfl

/-- Without redundant experts the layouts agree. -/
theorem layoutsAgree_plainExperts :
    LayoutsAgree (plainExperts 5 4) noLoader "gate_up_proj".toList fun _ => onesExpert :=
  (layoutsAgree_iff (unquantizedLayer_plainExperts (by decide)) noLoader rfl).2
    (.inr (.inr fun _ he hge => absurd he (Nat.not_lt.2 hge)))

/-- The slot of a redundant expert keeps what it held when the experts come in two tensors. -/
theorem redundant_slot_unfilled :
    (∀ E st, ∃ st' names, (plainExperts 4 4).loadWeights ((plainExperts 4 4).ownLoader noLoader)
        ((plainExperts 4 4).checkpoint "gate_up_proj".toList E .fused) st = .ok (st', names) ∧
      ∀ name row col, st' ⟨name, 0, row, col⟩ = st ⟨name, 0, row, col⟩) ∧
    ¬ LayoutsAgree (plainExperts 4 4) noLoader "gate_up_proj".toList fun _ => onesExpert := by
  have h : UnquantizedLayer (plainExperts 4 4) := unquantizedLayer_plainExperts (by decide)
  constructor
  · intro E st
    obtain ⟨ps, names, hrun, -⟩ :=
      loadWeights_layout (E := E) h noLoader (g := "gate_up_proj".toList) rfl .fused (.refl _) st
    exact ⟨_, names, hrun, fused_frame h rfl hrun (e := 4) (by decide) rfl⟩
  · intro hagree
    obtain hzero | hzero | hnone := hagree.no_redundant h rfl
    · cases hzero
    · cases hzero
    · cases hnone 4 (by decide) (by decide)

end FlashNext
