import FlashNext.NGram.Primes
import FlashNext.NGram.Run

/-!
# FlashNext.NGram.Hashing

The multipliers and the head layout that `Qwen4ExpNGramEmbedding.__init__` computes,
and the range of the ids hashed with them.

A multiplier is at most `(2 ^ 63 - 1) // V`, so its product with a token below the
vocabulary size `V` is a non-negative `torch.long`, and so is any exclusive or of such
products (`mixWindow_eq`).  The heads lie one behind another (`headOffset_succ`), and
an id is in the rows of its head, since a table that can be built has fewer than
`2 ^ 63` rows.
-/

namespace FlashNext

/-! ## multipliers -/

/-- `value & _MASK64` -/
def mask64 (value : Int) : Nat := (value % 2 ^ 64).toNat

/-- `_SPLITMIX_GAMMA` -/
def splitmixGamma : Nat := 0x9E3779B97F4A7C15

/-- `_splitmix64` -/
def splitmix64 (value : Int) : Nat :=
  let value := mask64 (value + splitmixGamma)
  let value := mask64 ((value ^^^ (value >>> 30)) * 0xBF58476D1CE4E5B9 : Nat)
  let value := mask64 ((value ^^^ (value >>> 27)) * 0x94D049BB133111EB : Nat)
  mask64 (value ^^^ (value >>> 31) : Nat)

/-- `_make_layer_multipliers` -/
def makeLayerMultipliers (ngramSize : Nat) (unigramVocabSize seed : Int) (pleDenseLayerId : Nat) :
    Except PyError (List Int) := do
  let maxMultiplier ← floorDiv (2 ^ 63 - 1) unigramVocabSize
  let halfBound := max 1 (maxMultiplier.fdiv 2)
  let baseSeed := seed + 10007 * pleDenseLayerId
  return (List.range ngramSize).map fun index =>
    2 * ((splitmix64 (baseSeed + splitmixGamma * (index + 1)) : Int) % halfBound) + 1

/-! ## construction -/

/-- The part of the configuration that decides the hashing. -/
structure NGramConfig where
  ngramSize : Nat
  headsPerNgram : Nat
  eosTokenId : Int
  vocabSize : Int
  splitNgramParts : Option Int := none
  seed : Option Int := none
  ngramVocabSizeBase : Int
  makeNgramVocabSizeDivisibleBy : Nat

/-- `ngram_heads` -/
def NGramConfig.ngramHeads (cfg : NGramConfig) : Nat := (cfg.ngramSize - 1) * cfg.headsPerNgram

/-- The numbers are `torch.long`s. -/
def fitsLong (xs : List Int) : Bool := xs.all fun x => decide (-2 ^ 63 ≤ x ∧ x < 2 ^ 63)

/-- `torch.tensor(xs, dtype=torch.long)` of numbers that fit. -/
def toLongs (xs : List Int) : List Long := xs.map (BitVec.ofInt 64)

/-- A number that is no `torch.long` cannot be put into a tensor. -/
def overflowError : PyError := .runtimeError "Overflow when unpacking long long"

/-- `_ple_embedding_cls`: what its constructor raises for a number of rows, their size and the
padding. -/
abbrev EmbeddingCls := (paddedVocabSize headDim paddingSize : Int) → Except PyError Unit

/-- The rows of a tensor are counted by a `torch.long`. -/
def EmbeddingCls.Documented (embeddingCls : EmbeddingCls) : Prop :=
  ∀ rows headDim paddingSize, embeddingCls rows headDim paddingSize = .ok () → rows < 2 ^ 63

/-- `__init__`: the embedding and `padded_vocab_size`. -/
def NGramEmbedding.init (embeddingCls : EmbeddingCls) (cfg : NGramConfig) (embeddingDim : Int)
    (pleDenseLayerId maxTotalTokens maxNumReqs : Nat) : Except PyError (NGramEmbedding × Int) :=
  let ngramHeads := cfg.ngramHeads
  let ngramSize := cfg.ngramSize
  let heads := cfg.headsPerNgram
  if hsize : ngramSize < 2 then
    .error (.valueError s!"ngram_size must be >= 2, got {ngramSize}")
  else if heads = 0 then
    .error (.valueError s!"heads_per_ngram must be > 0, got {heads}")
  else if embeddingDim % ngramHeads ≠ 0 then
    .error (.valueError
      s!"ple_embed_dim must be divisible by total ngram heads: {embeddingDim} % {ngramHeads} != 0")
  else if cfg.splitNgramParts.getD 512 ≤ 0 then
    .error (.valueError "split_ngram_parts must be positive")
  else do
    let multipliers ← makeLayerMultipliers cfg.ngramSize cfg.vocabSize (cfg.seed.getD 1234)
      pleDenseLayerId
    let layout := makeVocabLayout cfg.ngramVocabSizeBase ngramHeads pleDenseLayerId
    if fitsLong multipliers && fitsLong layout.1 && fitsLong layout.2.1 then
      let divisor := (cfg.makeNgramVocabSizeDivisibleBy : Int)
      let parts ← floorDiv (layout.2.2 + divisor - 1) divisor
      let headDim := embeddingDim.fdiv ngramHeads
      embeddingCls (parts * divisor) headDim divisor
      if fitsLong [cfg.eosTokenId] then
        return ({
          ngramSize := cfg.ngramSize
          headsPerNgram := cfg.headsPerNgram
          eosTokenId := BitVec.ofInt 64 cfg.eosTokenId
          layerMultipliers := toLongs multipliers
          ngramHeadsVocabSizes := toLongs layout.1
          ngramHeadsOffsets := toLongs layout.2.1
          maxTotalTokens := maxTotalTokens
          maxNumReqs := maxNumReqs
          ngramSize_ge := by omega
          length_sizes := by simp [layout, toLongs, makeVocabLayout_eq, ngramHeads,
            NGramConfig.ngramHeads]
          length_offsets := by simp [layout, toLongs, makeVocabLayout_eq, ngramHeads,
            NGramConfig.ngramHeads] },
          parts * divisor)
      else .error overflowError
    else .error overflowError

/-! ## products and exclusive ors -/

/-- The multipliers are odd and at most `(2 ^ 63 - 1) // V`. -/
theorem makeLayerMultipliers_spec {V seed : Int} {ngramSize layer : Nat} (hV : 1 ≤ V)
    (hV' : V < 2 ^ 63) {ms : List Int}
    (h : makeLayerMultipliers ngramSize V seed layer = .ok ms) :
    ms.length = ngramSize ∧ ∀ m ∈ ms, 0 < m ∧ m * V ≤ 2 ^ 63 - 1 := by
  obtain ⟨bound, hbound, h⟩ := bind_eq_ok.1 h
  obtain ⟨-, rfl⟩ := floorDiv_eq_ok.1 hbound
  cases h
  refine ⟨by simp, fun m hm => ?_⟩
  obtain ⟨index, -, rfl⟩ := List.mem_map.mp hm
  rw [Int.fdiv_eq_ediv_of_nonneg _ (by omega : (0 : Int) ≤ V),
    Int.fdiv_eq_ediv_of_nonneg _ (by omega : (0 : Int) ≤ 2)]
  generalize hq : ((2 : Int) ^ 63 - 1) / V = q
  generalize (splitmix64 _ : Int) = r
  have hqV : q * V ≤ 2 ^ 63 - 1 := hq ▸ Int.ediv_mul_le _ (by omega)
  have hq1 : 1 ≤ q := by
    rw [← hq]
    exact (Int.le_ediv_iff_mul_le (by omega)).2 (by omega)
  have hpos := Int.emod_nonneg r (show max 1 (q / 2) ≠ 0 by omega)
  have hlt := Int.emod_lt_of_pos r (show 0 < max 1 (q / 2) by omega)
  have hle : 2 * (r % max 1 (q / 2)) + 1 ≤ q := by omega
  exact ⟨by omega, (Int.mul_le_mul_of_nonneg_right hle (by omega)).trans hqV⟩

theorem toInt_of_nonneg {x : Long} (h : 0 ≤ x.toInt) : x.toInt = x.toNat := by
  rw [BitVec.toInt_eq_toNat_cond] at h ⊢
  have := x.isLt
  split at h <;> omega

theorem toInt_of_lt {x : Long} (h : x.toNat < 2 ^ 63) : x.toInt = x.toNat :=
  BitVec.toInt_eq_toNat_of_lt (by omega)

/-- Numbers whose product is below `2 ^ 63` multiply exactly. -/
theorem toNat_mul_of_nonneg {x y : Long} (hx : 0 ≤ x.toInt) (hy : 0 ≤ y.toInt)
    (h : x.toInt * y.toInt < 2 ^ 63) :
    (x * y).toNat = (x.toInt * y.toInt).toNat ∧ (x * y).toNat < 2 ^ 63 := by
  rw [toInt_of_nonneg hx, toInt_of_nonneg hy] at h ⊢
  have hlt : x.toNat * y.toNat < 2 ^ 63 := by exact_mod_cast h
  have hmul : (x * y).toNat = x.toNat * y.toNat :=
    BitVec.toNat_mul_of_lt (hlt.trans (by decide))
  rw [hmul, ← Int.natCast_mul, Int.toNat_natCast]
  exact ⟨rfl, hlt⟩

/-- Numbers whose sum is below `2 ^ 63` add exactly. -/
theorem toInt_add_of_nonneg {x y : Long} (hx : 0 ≤ x.toInt) (hy : 0 ≤ y.toInt)
    (h : x.toInt + y.toInt < 2 ^ 63) : (x + y).toInt = x.toInt + y.toInt := by
  rw [BitVec.toInt_add, Int.bmod_def]
  omega

/-- A token id of a vocabulary of `V` tokens. -/
def IsToken (V : Int) (t : Long) : Prop := 0 ≤ t.toInt ∧ t.toInt < V

instance (V : Int) (t : Long) : Decidable (IsToken V t) := inferInstanceAs (Decidable (_ ∧ _))

namespace NGramEmbedding

/-- The exclusive or of the first `n` multiplied tokens of a window; token `i` is `i` places
back. -/
def mixWindow (E : NGramEmbedding) (w : Nat → Long) (n : Nat) : Long :=
  (List.range n).foldl (fun acc i => acc ^^^ (E.layerMultipliers.getD i 0 * w i)) 0

/-- The exclusive or of the exact products. -/
def exactMix (E : NGramEmbedding) (w : Nat → Long) (n : Nat) : Nat :=
  (List.range n).foldl
    (fun acc i => acc ^^^ ((E.layerMultipliers.getD i 0).toInt * (w i).toInt).toNat) 0

/-- A window of token ids of a vocabulary. -/
def Window (E : NGramEmbedding) (V : Int) (w : Nat → Long) : Prop :=
  ∀ i < E.ngramSize, IsToken V (w i)

/-- The number of rows of head `h`. -/
def headRows (E : NGramEmbedding) (h : Nat) : Int := (E.ngramHeadsVocabSizes.getD h 0).toInt

/-- The first row of head `h`. -/
def headStart (E : NGramEmbedding) (h : Nat) : Int := (E.ngramHeadsOffsets.getD h 0).toInt

/-- A row of the table is one of head `h`. -/
def InHead (E : NGramEmbedding) (h : Nat) (x : Int) : Prop :=
  E.headStart h ≤ x ∧ x < E.headStart h + E.headRows h

variable {E : NGramEmbedding} {V : Int}

/-- Multipliers whose products with tokens are exact mix exactly. -/
theorem mixWindow_eq
    (hmul : ∀ i < E.ngramSize, ∀ t, 0 ≤ t → t < V →
      0 ≤ (E.layerMultipliers.getD i 0).toInt ∧ (E.layerMultipliers.getD i 0).toInt * t < 2 ^ 63)
    {w : Nat → Long} (hw : E.Window V w) {n : Nat} (hn : n ≤ E.ngramSize) :
    (E.mixWindow w n).toNat = E.exactMix w n ∧ E.exactMix w n < 2 ^ 63 := by
  induction n with
  | zero => simp [mixWindow, exactMix]
  | succ n ih =>
    obtain ⟨heq, hlt⟩ := ih (by omega)
    obtain ⟨hpos, hV⟩ := hw n hn
    obtain ⟨hmul_pos, hmul_lt⟩ := hmul n hn _ hpos hV
    obtain ⟨hexact, hprod⟩ := toNat_mul_of_nonneg hmul_pos hpos hmul_lt
    have hmix : (E.mixWindow w (n + 1)).toNat = E.exactMix w (n + 1) := by
      simp only [mixWindow, exactMix, List.range_succ, List.foldl_append, List.foldl_cons,
        List.foldl_nil, BitVec.toNat_xor] at heq ⊢
      rw [heq, hexact]
    refine ⟨hmix, ?_⟩
    rw [exactMix, List.range_succ, List.foldl_append]
    exact Nat.xor_lt_two_pow hlt (hexact ▸ hprod)

/-- The id of head `h` is the exact one and in the rows of the head, if these are numbered by
`torch.long`s. -/
theorem id_eq {mixed : Long} {h : Nat} (hrows : 0 < E.headRows h) (hstart : 0 ≤ E.headStart h)
    (hend : E.headStart h + E.headRows h ≤ 2 ^ 63) :
    let id := mixed.smod (E.ngramHeadsVocabSizes.getD h 0) + E.ngramHeadsOffsets.getD h 0
    id.toInt = E.headStart h + mixed.toInt % E.headRows h ∧ E.InHead h id.toInt := by
  unfold InHead headStart headRows at *
  generalize E.ngramHeadsVocabSizes.getD h 0 = size at *
  generalize E.ngramHeadsOffsets.getD h 0 = offset at *
  have hmod : (mixed.smod size).toInt = mixed.toInt % size.toInt := by
    rw [BitVec.toInt_smod, Int.fmod_eq_emod_of_nonneg _ hrows.le]
  have hnonneg := Int.emod_nonneg mixed.toInt hrows.ne'
  have hlt := Int.emod_lt_of_pos mixed.toInt hrows
  rw [← hmod] at hnonneg hlt ⊢
  intro id
  have hid : id.toInt = (mixed.smod size).toInt + offset.toInt :=
    toInt_add_of_nonneg hnonneg hstart (by omega)
  omega

end NGramEmbedding

/-! ## what construction leaves -/

theorem toInt_toLongs {xs : List Int} (h : fitsLong xs = true) (i : Nat) :
    ((toLongs xs).getD i 0).toInt = xs.getD i 0 := by
  have hmap : (toLongs xs).getD i (BitVec.ofInt 64 0) = BitVec.ofInt 64 (xs.getD i 0) :=
    List.getD_map ..
  have hfits : -2 ^ 63 ≤ xs.getD i 0 ∧ xs.getD i 0 < 2 ^ 63 := by
    by_cases hi : i < xs.length
    · rw [List.getD_eq_getElem _ _ hi]
      simpa using List.all_eq_true.1 h _ (List.getElem_mem hi)
    · rw [List.getD_eq_default _ _ (by omega)]
      decide
  exact (congrArg BitVec.toInt hmap).trans
    (BitVec.toInt_ofInt_eq_self (by decide) hfits.1 hfits.2)

variable {embeddingCls : EmbeddingCls} {cfg : NGramConfig} {embeddingDim : Int}
  {layer maxTotalTokens maxNumReqs : Nat} {E : NGramEmbedding} {padded : Int}

/-- An embedding built from the configuration holds its multipliers `ms` and its layout. -/
structure BuiltFrom (cfg : NGramConfig) (layer : Nat) (ms : List Int) (E : NGramEmbedding)
    (padded : Int) : Prop where
  ngramSize : E.ngramSize = cfg.ngramSize
  headsPerNgram : E.headsPerNgram = cfg.headsPerNgram
  multipliers : makeLayerMultipliers cfg.ngramSize cfg.vocabSize (cfg.seed.getD 1234) layer = .ok ms
  mult : ∀ i, (E.layerMultipliers.getD i 0).toInt = ms.getD i 0
  size : ∀ h < cfg.ngramHeads, E.headRows h =
    headSize cfg.ngramVocabSizeBase cfg.ngramHeads layer h
  offset : ∀ h < cfg.ngramHeads, E.headStart h =
    headOffset cfg.ngramVocabSizeBase cfg.ngramHeads layer h
  padded : headOffset cfg.ngramVocabSizeBase cfg.ngramHeads layer cfg.ngramHeads ≤ padded

/-- Rounding up to a multiple of a positive divisor does not go below. -/
theorem le_fdiv_mul {x d : Int} (hd : 0 < d) : x ≤ (x + d - 1).fdiv d * d := by
  rw [Int.fdiv_eq_ediv_of_nonneg _ hd.le]
  have hmod := Int.emod_lt_of_pos (x + d - 1) hd
  have hdiv := Int.mul_ediv_add_emod (x + d - 1) d
  rw [mul_comm] at hdiv
  omega

/-- Rounding up to a multiple of a positive divisor stays below the next one. -/
theorem fdiv_mul_lt {x d : Int} (hd : 0 < d) : (x + d - 1).fdiv d * d < x + d := by
  rw [Int.fdiv_eq_ediv_of_nonneg _ hd.le]
  have hle := Int.ediv_mul_le (x + d - 1) hd.ne'
  omega

theorem getD_map_range {f : Nat → Int} {n h : Nat} (hh : h < n) :
    ((List.range n).map f).getD h 0 = f h := by
  simp [List.getD_eq_getElem?_getD, hh]

/-- The layout lists what the heads have. -/
theorem getD_makeVocabLayout {base : Int} {heads layer h : Nat} (hh : h < heads) :
    (makeVocabLayout base heads layer).1.getD h 0 = headSize base heads layer h ∧
      (makeVocabLayout base heads layer).2.1.getD h 0 = headOffset base heads layer h := by
  rw [makeVocabLayout_eq]
  exact ⟨getD_map_range hh, getD_map_range hh⟩

/-- What a construction that returns has built, and from what. -/
theorem NGramEmbedding.init_eq_ok (h : NGramEmbedding.init embeddingCls cfg embeddingDim layer
      maxTotalTokens maxNumReqs = .ok (E, padded)) :
    (∃ ms, BuiltFrom cfg layer ms E padded) ∧
      (∃ headDim paddingSize, embeddingCls padded headDim paddingSize = .ok ()) ∧
      E.eosTokenId = BitVec.ofInt 64 cfg.eosTokenId ∧ E.maxTotalTokens = maxTotalTokens ∧
      E.maxNumReqs = maxNumReqs := by
  unfold NGramEmbedding.init at h
  dsimp only at h
  split at h
  · cases h
  split at h
  · cases h
  split at h
  · cases h
  split at h
  · cases h
  obtain ⟨ms, hms, h⟩ := bind_eq_ok.1 h
  split at h
  · next hfits =>
    simp only [Bool.and_eq_true] at hfits
    obtain ⟨parts, hparts, h⟩ := bind_eq_ok.1 h
    obtain ⟨hd, rfl⟩ := floorDiv_eq_ok.1 hparts
    obtain ⟨_, htable, h⟩ := bind_eq_ok.1 h
    split at h
    · cases h
      refine ⟨⟨ms, rfl, rfl, hms, toInt_toLongs hfits.1.1, fun h hh => ?_, fun h hh => ?_, ?_⟩,
        ⟨_, _, htable⟩, rfl, rfl, rfl⟩
      · exact (toInt_toLongs hfits.1.2 h).trans (getD_makeVocabLayout hh).1
      · exact (toInt_toLongs hfits.2 h).trans (getD_makeVocabLayout hh).2
      · rw [makeVocabLayout_eq]
        exact le_fdiv_mul (by omega)
    · cases h
  · cases h

theorem init_builtFrom (h : NGramEmbedding.init embeddingCls cfg embeddingDim layer maxTotalTokens
      maxNumReqs = .ok (E, padded)) : ∃ ms, BuiltFrom cfg layer ms E padded :=
  (NGramEmbedding.init_eq_ok h).1

/-- The rows of all heads are numbered by `torch.long`s. -/
theorem init_total_lt (hcls : embeddingCls.Documented)
    (h : NGramEmbedding.init embeddingCls cfg embeddingDim layer maxTotalTokens maxNumReqs =
      .ok (E, padded)) :
    headOffset cfg.ngramVocabSizeBase cfg.ngramHeads layer cfg.ngramHeads < 2 ^ 63 := by
  obtain ⟨⟨ms, hb⟩, ⟨headDim, paddingSize, htable⟩, -⟩ := NGramEmbedding.init_eq_ok h
  exact hb.padded.trans_lt (hcls _ _ _ htable)

/-- Construction succeeds with the multipliers and the layout, where these fit and the table can be
built. -/
theorem exists_embedding (embeddingCls : EmbeddingCls) (cfg : NGramConfig) (embeddingDim : Int)
    (layer maxTotalTokens maxNumReqs : Nat)
    {ms : List Int} (hsize : 2 ≤ cfg.ngramSize) (hheads : cfg.headsPerNgram ≠ 0)
    (hdim : embeddingDim % cfg.ngramHeads = 0) (hparts : 0 < cfg.splitNgramParts.getD 512)
    (hms : makeLayerMultipliers cfg.ngramSize cfg.vocabSize (cfg.seed.getD 1234) layer = .ok ms)
    (hfits : (fitsLong ms &&
        fitsLong (makeVocabLayout cfg.ngramVocabSizeBase cfg.ngramHeads layer).1 &&
        fitsLong (makeVocabLayout cfg.ngramVocabSizeBase cfg.ngramHeads layer).2.1) = true)
    (heos : fitsLong [cfg.eosTokenId] = true) (hdiv : 0 < cfg.makeNgramVocabSizeDivisibleBy)
    (htable : ∀ rows, rows < (makeVocabLayout cfg.ngramVocabSizeBase cfg.ngramHeads layer).2.2 +
        cfg.makeNgramVocabSizeDivisibleBy →
      embeddingCls rows (embeddingDim.fdiv cfg.ngramHeads) cfg.makeNgramVocabSizeDivisibleBy =
        .ok ()) :
    ∃ E padded, NGramEmbedding.init embeddingCls cfg embeddingDim layer maxTotalTokens maxNumReqs =
      .ok (E, padded) := by
  have hdiv' : 0 < (cfg.makeNgramVocabSizeDivisibleBy : Int) := Int.natCast_pos.2 hdiv
  have hfloor : ∀ x, floorDiv x (cfg.makeNgramVocabSizeDivisibleBy : Int) =
      .ok (x.fdiv cfg.makeNgramVocabSizeDivisibleBy) := fun x =>
    floorDiv_eq_ok.2 ⟨hdiv'.ne', rfl⟩
  unfold NGramEmbedding.init
  dsimp only
  rw [dif_neg (by omega), if_neg hheads, if_neg (by omega), if_neg (by omega), hms]
  dsimp only [Bind.bind, Except.bind]
  rw [if_pos hfits, hfloor]
  dsimp only
  rw [htable _ (fdiv_mul_lt hdiv')]
  dsimp only
  rw [if_pos heos]
  exact ⟨_, _, rfl⟩

/-! ## the range of the ids -/

/-- What hashing with an embedding of `heads` heads and `total` rows satisfies, for windows of
tokens below `V`. -/
structure HashesWithin (E : NGramEmbedding) (heads : Nat) (V total padded : Int) : Prop where
  product : ∀ i < E.ngramSize, ∀ t, 0 ≤ t → t < V →
    0 ≤ (E.layerMultipliers.getD i 0).toInt ∧ (E.layerMultipliers.getD i 0).toInt * t < 2 ^ 63
  mix : ∀ w, E.Window V w → ∀ n ≤ E.ngramSize, (E.mixWindow w n).toInt = E.exactMix w n
  nonempty : ∀ h < heads, 0 < E.headRows h
  disjoint : ∀ h < heads, ∀ h' < heads, ∀ x, E.InHead h x → E.InHead h' x → h = h'
  tile : ∀ x, (0 ≤ x ∧ x < total) ↔ ∃ h < heads, E.InHead h x
  total_le : total ≤ padded
  id : ∀ w, E.Window V w → ∀ n, 2 ≤ n → n ≤ E.ngramSize → ∀ k < E.headsPerNgram,
    ∃ h < heads, h = (n - 2) * E.headsPerNgram + k ∧
      ∃ id, (E.idBlock n (E.mixWindow w n))[k]? = some id ∧
        id.toInt = E.headStart h + (E.exactMix w n : Int) % E.headRows h ∧ E.InHead h id.toInt

namespace BuiltFrom

variable {ms : List Int} (hb : BuiltFrom cfg layer ms E padded)
include hb

theorem inHead_iff_offset {h : Nat} (hh : h < cfg.ngramHeads) (x : Int) :
    E.InHead h x ↔
      headOffset cfg.ngramVocabSizeBase cfg.ngramHeads layer h ≤ x ∧
        x < headOffset cfg.ngramVocabSizeBase cfg.ngramHeads layer (h + 1) := by
  rw [NGramEmbedding.InHead, hb.size h hh, hb.offset h hh, headOffset_succ]

theorem headRows_pos {h : Nat} (hh : h < cfg.ngramHeads) : 0 < E.headRows h := by
  have := two_le_headSize cfg.ngramVocabSizeBase cfg.ngramHeads layer h
  rw [hb.size h hh]
  omega

theorem headStart_nonneg {h : Nat} (hh : h < cfg.ngramHeads) : 0 ≤ E.headStart h := by
  rw [hb.offset h hh]
  exact headOffset_mono (h := 0) (Nat.zero_le h)

/-- The rows of a head end within the rows of all heads. -/
theorem headStart_add_headRows_le {h : Nat} (hh : h < cfg.ngramHeads) :
    E.headStart h + E.headRows h ≤
      headOffset cfg.ngramVocabSizeBase cfg.ngramHeads layer cfg.ngramHeads := by
  rw [hb.offset h hh, hb.size h hh, ← headOffset_succ]
  exact headOffset_mono (Nat.succ_le_of_lt hh)

/-- The heads of an n-gram size are heads of the embedding. -/
theorem head_lt {n k : Nat} (hn2 : 2 ≤ n) (hn : n ≤ E.ngramSize) (hk : k < E.headsPerNgram) :
    (n - 2) * E.headsPerNgram + k < cfg.ngramHeads := by
  rw [NGramConfig.ngramHeads, ← hb.ngramSize, ← hb.headsPerNgram]
  exact (Nat.add_lt_add_left hk _).trans_le (E.headBlock_le hn2 hn)

/-- A row is in the table exactly if it is in the rows of a head. -/
theorem exists_inHead_iff (x : Int) :
    (0 ≤ x ∧ x < headOffset cfg.ngramVocabSizeBase cfg.ngramHeads layer cfg.ngramHeads) ↔
      ∃ h < cfg.ngramHeads, E.InHead h x := by
  constructor
  · rintro ⟨hx, hlt⟩
    obtain ⟨h, hh, hle, hsucc⟩ := exists_head hx hlt
    exact ⟨h, hh, (hb.inHead_iff_offset hh x).2 ⟨hle, hsucc⟩⟩
  · rintro ⟨h, hh, hx⟩
    have hstart := hb.headStart_nonneg hh
    have htop := hb.headStart_add_headRows_le hh
    exact ⟨hstart.trans hx.1, hx.2.trans_le htop⟩

/-- The products of tokens with multipliers do not overflow. -/
theorem product_lt (hV : 1 ≤ cfg.vocabSize) (hV' : cfg.vocabSize < 2 ^ 63) {i : Nat}
    (hi : i < E.ngramSize) {t : Int} (htV : t < cfg.vocabSize) :
    0 ≤ (E.layerMultipliers.getD i 0).toInt ∧
      (E.layerMultipliers.getD i 0).toInt * t < 2 ^ 63 := by
  obtain ⟨hlen, hspec⟩ := makeLayerMultipliers_spec hV hV' hb.multipliers
  have hi' : i < ms.length := by rwa [hlen, ← hb.ngramSize]
  obtain ⟨hpos, hle⟩ := hspec _ (List.getElem_mem hi')
  rw [hb.mult, List.getD_eq_getElem _ _ hi']
  have hmono := Int.mul_le_mul_of_nonneg_left htV.le hpos.le
  omega

/-- Windows of tokens mix exactly. -/
theorem toInt_mixWindow (hV : 1 ≤ cfg.vocabSize) (hV' : cfg.vocabSize < 2 ^ 63)
    {w : Nat → Long} (hw : E.Window cfg.vocabSize w) {n : Nat} (hn : n ≤ E.ngramSize) :
    (E.mixWindow w n).toInt = E.exactMix w n := by
  obtain ⟨heq, hlt⟩ := NGramEmbedding.mixWindow_eq
    (fun i hi t _ htV => hb.product_lt hV hV' hi htV) hw hn
  rw [toInt_of_lt (heq ▸ hlt), heq]

/-- In a table whose rows are numbered by `torch.long`s, every id is that of its mix and in the rows
of its head, whatever is mixed. -/
theorem id_inHead
    (htotal : headOffset cfg.ngramVocabSizeBase cfg.ngramHeads layer cfg.ngramHeads < 2 ^ 63)
    (mixed : Long) {n k : Nat} (hn2 : 2 ≤ n) (hn : n ≤ E.ngramSize) (hk : k < E.headsPerNgram) :
    ∃ h < cfg.ngramHeads, h = (n - 2) * E.headsPerNgram + k ∧
      ∃ id, (E.idBlock n mixed)[k]? = some id ∧
        id.toInt = E.headStart h + mixed.toInt % E.headRows h ∧ E.InHead h id.toInt := by
  have hh := hb.head_lt hn2 hn hk
  have htop := (hb.headStart_add_headRows_le hh).trans htotal.le
  exact ⟨_, hh, rfl, _, E.getElem?_idBlock hn2 hn hk _,
    NGramEmbedding.id_eq (hb.headRows_pos hh) (hb.headStart_nonneg hh) htop⟩

end BuiltFrom

/-- **Hashing never overflows and never leaves the rows of its head**, with an embedding built for
a vocabulary of at least one and less than `2 ^ 63` tokens. -/
theorem init_hashesWithin (hcls : embeddingCls.Documented) (hV : 1 ≤ cfg.vocabSize)
    (hV' : cfg.vocabSize < 2 ^ 63)
    (h : NGramEmbedding.init embeddingCls cfg embeddingDim layer maxTotalTokens maxNumReqs =
      .ok (E, padded)) :
    HashesWithin E cfg.ngramHeads cfg.vocabSize
      (makeVocabLayout cfg.ngramVocabSizeBase cfg.ngramHeads layer).2.2 padded := by
  obtain ⟨ms, hb⟩ := init_builtFrom h
  have htotal := init_total_lt hcls h
  rw [makeVocabLayout_eq]
  exact {
    product := fun i hi t _ htV => hb.product_lt hV hV' hi htV
    mix := fun w hw n hn => hb.toInt_mixWindow hV hV' hw hn
    nonempty := fun h hh => hb.headRows_pos hh
    disjoint := by
      intro h hh h' hh' x hx hx'
      rw [hb.inHead_iff_offset hh] at hx
      rw [hb.inHead_iff_offset hh'] at hx'
      exact head_unique hx.1 hx.2 hx'.1 hx'.2
    tile := hb.exists_inHead_iff
    total_le := hb.padded
    id := fun w hw n hn2 hn k hk =>
      hb.toInt_mixWindow hV hV' hw hn ▸ hb.id_inHead htotal (E.mixWindow w n) hn2 hn hk }

/-- A request of tokens looks back at tokens. -/
theorem back_window {V : Int} {q : NGramReq} (heos : IsToken V E.eosTokenId)
    (hq : ∀ t ∈ q.context ++ q.tokens, IsToken V t) {j : Nat}
    (hctx : q.context.length = E.ngramSize - 1) (hj : j < q.tokens.length) :
    E.Window V (q.back E j) := by
  intro i hi
  unfold NGramReq.back segmentBack
  split
  · exact heos
  · refine hq _ ?_
    rw [List.getD_eq_getElem _ _ (by simp; omega)]
    exact List.getElem_mem _

/-- Every id that a batch of tokens gets is exact and in the rows of its head. -/
theorem forward_inHead (hcls : embeddingCls.Documented) (hV : 1 ≤ cfg.vocabSize)
    (hV' : cfg.vocabSize < 2 ^ 63)
    (h : NGramEmbedding.init embeddingCls cfg embeddingDim layer maxTotalTokens maxNumReqs =
      .ok (E, padded)) (heos : IsToken cfg.vocabSize E.eosTokenId) (reqs : List NGramReq)
    (hne : reqs ≠ [])
    (pad : List Long) (more : List (List Long)) (paddedBuffer : Nat × Nat → Long)
    (hreq : ∀ q ∈ reqs, q.context.length = E.ngramSize - 1 ∧
      ∀ t ∈ q.context ++ q.tokens, IsToken cfg.vocabSize t)
    (htokens : (reqs.map (·.tokens.length)).sum + pad.length ≤ E.maxTotalTokens)
    (hreqs : reqs.length ≤ E.maxNumReqs) :
    ∃ ids paddedBuffer',
      E.forward ((reqs.map NGramReq.tokens).flatten ++ pad)
          (cuSeqlens (reqs.map (·.tokens.length))) (reqs.map NGramReq.context ++ more)
          paddedBuffer = .ok (ids, paddedBuffer') ∧
      ∀ r (hr : r < reqs.length) j, j < reqs[r].tokens.length →
        ∀ n, 2 ≤ n → n ≤ E.ngramSize → ∀ k < E.headsPerNgram,
          let token := (cuSeqlens (reqs.map (·.tokens.length))).getD r 0 + j
          let head := (n - 2) * E.headsPerNgram + k
          ∃ id, ids[token]?.bind (·[head]?) = some id ∧
            id.toInt = E.headStart head +
              (E.exactMix (reqs[r].back E j) n : Int) % E.headRows head ∧
            E.InHead head id.toInt := by
  obtain ⟨ms, hb⟩ := init_builtFrom h
  obtain ⟨ids, paddedBuffer', hrun, hrow⟩ := forward_tokenIds E reqs hne pad more paddedBuffer
    (fun q hq => (hreq q hq).1) htokens hreqs
  refine ⟨ids, paddedBuffer', hrun, ?_⟩
  intro r hr j hj n hn2 hn k hk
  obtain ⟨hctx, htoks⟩ := hreq _ (List.getElem_mem hr)
  have hmix := hb.toInt_mixWindow hV hV' (back_window heos htoks hctx hj) hn
  obtain ⟨_, -, rfl, id, hget, hid⟩ := hb.id_inHead (init_total_lt hcls h)
    (E.mixWindow (reqs[r].back E j) n) hn2 hn hk
  rw [hmix] at hid
  rw [E.getElem?_idBlock hn2 hn hk] at hget
  refine ⟨id, ?_, hid⟩
  rw [hrow r hr j hj, Option.bind_some, reqs[r].getElem?_tokenIds E j hn2 hn hk]
  exact hget

/-! ## embeddings built from configurations -/

/-- A table is built as long as its storage can be addressed. -/
def storageCls : EmbeddingCls := fun paddedVocabSize headDim _ =>
  if paddedVocabSize < 2 ^ 63 ∧ paddedVocabSize * headDim < 2 ^ 63 then .ok ()
  else .error (.runtimeError "Storage size calculation overflowed")

theorem storageCls_documented : storageCls.Documented := by
  intro rows headDim paddingSize h
  exact (guard_eq_ok.1 h).1.1

/-- Bigrams of ten tokens, hashed by two heads of at least five rows. -/
def bigramConfig : NGramConfig where
  ngramSize := 2
  headsPerNgram := 2
  eosTokenId := 0
  vocabSize := 10
  ngramVocabSizeBase := 5
  makeNgramVocabSizeDivisibleBy := 8

theorem makeVocabLayout_bigram : makeVocabLayout 5 2 0 = ([5, 7], [0, 5], 12) := by
  have hfive : headSize 5 2 0 0 = 5 := by
    refine (nextPrime_sub_one (c := 5) (by decide) (by decide)).trans ?_
    rw [searchPrime, if_pos (by decide +kernel)]
    rfl
  have hseven : headSize 5 2 0 1 = 7 := by
    refine (congrArg nextPrime hfive).trans
      ((nextPrime_sub_two (c := 7) (by decide) (by decide)).trans ?_)
    rw [searchPrime, if_pos (by decide +kernel)]
    rfl
  rw [makeVocabLayout_eq]
  simp [List.range_succ, headOffset, hfive, hseven]

theorem exists_bigramEmbedding :
    ∃ E padded, NGramEmbedding.init storageCls bigramConfig 4 0 8 1 = .ok (E, padded) := by
  have hlayout : makeVocabLayout bigramConfig.ngramVocabSizeBase bigramConfig.ngramHeads 0 = _ :=
    makeVocabLayout_bigram
  refine exists_embedding storageCls bigramConfig 4 0 8 1 (by decide) (by decide) (by decide)
    (by decide) rfl (by rw [hlayout]; decide +kernel) (by decide) (by decide) ?_
  rw [hlayout]
  intro rows hrows
  have hrows : rows < 20 := hrows
  exact if_pos ⟨by omega, show rows * 2 < 2 ^ 63 by omega⟩

theorem init_hashesWithin_bigram :
    ∃ E padded, NGramEmbedding.init storageCls bigramConfig 4 0 8 1 = .ok (E, padded) ∧
      HashesWithin E 2 10 12 padded := by
  obtain ⟨E, padded, h⟩ := exists_bigramEmbedding
  refine ⟨E, padded, h, ?_⟩
  have hwithin := init_hashesWithin storageCls_documented (by decide) (by decide) h
  rwa [show makeVocabLayout bigramConfig.ngramVocabSizeBase bigramConfig.ngramHeads 0 = _
        from makeVocabLayout_bigram] at hwithin

end FlashNext
