import FlashNext.PyError
import FlashNext.Str
import FlashNext.Strided

/-!
# FlashNext.Moe.Eplb

`get_expert_weights`: the views through which the load balancer moves experts.

Every expert parameter is viewed as a matrix with one row for each local expert, and the balancer
exchanges rows, within a rank and between ranks.  A transposed scale is viewed through its
transpose, which has the same elements in the same storage.

* `view_columns` — a column of a view is the same element of every expert;
* `experts_moved_whole` — whatever rows are exchanged, experts move whole, in every parameter.
-/

namespace FlashNext

/-- A tensor: the storage it lies in, the address of its first element and its dimensions. -/
structure StoredTensor where
  storage : Nat
  offset : Nat
  dims : Extents
deriving DecidableEq, Repr

namespace StoredTensor

/-- `shape` -/
def shape (t : StoredTensor) : List Nat := t.dims.shape

/-- The address of an element in the storage. -/
def addr (t : StoredTensor) (idx : List Nat) : Nat := t.offset + t.dims.address idx

/-- `_maybe_make_contiguous`: a weight scale whose last two dimensions are transposed is
transposed back, in the same storage. -/
def maybeMakeContiguous (name : Str) (p : StoredTensor) : StoredTensor :=
  match p.dims with
  | [d₀, d₁, d₂] =>
    if p.dims.isContiguous then p
    else if ¬ "weight_scale".toList <:+: name ∨ ¬ (d₁.stride = 1 ∧ d₂.stride ≠ 1) then p
    else { p with dims := [d₀, d₂, d₁] }
  | _ => p

/-- `view(local_num_experts, -1)` of a contiguous tensor. -/
def viewExperts (localNumExperts : Nat) (t : StoredTensor) : Except PyError StoredTensor :=
  if 0 < localNumExperts ∧ localNumExperts ∣ t.dims.numel then
    let columns := t.dims.numel / localNumExperts
    .ok { t with dims := [⟨localNumExperts, columns⟩, ⟨columns, 1⟩] }
  else .error (.runtimeError "shape is invalid for input")

end StoredTensor

/-- `NON_EXPERT_WEIGHTS` -/
def nonExpertWeights : List Str :=
  ["e_score_correction_bias".toList, "w13_input_scale".toList, "w2_input_scale".toList,
    "hash_indices_table".toList]

/-- `NON_EXPERT_PREFIXES` -/
def nonExpertPrefixes : List Str := []

/-- The parameter belongs to the experts. -/
def isExpertWeight (name : Str) : Bool :=
  !nonExpertPrefixes.any (·.isPrefixOf name) && !nonExpertWeights.contains name

/-- `get_expert_weights` of `named_parameters()`. -/
def getExpertWeights (localNumExperts : Nat) (params : List (Str × StoredTensor)) :
    Except PyError (List StoredTensor) :=
  let weights := params.map fun p => (p.1, p.2.maybeMakeContiguous p.1)
  if weights.all fun w => !isExpertWeight w.1 || w.2.dims.isContiguous then
    (weights.filter fun w => isExpertWeight w.1 && w.2.shape ≠ []).mapM fun w =>
      w.2.viewExperts localNumExperts
  else .error .assertionError

/-! ## a view and its parameter -/

namespace StoredTensor

variable {t v : StoredTensor} {name : Str} {localNumExperts : Nat} {rest : List Nat}

/-- The view is the parameter itself or its transpose. -/
theorem maybeMakeContiguous_cases (name : Str) (t : StoredTensor) :
    t.maybeMakeContiguous name = t ∨ ∃ d₀ d₁ d₂, t.dims = [d₀, d₁, d₂] ∧
      t.maybeMakeContiguous name = { t with dims := [d₀, d₂, d₁] } := by
  unfold maybeMakeContiguous
  split
  · next d₀ d₁ d₂ hdims =>
    split
    · exact .inl rfl
    · split
      · exact .inl rfl
      · exact .inr ⟨d₀, d₁, d₂, hdims, rfl⟩
  · exact .inl rfl

theorem maybeMakeContiguous_shape (name : Str) (t : StoredTensor) :
    (t.maybeMakeContiguous name).shape = [] ↔ t.shape = [] := by
  rcases maybeMakeContiguous_cases name t with hsame | ⟨d₀, d₁, d₂, hdims, hswap⟩
  · rw [hsame]
  · simp [hswap, shape, Extents.shape, hdims]

/-- An element of the matrix that a contiguous tensor is viewed as. -/
theorem viewExperts_addr (h : t.viewExperts localNumExperts = .ok v)
    (hcontiguous : t.dims.isContiguous = true) (hshape : t.shape = localNumExperts :: rest) :
    v.storage = t.storage ∧ v.shape = [localNumExperts, rest.prod] ∧
      ∀ e idx, InBounds t.shape (e :: idx) → v.addr [e, ravel rest idx] = t.addr (e :: idx) := by
  obtain ⟨⟨hpos, -⟩, h⟩ := guard_eq_ok.1 h
  cases h
  have hcolumns : t.dims.numel / localNumExperts = rest.prod := by
    have hnumel : t.dims.numel = localNumExperts * rest.prod := by
      rw [← List.prod_cons, ← hshape]
      rfl
    rw [hnumel, Nat.mul_div_cancel_left _ hpos]
  refine ⟨rfl, by simp [shape, Extents.shape, hcolumns], fun e idx hidx => ?_⟩
  have haddr := Extents.address_eq_of_isContiguous hcontiguous hidx
  have hshape' : t.dims.shape = localNumExperts :: rest := hshape
  rw [addr, addr, haddr, hshape', ravel, hcolumns]
  simp [Extents.address]

/-- **A column of the view is the same element of every expert**, and every element has a
column. -/
theorem view_columns (h : (t.maybeMakeContiguous name).viewExperts localNumExperts = .ok v)
    (hcontiguous : (t.maybeMakeContiguous name).dims.isContiguous = true)
    (hshape : t.shape = localNumExperts :: rest) :
    v.storage = t.storage ∧ v.shape = [localNumExperts, rest.prod] ∧
      (∀ idx, InBounds rest idx → ∃ k < rest.prod, ∀ e < localNumExperts,
        v.addr [e, k] = t.addr (e :: idx)) ∧
      ∀ k < rest.prod, ∃ idx, InBounds rest idx ∧ ∀ e < localNumExperts,
        v.addr [e, k] = t.addr (e :: idx) := by
  rcases maybeMakeContiguous_cases name t with hsame | ⟨d₀, d₁, d₂, hdims, hswap⟩
  · rw [hsame] at h hcontiguous
    obtain ⟨hstorage, hview, haddr⟩ := viewExperts_addr h hcontiguous hshape
    have hcolumn : ∀ idx, InBounds rest idx → ∀ e < localNumExperts,
        v.addr [e, ravel rest idx] = t.addr (e :: idx) :=
      fun idx hidx e he => haddr e idx (hshape ▸ .cons he hidx)
    refine ⟨hstorage, hview, fun idx hidx => ⟨_, ravel_lt hidx, hcolumn idx hidx⟩, fun k hk => ?_⟩
    obtain ⟨idx, hidx, rfl⟩ := exists_ravel hk
    exact ⟨idx, hidx, hcolumn idx hidx⟩
  · rw [hswap] at h hcontiguous
    have hshape' : [d₀.size, d₁.size, d₂.size] = localNumExperts :: rest := by
      rw [← hshape, shape, hdims]
      rfl
    obtain ⟨rfl, rfl⟩ := List.cons.inj hshape'
    have hshape₂ : ({ t with dims := [d₀, d₂, d₁] } : StoredTensor).shape =
        d₀.size :: [d₂.size, d₁.size] := rfl
    obtain ⟨hstorage, hview, haddr⟩ := viewExperts_addr h hcontiguous hshape₂
    have hprod : [d₂.size, d₁.size].prod = [d₁.size, d₂.size].prod := by simp [Nat.mul_comm]
    have hcolumn : ∀ i < d₁.size, ∀ j < d₂.size, ∀ e < d₀.size,
        v.addr [e, ravel [d₂.size, d₁.size] [j, i]] = t.addr [e, i, j] := by
      intro i hi j hj e he
      rw [haddr e [j, i] (.cons he (.cons hj (.cons hi .nil)))]
      simp only [addr, hdims, Extents.address]
      omega
    refine ⟨hstorage, hprod ▸ hview, fun idx hidx => ?_, fun k hk => ?_⟩
    · obtain _ | ⟨hi, _ | ⟨hj, _ | _⟩⟩ := hidx
      next i j =>
      refine ⟨_, ?_, hcolumn i hi j hj⟩
      rw [← hprod]
      exact ravel_lt (.cons hj (.cons hi .nil))
    · rw [← hprod] at hk
      obtain ⟨idx, hidx, rfl⟩ := exists_ravel hk
      obtain _ | ⟨hj, _ | ⟨hi, _ | _⟩⟩ := hidx
      next j i => exact ⟨[i, j], .cons hi (.cons hj .nil), hcolumn i hi j hj⟩

end StoredTensor

/-! ## exchanges -/

section exchange

variable {β : Type} {localNumExperts : Nat} {params : List (Str × StoredTensor)}
  {views : List StoredTensor}

/-- The memory of the ranks, by storage and address. -/
abbrev RankMemory (β : Type) := Nat → Nat → Nat → β

/-- The element of a tensor on a rank. -/
def StoredTensor.read (t : StoredTensor) (mem : RankMemory β) (rank : Nat) (idx : List Nat) : β :=
  mem rank t.storage (t.addr idx)

/-- The parameter is moved by the balancer. -/
def MovedParam (p : Str × StoredTensor) : Prop :=
  isExpertWeight p.1 = true ∧ p.2.shape ≠ []

/-- Rows have been exchanged through the views, and nothing else was written: row `e` of rank `r`
comes from the row and the rank that `source` says. -/
structure Exchanged (views : List StoredTensor) (localNumExperts : Nat)
    (source : Nat → Nat → Nat × Nat) (mem mem' : RankMemory β) : Prop where
  moved : ∀ v ∈ views, ∀ r, ∀ e < localNumExperts, ∀ k, InBounds v.shape [e, k] →
    v.read mem' r [e, k] = v.read mem (source r e).1 [(source r e).2, k]
  kept : ∀ r s a, (∀ v ∈ views, v.storage = s → ∀ idx, InBounds v.shape idx → v.addr idx ≠ a) →
    mem' r s a = mem r s a

/-- The views are those of the moved parameters. -/
theorem getExpertWeights_eq_ok (h : getExpertWeights localNumExperts params = .ok views) :
    (∀ p ∈ params, MovedParam p → ∃ v ∈ views,
      (p.2.maybeMakeContiguous p.1).viewExperts localNumExperts = .ok v ∧
        (p.2.maybeMakeContiguous p.1).dims.isContiguous = true) ∧
    ∀ v ∈ views, ∃ p ∈ params, MovedParam p ∧
      (p.2.maybeMakeContiguous p.1).viewExperts localNumExperts = .ok v ∧
        (p.2.maybeMakeContiguous p.1).dims.isContiguous = true := by
  unfold getExpertWeights at h
  dsimp only at h
  obtain ⟨hall, h⟩ := guard_eq_ok.1 h
  rw [List.all_eq_true] at hall
  have hkept : ∀ p ∈ params, MovedParam p ↔ (isExpertWeight p.1 &&
      decide ((p.2.maybeMakeContiguous p.1).shape ≠ [])) = true := by
    intro p _
    simp [MovedParam, StoredTensor.maybeMakeContiguous_shape]
  have hcontiguous : ∀ p ∈ params, MovedParam p →
      (p.2.maybeMakeContiguous p.1).dims.isContiguous = true := by
    intro p hp hmoved
    simpa [hmoved.1] using hall _ (List.mem_map_of_mem hp)
  constructor
  · intro p hp hmoved
    obtain ⟨v, hv, hview⟩ := mapM_of_mem h (List.mem_filter.2
      ⟨List.mem_map_of_mem hp, (hkept p hp).1 hmoved⟩)
    exact ⟨v, hv, hview, hcontiguous p hp hmoved⟩
  · intro v hv
    obtain ⟨w, hw, hview⟩ := exists_of_mapM h hv
    obtain ⟨hw, hmoved⟩ := List.mem_filter.1 hw
    obtain ⟨p, hp, rfl⟩ := List.mem_map.1 hw
    have hmoved' := (hkept p hp).2 hmoved
    exact ⟨p, hp, hmoved', hview, hcontiguous p hp hmoved'⟩

/-- **Experts move whole**: whatever rows are exchanged through the views, every expert has, in
every parameter, the elements of the expert it comes from, and what is no element of an expert
parameter is unchanged. -/
theorem experts_moved_whole (h : getExpertWeights localNumExperts params = .ok views)
    (hshape : ∀ p ∈ params, MovedParam p → ∃ rest, p.2.shape = localNumExperts :: rest)
    {source : Nat → Nat → Nat × Nat}
    (hsource : ∀ r, ∀ e < localNumExperts, (source r e).2 < localNumExperts)
    {mem mem' : RankMemory β} (hex : Exchanged views localNumExperts source mem mem') :
    (∀ p ∈ params, MovedParam p → ∀ r e idx, InBounds p.2.shape (e :: idx) →
      p.2.read mem' r (e :: idx) = p.2.read mem (source r e).1 ((source r e).2 :: idx)) ∧
    ∀ r s a, (∀ p ∈ params, MovedParam p → p.2.storage = s →
      ∀ idx, InBounds p.2.shape idx → p.2.addr idx ≠ a) → mem' r s a = mem r s a := by
  obtain ⟨hviews, hparams⟩ := getExpertWeights_eq_ok h
  constructor
  · intro p hp hmoved r e idx hidx
    obtain ⟨v, hv, hview, hcontiguous⟩ := hviews p hp hmoved
    obtain ⟨rest, hrest⟩ := hshape p hp hmoved
    obtain ⟨hstorage, hvshape, hcolumn, -⟩ :=
      StoredTensor.view_columns hview hcontiguous hrest
    rw [hrest] at hidx
    obtain _ | ⟨he, hidx⟩ := hidx
    obtain ⟨k, hk, haddr⟩ := hcolumn idx hidx
    have hrow := hex.moved v hv r e he k (hvshape ▸ .cons he (.cons hk .nil))
    simp only [StoredTensor.read, hstorage, haddr e he, haddr _ (hsource r e he)] at hrow ⊢
    exact hrow
  · intro r s a hout
    apply hex.kept
    intro v hv hs idx hidx
    obtain ⟨p, hp, hmoved, hview, hcontiguous⟩ := hparams v hv
    obtain ⟨rest, hrest⟩ := hshape p hp hmoved
    obtain ⟨hstorage, hvshape, -, helem⟩ := StoredTensor.view_columns hview hcontiguous hrest
    rw [hvshape] at hidx
    obtain _ | ⟨he, _ | ⟨hk, _ | _⟩⟩ := hidx
    next e k =>
    obtain ⟨idx, hidx, haddr⟩ := helem k hk
    rw [haddr e he]
    exact hout p hp hmoved (hstorage.symm.trans hs) (e :: idx) (hrest ▸ .cons he hidx)

end exchange

/-- Two experts with weights and a transposed scale, and a bias that is not theirs. -/
def scaledParams : List (Str × StoredTensor) :=
  [("w2_qweight".toList, ⟨0, 0, [⟨2, 12⟩, ⟨4, 3⟩, ⟨3, 1⟩]⟩),
    ("w2_weight_scale".toList, ⟨1, 0, [⟨2, 6⟩, ⟨2, 1⟩, ⟨3, 2⟩]⟩),
    ("e_score_correction_bias".toList, ⟨2, 0, [⟨4, 1⟩]⟩)]

/-- Ranks 0 and 1 exchange all experts, in reverse. -/
def swappedMemory (mem : RankMemory Nat) : RankMemory Nat := fun r s a =>
  if s = 0 ∧ a < 24 then mem (1 - r) 0 ((a + 12) % 24)
  else if s = 1 ∧ a < 12 then mem (1 - r) 1 ((a + 6) % 12)
  else mem r s a

theorem swappedMemory_exchanged (mem : RankMemory Nat) :
    Exchanged [⟨0, 0, [⟨2, 12⟩, ⟨12, 1⟩]⟩, ⟨1, 0, [⟨2, 6⟩, ⟨6, 1⟩]⟩] 2 (fun r e => (1 - r, 1 - e))
      mem (swappedMemory mem) := by
  constructor
  · intro v hv r e he k hidx
    simp only [List.mem_cons, List.not_mem_nil, or_false] at hv
    rcases hv with rfl | rfl
    · obtain _ | ⟨-, _ | ⟨hk, -⟩⟩ := hidx
      have hk : k < 12 := hk
      have hlt : e * 12 + k < 24 := by omega
      have hmod : (e * 12 + k + 12) % 24 = (1 - e) * 12 + k := by omega
      simp [StoredTensor.read, StoredTensor.addr, Extents.address, swappedMemory, hlt, hmod]
    · obtain _ | ⟨-, _ | ⟨hk, -⟩⟩ := hidx
      have hk : k < 6 := hk
      have hlt : e * 6 + k < 12 := by omega
      have hmod : (e * 6 + k + 6) % 12 = (1 - e) * 6 + k := by omega
      simp [StoredTensor.read, StoredTensor.addr, Extents.address, swappedMemory, hlt, hmod]
  · intro r s a hout
    have hw := hout _ List.mem_cons_self
    have hs := hout _ (List.mem_cons_of_mem _ List.mem_cons_self)
    rw [swappedMemory, if_neg, if_neg]
    · rintro ⟨rfl, ha⟩
      have hrow : a / 6 < 2 := by omega
      refine hs rfl [a / 6, a % 6] (.cons hrow (.cons (Nat.mod_lt _ (by decide)) .nil)) ?_
      simp only [StoredTensor.addr, Extents.address]
      omega
    · rintro ⟨rfl, ha⟩
      have hrow : a / 12 < 2 := by omega
      refine hw rfl [a / 12, a % 12] (.cons hrow (.cons (Nat.mod_lt _ (by decide)) .nil)) ?_
      simp only [StoredTensor.addr, Extents.address]
      omega

/-- Memory in which every address holds something else. -/
def numberedMemory : RankMemory Nat := fun r s a => 10000 * r + 100 * s + a

theorem experts_moved_whole_scaled :
    getExpertWeights 2 scaledParams =
        .ok [⟨0, 0, [⟨2, 12⟩, ⟨12, 1⟩]⟩, ⟨1, 0, [⟨2, 6⟩, ⟨6, 1⟩]⟩] ∧
      ∀ p ∈ scaledParams, MovedParam p → ∀ r e idx, InBounds p.2.shape (e :: idx) →
        p.2.read (swappedMemory numberedMemory) r (e :: idx) =
          p.2.read numberedMemory (1 - r) ((1 - e) :: idx) := by
  have hviews : getExpertWeights 2 scaledParams =
      .ok [⟨0, 0, [⟨2, 12⟩, ⟨12, 1⟩]⟩, ⟨1, 0, [⟨2, 6⟩, ⟨6, 1⟩]⟩] := by decide
  have hshape : ∀ p ∈ scaledParams, MovedParam p → ∃ rest, p.2.shape = 2 :: rest := by
    intro p hp hmoved
    simp only [scaledParams, List.mem_cons, List.not_mem_nil, or_false] at hp
    rcases hp with rfl | rfl | rfl
    · exact ⟨_, rfl⟩
    · exact ⟨_, rfl⟩
    · exact absurd hmoved.1 (by decide)
  exact ⟨hviews, (experts_moved_whole hviews hshape (fun _ e _ => by omega)
    (swappedMemory_exchanged numberedMemory)).1⟩

end FlashNext
