import FlashNext.Moe.Mapping

/-!
# FlashNext.Moe.LoadWeights

`RoutedExperts.load_weights`.

Each tensor of the checkpoint is tried against the entries of the mapping.  An entry
that occurs in the qualified name gives the name of a parameter (`resolve`); the
tensor is loaded into it, or skipped, or the load fails.  A run is the list of these
events; what it writes and reports is read off them (`loadWeights`).
-/

namespace FlashNext

variable {α : Type}

/-! ## checkpoint tensors -/

/-- A tensor of one expert. -/
inductive ExpertTensor (α : Type) where
  | scalar (x : Elem α)
  | vector (xs : List (Elem α))
  | matrix (t : Tensor α)

/-- A tensor of three dimensions, the matrices of several experts. -/
structure FusedTensor (α : Type) where
  rows : Nat
  cols : Nat
  experts : List (Tensor α)
  shape : ∀ t ∈ experts, t.elems.rows = rows ∧ t.elems.cols = cols

/-- A tensor of the checkpoint; `dim() == 3` is the fused case. -/
inductive CkptTensor (α : Type) where
  | perExpert (t : ExpertTensor α)
  | fused (t : FusedTensor α)

/-- A tensor and its name below the layer. -/
abbrev Weight (α : Type) := Str × CkptTensor α

def CkptTensor.isFused : CkptTensor α → Bool
  | .perExpert _ => false
  | .fused _ => true

def Tensor.slice (dim : Dim) (start length : Nat) : Tensor α → Tensor α
  | .int32 m => .int32 (m.slice dim start length)
  | .uint8 m => .uint8 (m.slice dim start length)
  | .float m => .float (m.slice dim start length)

/-- `chunk(2, dim=0)` -/
def ExpertTensor.chunk : ExpertTensor α → Except PyError (List (ExpertTensor α))
  | .scalar _ => .error (.runtimeError "chunk expects at least a 1-dimensional tensor")
  | .vector xs => .ok ((Mat.chunkBounds xs.length).map fun (start, length) =>
      .vector ((xs.drop start).take length))
  | .matrix t => .ok ((Mat.chunkBounds t.elems.rows).map fun (start, length) =>
      .matrix (t.slice .zero start length))

/-- `_orient_fused_weight`, then `chunk(2, dim=1)` and `unbind()` of the pieces. -/
def FusedTensor.chunkUnbind (t : FusedTensor α) (transposed : Bool) : List (List (Tensor α)) :=
  (Mat.chunkBounds (if transposed then t.cols else t.rows)).map fun (start, length) =>
    t.experts.map fun e => (if transposed then e.T else e).slice .zero start length

/-- `_orient_fused_weight`, then `unbind()`. -/
def FusedTensor.unbind (t : FusedTensor α) (transposed : Bool) : List (Tensor α) :=
  t.experts.map fun e => if transposed then e.T else e

/-! ## one tensor -/

/-- The entries whose name occurs, up to the first one that does not after one that does when the
tensor is fused. -/
def reached (qualName : Str) (isFused : Bool) : Bool → List MappingEntry → List MappingEntry
  | _, [] => []
  | matched, m :: ms =>
    if m.weightName <:+: qualName then m :: reached qualName isFused true ms
    else if matched && isFused then [] else reached qualName isFused matched ms

/-- What an entry makes of a qualified name. -/
inductive Resolved where
  | missingBias
  | spurious
  | found (paramName : Str) (param : Param) (weightName : Str)
deriving DecidableEq, Repr

/-- `f"{layer_name}.{expert_name}"` -/
def RoutedExperts.qualName (L : RoutedExperts α) (expertName : Str) : Str :=
  L.layerName ++ '.' :: expertName

/-- The name of the parameter that a rewritten name stands for. -/
def RoutedExperts.paramNameOf (L : RoutedExperts α) (weightName : Str) : Str :=
  Str.removePrefix weightName (L.layerName ++ ['.'])

/-- `param_name.endswith(("w13_bias", "w2_bias"))` -/
def BiasName (paramName : Str) : Prop :=
  "w13_bias".toList <:+ paramName ∨ "w2_bias".toList <:+ paramName

instance (paramName : Str) : Decidable (BiasName paramName) :=
  inferInstanceAs (Decidable (_ ∨ _))

/-- The parameter is looked up under the rewritten name. -/
def RoutedExperts.resolveName (L : RoutedExperts α) (qualName weightName : Str) :
    Except PyError Resolved :=
  let paramName := L.paramNameOf weightName
  match L.getattr paramName with
  | some param => .ok (.found paramName param weightName)
  | none =>
    if BiasName paramName then .ok .missingBias
    else if "_weight".toList <:+: paramName ∧
        (L.getattr (Str.splitFirst "_weight".toList paramName ++ "_qweight".toList)).isSome then
      .ok .spurious
    else .error (.attributeError (String.ofList ("Layer ".toList ++ L.layerName ++
      " has no parameter '".toList ++ paramName ++ "' for checkpoint weight '".toList ++ qualName ++
      "'".toList)))

/-- The name is rewritten by the entry. -/
def RoutedExperts.resolve (L : RoutedExperts α) (qualName : Str) (m : MappingEntry) :
    Except PyError Resolved :=
  L.resolveName qualName (Str.replace qualName m.weightName m.paramName)

/-- `is_per_expert_fused_w13`, of a tensor that is not fused. -/
def isPerExpertFusedW13 (qualName : Str) (shardId : Shard) : Bool :=
  shardId ≠ .w2 ∧ (".gate_up_proj.".toList <:+: qualName ∨ ".w13.".toList <:+: qualName)

/-- The tensors handed to the loader, for the experts from the second component on.  The layers
modelled here have no block scales. -/
def RoutedExperts.expertsShard (L : RoutedExperts α) (t : CkptTensor α) (qualName weightName : Str)
    (m : MappingEntry) : Except PyError (List (ExpertTensor α) × Nat) :=
  match t with
  | .fused t => do
    let transposed := L.isFusedCheckpointTransposed && !decide ("scale".toList <:+: weightName)
    match m.shardId with
    | .w2 => return ((t.unbind transposed).map .matrix, 0)
    | .w1 | .w3 =>
      let expertsShard ← item (t.chunkUnbind transposed) m.expertId
      return (expertsShard.map .matrix, 0)
  | .perExpert t =>
    if isPerExpertFusedW13 qualName m.shardId then do
      let shardIndex := if m.shardId = .w1 then 0 else 1
      let expertsShard ← item (← t.chunk) shardIndex
      return ([expertsShard], m.expertId)
    else return ([t], m.expertId)

/-- A parameter's `weight_loader`. -/
abbrev Loader (α : Type) :=
  (paramName : Str) → Param → ExpertTensor α → (weightName : Str) → Shard → (expertId : Nat) →
    Except PyError (Loaded α)

/-- What happens to a tensor at an entry. -/
inductive Event (α : Type) where
  | skipped (w : Weight α) (m : MappingEntry)
  | loaded (w : Weight α) (m : MappingEntry) (paramName : Str) (expertId : Nat) (r : Loaded α)

/-- One round of the loop over the mapping, for an entry whose name occurs. -/
def RoutedExperts.entryEvents (L : RoutedExperts α) (loader : Loader α) (w : Weight α)
    (m : MappingEntry) : Except PyError (List (Event α)) := do
  let qualName := L.qualName w.1
  match ← L.resolve qualName m with
  | .missingBias => return []
  | .spurious => return [.skipped w m]
  | .found paramName param weightName =>
    let (loadedExperts, start) ← L.expertsShard w.2 qualName weightName m
    (loadedExperts.zipIdx start).mapM fun (loadedExpert, expertId) => do
      let r ← loader paramName param loadedExpert weightName m.shardId expertId
      return .loaded w m paramName expertId r

/-- The loop over the mapping. -/
def RoutedExperts.tensorEvents (L : RoutedExperts α) (loader : Loader α) (w : Weight α) :
    Except PyError (List (Event α)) := do
  let events ← (reached (L.qualName w.1) w.2.isFused false L.getExpertMapping).mapM
    (L.entryEvents loader w)
  return events.flatten

/-! ## the run -/

/-- The loop over the checkpoint. -/
def RoutedExperts.loadEvents (L : RoutedExperts α) (loader : Loader α) (weights : List (Weight α)) :
    Except PyError (List (Event α)) := do
  let events ← weights.mapM (L.tensorEvents loader)
  return events.flatten

def Event.patch : Event α → Patch Cell (Elem α)
  | .skipped _ _ => Patch.empty
  | .loaded _ _ _ _ r => r.patch

/-- What is yielded. -/
def Event.yielded : Event α → Option Str
  | .skipped _ _ => none
  | .loaded _ _ paramName _ r => if r.success then some paramName else none

/-- The parameters after the run, and the names it has yielded. -/
def RoutedExperts.loadWeights (L : RoutedExperts α) (loader : Loader α) (weights : List (Weight α))
    (st : Params α) : Except PyError (Params α × List Str) := do
  let events ← L.loadEvents loader weights
  return (Patch.applyAll (events.map Event.patch) st, events.filterMap Event.yielded)

/-- The loader of an AWQ layer's parameters; `rest` takes the tensors that are no matrices. -/
def MoeWNA16Layer.loader (L : MoeWNA16Layer α) (rest : Loader α) : Loader α :=
  fun paramName param t weightName shardId expertId =>
    match t with
    | .matrix t => L.moeWeightLoader paramName param t weightName shardId expertId
    | t => rest paramName param t weightName shardId expertId

/-- A loader that takes nothing. -/
def noLoader : Loader α := fun _ _ _ _ _ _ => .error (.runtimeError "not a matrix")

/-! ## the events -/

section events

variable {L : RoutedExperts α} {loader : Loader α}

/-- A tensor that is not fused is tried against every entry. -/
theorem reached_eq_filter (qualName : Str) (matched : Bool) (ms : List MappingEntry) :
    reached qualName false matched ms = ms.filter fun m => m.weightName <:+: qualName := by
  induction ms generalizing matched with
  | nil => rfl
  | cons m ms ih =>
    by_cases hm : m.weightName <:+: qualName
    · rw [reached, if_pos hm, List.filter_cons_of_pos (by simpa using hm), ih]
    · rw [reached, if_neg hm, List.filter_cons_of_neg (by simpa using hm), Bool.and_false,
        if_neg (by decide), ih]

theorem reached_cons_pos {qualName : Str} {m : MappingEntry} (h : m.weightName <:+: qualName)
    (isFused matched : Bool) (ms : List MappingEntry) :
    reached qualName isFused matched (m :: ms) = m :: reached qualName isFused true ms :=
  if_pos h

theorem reached_cons_neg {qualName : Str} {m : MappingEntry} (h : ¬ m.weightName <:+: qualName)
    (isFused : Bool) (ms : List MappingEntry) :
    reached qualName isFused false (m :: ms) = reached qualName isFused false ms := by
  rw [reached, if_neg h, Bool.false_and, if_neg (by decide)]

/-- An entry that is reached occurs in the name. -/
theorem of_mem_reached {qualName : Str} {isFused matched : Bool} {ms : List MappingEntry}
    {m : MappingEntry} (h : m ∈ reached qualName isFused matched ms) :
    m ∈ ms ∧ m.weightName <:+: qualName := by
  induction ms generalizing matched with
  | nil => cases h
  | cons m' ms ih =>
    rw [reached] at h
    split at h
    · next hm =>
      cases h with
      | head => exact ⟨List.mem_cons_self, hm⟩
      | tail _ h => exact ⟨List.mem_cons_of_mem _ (ih h).1, (ih h).2⟩
    · split at h
      · cases h
      · exact ⟨List.mem_cons_of_mem _ (ih h).1, (ih h).2⟩

/-- Entries that do not occur are passed over. -/
theorem reached_append {qualName : Str} {isFused : Bool} {pre : List MappingEntry}
    (h : ∀ m ∈ pre, ¬ m.weightName <:+: qualName) (ms : List MappingEntry) :
    reached qualName isFused false (pre ++ ms) = reached qualName isFused false ms := by
  induction pre with
  | nil => rfl
  | cons m pre ih =>
    rw [List.cons_append, reached_cons_neg (h m List.mem_cons_self),
      ih fun m hm => h m (List.mem_cons_of_mem _ hm)]

/-- The first entry that occurs is reached. -/
theorem exists_mem_reached {qualName : Str} (isFused : Bool) {ms : List MappingEntry}
    {m : MappingEntry} (hm : m ∈ ms) (hmatch : m.weightName <:+: qualName) :
    ∃ m', m' ∈ reached qualName isFused false ms := by
  induction ms with
  | nil => cases hm
  | cons m' ms ih =>
    by_cases hm' : m'.weightName <:+: qualName
    · refine ⟨m', ?_⟩
      rw [reached, if_pos hm']
      exact List.mem_cons_self
    · have hrest : m ∈ ms := by
        cases hm with
        | head => exact absurd hmatch hm'
        | tail _ hm => exact hm
      rw [reached, if_neg hm', Bool.false_and, if_neg (by decide)]
      exact ih hrest

/-- Where an event of a finished run comes from. -/
theorem mem_loadEvents {weights : List (Weight α)} {events : List (Event α)}
    (h : L.loadEvents loader weights = .ok events) {ev : Event α} :
    ev ∈ events ↔ ∃ w ∈ weights,
      ∃ m ∈ reached (L.qualName w.1) w.2.isFused false L.getExpertMapping,
        ∃ es, L.entryEvents loader w m = .ok es ∧ ev ∈ es := by
  obtain ⟨ess, hess, h⟩ := bind_eq_ok.1 h
  cases h
  rw [List.mem_flatten]
  constructor
  · rintro ⟨es, hes, hev⟩
    obtain ⟨w, hw, htensor⟩ := exists_of_mapM hess hes
    obtain ⟨fss, hfss, h⟩ := bind_eq_ok.1 htensor
    cases h
    obtain ⟨fs, hfs, hev⟩ := List.mem_flatten.1 hev
    obtain ⟨m, hm, hentry⟩ := exists_of_mapM hfss hfs
    exact ⟨w, hw, m, hm, fs, hentry, hev⟩
  · rintro ⟨w, hw, m, hm, fs, hentry, hev⟩
    obtain ⟨es, hes, htensor⟩ := mapM_of_mem hess hw
    obtain ⟨fss, hfss, h⟩ := bind_eq_ok.1 htensor
    cases h
    obtain ⟨fs', hfs, hentry'⟩ := mapM_of_mem hfss hm
    rw [hentry] at hentry'
    cases hentry'
    exact ⟨_, hes, List.mem_flatten.2 ⟨fs, hfs, hev⟩⟩

/-- Every entry that is reached has been dealt with. -/
theorem entryEvents_of_loadEvents {weights : List (Weight α)} {events : List (Event α)}
    (h : L.loadEvents loader weights = .ok events) {w : Weight α} (hw : w ∈ weights)
    {m : MappingEntry}
    (hm : m ∈ reached (L.qualName w.1) w.2.isFused false L.getExpertMapping) :
    ∃ es, L.entryEvents loader w m = .ok es := by
  obtain ⟨ess, hess, h⟩ := bind_eq_ok.1 h
  obtain ⟨es, -, htensor⟩ := mapM_of_mem hess hw
  obtain ⟨fss, hfss, -⟩ := bind_eq_ok.1 htensor
  obtain ⟨fs, -, hentry⟩ := mapM_of_mem hfss hm
  exact ⟨fs, hentry⟩

/-- A run whose entries all succeed, with what each may and what some must write. -/
theorem loadEvents_of_entries {weights : List (Weight α)} {P : Patch Cell (Elem α) → Prop}
    (hsound : ∀ w ∈ weights,
      ∀ m ∈ reached (L.qualName w.1) w.2.isFused false L.getExpertMapping,
        ∃ es, L.entryEvents loader w m = .ok es ∧ ∀ ev ∈ es, P ev.patch)
    (hcomplete : ∀ q, P q → ∃ w ∈ weights,
      ∃ m ∈ reached (L.qualName w.1) w.2.isFused false L.getExpertMapping,
        ∃ es, L.entryEvents loader w m = .ok es ∧ ∃ ev ∈ es, ev.patch = q) :
    ∃ events, L.loadEvents loader weights = .ok events ∧ ∀ q, q ∈ events.map Event.patch ↔ P q := by
  obtain ⟨ess, hess⟩ := exists_mapM (L.tensorEvents loader) weights (by
    intro w hw
    obtain ⟨fss, hfss⟩ := exists_mapM (L.entryEvents loader w) _ fun m hm => by
      obtain ⟨es, hes, -⟩ := hsound w hw m hm
      exact ⟨es, hes⟩
    exact ⟨fss.flatten, bind_eq_ok.2 ⟨fss, hfss, rfl⟩⟩)
  have hrun : L.loadEvents loader weights = .ok ess.flatten := bind_eq_ok.2 ⟨ess, hess, rfl⟩
  refine ⟨ess.flatten, hrun, fun q => ?_⟩
  rw [List.mem_map]
  constructor
  · rintro ⟨ev, hev, rfl⟩
    obtain ⟨w, hw, m, hm, es, hes, hev⟩ := (mem_loadEvents hrun).1 hev
    obtain ⟨es', hes', hP⟩ := hsound w hw m hm
    cases hes.symm.trans hes'
    exact hP ev hev
  · intro hq
    obtain ⟨w, hw, m, hm, es, hes, ev, hev, rfl⟩ := hcomplete q hq
    exact ⟨ev, (mem_loadEvents hrun).2 ⟨w, hw, m, hm, es, hes, hev⟩, rfl⟩

/-- What an entry has done with a tensor. -/
theorem entryEvents_eq_ok {w : Weight α} {m : MappingEntry} {es : List (Event α)} :
    L.entryEvents loader w m = .ok es ↔
      (L.resolve (L.qualName w.1) m = .ok .missingBias ∧ es = []) ∨
      (L.resolve (L.qualName w.1) m = .ok .spurious ∧ es = [.skipped w m]) ∨
      ∃ paramName param weightName ts start,
        L.resolve (L.qualName w.1) m = .ok (.found paramName param weightName) ∧
        L.expertsShard w.2 (L.qualName w.1) weightName m = .ok (ts, start) ∧
        List.Forall₂ (fun t ev => ∃ r,
            loader paramName param t.1 weightName m.shardId t.2 = .ok r ∧
              ev = .loaded w m paramName t.2 r)
          (ts.zipIdx start) es := by
  rw [RoutedExperts.entryEvents, bind_eq_ok]
  constructor
  · rintro ⟨res, hres, h⟩
    cases res with
    | missingBias =>
      cases h
      exact .inl ⟨hres, rfl⟩
    | spurious =>
      cases h
      exact .inr (.inl ⟨hres, rfl⟩)
    | found paramName param weightName =>
      obtain ⟨⟨ts, start⟩, hshard, h⟩ := bind_eq_ok.1 h
      rw [mapM_eq_ok] at h
      refine .inr (.inr ⟨paramName, param, weightName, ts, start, hres, hshard, h.imp ?_⟩)
      intro t ev hev
      obtain ⟨r, hr, h⟩ := bind_eq_ok.1 hev
      cases h
      exact ⟨r, hr, rfl⟩
  · rintro (⟨hres, rfl⟩ | ⟨hres, rfl⟩ | ⟨paramName, param, weightName, ts, start, hres, hshard, h⟩)
    · exact ⟨_, hres, rfl⟩
    · exact ⟨_, hres, rfl⟩
    · refine ⟨_, hres, bind_eq_ok.2 ⟨_, hshard, mapM_eq_ok.2 (h.imp ?_)⟩⟩
      rintro t ev ⟨r, hr, rfl⟩
      exact bind_eq_ok.2 ⟨r, hr, rfl⟩

/-- The experts that a tensor is loaded for at an entry. -/
def CkptTensor.Loads (t : CkptTensor α) (m : MappingEntry) (e : Nat) : Prop :=
  match t with
  | .perExpert _ => e = m.expertId
  | .fused t => e < t.experts.length

theorem expertsShard_loads {t : CkptTensor α} {qualName weightName : Str} {m : MappingEntry}
    {ts : List (ExpertTensor α)} {start : Nat}
    (h : L.expertsShard t qualName weightName m = .ok (ts, start)) (e : Nat) :
    t.Loads m e ↔ start ≤ e ∧ e < start + ts.length := by
  cases t with
  | perExpert t =>
    show e = m.expertId ↔ _
    rw [RoutedExperts.expertsShard] at h
    have hone : ts.length = 1 ∧ start = m.expertId := by
      split at h
      · obtain ⟨chunks, -, h⟩ := bind_eq_ok.1 h
        obtain ⟨shard, -, h⟩ := bind_eq_ok.1 h
        cases h
        exact ⟨rfl, rfl⟩
      · cases h
        exact ⟨rfl, rfl⟩
    omega
  | fused t =>
    show e < t.experts.length ↔ _
    rw [RoutedExperts.expertsShard] at h
    have hall : ts.length = t.experts.length ∧ start = 0 := by
      split at h
      · cases h
        exact ⟨by rw [List.length_map, FusedTensor.unbind, List.length_map], rfl⟩
      all_goals
        obtain ⟨shard, hshard, h⟩ := bind_eq_ok.1 h
        cases h
        obtain ⟨bounds, -, rfl⟩ := List.mem_map.1 (mem_of_item hshard)
        exact ⟨by rw [List.length_map, List.length_map], rfl⟩
    omega

/-- A skipped tensor was spurious. -/
theorem spurious_of_skipped {w w' : Weight α} {m m' : MappingEntry} {es : List (Event α)}
    (hes : L.entryEvents loader w m = .ok es) (hev : Event.skipped w' m' ∈ es) :
    w' = w ∧ m' = m ∧ L.resolve (L.qualName w.1) m = .ok .spurious := by
  obtain ⟨-, rfl⟩ | ⟨hres, rfl⟩ | ⟨_, _, _, _, _, -, -, hfor⟩ := entryEvents_eq_ok.1 hes
  · cases hev
  · cases List.mem_singleton.1 hev
    exact ⟨rfl, rfl, hres⟩
  · obtain ⟨t, -, r, -, hloaded⟩ := exists_of_forall₂ hfor hev
    cases hloaded

/-- A loaded tensor has found its parameter. -/
theorem found_of_loaded {w w' : Weight α} {m m' : MappingEntry} {es : List (Event α)} {q : Str}
    {e : Nat} {r : Loaded α} (hes : L.entryEvents loader w m = .ok es)
    (hev : Event.loaded w' m' q e r ∈ es) :
    w' = w ∧ m' = m ∧ w.2.Loads m e ∧ ∃ param weightName t,
      L.resolve (L.qualName w.1) m = .ok (.found q param weightName) ∧
      loader q param t weightName m.shardId e = .ok r := by
  obtain ⟨-, rfl⟩ | ⟨-, rfl⟩ | ⟨q', param, weightName, ts, start, hres, hshard, hfor⟩ :=
    entryEvents_eq_ok.1 hes
  · cases hev
  · cases List.mem_singleton.1 hev
  · obtain ⟨⟨t, e'⟩, ht, r', hr, hloaded⟩ := exists_of_forall₂ hfor hev
    cases hloaded
    have hmem := List.mem_zipIdx ht
    exact ⟨rfl, rfl, (expertsShard_loads hshard e').2 ⟨hmem.1, hmem.2.1⟩, param, weightName, t,
      hres, hr⟩

/-- An entry that finds a parameter loads it for each of its experts. -/
theorem exists_loaded {w : Weight α} {m : MappingEntry} {es : List (Event α)} {q weightName : Str}
    {param : Param} {e : Nat} (hes : L.entryEvents loader w m = .ok es)
    (hres : L.resolve (L.qualName w.1) m = .ok (.found q param weightName)) (he : w.2.Loads m e) :
    ∃ r, Event.loaded w m q e r ∈ es := by
  obtain ⟨hres', -⟩ | ⟨hres', -⟩ | ⟨q', param, weightName, ts, start, hres', hshard, hfor⟩ :=
    entryEvents_eq_ok.1 hes
  all_goals
    rw [hres] at hres'
    cases hres'
  obtain ⟨hle, hlt⟩ := (expertsShard_loads hshard e).1 he
  have hmem : (ts[e - start], e) ∈ ts.zipIdx start := by
    rw [List.mk_mem_zipIdx_iff_le_and_getElem?_sub]
    exact ⟨hle, List.getElem?_eq_getElem (by omega)⟩
  obtain ⟨ev, hev, r, -, rfl⟩ := forall₂_of_mem hfor hmem
  exact ⟨r, hev⟩

end events

end FlashNext
