import FlashNext.Moe.Spurious

/-!
# FlashNext.Moe.Reorder

The order of a checkpoint and its spurious tensors do not matter.

A tensor of a quantized matrix is written into the slots of its expert's replicas, in
the rows of its shard (`WritesPart`).  Two such writes meet nowhere unless they are of
the same tensor for the same replica, so the patches of a run commute:

* `load_order_irrelevant` — a run ends in the same parameters, and reports the same
  names, in any order and with any number of bare weights among the tensors.
-/

namespace FlashNext

variable {α : Type}

section reorder

variable {L : MoeWNA16Layer α}

/-- A part of an expert's quantized matrix. -/
def PartWeight (L : RoutedExperts α) (w : Weight α) : Prop :=
  ∃ l s p t, w = (expertName l (L.ckptProjName s) (AwqPart.suffix p), .perExpert (.matrix t))

/-- A tensor that the checkpoint has in excess, of any shape. -/
def SpuriousWeight (L : RoutedExperts α) (w : Weight α) : Prop :=
  ∃ l s, ∃ proj ∈ L.projNames s, ∃ suffix ∈ [weightWord, weightWord ++ "_scale_inv".toList],
    w.1 = expertName l proj suffix

/-- The layer's own name is not taken for a single value's or the zero points' of `w2`. -/
def LayerNameClean (L : RoutedExperts α) : Prop :=
  ∀ k ∈ ["input_scale".toList, "weight_shape".toList, "w2_qzeros".toList], ¬ k <:+: L.layerName

/-- No two experts share a slot. -/
def SlotsDistinct (L : RoutedExperts α) : Prop :=
  ∀ e e' slot, L.mapGlobalToLocal e = some slot → L.mapGlobalToLocal e' = some slot → e = e'

/-- The event writes nothing but the part of a replica's shard. -/
def WritesPart (L : MoeWNA16Layer α) (key : Nat × Shard × AwqPart) (ev : Event α) : Prop :=
  ∃ param, L.getattr (paramName key.2.1 key.2.2) = some param ∧
    ∀ cell, ev.patch cell ≠ none →
      cell.param = paramName key.2.1 key.2.2 ∧ L.mapGlobalToLocal key.1 = some cell.expert ∧
        (L.shardRegion param key.2.1 (L.qualName (paramName key.2.1 key.2.2))).Mem
          cell.row cell.col

/-- Different parts are written into different cells. -/
theorem writesPart_disjoint (hclean : LayerNameClean L.toRoutedExperts)
    (hslots : SlotsDistinct L.toRoutedExperts) {key key' : Nat × Shard × AwqPart} {ev ev' : Event α}
    (h : WritesPart L key ev) (h' : WritesPart L key' ev') (hne : key ≠ key') :
    ev.patch.Disjoint ev'.patch := by
  obtain ⟨e, s, p⟩ := key
  obtain ⟨e', s', p'⟩ := key'
  obtain ⟨param, hparam, hwithin⟩ := h
  obtain ⟨param', hparam', hwithin'⟩ := h'
  intro cell
  by_contra hboth
  rw [not_or] at hboth
  obtain ⟨hname, hslot, hmem⟩ := hwithin cell hboth.1
  obtain ⟨hname', hslot', hmem'⟩ := hwithin' cell hboth.2
  dsimp only at *
  obtain rfl := hslots e e' _ hslot hslot'
  rw [hname] at hname'
  obtain ⟨rfl, hw2⟩ := paramName_inj hname'
  rw [← hname', hparam] at hparam'
  cases hparam'
  rw [← hname'] at hmem'
  have hkey : s ≠ .w2 → ¬ "w2_qzeros".toList <:+: L.qualName (paramName s p) := by
    intro hs
    rw [RoutedExperts.qualName, Str.infix_append_cons (by decide), w2Qzeros_infix_paramName]
    rintro (hlayer | ⟨-, hs'⟩)
    · exact hclean _ (by simp) hlayer
    · exact hs hs'
  cases s <;> cases s'
  case w1.w1 | w2.w2 | w3.w3 => exact hne rfl
  case w1.w2 | w2.w1 | w2.w3 | w3.w2 => simp at hw2
  case w1.w3 => exact shardRegion_disjoint L param (hkey (by decide)) hmem hmem'
  case w3.w1 => exact shardRegion_disjoint L param (hkey (by decide)) hmem' hmem

theorem part_suffix_clean (p : AwqPart) : ¬ underExperts [] <:+: p.suffix := by
  cases p <;> decide

/-- The loader gets one matrix, the whole or a half of the tensor. -/
theorem expertsShard_matrix {t : Tensor α} {qualName weightName : Str} {m : MappingEntry}
    {ts : List (ExpertTensor α)} {start : Nat}
    (h : L.expertsShard (.perExpert (.matrix t)) qualName weightName m = .ok (ts, start)) :
    ∃ t', ts = [.matrix t'] ∧ start = m.expertId := by
  rw [RoutedExperts.expertsShard] at h
  split at h
  · obtain ⟨chunks, hchunks, h⟩ := bind_eq_ok.1 h
    obtain ⟨shard, hshard, h⟩ := bind_eq_ok.1 h
    cases hchunks
    obtain ⟨bounds, -, rfl⟩ := List.mem_map.1 (mem_of_item hshard)
    cases h
    exact ⟨_, rfl, rfl⟩
  · cases h
    exact ⟨t, rfl, rfl⟩

/-- What a part's tensor does at the entry of a replica. -/
theorem entryEvents_part (hp : AwqParameters L.toRoutedExperts)
    (h : ExpertNames L.toRoutedExperts) (hclean : LayerNameClean L.toRoutedExperts)
    {rest : Loader α} {e : Nat} {s : Shard} {p : AwqPart} {t : Tensor α} {es : List (Event α)}
    (hes : L.entryEvents (L.loader rest)
      (expertName (L.physicalToLogical e) (L.ckptProjName s) p.suffix, .perExpert (.matrix t))
      (L.entry (L.ckptProjName s) e s) = .ok es) :
    ∃ ev, es = [ev] ∧ WritesPart L (e, s, p) ev := by
  obtain ⟨param, hparam⟩ := Option.isSome_iff_exists.1 (hp.registered s p)
  have hres : L.resolve
      (L.qualName (expertName (L.physicalToLogical e) (L.ckptProjName s) p.suffix))
      (L.entry (L.ckptProjName s) e s) =
        .ok (.found (paramName s p) param (L.qualName (paramName s p))) := by
    rw [resolve_entry h e s (part_suffix_clean p)]
    show L.resolveName _ (L.qualName (paramName s p)) = _
    rw [RoutedExperts.resolveName, paramNameOf_qualName, hparam]
  obtain ⟨hres', -⟩ | ⟨hres', -⟩ | ⟨q, param', weightName, ts, start, hres', hshard, hfor⟩ :=
    entryEvents_eq_ok.1 hes
  all_goals
    rw [hres] at hres'
    cases hres'
  obtain ⟨t', rfl, rfl⟩ := expertsShard_matrix hshard
  obtain ⟨ev, es, ⟨r, hr, rfl⟩, htail, rfl⟩ := List.forall₂_cons_left_iff.1 hfor
  obtain rfl : es = [] := List.forall₂_nil_left_iff.1 htail
  refine ⟨_, rfl, param, hparam, moeWeightLoader_footprint ?_ ?_ hr⟩
  all_goals
    rw [RoutedExperts.qualName, Str.infix_append_cons (by decide)]
    rintro (hlayer | hname)
    · exact hclean _ (by simp) hlayer
    · exact not_infix_paramName s p (by simp) hname

/-- What a part's tensor does. -/
theorem tensorEvents_part (hp : AwqParameters L.toRoutedExperts)
    (h : ExpertNames L.toRoutedExperts) (hclean : LayerNameClean L.toRoutedExperts)
    {rest : Loader α} {l : Nat} {s : Shard} {p : AwqPart} {t : Tensor α} {es : List (Event α)}
    (hes : L.tensorEvents (L.loader rest)
      (expertName l (L.ckptProjName s) p.suffix, .perExpert (.matrix t)) = .ok es) :
    List.Forall₂ (fun e ev => L.physicalToLogical e = l ∧ WritesPart L (e, s, p) ev)
      ((List.range L.numPhysicalExperts).filter fun e => L.physicalToLogical e = l) es := by
  obtain ⟨ess, hess, hflat⟩ := bind_eq_ok.1 hes
  cases hflat
  rw [mapM_eq_ok] at hess
  dsimp only [CkptTensor.isFused] at hess
  rw [reached_eq_filter, filter_getExpertMapping h s (part_suffix_clean p),
    RoutedExperts.replicaEntries, List.forall₂_map_left_iff] at hess
  have hreplica : ∀ e ∈ (List.range L.numPhysicalExperts).filter fun e => L.physicalToLogical e = l,
      L.physicalToLogical e = l := fun e he => of_decide_eq_true (List.mem_filter.1 he).2
  generalize (List.range L.numPhysicalExperts).filter (fun e => L.physicalToLogical e = l) =
    replicas at hess hreplica ⊢
  clear hes
  induction hess with
  | nil => exact .nil
  | @cons e es' replicas ess' hentry _ ih =>
    obtain rfl := hreplica e List.mem_cons_self
    obtain ⟨ev, rfl, hev⟩ := entryEvents_part hp h hclean hentry
    exact .cons ⟨rfl, hev⟩ (ih fun e he => hreplica e (List.mem_cons_of_mem _ he))

/-- A part's tensor writes into the replicas of its expert one by one. -/
theorem pairwise_disjoint_of_part (hp : AwqParameters L.toRoutedExperts)
    (h : ExpertNames L.toRoutedExperts) (hclean : LayerNameClean L.toRoutedExperts)
    (hslots : SlotsDistinct L.toRoutedExperts) {rest : Loader α} {w : Weight α}
    (hw : PartWeight L.toRoutedExperts w) {es : List (Event α)}
    (hes : L.tensorEvents (L.loader rest) w = .ok es) :
    es.Pairwise fun ev ev' => ev.patch.Disjoint ev'.patch := by
  obtain ⟨l, s, p, t, rfl⟩ := hw
  have hdistinct : ((List.range L.numPhysicalExperts).filter fun e =>
      L.physicalToLogical e = l).Pairwise (· ≠ ·) := List.nodup_range.filter _
  refine pairwise_of_forall₂ (tensorEvents_part hp h hclean hes) hdistinct ?_
  intro e _ e' _ ev ev' hev hev' hne
  refine writesPart_disjoint hclean hslots hev.2 hev'.2 ?_
  intro hkey
  cases hkey
  exact hne rfl

/-- Tensors with different names do not write into one cell. -/
theorem disjoint_of_parts (hp : AwqParameters L.toRoutedExperts)
    (h : ExpertNames L.toRoutedExperts) (hclean : LayerNameClean L.toRoutedExperts)
    (hslots : SlotsDistinct L.toRoutedExperts) {rest : Loader α} {w w' : Weight α}
    (hw : PartWeight L.toRoutedExperts w) (hw' : PartWeight L.toRoutedExperts w')
    (hne : w.1 ≠ w'.1) {es es' : List (Event α)}
    (hes : L.tensorEvents (L.loader rest) w = .ok es)
    (hes' : L.tensorEvents (L.loader rest) w' = .ok es') :
    ∀ ev ∈ es, ∀ ev' ∈ es', ev.patch.Disjoint ev'.patch := by
  obtain ⟨l, s, p, t, rfl⟩ := hw
  obtain ⟨l', s', p', t', rfl⟩ := hw'
  intro ev hev ev' hev'
  obtain ⟨e, -, rfl, hwrites⟩ := exists_of_forall₂ (tensorEvents_part hp h hclean hes) hev
  obtain ⟨e', -, rfl, hwrites'⟩ := exists_of_forall₂ (tensorEvents_part hp h hclean hes') hev'
  refine writesPart_disjoint hclean hslots hwrites hwrites' ?_
  intro hkey
  cases hkey
  exact hne rfl

/-- What a finished run over parts writes, it writes once. -/
theorem pairwise_disjoint_of_parts (hp : AwqParameters L.toRoutedExperts)
    (h : ExpertNames L.toRoutedExperts) (hclean : LayerNameClean L.toRoutedExperts)
    (hslots : SlotsDistinct L.toRoutedExperts) {rest : Loader α} {weights : List (Weight α)}
    (hweights : ∀ w ∈ weights, PartWeight L.toRoutedExperts w)
    (hnodup : (weights.map Prod.fst).Nodup) {ess : List (List (Event α))}
    (hess : weights.mapM (L.tensorEvents (L.loader rest)) = .ok ess) :
    (ess.flatten.map Event.patch).Pairwise Patch.Disjoint := by
  rw [mapM_eq_ok] at hess
  rw [List.pairwise_map, List.pairwise_flatten]
  constructor
  · intro es hes
    obtain ⟨w, hw, hev⟩ := exists_of_forall₂ hess hes
    exact pairwise_disjoint_of_part hp h hclean hslots (hweights w hw) hev
  · refine pairwise_of_forall₂ hess (List.pairwise_map.1 hnodup) ?_
    intro w hw w' hw' es es' hev hev' hne
    exact disjoint_of_parts hp h hclean hslots (hweights w hw) (hweights w' hw') hne hev hev'

/-- A tensor in excess is skipped wherever it is tried. -/
theorem tensorEvents_spurious (hp : AwqParameters L.toRoutedExperts)
    (h : ExpertNames L.toRoutedExperts) {loader : Loader α} {w : Weight α}
    (hw : SpuriousWeight L.toRoutedExperts w) :
    ∃ es, L.tensorEvents loader w = .ok es ∧ ∀ ev ∈ es, ∃ m, ev = .skipped w m := by
  obtain ⟨l, s, proj, hproj, suffix, hsuffix, hname⟩ := hw
  rw [List.mem_pair] at hsuffix
  have hall : ¬ underExperts [] <:+: suffix ∧ weightWord <+: suffix ∧
      ∀ s : Shard, ¬ BiasName (s.paramPrefix ++ suffix) := by
    obtain rfl | rfl := hsuffix
    · exact ⟨by decide, by decide, fun s => by cases s <;> decide⟩
    · exact ⟨by decide, by decide, fun s => by cases s <;> decide⟩
  refine ⟨_, tensorEvents_weight hp h hproj hname hall.1 hall.2.1 hall.2.2, ?_⟩
  intro ev hev
  obtain ⟨m, -, rfl⟩ := List.mem_map.1 hev
  exact ⟨m, rfl⟩

/-- Tensors in excess never make a run fail, and it only skips them. -/
theorem mapM_spurious (hp : AwqParameters L.toRoutedExperts) (h : ExpertNames L.toRoutedExperts)
    (loader : Loader α) {extras : List (Weight α)}
    (hextras : ∀ w ∈ extras, SpuriousWeight L.toRoutedExperts w) :
    ∃ ess, extras.mapM (L.tensorEvents loader) = .ok ess ∧
      ∀ ev ∈ ess.flatten, ∃ w m, ev = .skipped w m := by
  induction extras with
  | nil => exact ⟨[], rfl, fun ev hev => by cases hev⟩
  | cons w extras ih =>
    obtain ⟨es, hes, hskip⟩ := tensorEvents_spurious hp h (hextras w List.mem_cons_self)
    obtain ⟨ess, hess, hskips⟩ := ih fun w hw => hextras w (List.mem_cons_of_mem _ hw)
    refine ⟨es :: ess, mapM_eq_ok.2 (.cons hes (mapM_eq_ok.1 hess)), ?_⟩
    intro ev hev
    rw [List.flatten_cons, List.mem_append] at hev
    cases hev with
    | inl hev =>
      obtain ⟨m, rfl⟩ := hskip ev hev
      exact ⟨w, m, rfl⟩
    | inr hev => exact hskips ev hev

end reorder

/-- A finished run. -/
theorem loadWeights_eq_ok {L : RoutedExperts α} {loader : Loader α} {weights : List (Weight α)}
    {st st' : Params α} {names : List Str} :
    L.loadWeights loader weights st = .ok (st', names) ↔
      ∃ ess, weights.mapM (L.tensorEvents loader) = .ok ess ∧
        Patch.applyAll (ess.flatten.map Event.patch) st = st' ∧
        ess.flatten.filterMap Event.yielded = names := by
  constructor
  · intro h
    obtain ⟨events, hevents, h⟩ := bind_eq_ok.1 h
    obtain ⟨ess, hess, hflat⟩ := bind_eq_ok.1 hevents
    cases hflat
    cases h
    exact ⟨ess, hess, rfl, rfl⟩
  · rintro ⟨ess, hess, rfl, rfl⟩
    exact bind_eq_ok.2 ⟨ess.flatten, bind_eq_ok.2 ⟨ess, hess, rfl⟩, rfl⟩

/-- Skipped tensors leave no trace, and disjoint writes may come in any order. -/
theorem outcome_of_perm {ess ess' xss : List (List (Event α))} (hperm : ess'.Perm (ess ++ xss))
    (hdisjoint : (ess.flatten.map Event.patch).Pairwise Patch.Disjoint)
    (hskips : ∀ ev ∈ xss.flatten, ∃ w m, ev = Event.skipped w m) (st : Params α) :
    Patch.applyAll (ess'.flatten.map Event.patch) st =
        Patch.applyAll (ess.flatten.map Event.patch) st ∧
      (ess'.flatten.filterMap Event.yielded).Perm (ess.flatten.filterMap Event.yielded) := by
  have hflat : ess'.flatten.Perm (ess.flatten ++ xss.flatten) := by
    rw [← List.flatten_append]
    exact hperm.flatten
  have hempty : ∀ p ∈ xss.flatten.map Event.patch, p = Patch.empty := by
    intro p hp
    obtain ⟨ev, hev, rfl⟩ := List.mem_map.1 hp
    obtain ⟨w, m, rfl⟩ := hskips ev hev
    rfl
  have hsilent : xss.flatten.filterMap Event.yielded = [] := by
    rw [List.filterMap_eq_nil_iff]
    intro ev hev
    obtain ⟨w, m, rfl⟩ := hskips ev hev
    rfl
  constructor
  · have hall : ((ess.flatten ++ xss.flatten).map Event.patch).Pairwise Patch.Disjoint := by
      rw [List.map_append, List.pairwise_append]
      refine ⟨hdisjoint, ?_, ?_⟩
      · rw [List.pairwise_iff_forall_sublist]
        intro p q hpq k
        exact .inl (congrFun (hempty p (hpq.subset List.mem_cons_self)) k)
      · intro p _ q hq k
        exact .inr (congrFun (hempty q hq) k)
    rw [← Patch.applyAll_perm hall (hflat.symm.map _), List.map_append, Patch.applyAll_append,
      Patch.applyAll_of_empty hempty]
  · have := hflat.filterMap Event.yielded
    rwa [List.filterMap_append, hsilent, List.append_nil] at this

/-- **The order of a checkpoint and its spurious tensors do not matter.** -/
theorem load_order_irrelevant {L : MoeWNA16Layer α} (hp : AwqParameters L.toRoutedExperts)
    (h : ExpertNames L.toRoutedExperts) (hclean : LayerNameClean L.toRoutedExperts)
    (hslots : SlotsDistinct L.toRoutedExperts) (rest : Loader α)
    {weights extras weights' : List (Weight α)}
    (hweights : ∀ w ∈ weights, PartWeight L.toRoutedExperts w)
    (hnodup : (weights.map Prod.fst).Nodup)
    (hextras : ∀ w ∈ extras, SpuriousWeight L.toRoutedExperts w)
    (hperm : weights'.Perm (weights ++ extras)) (st st' : Params α) (names : List Str) :
    (∃ names', names'.Perm names ∧
        L.loadWeights (L.loader rest) weights' st = .ok (st', names')) ↔
      ∃ names', names'.Perm names ∧
        L.loadWeights (L.loader rest) weights st = .ok (st', names') := by
  obtain ⟨xss, hxss, hskips⟩ := mapM_spurious hp h (L.loader rest) hextras
  simp only [loadWeights_eq_ok]
  constructor
  · rintro ⟨names', hnames, ess', hess', rfl, rfl⟩
    obtain ⟨ess₂, hess₂, hperm'⟩ := mapM_perm hperm.symm hess'
    rw [List.mapM_append] at hess₂
    obtain ⟨ess, hess, hess₂⟩ := bind_eq_ok.1 hess₂
    obtain ⟨xss', hxss', hess₂⟩ := bind_eq_ok.1 hess₂
    cases hess₂
    cases hxss.symm.trans hxss'
    obtain ⟨hstate, hyielded⟩ := outcome_of_perm hperm'.symm
      (pairwise_disjoint_of_parts hp h hclean hslots hweights hnodup hess) hskips st
    exact ⟨_, hyielded.symm.trans hnames, ess, hess, hstate.symm, rfl⟩
  · rintro ⟨names', hnames, ess, hess, rfl, rfl⟩
    have hboth : (weights ++ extras).mapM (L.tensorEvents (L.loader rest)) = .ok (ess ++ xss) := by
      rw [List.mapM_append]
      exact bind_eq_ok.2 ⟨ess, hess, bind_eq_ok.2 ⟨xss, hxss, rfl⟩⟩
    obtain ⟨ess', hess', hperm'⟩ := mapM_perm hperm hboth
    obtain ⟨hstate, hyielded⟩ := outcome_of_perm hperm'
      (pairwise_disjoint_of_parts hp h hclean hslots hweights hnodup hess) hskips st
    exact ⟨_, hyielded.trans hnames, ess', hess', hstate, rfl⟩

theorem slotsDistinct_smallLayer : SlotsDistinct smallLayer.toRoutedExperts := by
  intro e e' slot h h'
  obtain ⟨he, h⟩ := Option.ite_none_right_eq_some.1 h
  obtain ⟨he', h'⟩ := Option.ite_none_right_eq_some.1 h'
  cases h
  have : e - 2 = e' - 2 := (Option.some.inj h').symm
  omega

/-- The scales of one projection of expert 2. -/
def scalesOf (proj : String) : Weight Nat :=
  (expertName 2 proj.toList "scales".toList,
    .perExpert (.matrix (.float ⟨1, 64, fun _ n => n⟩)))

/-- Scales of both parameters, in the other order and with a bare weight between them. -/
theorem load_order_irrelevant_small :
    ∃ st' names names',
      smallLayer.loadWeights (smallLayer.loader noLoader)
          [scalesOf "gate_proj", scalesOf "down_proj"] (fun _ => .uint8 0) = .ok (st', names) ∧
      st' ⟨"w13_scales".toList, 0, 3, 0⟩ = .float 35 ∧
      st' ⟨"w2_scales".toList, 0, 5, 0⟩ = .float 5 ∧
      names'.Perm names ∧
      smallLayer.loadWeights (smallLayer.loader noLoader)
          [scalesOf "down_proj", bareWeight, scalesOf "gate_proj"] (fun _ => .uint8 0) =
        .ok (st', names') := by
  have hcells : (smallLayer.loadWeights (smallLayer.loader noLoader)
      [scalesOf "gate_proj", scalesOf "down_proj"] (fun _ => .uint8 0)).toOption.map
        (fun r => (r.1 ⟨"w13_scales".toList, 0, 3, 0⟩, r.1 ⟨"w2_scales".toList, 0, 5, 0⟩)) =
      some (.float 35, .float 5) := by
    decide +kernel
  have hpart : ∀ w ∈ [scalesOf "gate_proj", scalesOf "down_proj"],
      PartWeight smallLayer.toRoutedExperts w := by
    intro w hw
    obtain rfl | rfl := List.mem_pair.1 hw
    · exact ⟨2, .w1, .scales, _, rfl⟩
    · exact ⟨2, .w2, .scales, _, rfl⟩
  have hspurious : ∀ w ∈ [bareWeight], SpuriousWeight smallLayer.toRoutedExperts w := by
    intro w hw
    rw [List.mem_singleton.1 hw]
    exact ⟨2, .w2, _, List.mem_cons_self, weightWord, List.mem_cons_self, rfl⟩
  cases hrun : smallLayer.loadWeights (smallLayer.loader noLoader)
      [scalesOf "gate_proj", scalesOf "down_proj"] (fun _ => .uint8 0) with
  | error e =>
    rw [hrun] at hcells
    cases hcells
  | ok result =>
    obtain ⟨st', names⟩ := result
    rw [hrun] at hcells
    obtain ⟨hgate, hdown⟩ := Prod.mk.inj (Option.some.inj hcells)
    obtain ⟨names', hnames, hrun'⟩ := (load_order_irrelevant awqParameters_smallLayer
      expertNames_smallLayer (by unfold LayerNameClean; decide) slotsDistinct_smallLayer noLoader
      hpart (by decide +kernel) hspurious
      (List.perm_append_singleton (scalesOf "gate_proj") [scalesOf "down_proj", bareWeight])
      _ st' names).2 ⟨names, List.Perm.refl names, hrun⟩
    exact ⟨st', names, names', rfl, hgate, hdown, hnames, hrun'⟩

end FlashNext
