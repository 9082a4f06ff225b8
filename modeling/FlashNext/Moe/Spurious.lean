import FlashNext.Moe.Names
import FlashNext.Moe.Receive

/-!
# FlashNext.Moe.Spurious

The rule of `load_weights` that skips a tensor whose parameter is missing.

On a layer with AWQ's parameters the rule skips exactly the names that start with
`weight` below an expert's projection (`resolve_eq_spurious`), whatever else the
checkpoint holds:

* `skips_covered_iff` — what is skipped is loaded otherwise exactly when the checkpoint
  also has the expert's `qweight`.
-/

namespace FlashNext

variable {α : Type}

/-- The parameters of an AWQ layer before it is post-processed. -/
structure AwqParameters (L : RoutedExperts α) : Prop where
  registered : ∀ s p, (L.getattr (paramName s p)).isSome
  only : ∀ name, (L.getattr name).isSome → ∃ s p, name = paramName s p

theorem getattr_isSome_iff (L : RoutedExperts α) (name : Str) :
    (L.getattr name).isSome ↔ name ∈ L.parameters.map Prod.fst := by
  rw [RoutedExperts.getattr, List.lookup_isSome_iff, List.mem_map]
  constructor
  · rintro ⟨p, hp, h⟩
    exact ⟨p, hp, (beq_iff_eq.1 h).symm⟩
  · rintro ⟨p, hp, rfl⟩
    exact ⟨p, hp, beq_iff_eq.2 rfl⟩

/-- `create_weights` registers such parameters. -/
theorem awqParameters_of_createWeights {B : RoutedExperts α} {C : MoeWNA16Config}
    {L : MoeWNA16Layer α} (hcreate : B.createWeights C = .ok L) (hzp : C.hasZp = true) :
    AwqParameters L.toRoutedExperts := by
  obtain ⟨-, -, hL⟩ := createWeights_eq_ok hcreate
  have hnames : L.parameters.map Prod.fst = [paramName .w1 .qweight, paramName .w2 .qweight,
      paramName .w1 .scales, paramName .w2 .scales, paramName .w1 .qzeros,
      paramName .w2 .qzeros] := by
    rw [hL]
    show (B.weightParameters C L.groupSize).map Prod.fst = _
    rw [RoutedExperts.weightParameters, if_pos hzp]
    rfl
  constructor
  · intro s p
    rw [getattr_isSome_iff, hnames]
    cases s <;> cases p <;> decide
  · intro name hname
    rw [getattr_isSome_iff, hnames] at hname
    simp only [List.mem_cons, List.not_mem_nil, or_false] at hname
    obtain h | h | h | h | h | h := hname <;> exact ⟨_, _, h⟩

/-! ## names of parameters -/

theorem paramName_dotless (s : Shard) (p : AwqPart) : '.' ∉ paramName s p := by
  cases s <;> cases p <;> decide

/-- `w13` or `w2` -/
def Shard.base : Shard → Str
  | .w1 => ['w', '1', '3']
  | .w2 => ['w', '2']
  | .w3 => ['w', '1', '3']

theorem base_append (s : Shard) : s.base ++ ['_'] = s.paramPrefix := by
  cases s <;> decide

/-- The text behind a parameter's prefix. -/
theorem eq_of_paramPrefix_append {s s' : Shard} {t t' : Str}
    (h : s.paramPrefix ++ t = s'.paramPrefix ++ t') : s.paramPrefix = s'.paramPrefix ∧ t = t' := by
  by_cases hs : s.paramPrefix = s'.paramPrefix
  · rw [hs, List.append_cancel_left_eq] at h
    exact ⟨hs, h⟩
  · rw [← base_append, ← base_append] at h hs
    cases s <;> cases s' <;> simp_all [Shard.base]

theorem suffix_head (p : AwqPart) : ∃ c t, p.suffix = c :: t ∧ c ≠ 'w' := by
  cases p
  · exact ⟨'q', _, rfl, by decide⟩
  · exact ⟨'q', _, rfl, by decide⟩
  · exact ⟨'s', _, rfl, by decide⟩

/-- `"weight"` -/
def weightWord : Str := ['w', 'e', 'i', 'g', 'h', 't']

/-- No parameter is called a weight. -/
theorem paramName_ne_weight (s s' : Shard) (p : AwqPart) (t : Str) :
    s.paramPrefix ++ (weightWord ++ t) ≠ paramName s' p := by
  intro h
  have hsuffix := (eq_of_paramPrefix_append h).2
  obtain ⟨c, u, hc, hne⟩ := suffix_head p
  rw [hc, weightWord] at hsuffix
  cases hsuffix
  exact hne rfl

theorem getattr_weight {L : RoutedExperts α} (h : AwqParameters L) (s : Shard) (t : Str) :
    L.getattr (s.paramPrefix ++ (weightWord ++ t)) = none := by
  rw [← Option.not_isSome_iff_eq_none]
  intro hsome
  obtain ⟨s', p, hp⟩ := h.only _ hsome
  exact paramName_ne_weight s s' p t hp

/-! ## the rule -/

section rule

variable {L : RoutedExperts α}

theorem splitFirst_weight (s : Shard) (t : Str) :
    Str.splitFirst "_weight".toList (s.paramPrefix ++ (weightWord ++ t)) = s.base := by
  have hbase : '_' ∉ s.base := by
    cases s <;> decide
  have := Str.splitFirst_append hbase weightWord t
  rw [← base_append, List.append_assoc, List.singleton_append]
  exact this

theorem base_append_qweight (s : Shard) : s.base ++ "_qweight".toList = paramName s .qweight := by
  cases s <;> decide

theorem underscore_weight : "_weight".toList = '_' :: weightWord := by decide

/-- What stands in front of a registered `_qweight`. -/
theorem eq_base_of_registered (h : AwqParameters L) {b : Str}
    (hreg : (L.getattr (b ++ "_qweight".toList)).isSome) :
    ∃ s : Shard, b = s.base := by
  obtain ⟨s, p, hp⟩ := h.only _ hreg
  have hq : p = .qweight := by
    have : "_qweight".toList <:+ paramName s p := ⟨b, hp⟩
    revert this
    cases s <;> cases p <;> decide
  subst hq
  rw [← base_append_qweight, List.append_cancel_right_eq] at hp
  exact ⟨s, hp⟩

/-- **The rule skips the names of weights and no others.** -/
theorem resolveName_eq_spurious (h : AwqParameters L) (qualName : Str) (s : Shard) (suffix : Str) :
    L.resolveName qualName (L.qualName (s.paramPrefix ++ suffix)) = .ok .spurious ↔
      weightWord <+: suffix ∧ ¬ BiasName (s.paramPrefix ++ suffix) := by
  rw [RoutedExperts.resolveName, paramNameOf_qualName]
  constructor
  · intro hres
    split at hres
    · cases hres
    · split at hres
      · cases hres
      · next hbias =>
        split at hres
        · next hweight =>
          obtain ⟨s', hbase⟩ := eq_base_of_registered h hweight.2
          obtain ⟨r, hr⟩ := Str.splitFirst_append_start hweight.1
          rw [hbase, underscore_weight, List.append_cons, base_append, List.append_assoc] at hr
          exact ⟨⟨r, (eq_of_paramPrefix_append hr).2⟩, hbias⟩
        · cases hres
  · rintro ⟨⟨t, rfl⟩, hbias⟩
    rw [getattr_weight h]
    dsimp only
    rw [if_neg hbias, if_pos]
    constructor
    · rw [underscore_weight, ← base_append]
      exact ⟨s.base, t, by simp only [List.append_assoc, List.cons_append, List.nil_append]⟩
    · rw [splitFirst_weight, base_append_qweight]
      exact h.registered s .qweight

/-- A registered parameter is found. -/
theorem resolveName_paramName (h : AwqParameters L) (qualName : Str) (s : Shard) (p : AwqPart) :
    ∃ param, L.resolveName qualName (L.qualName (paramName s p)) =
      .ok (.found (paramName s p) param (L.qualName (paramName s p))) := by
  obtain ⟨param, hparam⟩ := Option.isSome_iff_exists.1 (h.registered s p)
  refine ⟨param, ?_⟩
  rw [RoutedExperts.resolveName, paramNameOf_qualName, hparam]

/-- What is found is registered. -/
theorem resolveName_eq_found {qualName weightName q w : Str} {param : Param}
    (hres : L.resolveName qualName weightName = .ok (.found q param w)) :
    q = L.paramNameOf weightName ∧ w = weightName ∧ L.getattr q = some param := by
  unfold RoutedExperts.resolveName at hres
  dsimp only at hres
  split at hres
  · next hparam =>
    cases hres
    exact ⟨rfl, rfl, hparam⟩
  · split at hres
    · cases hres
    · split at hres <;> cases hres

end rule

/-! ## what is skipped and what is loaded -/

section events

variable {L : RoutedExperts α} {loader : Loader α}

/-- A weight of an expert is skipped by every entry that it reaches, and nothing else happens. -/
theorem tensorEvents_weight (hp : AwqParameters L) (h : ExpertNames L) {w : Weight α} {l : Nat}
    {s : Shard} {proj suffix : Str} (hproj : proj ∈ L.projNames s)
    (hname : w.1 = expertName l proj suffix) (hsuffix : ¬ underExperts [] <:+: suffix)
    (hweight : weightWord <+: suffix) (hbias : ∀ s : Shard, ¬ BiasName (s.paramPrefix ++ suffix)) :
    L.tensorEvents loader w =
      .ok ((reached (L.qualName w.1) w.2.isFused false L.getExpertMapping).map
        (Event.skipped w)) := by
  refine bind_eq_ok.2
    ⟨(reached (L.qualName w.1) w.2.isFused false L.getExpertMapping).map fun m =>
      [Event.skipped w m], mapM_eq_ok.2 ?_, ?_⟩
  · rw [List.forall₂_map_right_iff, List.forall₂_same]
    intro m hm
    obtain ⟨hmap, hmatch⟩ := of_mem_reached hm
    rw [hname] at hmatch
    obtain ⟨e, -, s', rfl, -, rfl⟩ :=
      (entry_infix_iff h hmap (h.proj s proj hproj) hsuffix).1 hmatch
    refine entryEvents_eq_ok.2 (.inr (.inl ⟨?_, rfl⟩))
    rw [hname, resolve_entry h e s' hsuffix, resolveName_eq_spurious hp]
    exact ⟨hweight, hbias s'⟩
  · rw [← List.flatMap_def, ← List.map_eq_flatMap]
    rfl

/-- The name is that of a tensor of the physical expert's shard. -/
def NamesExpert (L : RoutedExperts α) (e : Nat) (s : Shard) (suffix name : Str) : Prop :=
  ∃ proj ∈ L.projNames s, name = expertName (L.physicalToLogical e) proj suffix

/-- For every tensor of an expert that the rule has skipped, the `qweight` of the same expert and
shard has been loaded. -/
def SkipsCovered (L : RoutedExperts α) (events : List (Event α)) : Prop :=
  ∀ w m suffix, Event.skipped w m ∈ events → w.2.isFused = false →
    ¬ underExperts [] <:+: suffix → NamesExpert L m.expertId m.shardId suffix w.1 →
    ∃ w' m' r, m'.shardId = m.shardId ∧
      Event.loaded w' m' (paramName m.shardId .qweight) m.expertId r ∈ events

/-- The tensor holds the expert's `qweight` for the shard. -/
def HasQweight (L : RoutedExperts α) (e : Nat) (s : Shard) (w : Weight α) : Prop :=
  match w.2 with
  | .perExpert _ => NamesExpert L e s AwqPart.qweight.suffix w.1
  | .fused t => e < t.experts.length ∧
    ∃ e' < L.numPhysicalExperts, NamesExpert L e' s AwqPart.qweight.suffix w.1

/-- With every weight of an expert's shard comes its `qweight`. -/
def WeightsHaveQweight (L : RoutedExperts α) (weights : List (Weight α)) : Prop :=
  ∀ w ∈ weights, w.2.isFused = false → ∀ e < L.numPhysicalExperts, ∀ s suffix,
    ¬ underExperts [] <:+: suffix → NamesExpert L e s suffix w.1 →
    weightWord <+: suffix → ¬ BiasName (s.paramPrefix ++ suffix) →
    ∃ w' ∈ weights, HasQweight L e s w'

theorem qweight_suffix_clean : ¬ underExperts [] <:+: AwqPart.qweight.suffix := by decide

/-- A skipped tensor of an expert is called a weight. -/
theorem weight_of_skipped (hp : AwqParameters L) (h : ExpertNames L) {w : Weight α}
    {m : MappingEntry} (hm : m ∈ L.getExpertMapping) (hmatch : m.weightName <:+: L.qualName w.1)
    (hres : L.resolve (L.qualName w.1) m = .ok .spurious) {e : Nat} {s : Shard} {suffix : Str}
    (hsuffix : ¬ underExperts [] <:+: suffix) (hname : NamesExpert L e s suffix w.1) :
    weightWord <+: suffix ∧ ¬ BiasName (m.shardId.paramPrefix ++ suffix) := by
  obtain ⟨proj, hproj, hname⟩ := hname
  rw [hname] at hmatch hres
  obtain ⟨e', -, s', hl, -, rfl⟩ := (entry_infix_iff h hm (h.proj s proj hproj) hsuffix).1 hmatch
  rw [← hl, resolve_entry h e' s' hsuffix, resolveName_eq_spurious hp] at hres
  exact hres

/-- The entry that a tensor of the `qweight` is loaded by. -/
theorem entry_of_hasQweight (h : ExpertNames L) {w : Weight α} {e : Nat}
    (he : e < L.numPhysicalExperts) {s : Shard} (hq : HasQweight L e s w) :
    ∃ proj e', w.1 = expertName (L.physicalToLogical e') proj AwqPart.qweight.suffix ∧
      L.entry proj e' s ∈ reached (L.qualName w.1) w.2.isFused false L.getExpertMapping ∧
      w.2.Loads (L.entry proj e' s) e := by
  obtain ⟨name, t⟩ := w
  cases t with
  | perExpert t =>
    obtain ⟨proj, hproj, hname⟩ := hq
    have hmem : L.entry proj e s ∈ L.getExpertMapping :=
      (mem_getExpertMapping h).2 (.inr ⟨he, proj, hproj, rfl⟩)
    refine ⟨proj, e, hname, ?_, rfl⟩
    show _ ∈ reached _ false false _
    rw [reached_eq_filter, List.mem_filter, decide_eq_true_eq]
    refine ⟨hmem, ?_⟩
    show _ <:+: L.qualName name
    rw [show name = _ from hname,
      entry_infix_iff h hmem (h.proj s proj hproj) qweight_suffix_clean]
    exact ⟨e, he, s, rfl, hproj, rfl⟩
  | fused t =>
    obtain ⟨hlt, e₁, he₁, proj, hproj, hname⟩ := hq
    obtain ⟨e', -, hl, hreached⟩ :=
      exists_entry_reached h hproj qweight_suffix_clean he₁ true
    rw [← show name = _ from hname] at hreached
    exact ⟨proj, e', by rw [hl]; exact hname, hreached, hlt⟩

/-- A tensor of the `qweight` has been loaded by a finished run. -/
theorem loaded_of_hasQweight (hp : AwqParameters L) (h : ExpertNames L)
    {weights : List (Weight α)} {events : List (Event α)}
    (hrun : L.loadEvents loader weights = .ok events) {w : Weight α} (hw : w ∈ weights) {e : Nat}
    (he : e < L.numPhysicalExperts) {s : Shard} (hq : HasQweight L e s w) :
    ∃ m r, m.shardId = s ∧ Event.loaded w m (paramName s .qweight) e r ∈ events := by
  obtain ⟨proj, e', hname, hreached, hloads⟩ := entry_of_hasQweight h he hq
  obtain ⟨es, hes⟩ := entryEvents_of_loadEvents hrun hw hreached
  obtain ⟨param, hfound⟩ := resolveName_paramName hp (L.qualName w.1) s .qweight
  have hres : L.resolve (L.qualName w.1) (L.entry proj e' s) =
      .ok (.found (paramName s .qweight) param (L.qualName (paramName s .qweight))) := by
    rw [← hfound, hname, resolve_entry h e' s qweight_suffix_clean, paramName]
  obtain ⟨r, hr⟩ := exists_loaded hes hres hloads
  exact ⟨_, r, rfl, (mem_loadEvents hrun).2 ⟨w, hw, _, hreached, es, hes, hr⟩⟩

/-- Only tensors of the `qweight` are loaded into it. -/
theorem hasQweight_of_loaded (h : ExpertNames L)
    {weights : List (Weight α)} {events : List (Event α)}
    (hrun : L.loadEvents loader weights = .ok events) {w : Weight α} {m : MappingEntry} {e : Nat}
    {r : Loaded α} (hev : Event.loaded w m (paramName m.shardId .qweight) e r ∈ events) :
    w ∈ weights ∧ HasQweight L e m.shardId w := by
  obtain ⟨w', hw', m', hm', es, hes, hev⟩ := (mem_loadEvents hrun).1 hev
  obtain ⟨rfl, rfl, hloads, param, weightName, t, hres, -⟩ := found_of_loaded hes hev
  obtain ⟨hmap, hmatch⟩ := of_mem_reached hm'
  obtain ⟨hq, -, -⟩ := resolveName_eq_found hres
  have hdot := paramName_dotless m.shardId .qweight
  rw [hq] at hdot
  refine ⟨hw', ?_⟩
  obtain hall | ⟨he, proj, hproj, hentry⟩ := (mem_getExpertMapping h).1 hmap
  · obtain ⟨v, hv⟩ := weight_prefix_of_allExperts h hall hmatch hdot
    rw [← hq, List.append_assoc] at hv
    exact absurd hv (paramName_ne_weight _ _ _ v)
  · rw [hentry] at hmatch hdot hq
    obtain ⟨suffix, hname, hstart⟩ := eq_expertName_of_dotless h hmatch hdot
    rw [hstart] at hq
    have hsuffix : AwqPart.qweight.suffix = suffix := List.append_cancel_left hq
    rw [← hsuffix] at hname
    have hexpert : NamesExpert L m.expertId m.shardId AwqPart.qweight.suffix w.1 :=
      ⟨proj, hproj, hname⟩
    obtain ⟨name, t⟩ := w
    cases t with
    | perExpert t =>
      cases (show e = m.expertId from hloads)
      exact hexpert
    | fused t => exact ⟨hloads, m.expertId, he, hexpert⟩

end events

/-- **The rule covers what it skips exactly when every weight comes with its `qweight`.** -/
theorem skips_covered_iff {L : RoutedExperts α} (hp : AwqParameters L) (h : ExpertNames L)
    {loader : Loader α} {weights : List (Weight α)} {events : List (Event α)}
    (hrun : L.loadEvents loader weights = .ok events) :
    SkipsCovered L events ↔ WeightsHaveQweight L weights := by
  constructor
  · intro hcovered w hw hfused e he s suffix hsuffix hname hweight hbias
    obtain ⟨proj, hproj, hname'⟩ := hname
    have hmem : L.entry proj e s ∈ L.getExpertMapping :=
      (mem_getExpertMapping h).2 (.inr ⟨he, proj, hproj, rfl⟩)
    have hreached : L.entry proj e s ∈
        reached (L.qualName w.1) w.2.isFused false L.getExpertMapping := by
      rw [hfused, reached_eq_filter, List.mem_filter, decide_eq_true_eq, hname',
        entry_infix_iff h hmem (h.proj s proj hproj) hsuffix]
      exact ⟨hmem, e, he, s, rfl, hproj, rfl⟩
    have hres : L.resolve (L.qualName w.1) (L.entry proj e s) = .ok .spurious := by
      rw [hname', resolve_entry h e s hsuffix, resolveName_eq_spurious hp]
      exact ⟨hweight, hbias⟩
    have hskip : Event.skipped w (L.entry proj e s) ∈ events :=
      (mem_loadEvents hrun).2 ⟨w, hw, _, hreached, _,
        entryEvents_eq_ok.2 (.inr (.inl ⟨hres, rfl⟩)), List.mem_cons_self⟩
    obtain ⟨w', m', r, hs, hev⟩ := hcovered w _ suffix hskip hfused hsuffix ⟨proj, hproj, hname'⟩
    rw [← hs] at hev
    obtain ⟨hw', hq⟩ := hasQweight_of_loaded h hrun hev
    rw [hs] at hq
    exact ⟨w', hw', hq⟩
  · intro hqweight w m suffix hskip hfused hsuffix hname
    obtain ⟨w', hw, m', hreached, es, hes, hev⟩ := (mem_loadEvents hrun).1 hskip
    obtain ⟨rfl, rfl, hres⟩ := spurious_of_skipped hes hev
    obtain ⟨hmap, hmatch⟩ := of_mem_reached hreached
    obtain ⟨hweight, hbias⟩ := weight_of_skipped hp h hmap hmatch hres hsuffix hname
    have he : m.expertId < L.numPhysicalExperts := by
      obtain ⟨proj, hproj, hname⟩ := hname
      rw [hname] at hmatch
      obtain ⟨e, he, s, -, -, rfl⟩ :=
        (entry_infix_iff h hmap (h.proj _ proj hproj) hsuffix).1 hmatch
      exact he
    obtain ⟨w', hw', hq⟩ :=
      hqweight w hw hfused m.expertId he m.shardId suffix hsuffix hname hweight hbias
    obtain ⟨m', r, hs, hev⟩ := loaded_of_hasQweight hp h hrun hw' he hq
    exact ⟨w', m', r, hs, hev⟩

theorem expertNames_smallLayer : ExpertNames smallLayer.toRoutedExperts :=
  expertNames_of_unique rfl (.inl ⟨rfl, rfl, rfl⟩) (by decide) (by decide)

theorem awqParameters_smallLayer : AwqParameters smallLayer.toRoutedExperts :=
  awqParameters_of_createWeights createWeights_smallExperts rfl

/-- The bare weight of an expert's down projection. -/
def bareWeight : Weight Nat :=
  (expertName 2 "down_proj".toList weightWord, .perExpert (.matrix (.float ⟨1, 1, fun _ _ => 0⟩)))

theorem bareWeight_events (loader : Loader Nat) :
    smallLayer.loadEvents loader [bareWeight] =
      .ok [.skipped bareWeight (smallLayer.entry "down_proj".toList 2 .w2)] := by
  have hreached : reached (smallLayer.qualName bareWeight.1) bareWeight.2.isFused false
      smallLayer.getExpertMapping = [smallLayer.entry "down_proj".toList 2 .w2] := by
    decide +kernel
  have hproj : "down_proj".toList ∈ smallLayer.projNames .w2 := List.mem_cons_self
  have htensor : smallLayer.tensorEvents loader bareWeight = _ :=
    tensorEvents_weight awqParameters_smallLayer expertNames_smallLayer hproj
      (rfl : bareWeight.1 = expertName 2 "down_proj".toList weightWord) (by decide)
      (List.prefix_refl _) (fun s => by cases s <;> decide)
  rw [hreached] at htensor
  exact bind_eq_ok.2 ⟨[[.skipped bareWeight (smallLayer.entry "down_proj".toList 2 .w2)]],
    mapM_eq_ok.2 (.cons htensor .nil), rfl⟩

theorem bareWeight_not_covered : ¬ SkipsCovered smallLayer.toRoutedExperts
    [.skipped bareWeight (smallLayer.entry "down_proj".toList 2 .w2)] := by
  intro h
  obtain ⟨w, m, r, -, hev⟩ := h bareWeight _ weightWord List.mem_cons_self rfl (by decide)
    ⟨"down_proj".toList, List.mem_cons_self, rfl⟩
  cases List.mem_singleton.1 hev

/-- The `qweight` of the same projection. -/
def downQweight : Weight Nat :=
  (expertName 2 "down_proj".toList AwqPart.qweight.suffix,
    .perExpert (.matrix (.int32 ⟨64, 8, fun _ _ => 0⟩)))

/-- With its `qweight` behind it, a bare weight is in excess. -/
theorem weightsHaveQweight_pair :
    WeightsHaveQweight smallLayer.toRoutedExperts [bareWeight, downQweight] := by
  intro w hw _ e _ s suffix _ hname _ _
  refine ⟨downQweight, by simp, ?_⟩
  obtain ⟨proj, hproj, hname⟩ := hname
  -- both tensors are of the down projection of expert 2
  have hstart : expertName e proj [] <+: w.1 := ⟨suffix, hname ▸ expertName_append e proj suffix⟩
  obtain ⟨rfl, rfl⟩ : e = 2 ∧ proj = "down_proj".toList := by
    have hdot := (expertNames_smallLayer.proj s proj hproj).dotless
    obtain rfl | rfl := List.mem_pair.1 hw <;>
      exact (expertName_start hdot (by decide)).1 hstart
  obtain rfl : s = .w2 := by
    cases s with
    | w2 => rfl
    | w1 | w3 => exact absurd hproj (by decide)
  exact ⟨"down_proj".toList, List.mem_cons_self, rfl⟩

/-- Alone a bare weight has no `qweight`; with one, its skip is covered. -/
theorem skips_covered_iff_bareWeight :
    ¬ WeightsHaveQweight smallLayer.toRoutedExperts [bareWeight] ∧
    ∃ events, smallLayer.loadEvents (smallLayer.loader noLoader) [bareWeight, downQweight] =
        .ok events ∧
      SkipsCovered smallLayer.toRoutedExperts events := by
  constructor
  · rw [← skips_covered_iff awqParameters_smallLayer expertNames_smallLayer
      (bareWeight_events (smallLayer.loader noLoader))]
    exact bareWeight_not_covered
  · have hok : (smallLayer.loadEvents (smallLayer.loader noLoader)
        [bareWeight, downQweight]).isOk = true := by
      decide +kernel
    cases hrun : smallLayer.loadEvents (smallLayer.loader noLoader) [bareWeight, downQweight] with
    | error e =>
      rw [hrun] at hok
      cases hok
    | ok events =>
      exact ⟨events, rfl, (skips_covered_iff awqParameters_smallLayer expertNames_smallLayer
        hrun).2 weightsHaveQweight_pair⟩

/-- A checkpoint with nothing but a bare weight is loaded, and the expert is left as it was. -/
theorem bare_weight_dropped :
    ∃ events, smallLayer.loadEvents (smallLayer.loader noLoader) [bareWeight] = .ok events ∧
      ¬ SkipsCovered smallLayer.toRoutedExperts events :=
  ⟨_, bareWeight_events _, bareWeight_not_covered⟩

end FlashNext
