import FlashNext.Moe.LoadWeights

/-!
# FlashNext.Moe.Names

Which entries of the mapping a checkpoint name reaches.

The names are texts that are searched and replaced, and the layer's own name is part
of the text.  `ExpertNames` says that it is not mistaken for an expert's;

* `infix_qualName`, `replace_qualName` — an entry is found behind the layer's name;
* `entry_infix_iff`, `replace_entry` — the name of an expert's tensor reaches the entries of its
  expert and projection, and is rewritten into the parameter of its last component;
* `eq_expertName_of_dotless` — only such names are rewritten into parameters;
* `expertName_routed` — the entries that a name reaches, for the standard names.
-/

namespace FlashNext

variable {α : Type}

/-- A name that a projection can have in a checkpoint. -/
structure ProjName (p : Str) : Prop where
  dotless : '.' ∉ p
  start : ∃ c ∈ p.head?, c.isDigit = false
  not_experts : ¬ experts <:+ p

instance (p : Str) : Decidable (ProjName p) :=
  decidable_of_iff ('.' ∉ p ∧ (p.head?.any fun c => !c.isDigit) = true ∧ ¬ experts <:+ p)
    ⟨fun ⟨hdot, hstart, hend⟩ => ⟨hdot, by simpa [Option.any_eq_true] using hstart, hend⟩,
      fun h => ⟨h.dotless, by simpa [Option.any_eq_true] using h.start, h.not_experts⟩⟩

/-- The names of a layer: a module path that ends in `experts` and has no part that an entry of
the mapping looks for. -/
structure ExpertNames (L : RoutedExperts α) : Prop where
  noLora : L.loraBaseLayerPrefix = []
  proj : ∀ s, ∀ p ∈ L.projNames s, ProjName p
  inj : ∀ s s', L.ckptProjName s' ∈ L.projNames s → s' = s
  layerName : experts <:+ L.layerName
  noNumber : ∀ c : Char, c.isDigit = true → ¬ experts ++ ['.', c] <:+: L.layerName
  noFused : ∀ g, L.gateUpName = some g → ∀ p ∈ [g, L.ckptDownProjName],
    ¬ experts ++ '.' :: p <:+: L.layerName

/-- The two sets of names that the projections have. -/
def StandardNames (gate down up : Str) : Prop :=
  (gate = "gate_proj".toList ∧ down = "down_proj".toList ∧ up = "up_proj".toList) ∨
    (gate = "w1".toList ∧ down = "w2".toList ∧ up = "w3".toList)

/-- The standard names do not depend on the layer. -/
theorem expertNames_of_standard {L : RoutedExperts α} (hlora : L.loraBaseLayerPrefix = [])
    (hstd : StandardNames L.ckptGateProjName L.ckptDownProjName L.ckptUpProjName)
    (hlayer : experts <:+ L.layerName)
    (hnumber : ∀ c : Char, c.isDigit = true → ¬ experts ++ ['.', c] <:+: L.layerName)
    (hfused : ∀ g, L.gateUpName = some g → ∀ p ∈ [g, L.ckptDownProjName],
      ¬ experts ++ '.' :: p <:+: L.layerName) : ExpertNames L := by
  refine ⟨hlora, ?_, ?_, hlayer, hnumber, hfused⟩
  · intro s
    unfold RoutedExperts.projNames RoutedExperts.gateUpName RoutedExperts.ckptProjName
    obtain ⟨hgate, hdown, hup⟩ | ⟨hgate, hdown, hup⟩ := hstd <;> rw [hgate, hdown, hup] <;>
      cases s <;> decide
  · intro s s'
    unfold RoutedExperts.projNames RoutedExperts.gateUpName RoutedExperts.ckptProjName
    obtain ⟨hgate, hdown, hup⟩ | ⟨hgate, hdown, hup⟩ := hstd <;> rw [hgate, hdown, hup] <;>
      cases s <;> cases s' <;> decide

/-- A layer whose name has `experts` only at its end. -/
theorem expertNames_of_unique {L : RoutedExperts α} (hlora : L.loraBaseLayerPrefix = [])
    (hstd : StandardNames L.ckptGateProjName L.ckptDownProjName L.ckptUpProjName)
    (hlayer : experts <:+ L.layerName) (hdot : ¬ experts ++ ['.'] <:+: L.layerName) :
    ExpertNames L := by
  have hfree : ∀ t : Str, ¬ experts ++ '.' :: t <:+: L.layerName := by
    intro t ht
    rw [List.append_cons] at ht
    exact hdot ((List.prefix_append _ t).isInfix.trans ht)
  exact expertNames_of_standard hlora hstd hlayer (fun c _ => hfree [c]) fun _ _ p _ => hfree p

/-- The name of a tensor of a logical expert. -/
def expertName (logical : Nat) (projName suffix : Str) : Str :=
  Str.ofNat logical ++ '.' :: (projName ++ '.' :: suffix)

/-- The text that an entry looks for, before the part after `experts.`. -/
def underExperts (r : Str) : Str := experts ++ '.' :: r

/-- No occurrence of the text starts in the layer's name, other than at its end. -/
def Clear (layerName r : Str) : Prop :=
  ∀ u t, layerName = u ++ experts ++ '.' :: t → ∀ name v, r ++ v ≠ t ++ '.' :: name

/-! ## the qualified name -/

section qualName

variable {L : RoutedExperts α} {r name : Str}

theorem experts_dotless : '.' ∉ experts := by decide

theorem underExperts_ne_nil (r : Str) : underExperts r ≠ [] := by
  simp [underExperts]

theorem dot_mem_underExperts (r : Str) : '.' ∈ underExperts r := by
  simp [underExperts]

/-- Where an entry occurs in a qualified name. -/
theorem occurrence_qualName (hclear : Clear L.layerName r) {u v : Str}
    (h : L.qualName name = u ++ underExperts r ++ v) :
    (L.layerName = u ++ experts ∧ name = r ++ v) ∨
      ∃ t, name = t ++ underExperts r ++ v ∧ u = L.layerName ++ '.' :: t := by
  rw [RoutedExperts.qualName, underExperts, ← List.append_assoc] at h
  obtain h | ⟨t, h, hu⟩ | ⟨t, h, hr⟩ := Str.occurrence_cases experts_dotless h
  · exact .inl h
  · refine .inr ⟨t, ?_, hu⟩
    rw [h, underExperts, ← List.append_assoc t]
  · exact absurd hr (hclear u t h name v)

theorem infix_qualName (h : ExpertNames L) (hclear : Clear L.layerName r) :
    underExperts r <:+: L.qualName name ↔ r <+: name ∨ underExperts r <:+: name := by
  constructor
  · rintro ⟨u, v, huv⟩
    obtain ⟨-, hname⟩ | ⟨t, hname, -⟩ := occurrence_qualName hclear huv.symm
    · exact .inl ⟨v, hname.symm⟩
    · exact .inr ⟨t, v, hname.symm⟩
  · rintro (⟨v, hv⟩ | hname)
    · obtain ⟨a, ha⟩ := h.layerName
      refine ⟨a, v, ?_⟩
      rw [RoutedExperts.qualName, ← ha, ← hv, underExperts]
      simp only [List.append_assoc, List.cons_append]
    · exact hname.trans ((List.suffix_cons '.' name).trans (List.suffix_append _ _)).isInfix

/-- The entry is replaced where the layer's name ends. -/
theorem replace_qualName (h : ExpertNames L) (hclear : Clear L.layerName r) (x v : Str) :
    Str.replace (L.qualName (r ++ v)) (underExperts r) (underExperts x) =
      L.qualName (x ++ Str.replace v (underExperts r) (underExperts x)) := by
  obtain ⟨a, ha⟩ := h.layerName
  have hqual : ∀ r v, L.qualName (r ++ v) = a ++ underExperts r ++ v := by
    intro r v
    rw [RoutedExperts.qualName, ← ha, underExperts]
    simp only [List.append_assoc, List.cons_append]
  rw [hqual, Str.replace_of_first (underExperts_ne_nil r), hqual]
  intro u w hu
  rw [← hqual] at hu
  obtain ⟨hlayer, -⟩ | ⟨t, -, hu⟩ := occurrence_qualName hclear hu
  · rw [← ha, List.append_cancel_right_eq] at hlayer
    rw [hlayer]
  · rw [hu, ← ha, List.length_append, List.length_append]
    omega

/-- Elsewhere it is replaced in the tensor's own name. -/
theorem replace_qualName_of_not_start (hclear : Clear L.layerName r) (hr : ¬ r <+: name)
    (x : Str) : Str.replace (L.qualName name) (underExperts r) x =
      L.qualName (Str.replace name (underExperts r) x) := by
  have hqual : ∀ name, L.qualName name = (L.layerName ++ ['.']) ++ name := by
    intro name
    rw [RoutedExperts.qualName, List.append_assoc, List.singleton_append]
  rw [hqual, Str.replace_append_of_le, ← hqual]
  intro u v hu
  rw [← hqual] at hu
  obtain ⟨-, hname⟩ | ⟨t, -, hu⟩ := occurrence_qualName hclear hu
  · exact absurd ⟨v, hname.symm⟩ hr
  · rw [hu, List.length_append, List.length_append]
    simp only [List.length_cons, List.length_nil]
    omega

theorem paramNameOf_qualName (L : RoutedExperts α) (q : Str) :
    L.paramNameOf (L.qualName q) = q := by
  have : L.qualName q = (L.layerName ++ ['.']) ++ q := by
    rw [RoutedExperts.qualName, List.append_assoc, List.singleton_append]
  rw [RoutedExperts.paramNameOf, this, Str.removePrefix_append]

/-- A parameter without dots comes from a name that starts with what the entry looks for. -/
theorem eq_append_of_dotless (h : ExpertNames L) (hclear : Clear L.layerName r)
    (hmatch : underExperts r <:+: L.qualName name) {x : Str}
    (hdot : '.' ∉ L.paramNameOf (Str.replace (L.qualName name) (underExperts r) (underExperts x))) :
    ∃ v, name = r ++ v ∧
      L.paramNameOf (Str.replace (L.qualName name) (underExperts r) (underExperts x)) = x ++ v := by
  have hfree : ∀ s, '.' ∉ Str.replace s (underExperts r) (underExperts x) →
      ¬ underExperts r <:+: s := by
    intro s hs hinfix
    exact hs ((Str.infix_replace (underExperts_ne_nil r) hinfix _).subset (dot_mem_underExperts x))
  by_cases hr : r <+: name
  · obtain ⟨v, rfl⟩ := hr
    rw [replace_qualName h hclear, paramNameOf_qualName, List.mem_append, not_or] at hdot
    refine ⟨v, rfl, ?_⟩
    rw [replace_qualName h hclear, paramNameOf_qualName, Str.replace_of_not_infix (hfree v hdot.2)]
  · rw [replace_qualName_of_not_start hclear hr, paramNameOf_qualName] at hdot
    exact absurd (((infix_qualName h hclear).1 hmatch).resolve_left hr) (hfree name hdot)

end qualName

/-! ## the entries -/

section entries

variable {L : RoutedExperts α} {m : MappingEntry}

/-- An entry for one expert looks for a name of that expert. -/
theorem entry_weightName (h : ExpertNames L) (proj : Str) (e : Nat) (s : Shard) :
    (L.entry proj e s).weightName = underExperts (expertName (L.physicalToLogical e) proj []) := by
  rw [RoutedExperts.entry, perExpertEntry, h.noLora]
  rfl

theorem entry_paramName (L : RoutedExperts α) (proj : Str) (e : Nat) (s : Shard) :
    (L.entry proj e s).paramName = underExperts s.paramPrefix := rfl

theorem clear_expertName (h : ExpertNames L) (l : Nat) (proj suffix : Str) :
    Clear L.layerName (expertName l proj suffix) := by
  rintro u t hlayer name v hv
  obtain ⟨c, cs, hdigits⟩ := List.exists_cons_of_ne_nil (Str.ofNat_ne_nil l)
  have hc : c.isDigit = true :=
    Str.isDigit_of_mem_ofNat (n := l) (by rw [hdigits]; exact List.mem_cons_self)
  rw [expertName, hdigits] at hv
  cases t with
  | nil =>
    rw [List.nil_append, List.cons_append, List.cons_append, List.cons.injEq] at hv
    rw [hv.1] at hc
    cases hc
  | cons d t =>
    rw [List.cons_append, List.cons_append, List.cons_append, List.cons.injEq] at hv
    refine h.noNumber c hc ⟨u, t, ?_⟩
    rw [hlayer, hv.1]
    simp only [List.append_assoc, List.cons_append, List.nil_append]

theorem clear_of_dotless {r : Str} (hr : '.' ∉ r) (hfree : ¬ underExperts r <:+: L.layerName) :
    Clear L.layerName r := by
  rintro u t hlayer name v hv
  have hpre : r <+: t := (Str.prefix_append_cons_of_notMem hr).1 ⟨v, hv⟩
  obtain ⟨w, rfl⟩ := hpre
  refine hfree ⟨u, w, ?_⟩
  rw [hlayer, underExperts]
  simp only [List.append_assoc, List.cons_append]

/-- An entry for all experts looks for a projection's name. -/
theorem allExperts_texts (h : ExpertNames L) (hm : m ∈ L.allExpertsEntries) :
    ∃ proj, ProjName proj ∧ Clear L.layerName proj ∧ m.weightName = underExperts proj ∧
      m.paramName = underExperts (m.shardId.paramPrefix ++ "weight".toList) := by
  unfold RoutedExperts.allExpertsEntries at hm
  cases hg : L.gateUpName with
  | none =>
    rw [hg] at hm
    cases hm
  | some g =>
    rw [hg] at hm
    have hname : ∀ p ∈ [g, L.ckptDownProjName], ProjName p ∧ Clear L.layerName p := by
      intro p hp
      have hproj : ProjName p := by
        rw [List.mem_pair] at hp
        obtain rfl | rfl := hp
        · refine h.proj .w1 p ?_
          show p ∈ L.gateUpName.toList ++ _
          rw [hg]
          exact List.mem_cons_self
        · exact h.proj .w2 _ List.mem_cons_self
      exact ⟨hproj, clear_of_dotless hproj.dotless (h.noFused g hg p hp)⟩
    have hgate := hname g List.mem_cons_self
    have hdown := hname _ (List.mem_cons_of_mem _ List.mem_cons_self)
    simp only [List.mem_cons, List.not_mem_nil, or_false] at hm
    obtain rfl | rfl | rfl := hm
    · exact ⟨_, hgate.1, hgate.2, rfl, rfl⟩
    · exact ⟨_, hgate.1, hgate.2, rfl, rfl⟩
    · exact ⟨_, hdown.1, hdown.2, rfl, rfl⟩

/-- The names of the projections are told apart. -/
theorem ExpertNames.down_notMem (h : ExpertNames L) :
    L.ckptDownProjName ∉ [L.ckptGateProjName, L.ckptUpProjName] := by
  intro hmem
  rw [List.mem_pair] at hmem
  have hne : ∀ s, s ≠ .w2 → L.ckptDownProjName ≠ L.ckptProjName s := by
    intro s hs heq
    exact hs (h.inj .w2 s (by rw [← heq]; exact List.mem_cons_self))
  cases hmem with
  | inl hgate => exact hne .w1 (by decide) hgate
  | inr hup => exact hne .w3 (by decide) hup

/-- What the mapping consists of. -/
theorem mem_getExpertMapping (h : ExpertNames L) :
    m ∈ L.getExpertMapping ↔ m ∈ L.allExpertsEntries ∨ L.PerExpert m := by
  rw [getExpertMapping_eq h.down_notMem, List.append_assoc, List.mem_append, List.mem_append]
  refine or_congr_right ?_
  simp only [List.mem_flatMap, List.mem_range, List.mem_map, RoutedExperts.PerExpert]
  constructor
  · rintro (⟨e, he, g, hg, s, hs, rfl⟩ | ⟨e, he, s, -, rfl⟩)
    · refine ⟨he, g, ?_, rfl⟩
      show g ∈ L.projNames s
      cases s with
      | w1 | w3 => exact List.mem_append_left _ hg
      | w2 => exact absurd hs (by decide)
    · refine ⟨he, L.ckptProjName s, ?_, rfl⟩
      show L.ckptProjName s ∈ L.projNames s
      cases s with
      | w1 | w3 => exact List.mem_append_right _ List.mem_cons_self
      | w2 => exact List.mem_cons_self
  · rintro ⟨he, proj, hproj, hm⟩
    cases hs : m.shardId with
    | w1 | w3 =>
      rw [hs] at hproj hm
      obtain hg | hp := List.mem_append.1 hproj
      · exact .inl ⟨_, he, proj, hg, _, by decide, hm.symm⟩
      · rw [List.mem_singleton] at hp
        exact .inr ⟨_, he, _, by decide, hp ▸ hm.symm⟩
    | w2 =>
      rw [hs] at hproj hm
      rw [List.mem_singleton.1 hproj] at hm
      exact .inr ⟨_, he, _, by decide, hm.symm⟩

end entries

/-! ## names of experts -/

section expertName

variable {L : RoutedExperts α} {m : MappingEntry} {l : Nat} {proj suffix : Str}

theorem expertName_append (l : Nat) (proj v : Str) :
    expertName l proj [] ++ v = expertName l proj v := by
  simp only [expertName, List.append_assoc, List.cons_append, List.nil_append]

theorem dot_notMem_ofNat (l : Nat) : '.' ∉ Str.ofNat l := by
  intro h
  cases Str.isDigit_of_mem_ofNat h

/-- No name of an expert looks like the end of a layer's name. -/
theorem not_infix_expertName (hproj : ProjName proj) (hsuffix : ¬ underExperts [] <:+: suffix)
    (r : Str) : ¬ underExperts r <:+: expertName l proj suffix := by
  have hempty : ¬ underExperts [] <:+: expertName l proj suffix := by
    rintro ⟨u, v, huv⟩
    rw [underExperts, ← List.append_assoc] at huv
    obtain ⟨hx, -⟩ | ⟨t, hy, -⟩ | ⟨t, hx, -⟩ := Str.occurrence_cases experts_dotless huv.symm
    · have : 's' ∈ Str.ofNat l := by
        rw [hx]
        exact List.mem_append_right u (by decide)
      cases Str.isDigit_of_mem_ofNat this
    · obtain ⟨hx, -⟩ | ⟨s, hy, -⟩ | ⟨s, hx, -⟩ := Str.occurrence_cases experts_dotless hy
      · exact hproj.not_experts ⟨t, hx.symm⟩
      · refine hsuffix ⟨s, v, ?_⟩
        rw [hy, underExperts]
        simp only [List.append_assoc]
      · refine hproj.dotless ?_
        rw [hx]
        simp
    · refine dot_notMem_ofNat l ?_
      rw [hx]
      simp
  refine fun h => hempty (List.IsInfix.trans ⟨[], r, ?_⟩ h)
  simp only [underExperts, List.nil_append, List.append_assoc, List.cons_append]

/-- Which names of experts an entry's text starts. -/
theorem expertName_start {l' : Nat} {proj' : Str} (hproj' : '.' ∉ proj') (hproj : '.' ∉ proj) :
    expertName l' proj' [] <+: expertName l proj suffix ↔ l' = l ∧ proj' = proj := by
  rw [expertName, expertName, Str.prefix_append_cons (dot_notMem_ofNat l') (dot_notMem_ofNat l),
    Str.prefix_append_cons hproj' hproj, Str.ofNat_injective.eq_iff]
  simp only [and_true, List.nil_prefix]

/-- An entry for one expert is found in the names of its expert and projection. -/
theorem perExpert_infix_iff (h : ExpertNames L) {l' : Nat} {proj' : Str} (hproj' : ProjName proj')
    (hproj : ProjName proj) (hsuffix : ¬ underExperts [] <:+: suffix) :
    underExperts (expertName l' proj' []) <:+: L.qualName (expertName l proj suffix) ↔
      l' = l ∧ proj' = proj := by
  rw [infix_qualName h (clear_expertName h l' proj' []),
    or_iff_left (not_infix_expertName hproj hsuffix _),
    expertName_start hproj'.dotless hproj.dotless]

/-- An entry for all experts is not found in the name of one. -/
theorem not_infix_of_allExperts (h : ExpertNames L) (hm : m ∈ L.allExpertsEntries)
    (hproj : ProjName proj) (hsuffix : ¬ underExperts [] <:+: suffix) :
    ¬ m.weightName <:+: L.qualName (expertName l proj suffix) := by
  obtain ⟨p, hp, hclear, hweight, -⟩ := allExperts_texts h hm
  rw [hweight, infix_qualName h hclear, or_iff_left (not_infix_expertName hproj hsuffix _),
    expertName, Str.prefix_append_cons_of_notMem hp.dotless]
  intro hpre
  obtain ⟨c, hc, hdigit⟩ := hp.start
  have := Str.isDigit_of_mem_ofNat (hpre.subset (List.mem_of_mem_head? hc))
  rw [hdigit] at this
  cases this

/-- **The entries that the name of a tensor of an expert reaches.** -/
theorem entry_infix_iff (h : ExpertNames L) (hm : m ∈ L.getExpertMapping) (hproj : ProjName proj)
    (hsuffix : ¬ underExperts [] <:+: suffix) :
    m.weightName <:+: L.qualName (expertName l proj suffix) ↔
      ∃ e < L.numPhysicalExperts, ∃ s, L.physicalToLogical e = l ∧ proj ∈ L.projNames s ∧
        m = L.entry proj e s := by
  constructor
  · intro hinfix
    obtain hall | ⟨he, proj', hproj', hentry⟩ := (mem_getExpertMapping h).1 hm
    · exact absurd hinfix (not_infix_of_allExperts h hall hproj hsuffix)
    · rw [hentry, entry_weightName h,
        perExpert_infix_iff h (h.proj _ _ hproj') hproj hsuffix] at hinfix
      obtain ⟨hl, rfl⟩ := hinfix
      exact ⟨_, he, _, hl, hproj', hentry⟩
  · rintro ⟨e, -, s, hl, -, rfl⟩
    rw [entry_weightName h, perExpert_infix_iff h hproj hproj hsuffix]
    exact ⟨hl, rfl⟩

/-- The entries of the physical experts that replicate a logical one. -/
def RoutedExperts.replicaEntries (L : RoutedExperts α) (l : Nat) (s : Shard) : List MappingEntry :=
  ((List.range L.numPhysicalExperts).filter fun e => L.physicalToLogical e = l).map fun e =>
    L.entry (L.ckptProjName s) e s

theorem ckptProjName_mem (L : RoutedExperts α) (s : Shard) : L.ckptProjName s ∈ L.projNames s := by
  cases s with
  | w1 | w3 => exact List.mem_append_right _ List.mem_cons_self
  | w2 => exact List.mem_cons_self

theorem entry_infix_ckptProjName (h : ExpertNames L) {e : Nat} {s s' : Shard} {proj' : Str}
    (hproj' : proj' ∈ L.projNames s') (hsuffix : ¬ underExperts [] <:+: suffix) :
    (L.entry proj' e s').weightName <:+: L.qualName (expertName l (L.ckptProjName s) suffix) ↔
      L.physicalToLogical e = l ∧ proj' = L.ckptProjName s ∧ s' = s := by
  rw [entry_weightName h, perExpert_infix_iff h (h.proj s' proj' hproj')
    (h.proj s _ (ckptProjName_mem L s)) hsuffix]
  refine and_congr_right fun _ => ⟨fun heq => ⟨heq, ?_⟩, And.left⟩
  exact (h.inj s' s (heq ▸ hproj')).symm

/-- Of the three entries of an expert at most the one for the shard occurs. -/
theorem filter_expertEntries (h : ExpertNames L) (e : Nat) (s : Shard)
    (hsuffix : ¬ underExperts [] <:+: suffix) :
    (([Shard.w1, .w2, .w3].map fun s' => L.entry (L.ckptProjName s') e s').filter fun m =>
        m.weightName <:+: L.qualName (expertName l (L.ckptProjName s) suffix)) =
      if L.physicalToLogical e = l then [L.entry (L.ckptProjName s) e s] else [] := by
  have hone : ∀ s', (L.entry (L.ckptProjName s') e s').weightName <:+:
      L.qualName (expertName l (L.ckptProjName s) suffix) ↔ L.physicalToLogical e = l ∧ s' = s := by
    intro s'
    rw [entry_infix_ckptProjName h (ckptProjName_mem L s') hsuffix]
    exact and_congr_right fun _ => ⟨And.right, fun heq => ⟨by rw [heq], heq⟩⟩
  by_cases hl : L.physicalToLogical e = l
  · cases s <;> simp [hone, hl]
  · simp [hone, hl]

theorem flatMap_ite {β γ : Type} (p : β → Prop) [DecidablePred p] (f : β → γ) (xs : List β) :
    (xs.flatMap fun x => if p x then [f x] else []) = (xs.filter fun x => p x).map f := by
  induction xs with
  | nil => rfl
  | cons x xs ih =>
    rw [List.flatMap_cons, ih]
    by_cases hx : p x <;> simp [hx]

/-- **Under a projection's own name exactly the replicas' entries occur, in order.** -/
theorem filter_getExpertMapping (h : ExpertNames L) (s : Shard)
    (hsuffix : ¬ underExperts [] <:+: suffix) :
    (L.getExpertMapping.filter fun m =>
        m.weightName <:+: L.qualName (expertName l (L.ckptProjName s) suffix)) =
      L.replicaEntries l s := by
  rw [getExpertMapping_eq h.down_notMem, List.append_assoc, List.filter_append, List.filter_append,
    List.filter_eq_nil_iff.2, List.filter_eq_nil_iff.2, List.nil_append, List.nil_append,
    List.filter_flatMap]
  · simp only [filter_expertEntries h _ s hsuffix]
    exact flatMap_ite _ _ _
  · intro m hm
    obtain ⟨e, -, hm⟩ := List.mem_flatMap.1 hm
    obtain ⟨g, hg, hm⟩ := List.mem_flatMap.1 hm
    obtain ⟨s', hs', rfl⟩ := List.mem_map.1 hm
    have hmem : ∀ s' ≠ Shard.w2, g ∈ L.projNames s' := by
      intro s' hs'
      cases s' with
      | w1 | w3 => exact List.mem_append_left _ hg
      | w2 => exact absurd rfl hs'
    have hs'₂ : s' ≠ .w2 := by
      rintro rfl
      exact absurd hs' (by decide)
    rw [decide_eq_true_eq, entry_infix_ckptProjName h (hmem s' hs'₂) hsuffix]
    rintro ⟨-, rfl, -⟩
    have hw1 : s = .w1 := h.inj .w1 s (hmem .w1 (by decide))
    have hw3 : s = .w3 := h.inj .w3 s (hmem .w3 (by decide))
    rw [hw1] at hw3
    cases hw3
  · intro m hm
    rw [decide_eq_true_eq]
    exact not_infix_of_allExperts h hm (h.proj s _ (ckptProjName_mem L s)) hsuffix

/-- What a name is rewritten into. -/
theorem replace_entry (h : ExpertNames L) (e : Nat) (s : Shard)
    (hsuffix : ¬ underExperts [] <:+: suffix) :
    Str.replace (L.qualName (expertName (L.physicalToLogical e) proj suffix))
      (L.entry proj e s).weightName (L.entry proj e s).paramName =
        L.qualName (s.paramPrefix ++ suffix) := by
  rw [entry_weightName h, entry_paramName, ← expertName_append,
    replace_qualName h (clear_expertName h _ proj []), Str.replace_of_not_infix]
  refine fun hinfix => hsuffix
    (List.IsInfix.trans ⟨[], expertName (L.physicalToLogical e) proj [], ?_⟩ hinfix)
  simp only [underExperts, List.nil_append, List.append_assoc, List.cons_append]

theorem resolve_entry (h : ExpertNames L) (e : Nat) (s : Shard)
    (hsuffix : ¬ underExperts [] <:+: suffix) :
    L.resolve (L.qualName (expertName (L.physicalToLogical e) proj suffix)) (L.entry proj e s) =
      L.resolveName (L.qualName (expertName (L.physicalToLogical e) proj suffix))
        (L.qualName (s.paramPrefix ++ suffix)) := by
  rw [RoutedExperts.resolve, replace_entry h e s hsuffix]

/-- Only names of experts are rewritten into parameters without dots, other than by the entries for
all experts. -/
theorem eq_expertName_of_dotless (h : ExpertNames L) {e : Nat} {s : Shard} {name : Str}
    (hmatch : (L.entry proj e s).weightName <:+: L.qualName name)
    (hdot : '.' ∉ L.paramNameOf (Str.replace (L.qualName name) (L.entry proj e s).weightName
      (L.entry proj e s).paramName)) :
    ∃ suffix, name = expertName (L.physicalToLogical e) proj suffix ∧
      L.paramNameOf (Str.replace (L.qualName name) (L.entry proj e s).weightName
        (L.entry proj e s).paramName) = s.paramPrefix ++ suffix := by
  rw [entry_weightName h, entry_paramName] at *
  obtain ⟨v, hv, hq⟩ := eq_append_of_dotless h (clear_expertName h _ proj []) hmatch hdot
  exact ⟨v, by rw [hv, expertName_append], hq⟩

/-- An entry for all experts rewrites a name into a parameter that starts with the weight's. -/
theorem weight_prefix_of_allExperts (h : ExpertNames L) (hm : m ∈ L.allExpertsEntries) {name : Str}
    (hmatch : m.weightName <:+: L.qualName name)
    (hdot : '.' ∉ L.paramNameOf (Str.replace (L.qualName name) m.weightName m.paramName)) :
    m.shardId.paramPrefix ++ "weight".toList <+:
      L.paramNameOf (Str.replace (L.qualName name) m.weightName m.paramName) := by
  obtain ⟨proj, -, hclear, hweight, hparam⟩ := allExperts_texts h hm
  rw [hweight] at hmatch
  rw [hweight, hparam] at hdot ⊢
  obtain ⟨v, -, hq⟩ := eq_append_of_dotless h hclear hmatch hdot
  exact ⟨v, hq.symm⟩

/-- A name that two shards can have is the fused one. -/
theorem gateUpName_of_mem (h : ExpertNames L) {s s' : Shard} (hs : proj ∈ L.projNames s)
    (hs' : proj ∈ L.projNames s') (hne : s' ≠ s) :
    L.gateUpName = some proj ∧ s ≠ .w2 ∧ s' ≠ .w2 := by
  have hckpt : ∀ {s s' : Shard}, proj ∈ L.projNames s → proj ∈ L.projNames s' → s' ≠ s →
      proj ≠ L.ckptProjName s := by
    rintro s s' - hs' hne rfl
    exact hne (h.inj s' s hs').symm
  have hw2 : ∀ {s s' : Shard}, proj ∈ L.projNames s → proj ∈ L.projNames s' → s' ≠ s →
      s ≠ .w2 := by
    rintro s s' hs hs' hne rfl
    exact hckpt hs hs' hne (List.mem_singleton.1 hs)
  refine ⟨?_, hw2 hs hs' hne, hw2 hs' hs hne.symm⟩
  have hmem : proj ∈ L.gateUpName.toList ++ [L.ckptProjName s] := by
    cases s with
    | w1 | w3 => exact hs
    | w2 => exact absurd rfl (hw2 hs hs' hne)
  cases List.mem_append.1 hmem with
  | inl hg => exact Option.mem_toList.1 hg
  | inr hp => exact absurd (List.mem_singleton.1 hp) (hckpt hs hs' hne)

/-- Gate and up are reached together under the fused name. -/
theorem gateUp_entries_reached (h : ExpertNames L) (hg : L.gateUpName = some proj)
    (hsuffix : ¬ underExperts [] <:+: suffix) {e : Nat} (he : e < L.numPhysicalExperts)
    (isFused : Bool) :
    ∃ e' < L.numPhysicalExperts, L.physicalToLogical e' = L.physicalToLogical e ∧ ∀ s ≠ .w2,
      L.entry proj e' s ∈
        reached (L.qualName (expertName (L.physicalToLogical e) proj suffix)) isFused false
          L.getExpertMapping := by
  have hname : ProjName proj := h.proj .w1 proj (List.mem_append_left _ (Option.mem_toList.2 hg))
  obtain ⟨e', hfind⟩ := Option.isSome_iff_exists.1
    (List.find?_isSome.2 ⟨e, List.mem_range.2 he, decide_eq_true rfl⟩ :
      ((List.range L.numPhysicalExperts).find? fun a =>
        decide (L.physicalToLogical a = L.physicalToLogical e)).isSome)
  obtain ⟨hl, as, bs, hrange, has⟩ := List.find?_eq_some_iff_append.1 hfind
  have hmatch : ∀ a s, (L.entry proj a s).weightName <:+:
      L.qualName (expertName (L.physicalToLogical e) proj suffix) ↔
        L.physicalToLogical a = L.physicalToLogical e := by
    intro a s
    rw [entry_weightName h, perExpert_infix_iff h hname hname hsuffix, and_iff_left rfl]
  refine ⟨e', ?_, of_decide_eq_true hl, ?_⟩
  · rw [← List.mem_range, hrange]
    exact List.mem_append_right _ List.mem_cons_self
  · intro s hs
    rw [getExpertMapping_eq h.down_notMem, hrange]
    simp only [hg, Option.toList_some, List.flatMap_cons, List.flatMap_nil, List.append_nil,
      List.flatMap_append, List.append_assoc]
    rw [reached_append fun m hm => not_infix_of_allExperts h hm hname hsuffix, reached_append ?_]
    · show _ ∈ reached _ isFused false (L.entry proj e' .w1 :: L.entry proj e' .w3 :: _)
      rw [reached, if_pos ((hmatch e' .w1).2 (of_decide_eq_true hl)), reached,
        if_pos ((hmatch e' .w3).2 (of_decide_eq_true hl))]
      cases s with
      | w1 => exact List.mem_cons_self
      | w2 => exact absurd rfl hs
      | w3 => exact List.mem_cons_of_mem _ List.mem_cons_self
    · intro m hm
      obtain ⟨a, ha, hm⟩ := List.mem_flatMap.1 hm
      obtain ⟨s', -, rfl⟩ := List.mem_map.1 hm
      rw [hmatch]
      simpa using has a ha

/-- Of the replicas of an expert at least the first is reached, for each shard the name is for. -/
theorem exists_entry_reached (h : ExpertNames L) {s : Shard} (hproj : proj ∈ L.projNames s)
    (hsuffix : ¬ underExperts [] <:+: suffix) {e : Nat} (he : e < L.numPhysicalExperts)
    (isFused : Bool) :
    ∃ e' < L.numPhysicalExperts, L.physicalToLogical e' = L.physicalToLogical e ∧
      L.entry proj e' s ∈
        reached (L.qualName (expertName (L.physicalToLogical e) proj suffix)) isFused false
          L.getExpertMapping := by
  have hname := h.proj s proj hproj
  have hmem : L.entry proj e s ∈ L.getExpertMapping :=
    (mem_getExpertMapping h).2 (.inr ⟨he, proj, hproj, rfl⟩)
  obtain ⟨m, hm⟩ := exists_mem_reached isFused hmem
    ((entry_infix_iff h hmem hname hsuffix).2 ⟨e, he, s, rfl, hproj, rfl⟩)
  obtain ⟨hmap, hmatch⟩ := of_mem_reached hm
  obtain ⟨e', he', s', hl, hproj', rfl⟩ := (entry_infix_iff h hmap hname hsuffix).1 hmatch
  by_cases hs : s' = s
  · exact ⟨e', he', hl, hs ▸ hm⟩
  · obtain ⟨hg, hs, -⟩ := gateUpName_of_mem h hproj hproj' hs
    obtain ⟨e', he', hl', hreached⟩ := gateUp_entries_reached h hg hsuffix he isFused
    exact ⟨e', he', hl', hreached s hs⟩

/-- In the qualified name of an expert's tensor only the projection stands between two dots like a
fused name, unless the layer's name has such a part. -/
theorem enclosed_infix_qualName (h : ExpertNames L)
    (hclean : ∀ w ∈ ["gate_up_proj".toList, "w13".toList], ¬ '.' :: (w ++ ['.']) <:+: L.layerName)
    {w : Str} (hw : w ∈ ["gate_up_proj".toList, "w13".toList]) (l : Nat) (hproj : '.' ∉ proj)
    (hsuffix : '.' ∉ suffix) :
    '.' :: (w ++ ['.']) <:+: L.qualName (expertName l proj suffix) ↔ w = proj := by
  have hword : '.' ∉ w ∧ w.any (fun c => !c.isDigit) = true ∧ ¬ experts <:+ '.' :: w ∧
      ¬ '.' :: w <:+ experts := by
    rw [List.mem_pair] at hw
    obtain rfl | rfl := hw <;> decide
  obtain ⟨hdot, hany, hends, hends'⟩ := hword
  obtain ⟨d, hd, hdigit⟩ : ∃ d ∈ w, d.isDigit = false := by simpa using hany
  have hplain : ∀ {a : Str}, '.' ∉ a → ¬ '.' :: (w ++ ['.']) <:+: a ∧ ¬ '.' :: w <:+ a := by
    intro a ha
    exact ⟨fun hsub => ha (hsub.subset List.mem_cons_self),
      fun hsuffix => ha (hsuffix.subset List.mem_cons_self)⟩
  have hlayer : ¬ '.' :: w <:+ L.layerName := by
    intro hsuffix
    cases List.suffix_or_suffix_of_suffix hsuffix h.layerName with
    | inl hsub => exact hends' hsub
    | inr hsub => exact hends hsub
  have hnumber : ¬ w ++ ['.'] <+: Str.ofNat l ++ '.' :: (proj ++ '.' :: suffix) := by
    intro hpre
    obtain ⟨rfl, -⟩ := (Str.prefix_append_cons hdot (dot_notMem_ofNat l)).1 hpre
    rw [Str.isDigit_of_mem_ofNat hd] at hdigit
    cases hdigit
  have hend : ¬ w ++ ['.'] <+: suffix := fun hpre =>
    hsuffix (hpre.subset (List.mem_append_right _ List.mem_cons_self))
  have hsmall := hplain hsuffix
  have hdigits := hplain (dot_notMem_ofNat l)
  have hname := hplain hproj
  rw [RoutedExperts.qualName, expertName, Str.enclosed_infix_append_cons hdot,
    Str.enclosed_infix_append_cons hdot, Str.enclosed_infix_append_cons hdot]
  have hstart : w ++ ['.'] <+: proj ++ '.' :: suffix ↔ w = proj :=
    (Str.prefix_append_cons hdot hproj).trans (and_iff_left List.nil_prefix)
  simp only [hclean w hw, hlayer, hnumber, hdigits.1, hdigits.2, hname.1, hname.2, hend, hsmall.1,
    hstart, false_or, or_false]

end expertName

/-! ## routing -/

/-- **The name of an expert's tensor reaches the replicas of its expert, under its shard, and is
rewritten into the shard's parameter.** -/
theorem expertName_routed {L : RoutedExperts α} (hlora : L.loraBaseLayerPrefix = [])
    (hstd : StandardNames L.ckptGateProjName L.ckptDownProjName L.ckptUpProjName)
    (hlayer : experts <:+ L.layerName)
    (hnumber : ∀ c : Char, c.isDigit = true → ¬ experts ++ ['.', c] <:+: L.layerName)
    (hfused : ∀ g, L.gateUpName = some g → ∀ p ∈ [g, L.ckptDownProjName],
      ¬ experts ++ '.' :: p <:+: L.layerName)
    (l : Nat) (s : Shard) {suffix : Str} (hsuffix : ¬ experts ++ ['.'] <:+: suffix) :
    let qualName := L.qualName (expertName l (L.ckptProjName s) suffix)
    (L.getExpertMapping.filter fun m => m.weightName <:+: qualName) = L.replicaEntries l s ∧
      ∀ m ∈ L.replicaEntries l s,
        L.paramNameOf (Str.replace qualName m.weightName m.paramName) =
          s.paramPrefix ++ suffix := by
  have h := expertNames_of_standard hlora hstd hlayer hnumber hfused
  refine ⟨filter_getExpertMapping h s hsuffix, ?_⟩
  intro m hm
  obtain ⟨e, he, rfl⟩ := List.mem_map.1 hm
  obtain rfl : L.physicalToLogical e = l := of_decide_eq_true (List.mem_filter.1 he).2
  rw [replace_entry h e s hsuffix, paramNameOf_qualName]

/-- A scale of expert 1, of ten experts and two replicas. -/
theorem expertName_routed_replicated :
    let L : RoutedExperts Nat := { smallExperts with
      moeConfig := ⟨12, 10, 6, 2, 1, true, by decide⟩
      physicalToLogical := fun e => if e < 10 then e else e - 10 }
    let qualName := L.qualName "1.up_proj.scales".toList
    (L.getExpertMapping.filter fun m => m.weightName <:+: qualName) =
        [L.entry "up_proj".toList 1 .w3, L.entry "up_proj".toList 11 .w3] ∧
      ∀ m ∈ [L.entry "up_proj".toList 1 .w3, L.entry "up_proj".toList 11 .w3],
        L.paramNameOf (Str.replace qualName m.weightName m.paramName) = "w13_scales".toList := by
  intro L
  have hdot : ∀ t : Str, ¬ experts ++ '.' :: t <:+: L.layerName := by
    intro t ht
    rw [List.append_cons] at ht
    have hfree : ¬ experts ++ ['.'] <:+: L.layerName := by decide
    exact hfree ((List.prefix_append _ t).isInfix.trans ht)
  exact expertName_routed (L := L) rfl (.inl ⟨rfl, rfl, rfl⟩) (by decide) (fun c _ => hdot [c])
    (fun _ _ p _ => hdot p) 1 .w3 (show ¬ experts ++ ['.'] <:+: "scales".toList by decide)

/-- Inside a layer that is itself named like a projection of experts, the fused entry of that
projection takes every name. -/
theorem fused_entry_takes_nested_names :
    let L : RoutedExperts Nat := { smallExperts with
      layerName := "model.experts.down_proj.experts".toList }
    L.loraBaseLayerPrefix = [] ∧
      StandardNames L.ckptGateProjName L.ckptDownProjName L.ckptUpProjName ∧
      experts <:+ L.layerName ∧
      (∀ c : Char, c.isDigit = true → ¬ experts ++ ['.', c] <:+: L.layerName) ∧
      ∃ m ∈ L.getExpertMapping, m.weightName <:+: L.qualName "0.gate_proj.qweight".toList ∧
        m ∉ L.replicaEntries 0 .w1 := by
  intro L
  refine ⟨rfl, .inl ⟨rfl, rfl, rfl⟩, by decide, ?_, ?_⟩
  · intro c hc
    have hdigits : (Str.digits.all fun c =>
        !decide (experts ++ ['.', c] <:+: L.layerName)) = true := by
      decide +kernel
    simpa using List.all_eq_true.1 hdigits c (Str.mem_digits hc)
  · refine ⟨⟨underExperts "w2_weight".toList, underExperts "down_proj".toList, 0, .w2⟩, ?_, ?_, ?_⟩
    all_goals decide +kernel

end FlashNext
