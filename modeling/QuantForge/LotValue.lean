import QuantForge.MarginBook

/-!
# What the open lots cost

The cost of the open lots of a side and the value of all fills, how closing a lot changes them, and lots whose margin
is not lost (`MarginBacked`).
-/

namespace QuantForge

/-- The value of the fills on a side. -/
def tradeValue (d : Side) (fills : List Fill) : ℚ :=
  ((fills.filter fun f => f.isOn d).map fun f => (f.price : ℚ) * f.quantity).sum

/-- The commissions of the fills. -/
def commissions (hp : HostParams) (fills : List Fill) : ℚ :=
  (fills.map fun f => (Exchange.calculateCommision f hp : ℚ)).sum

theorem tradeValue_append_same {f : Fill} {d : Side} (hd : f.isOn d = true) (fills : List Fill) :
    tradeValue d (fills ++ [f]) = tradeValue d fills + f.price * f.quantity := by
  simp [tradeValue, hd]

theorem tradeValue_append_opposite {f : Fill} {d : Side} (hd : f.isOn d = true) (fills : List Fill) :
    tradeValue d.opposite (fills ++ [f]) = tradeValue d.opposite fills := by
  simp [tradeValue, Fill.isOn_opposite hd]

theorem commissions_append (hp : HostParams) (f : Fill) (fills : List Fill) :
    commissions hp (fills ++ [f]) = commissions hp fills + Exchange.calculateCommision f hp := by
  simp [commissions]

namespace State

/-! ### What the open lots cost -/

/-- The price of the fill with a uuid. -/
def priceOf (s : State) (u : Uuid) : Money := ((s.fills.find? fun f => f.uuid = u).map Fill.price).getD 0

/-- What the active lots of a side cost. -/
def openValue (s : State) (d : Side) : ℚ := (s.active d).sumBy fun u a => (s.priceOf u : ℚ) * a

theorem priceOf_of_mem {s : State} {f : Fill} (hnd : (s.fills.map Fill.uuid).Nodup) (hf : f ∈ s.fills) :
    s.priceOf f.uuid = f.price := by
  unfold priceOf
  rcases hg : s.fills.find? fun g => g.uuid = f.uuid with _ | g
  · rw [List.find?_eq_none] at hg
    simpa using hg f hf
  · have hu : g.uuid = f.uuid := by simpa using List.find?_some hg
    have : g = f := List.inj_on_of_nodup_map hnd (List.mem_of_find?_eq_some hg) hf hu
    simp [hg, this]

/-- A new fill leaves the price of the others alone. -/
theorem priceOf_append {s s' : State} {f : Fill} (h : s'.fills = s.fills ++ [f]) (u : Uuid)
    (hu : u ∈ s.fills.map Fill.uuid) : s'.priceOf u = s.priceOf u := by
  unfold priceOf
  rw [h, List.find?_append]
  rcases hg : s.fills.find? fun g => g.uuid = u with _ | g
  · rw [List.find?_eq_none] at hg
    obtain ⟨g, hg', rfl⟩ := List.mem_map.1 hu
    simpa using hg g hg'
  · simp [hg]

section Close

variable {s : State} {side : Side}

theorem closeLot_openValue {u : Uuid} {a c : ℚ} (hu : (s.active side).lookup u = some a) (ha : IsWhole a)
    (hc : IsWhole c) (hle : c ≤ a) :
    (s.closeLot side u a c).openValue side = s.openValue side - s.priceOf u * c := by
  have hprice : ∀ v, (s.closeLot side u a c).priceOf v = s.priceOf v := by
    intro v
    unfold priceOf
    rw [(closeLot_frame ..).fills]
  have hmap : (s.closeLot side u a c).active side =
      if a - c ≤ Constants.epsilon then (s.active side).erase u else (s.active side).insert u (a - c) :=
    closeLot_active_eq s side u a c
  unfold openValue
  simp only [hprice]
  rw [hmap, Map.sumBy_of_lookup (m := s.active side) _ hu]
  split
  · rename_i h
    have : a = c := by linarith [(ha.sub hc).nonpos_of_le_epsilon h]
    rw [this]
    ring
  · rw [Map.sumBy_insert]
    ring

variable (s side) in
theorem foldl_closeLot_openValue {t : List (Fill × ℚ × ℚ)} (hnd : (t.map fun t => t.1.uuid).Nodup)
    (hmem : ∀ p ∈ t, (s.active side).lookup p.1.uuid = some p.2.1)
    (hwhole : ∀ p ∈ t, IsWhole p.2.1 ∧ IsWhole p.2.2 ∧ p.2.2 ≤ p.2.1) :
    (t.foldl (fun s t => s.closeLot side t.1.uuid t.2.1 t.2.2) s).openValue side =
      s.openValue side - (t.map fun p => (s.priceOf p.1.uuid : ℚ) * p.2.2).sum := by
  induction t generalizing s with
  | nil => simp
  | cons p t ih =>
    rw [List.map_cons, List.nodup_cons] at hnd
    have hprice : ∀ v, (s.closeLot side p.1.uuid p.2.1 p.2.2).priceOf v = s.priceOf v := by
      intro v
      unfold priceOf
      rw [(closeLot_frame ..).fills]
    have hrest : ∀ q ∈ t, ((s.closeLot side p.1.uuid p.2.1 p.2.2).active side).lookup q.1.uuid = some q.2.1 := by
      intro q hq
      rw [closeLot_active, if_neg]
      · exact hmem q (by simp [hq])
      · exact fun he => hnd.1 (he ▸ List.mem_map_of_mem (f := fun t : Fill × ℚ × ℚ => t.1.uuid) hq)
    obtain ⟨h1, h2, h3⟩ := hwhole p (by simp)
    rw [List.foldl_cons, ih _ hnd.2 hrest fun q hq => hwhole q (by simp [hq]),
      closeLot_openValue (hmem p (by simp)) h1 h2 h3]
    simp only [hprice, List.map_cons, List.sum_cons]
    ring

/-- The profit on whole lots: what they cost against what they are closed for. -/
theorem cast_realizedPnl {d : Side} (price : Money) {t : List (Fill × ℚ × ℚ)} (hwhole : ∀ p ∈ t, IsWhole p.2.2) :
    (realizedPnl d.opposite price t : ℚ) =
      d.sign * ((t.map fun p => (p.1.price : ℚ) * p.2.2).sum - price * (t.map fun p => p.2.2).sum) := by
  induction t with
  | nil => simp [realizedPnl]
  | cons p t ih =>
    have ih' := ih fun q hq => hwhole q (by simp [hq])
    have hp := hwhole p (by simp)
    unfold realizedPnl at ih' ⊢
    simp only [List.map_cons, List.sum_cons, Int.cast_add, ih']
    cases d <;> simp only [Side.opposite, Side.sign] <;> rw [Money.cast_mul_of_isWhole _ hp] <;> push_cast <;> ring

end Close

/-! ### The margin of the lots -/

/-- The running total is the sum of the margins, and every margin belongs to an active lot. -/
structure MarginBacked (s : State) : Prop where
  total : s.marginInUse = s.recalculateMarginInUse
  keys : ∀ u, (s.activeMarginForFills.lookup u).isSome → ∃ d, ((s.active d).lookup u).isSome

/-- Closing `toClose` of a lot of `available` shares with margin `m` loses no margin: the lot is closed in full,
nothing of the margin is left, or more than `EPSILON` dollars of it. -/
def LosesNoMargin (available toClose : ℚ) (m : Money) : Prop :=
  toClose = available ∨ Money.mul m (toClose / available) = m ∨
    Constants.epsilon < Money.toDollars (m - Money.mul m (toClose / available))

instance (available toClose : ℚ) (m : Money) : Decidable (LosesNoMargin available toClose m) :=
  inferInstanceAs (Decidable (_ ∨ _))

section CloseMargin

variable {s : State} {side : Side} {u : Uuid} {a c : ℚ}

private theorem mul_full (hc0 : 0 < c) (he : c = a) (m : Money) : Money.mul m (c / a) = m := by
  rw [← he, div_self hc0.ne', Money.mul_one]

/-- What the closed lot gives back is what its entry loses: an erased entry had nothing left. -/
private theorem closeLot_total (h : s.MarginBacked) (hc0 : 0 < c)
    (hm : ∀ m ∈ s.activeMarginForFills.lookup u, LosesNoMargin a c m) :
    (s.closeLot side u a c).marginInUse = (s.closeLot side u a c).recalculateMarginInUse := by
  have htotal := h.total
  unfold recalculateMarginInUse at htotal
  rw [closeLot_marginInUse, recalculateMarginInUse, closeLot_margin]
  rcases hl : s.activeMarginForFills.lookup u with _ | m
  · rw [sub_zero]
    exact htotal
  · have hsum := Map.sumBy_of_lookup (fun _ m => m) hl
    by_cases hafter : Money.toDollars (m - Money.mul m (c / a)) ≤ Constants.epsilon
    · have hall : Money.mul m (c / a) = m := by
        rcases hm m hl with he | he | he
        · exact mul_full hc0 he m
        · exact he
        · exact absurd hafter (not_le.2 he)
      simp only [marginAfter, if_pos hafter]
      rw [hall, htotal, hsum]
      ring
    · simp only [marginAfter, if_neg hafter, Map.sumBy_insert]
      rw [htotal, hsum]
      ring

/-- A lot that keeps margin keeps shares. -/
private theorem closeLot_keys (h : s.MarginBacked) (ha : IsWhole a) (hc : IsWhole c) (hc0 : 0 < c) (hle : c ≤ a)
    (v : Uuid) (hv : ((s.closeLot side u a c).activeMarginForFills.lookup v).isSome) :
    ∃ d, (((s.closeLot side u a c).active d).lookup v).isSome := by
  rw [closeLot_margin_lookup] at hv
  by_cases hvu : v = u
  · rw [if_pos hvu] at hv
    obtain ⟨m', hm'⟩ := Option.isSome_iff_exists.1 hv
    obtain ⟨m, hl, hafter⟩ := Option.bind_eq_some_iff.1 hm'
    have hlt : c ≠ a := by
      intro he
      rw [marginAfter, mul_full hc0 he, if_pos] at hafter
      · cases hafter
      · rw [sub_self, Money.toDollars_le_epsilon]; norm_num
    refine ⟨side, ?_⟩
    rw [closeLot_active, if_pos hvu, lotAfter, if_neg]
    · rfl
    · intro hle'
      exact hlt (le_antisymm hle (by linarith [(ha.sub hc).nonpos_of_le_epsilon hle']))
  · rw [if_neg hvu] at hv
    obtain ⟨d, hd⟩ := h.keys v hv
    refine ⟨d, ?_⟩
    rcases Side.eq_or_eq_opposite side d with rfl | rfl
    · rw [closeLot_active, if_neg hvu]; exact hd
    · rw [(closeLot_frame ..).opposite]; exact hd

theorem MarginBacked.closeLot (h : s.MarginBacked) (ha : IsWhole a) (hc : IsWhole c) (hc0 : 0 < c) (hle : c ≤ a)
    (hm : ∀ m ∈ s.activeMarginForFills.lookup u, LosesNoMargin a c m) : (s.closeLot side u a c).MarginBacked :=
  ⟨closeLot_total h hc0 hm, closeLot_keys h ha hc hc0 hle⟩

end CloseMargin

theorem MarginBacked.openLot {s s' : State} {d : Side} {u : Uuid} {q : ℚ} {m : Money} (h : s.MarginBacked)
    (hu : s.activeMarginForFills.lookup u = none) (hactive : s'.active d = (s.active d).insert u q)
    (hopp : s'.active d.opposite = s.active d.opposite)
    (hmargin : s'.activeMarginForFills = s.activeMarginForFills.insert u m)
    (htot : s'.marginInUse = s.marginInUse + m) : s'.MarginBacked := by
  refine ⟨?_, fun v hv => ?_⟩
  · rw [htot, recalculateMarginInUse, hmargin, Map.sumBy_insert_of_notMem _ hu, h.total]
    exact add_comm _ _
  · rw [hmargin, Map.lookup_insert_eq] at hv
    by_cases hvu : v = u
    · exact ⟨d, by rw [hactive, Map.lookup_insert_eq, if_pos hvu]; rfl⟩
    · rw [if_neg hvu] at hv
      obtain ⟨d', hd'⟩ := h.keys v hv
      refine ⟨d', ?_⟩
      rcases Side.eq_or_eq_opposite d d' with rfl | rfl
      · rw [hactive, Map.lookup_insert_eq, if_neg hvu]; exact hd'
      · rw [hopp]; exact hd'

end State

end QuantForge
