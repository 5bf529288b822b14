import QuantForge.ExitPasses

/-!
# The invariant of the exit passes

The exit orders, in the heaps and set aside, mirror the lots that were opened with an exit price (`Mirrored`): there
is one for each such lot, for the shares left of it, and it names the lot's fill.
-/

namespace QuantForge

namespace BackTestEngine

open Executor

variable {createUuid : ℕ → Uuid} {hp : HostParams} {feed : List FeedItem} {c : Config}

/-- The keys of an exit heap are the lots opened with an exit price. -/
def Mirrors (e : BackTestEngine) (kind : ExitKind) : Prop :=
  ((e.exitOrderBook.heap kind).toList.map ExitOrder.key).Perm (protectedLots e kind)

/-- The lot of an exit order is the oldest active lot of the symbol. -/
def OldestSource (s : State) (o : Order) : Prop :=
  (s.lots o.side.opposite o.symbol).head?.map (fun l => l.1.uuid) = o.sourceFillUuid

instance (s : State) (o : Order) : Decidable (OldestSource s o) := inferInstanceAs (Decidable (_ = _))

/-! ### The invariant -/

/-- The exit order belongs to a fill. -/
def Sourced (s : State) (x : ExitOrder) : Prop :=
  ∃ f ∈ s.fills, f.uuid = x.fillUuid ∧ f.symbol = x.symbol ∧ f.isOn x.lotSide = true

/-- The exit orders mirror the lots. -/
structure Mirrored (c : Config) : Prop where
  keys : ∀ kind, ((exitOrders c kind).map ExitOrder.key).Perm (protectedLots c.engine kind)
  sources : ∀ kind, ∀ x ∈ exitOrders c kind, Sourced c.engine.state x

/-- Nothing is filled without prices. -/
private theorem priced (hr : Reachable createUuid hp feed c) :
    ∀ f ∈ c.engine.state.fills, c.engine.state.hasSymbolPrices f.symbol = true := by
  refine reachable_account (J := fun e => ∀ f ∈ e.state.fills, e.state.hasSymbolPrices f.symbol = true) ?_ ?_ ?_ ?_ ?_
    executionsMeet_true hr
  · exact fun f hf => by cases hf
  · intro e e' hs h
    rw [hs.state]
    exact h
  · intro e item _ _ h f hf
    show (((e.state.currentBarPrices.insert item.bar.symbol item.bar.prices).lookup f.symbol).isSome) = true
    rw [Map.lookup_insert_eq]
    split
    · rfl
    · exact h f hf
  · intro e h
    obtain ⟨curve, peak, drawdown, hfin⟩ := finishBar_frame e hp
    rw [hfin]
    exact h
  · intro e o h _
    rcases execute_cases createUuid hp e o with he | ha
    · rw [he]; exact h
    · rw [execute_accepted ha]
      have hb := State.updateState_booking (s := e.state) (r := success o hp e.state (createUuid e.uuidCount)) rfl
      intro f hf
      change f ∈ (e.state.updateState _).fills at hf
      rw [hb.fills, List.mem_append, List.mem_singleton] at hf
      show ((e.state.updateState _).currentBarPrices.lookup f.symbol).isSome = true
      rw [hb.currentBarPrices]
      rcases hf with hf | rfl
      · exact h f hf
      · exact ha.prices

/-- The uuids of the protected lots are those of different fills. -/
theorem protectedLots_nodup {e : BackTestEngine} (hnd : (e.state.fills.map Fill.uuid).Nodup)
    (hfills : e.state.fills = e.executions.map fun x => x.result.fill) (kind : ExitKind) :
    ((protectedLots e kind).map Prod.fst).Nodup := by
  have hsub : ∀ xs : List Execution,
      ((protectedIn e.state kind xs).map Prod.fst).Sublist (xs.map fun x => x.result.fill.uuid) := by
    intro xs
    induction xs with
    | nil => exact List.Sublist.refl _
    | cons x xs ih =>
      unfold protectedIn at ih ⊢
      rw [List.filterMap_cons]
      split
      · exact ih.cons _
      · rename_i k hk
        split at hk
        · obtain ⟨a, -, rfl⟩ := Option.map_eq_some_iff.1 hk
          exact ih.cons_cons _
        · cases hk
  refine (hsub e.executions).nodup ?_
  rw [hfills, List.map_map] at hnd
  exact hnd

/-- What whole-share runs that only buy and sell are known to keep. -/
structure InOrder (createUuid : ℕ → Uuid) (e : BackTestEngine) : Prop where
  registered : Registered createUuid e
  store : e.state.LotStore
  fills : e.state.fills = e.executions.map fun x => x.result.fill
  priced : ∀ f ∈ e.state.fills, e.state.hasSymbolPrices f.symbol = true

theorem inOrder (hinj : Function.Injective createUuid) (hw : hp.fractional = false) (hfeed : OnlyBuySell feed)
    (hr : Reachable createUuid hp feed c) : InOrder createUuid c.engine :=
  ⟨registered hinj hr, lotStore hinj hw hfeed hr, fills_eq_executions hr, priced hr⟩

theorem InOrder.sameAccount {e e' : BackTestEngine} (hs : SameAccount e e') (h : InOrder createUuid e) :
    InOrder createUuid e' := by
  obtain ⟨h1, h2, h3, h4⟩ := h
  refine ⟨h1.sameLedger hs.sameLedger, ?_, ?_, ?_⟩
  · rw [hs.state]; exact h2
  · rw [hs.state, hs.executions]; exact h3
  · rw [hs.state]; exact h4

/-! ### The lot of an exit order -/

/-- An exit order of the invariant has an active lot, of the size of the order. -/
theorem Mirrored.lot (h : Mirrored c) (hi : InOrder createUuid c.engine) {kind : ExitKind} {x : ExitOrder}
    (hx : x ∈ exitOrders c kind) :
    ∃ f, f.uuid = x.fillUuid ∧ (f, x.triggerQuantity) ∈ c.engine.state.lots x.lotSide x.symbol := by
  obtain ⟨f, hf, hu, hsym, hon⟩ := h.sources kind x hx
  obtain ⟨y, hy, hyu, hact⟩ := mem_protectedIn ((h.keys kind).mem_iff.1 (List.mem_map_of_mem hx))
  have hyf : y.result.fill = f := by
    refine List.inj_on_of_nodup_map hi.registered.nodup ?_ hf (hyu.trans hu.symm)
    rw [hi.fills]
    exact List.mem_map_of_mem (f := fun x : Execution => x.result.fill) hy
  rw [hyf, Fill.side_of_isOn hon] at hact
  exact ⟨f, hu, State.mem_lotsIn.2 ⟨hf, hsym, hon, hu ▸ hact⟩⟩

/-- A lot of the symbol means a position against orders on the other side, of at least the size of the lot. -/
theorem closing_of_lot {s : State} (hstore : s.LotStore) {d : Side} {symbol : Symbol} {f : Fill} {a : ℚ}
    (hf : (f, a) ∈ s.lots d.opposite symbol) :
    d.sign * s.positionQuantity symbol < 0 ∧ s.closing d symbol a = a := by
  have hneg : d.sign * s.positionQuantity symbol < 0 := by
    by_contra hnn
    rw [hstore.opposite_nil (not_lt.1 hnn)] at hf
    cases hf
  have hle : a ≤ Fifo.total (s.lots d.opposite symbol) := by
    refine List.single_le_sum ?_ a (List.mem_map_of_mem (f := Prod.snd) hf)
    intro b hb
    obtain ⟨l, hl, rfl⟩ := List.mem_map.1 hb
    exact (hstore.whole symbol d.opposite l hl).2.le
  refine ⟨hneg, ?_⟩
  rw [State.closing, if_pos hneg, (hstore.same_nil hneg).2, min_eq_left hle]

/-- An exit order whose lot is the oldest closes exactly that lot. -/
theorem fillsClosedBy_exit (hw : hp.fractional = false) (hcap : hp.fillMaxPctOfVolume = none) {s : State}
    {uuid : Uuid} (hstore : s.LotStore) (hnd : (s.fills.map Fill.uuid).Nodup) {x : ExitOrder} {f : Fill}
    (hu : f.uuid = x.fillUuid) (hf : (f, x.triggerQuantity) ∈ s.lots x.lotSide x.symbol)
    (hold : OldestSource s x.toCloseInstruction) :
    fillsClosedBy (success x.toCloseInstruction hp s uuid).fill s = [x.key] := by
  obtain ⟨hwhole, hpos⟩ : IsWhole x.triggerQuantity ∧ 0 < x.triggerQuantity := hstore.whole x.symbol x.lotSide _ hf
  have hd := x.toCloseInstruction_isOn
  have hfill : fillableQuantity x.toCloseInstruction hp s = x.triggerQuantity := by
    obtain ⟨n, hn⟩ := hwhole
    have hq : x.toCloseInstruction.quantity = n := hn
    rw [hn]
    simp [fillableQuantity, getFillableAndRemainingQuantities, hcap, hw, hq]
  -- the oldest lot is the lot of the order
  have hlots : ∃ rest, s.lots x.lotSide x.symbol = (f, x.triggerQuantity) :: rest := by
    unfold OldestSource at hold
    rw [Order.side_of_isOn hd, Side.opposite_opposite] at hold
    change (s.lots x.lotSide x.symbol).head?.map (fun l => l.1.uuid) = some x.fillUuid at hold
    rcases hl : s.lots x.lotSide x.symbol with _ | ⟨⟨g, b⟩, rest⟩
    · rw [hl] at hf; cases hf
    · rw [hl] at hold
      obtain ⟨hg, -, -, hgb⟩ := State.mem_lotsIn.1 (show (g, b) ∈ s.lots x.lotSide x.symbol by simp [hl])
      obtain ⟨hf', -, -, hfa⟩ := State.mem_lotsIn.1 hf
      have hgf : g = f := List.inj_on_of_nodup_map hnd hg hf' ((Option.some.inj hold).trans hu.symm)
      subst hgf
      dsimp only at hgb hfa
      rw [hgb] at hfa
      exact ⟨rest, by rw [Option.some.inj hfa]⟩
  obtain ⟨rest, hlots⟩ := hlots
  have hclose := (closing_of_lot hstore (d := x.lotSide.opposite) (by rw [Side.opposite_opposite]; exact hf)).2
  have hbig : ¬ x.triggerQuantity ≤ Constants.epsilon :=
    fun h => absurd hpos (not_lt.2 (hwhole.nonpos_of_le_epsilon h))
  rw [fillsClosedBy_eq (d := x.lotSide.opposite) (by cases hs : x.lotSide.opposite <;> rw [hs] at hd <;> exact hd),
    Side.opposite_opposite]
  show (Fifo.takes Constants.epsilon (s.lots x.lotSide x.symbol) (s.closing x.lotSide.opposite x.symbol
    (fillableQuantity x.toCloseInstruction hp s))).map _ = _
  rw [hfill, hclose, hlots, Fifo.takes, if_neg hbig, min_self, sub_self, Fifo.takes_of_le Constants.epsilon_pos.le,
    List.map_singleton]
  show [(f.uuid, x.triggerQuantity)] = _
  rw [hu]
  rfl

end BackTestEngine

end QuantForge
