import QuantForge.Execution

/-!
# Sides and active lots

The two sides of a trade, and the active lots of a symbol on a side in the order of `fills_`, oldest first.
-/

namespace QuantForge

/-! ### Sides -/

def Side.opposite : Side → Side
  | .buy => .sell
  | .sell => .buy

@[simp] theorem Side.opposite_opposite (d : Side) : d.opposite.opposite = d := by cases d <;> rfl

theorem Side.ne_opposite (d : Side) : d ≠ d.opposite := by cases d <;> decide

theorem Side.eq_or_eq_opposite (d d' : Side) : d' = d ∨ d' = d.opposite := by
  cases d <;> cases d' <;> decide

/-- An order to buy or to sell. -/
def Order.isOn (o : Order) : Side → Bool
  | .buy => o.isBuy
  | .sell => o.isSell

/-- The action of a side. -/
def Side.action : Side → String
  | .buy => Constants.buy
  | .sell => Constants.sell

theorem Side.action_ne_opposite (d : Side) : d.action ≠ d.opposite.action := by cases d <;> decide

theorem Order.isOn_iff {o : Order} {d : Side} : o.isOn d = true ↔ o.action = d.action := by
  cases d <;> exact decide_eq_true_iff

theorem Fill.isOn_iff {f : Fill} {d : Side} : f.isOn d = true ↔ f.action = d.action := by
  cases d <;> exact decide_eq_true_iff

theorem Order.isOn_opposite {o : Order} {d : Side} (h : o.isOn d = true) : o.isOn d.opposite = false := by
  rw [Bool.eq_false_iff, Ne, Order.isOn_iff, Order.isOn_iff.1 h]
  exact d.action_ne_opposite

theorem Fill.isOn_opposite {f : Fill} {d : Side} (h : f.isOn d = true) : f.isOn d.opposite = false := by
  rw [Bool.eq_false_iff, Ne, Fill.isOn_iff, Fill.isOn_iff.1 h]
  exact d.action_ne_opposite

theorem Order.exists_isOn {o : Order} (h : o.isBuy = true ∨ o.isSell = true) : ∃ d, o.isOn d = true := by
  rcases h with h | h
  · exact ⟨.buy, h⟩
  · exact ⟨.sell, h⟩

namespace State

/-! ### Active lots -/

/-- The fills of a list that are active lots of the symbol, with their active quantity. -/
def lotsIn (active : Map Uuid ℚ) (side : Side) (symbol : Symbol) (fills : List Fill) : List (Fill × ℚ) :=
  fills.filterMap fun f =>
    if f.symbol = symbol ∧ f.isOn side then (active.lookup f.uuid).map (f, ·) else none

/-- The active lots of a symbol, oldest first. -/
def lots (s : State) (side : Side) (symbol : Symbol) : List (Fill × ℚ) :=
  lotsIn (s.active side) side symbol s.fills

theorem mem_lotsIn {active : Map Uuid ℚ} {side : Side} {symbol : Symbol} {fills : List Fill} {l : Fill × ℚ} :
    l ∈ lotsIn active side symbol fills ↔
      l.1 ∈ fills ∧ l.1.symbol = symbol ∧ l.1.isOn side = true ∧ active.lookup l.1.uuid = some l.2 := by
  obtain ⟨f, a⟩ := l
  simp only [lotsIn, List.mem_filterMap]
  constructor
  · rintro ⟨f', hf', h⟩
    split at h
    · rename_i hm
      obtain ⟨a', ha', he⟩ := Option.map_eq_some_iff.1 h
      cases he
      exact ⟨hf', hm.1, hm.2, ha'⟩
    · cases h
  · rintro ⟨hf, hs, hd, ha⟩
    exact ⟨f, hf, by simp_all⟩

theorem lotsIn_append (active : Map Uuid ℚ) (side : Side) (symbol : Symbol) (l₁ l₂ : List Fill) :
    lotsIn active side symbol (l₁ ++ l₂) = lotsIn active side symbol l₁ ++ lotsIn active side symbol l₂ :=
  List.filterMap_append

theorem lotsIn_congr {active active' : Map Uuid ℚ} {side : Side} {symbol : Symbol} {fills : List Fill}
    (h : ∀ f ∈ fills, f.symbol = symbol → f.isOn side = true → active'.lookup f.uuid = active.lookup f.uuid) :
    lotsIn active' side symbol fills = lotsIn active side symbol fills := by
  apply List.filterMap_congr
  intro f hf
  split
  · rename_i hm
    rw [h f hf hm.1 hm.2]
  · rfl

theorem lotsIn_cons_skip {active : Map Uuid ℚ} {side : Side} {symbol : Symbol} {f : Fill} {fills : List Fill}
    (h : f.symbol = symbol → f.isOn side = true → active.lookup f.uuid = none) :
    lotsIn active side symbol (f :: fills) = lotsIn active side symbol fills := by
  unfold lotsIn
  rw [List.filterMap_cons]
  split
  · rfl
  · rename_i b hb
    split at hb
    · rename_i hm
      rw [h hm.1 hm.2] at hb
      cases hb
    · cases hb

theorem lotsIn_cons_take {active : Map Uuid ℚ} {side : Side} {symbol : Symbol} {f : Fill} {fills : List Fill} {a : ℚ}
    (hs : f.symbol = symbol) (hd : f.isOn side = true) (ha : active.lookup f.uuid = some a) :
    lotsIn active side symbol (f :: fills) = (f, a) :: lotsIn active side symbol fills := by
  unfold lotsIn
  rw [List.filterMap_cons]
  simp [hs, hd, ha]

/-- The names of the lots are a sublist of the fills. -/
theorem lotsIn_names_sublist (active : Map Uuid ℚ) (side : Side) (symbol : Symbol) (fills : List Fill) :
    ((lotsIn active side symbol fills).map Prod.fst).Sublist fills := by
  induction fills with
  | nil => exact List.Sublist.refl _
  | cons f fills ih =>
    by_cases h : f.symbol = symbol → f.isOn side = true → active.lookup f.uuid = none
    · rw [lotsIn_cons_skip h]
      exact ih.cons f
    · push Not at h
      obtain ⟨hs, hd, ha⟩ := h
      obtain ⟨a, ha⟩ := Option.ne_none_iff_exists'.1 ha
      rw [lotsIn_cons_take hs hd ha]
      exact ih.cons_cons f

end State

end QuantForge
