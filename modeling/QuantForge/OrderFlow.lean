import QuantForge.Runs

/-!
# Where orders come from

Every order that is ever executed comes from an instruction of the plugin, from the exit book or is a remainder of
such an order (`reachable_orders`), and limit orders wait in the heap of their side and symbol (`filed`).
-/

namespace QuantForge

namespace BackTestEngine

variable {createUuid : ℕ → Uuid} {hp : HostParams}

/-! ### Booked orders -/

/-- The order waits in the order book or in a limit book. -/
def Booked (e : BackTestEngine) (o : Order) : Prop :=
  (∃ x ∈ e.orderBook.toList, x.order = o) ∨
    ∃ side symbol, ∃ x ∈ (e.limitOrderBook.heap side symbol).toList, x.order = o

private theorem limitHeap_setHeap (b : LimitOrderBook) (side side' : Side) (symbol symbol' : Symbol)
    (h : BinaryHeap (LimitOrder.before side)) {x : LimitOrder}
    (hx : x ∈ ((b.setHeap side symbol h).heap side' symbol').toList) :
    x ∈ h.toList ∨ x ∈ (b.heap side' symbol').toList := by
  cases side <;> cases side' <;>
    simp only [LimitOrderBook.heap, LimitOrderBook.setHeap, LimitOrderBook.setLimits, LimitOrderBook.limits,
      Map.lookup_insert_eq] at hx ⊢ <;>
    first
      | exact Or.inr hx
      | (split at hx
         · exact Or.inl hx
         · exact Or.inr hx)

/-- Scheduling puts an order into the order book, or a limit order into the heap of its side and symbol. -/
theorem schedule_cases (e : BackTestEngine) (o : Order) (hp : HostParams) :
    (o.isLimitOrder = false ∧
      e.schedule o hp = { e with orderBook := e.orderBook.push (createScheduledOrder o hp e.state) }) ∨
    ∃ limit, o.limitPrice = some limit ∧ o.isLimitOrder = true ∧ e.schedule o hp =
      { e with limitOrderBook := e.limitOrderBook.addLimitOrder (if o.isBuy then .buy else .sell) ⟨o, limit⟩ } := by
  unfold schedule
  split
  · rename_i limit hlimit
    split
    · rename_i hl
      exact Or.inr ⟨limit, hlimit, hl, rfl⟩
    · rename_i hl
      exact Or.inl ⟨by simpa using hl, rfl⟩
  · rename_i hnone
    exact Or.inl ⟨by simp [Order.isLimitOrder, hnone], rfl⟩

theorem booked_schedule {e : BackTestEngine} {o o' : Order} (h : Booked (e.schedule o hp) o') :
    o' = o ∨ Booked e o' := by
  rcases schedule_cases e o hp with ⟨-, he⟩ | ⟨limit, -, -, he⟩
  · rw [he] at h
    rcases h with ⟨x, hx, rfl⟩ | h
    · rcases BinaryHeap.mem_push.1 hx with rfl | hx
      · exact Or.inl rfl
      · exact Or.inr (Or.inl ⟨x, hx, rfl⟩)
    · exact Or.inr (Or.inr h)
  · rw [he] at h
    rcases h with h | ⟨side, symbol, x, hx, rfl⟩
    · exact Or.inr (Or.inl h)
    · rcases limitHeap_setHeap _ _ _ _ _ _ hx with hx | hx
      · rcases BinaryHeap.mem_push.1 hx with rfl | hx
        · exact Or.inl rfl
        · exact Or.inr (Or.inr ⟨_, _, x, hx, rfl⟩)
      · exact Or.inr (Or.inr ⟨side, symbol, x, hx, rfl⟩)

/-- The books after an execution: what was there, and perhaps a remainder of the order. -/
theorem booked_execute {e : BackTestEngine} {o o' : Order} (h : Booked (execute createUuid hp e o) o') :
    Booked e o' ∨ ∃ q, o' = { o with quantity := q } := by
  rcases execute_cases createUuid hp e o with he | ha
  · rw [he] at h
    exact Or.inl h
  · rw [execute_accepted ha] at h
    have h' : Booked (e.scheduleRemainder (Executor.success o hp e.state (createUuid e.uuidCount)) hp) o' := h
    unfold scheduleRemainder at h'
    split at h'
    · rename_i po hpo
      rcases booked_schedule h' with rfl | h'
      · exact Or.inr ⟨_, (Executor.partialOrder_eq hpo).1⟩
      · exact Or.inl h'
    · exact Or.inl h'

theorem booked_of_nextExecution {c : Config} {o : Order} {e : BackTestEngine} (h : nextExecution c = some (o, e)) :
    (Booked c.engine o ∨ ∃ x : ExitOrder, o = x.toCloseInstruction) ∧ ∀ o', Booked e o' → Booked c.engine o' := by
  cases nextExecution_cases h with
  | orderBook bar x _ htop _ ho he =>
    rw [ho, he]
    refine ⟨Or.inl (Or.inl ⟨x, BinaryHeap.top_mem htop, rfl⟩), ?_⟩
    rintro o' (⟨y, hy, rfl⟩ | h')
    · exact Or.inl ⟨y, BinaryHeap.mem_of_mem_pop hy, rfl⟩
    · exact Or.inr h'
  | limit side symbol symbols x _ _ htop _ ho he =>
    rw [ho, he]
    refine ⟨Or.inl (Or.inr ⟨side, symbol, x, BinaryHeap.top_mem htop, rfl⟩), ?_⟩
    rintro o' (h' | ⟨side', symbol', y, hy, rfl⟩)
    · exact Or.inl h'
    · rcases limitHeap_setHeap _ _ _ _ _ _ hy with hy | hy
      · exact Or.inr ⟨side, symbol, y, BinaryHeap.mem_of_mem_pop hy, rfl⟩
      · exact Or.inr ⟨side', symbol', y, hy, rfl⟩
  | exit kind l x _ _ _ _ _ ho he =>
    rw [ho, he]
    exact ⟨Or.inr ⟨x, rfl⟩, fun o' h' => h'⟩

/-- The instructions of a feed all lead to orders with `P`. -/
def FeedMeets (feed : List FeedItem) (P : Order → Prop) : Prop :=
  ∀ item ∈ feed, ∀ c ∈ item.result.instructions, ∀ (hp : HostParams) (s : State) (n : ℕ)
    (i : Instruction) (o : Order),
    toInstruction c = .ok i → instructionToOrder hp s i = .ok o → P { o with issuedAt := some n }

/-- The orders in the books have `P`, and what the plugin has answered or will answer is of the feed. -/
structure OrdersMeet (P : Order → Prop) (feed : List FeedItem) (c : Config) : Prop where
  booked : ∀ o, Booked c.engine o → P o
  ahead : ∀ item ∈ c.feed, item ∈ feed
  answered : ∀ i ∈ c.result.instructions, ∃ item ∈ feed, i ∈ item.result.instructions

section OrdersMeet

variable {P : Order → Prop} {feed : List FeedItem} {c c' : Config}

theorem OrdersMeet.start (hp : HostParams) (P : Order → Prop) (feed : List FeedItem) :
    OrdersMeet P feed (start hp feed) := by
  refine ⟨?_, fun item hi => hi, fun i hi => by cases hi⟩
  rintro o (⟨x, hx, -⟩ | ⟨side, symbol, x, hx, -⟩)
  · cases hx
  · cases side <;> cases hx

/-- The next order executed comes from the books or from the exit book. -/
theorem OrdersMeet.nextExecution (h : OrdersMeet P feed c) (hexit : ∀ x : ExitOrder, P x.toCloseInstruction)
    {o : Order} {e : BackTestEngine} (hn : nextExecution c = some (o, e)) : P o := by
  rcases (booked_of_nextExecution hn).1 with ho | ⟨x, rfl⟩
  · exact h.booked o ho
  · exact hexit x

/-- The instructions of a bar put orders with `P` into the books. -/
private theorem OrdersMeet.scheduled (h : OrdersMeet P feed c) (hfeed : FeedMeets feed P) (hp : HostParams) :
    ∀ o, Booked (leftBy (schedulePluginInstructions hp c.engine c.result)) o → P o := by
  refine schedulePluginInstructions_induction (P := fun e => ∀ o, Booked e o → P o) h.booked ?_
  intro e i instruction o hPe hmem hi ho o' ho'
  rcases booked_schedule ho' with rfl | ho'
  · obtain ⟨item, hitem, hin⟩ := h.answered i hmem
    exact hfeed item hitem i hin hp e.state _ instruction o hi ho
  · exact hPe o' ho'

theorem OrdersMeet.step (h : OrdersMeet P feed c) (hq : ∀ o q, P o → P { o with quantity := q })
    (hexit : ∀ x : ExitOrder, P x.toCloseInstruction) (hfeed : FeedMeets feed P)
    (hs : step createUuid hp c = some c') : OrdersMeet P feed c' := by
  have hahead := h.ahead
  cases step_kinds hs with
  | execute o e hn _ hf hr he =>
    refine ⟨fun o' ho' => ?_, by rw [hf]; exact h.ahead, by rw [hr]; exact h.answered⟩
    rw [he] at ho'
    rcases booked_execute ho' with ho' | ⟨q, rfl⟩
    · exact h.booked o' ((booked_of_nextExecution hn).2 o' ho')
    · exact hq o q (h.nextExecution hexit hn)
  | closed item _ hf hc =>
    rw [hf] at hahead
    rw [hc]
    exact ⟨h.booked, fun i hi => hahead i (List.mem_cons_of_mem _ hi), h.answered⟩
  | bar item _ hf hc =>
    rw [hf] at hahead
    rw [hc]
    exact ⟨h.booked, fun i hi => hahead i (List.mem_cons_of_mem _ hi),
      fun i hi => ⟨item, hahead item List.mem_cons_self, hi⟩⟩
  | finish e _ hsched hc =>
    -- closing the bar does not touch the books
    have hbooked := h.scheduled hfeed hp
    rw [hsched] at hbooked
    rw [hc]
    exact ⟨hbooked, h.ahead, h.answered⟩
  | throw t _ hsched hc =>
    have hbooked := h.scheduled hfeed hp
    rw [hsched] at hbooked
    rw [hc]
    exact ⟨hbooked, h.ahead, h.answered⟩
  | move _ hf hr _ ho hl =>
    refine ⟨fun o hbooked => h.booked o ?_, by rw [hf]; exact h.ahead, by rw [hr]; exact h.answered⟩
    unfold Booked at hbooked ⊢
    rwa [ho, hl] at hbooked

end OrdersMeet

/-- A property of orders that survives a change of quantity, holds of the orders of the exit book and of those of the
plugin, holds of every order in the books and of every order executed. -/
theorem reachable_orders {P : Order → Prop} (hq : ∀ o q, P o → P { o with quantity := q })
    (hexit : ∀ x : ExitOrder, P x.toCloseInstruction) {feed : List FeedItem} (hfeed : FeedMeets feed P) {c : Config}
    (hr : Reachable createUuid hp feed c) :
    (∀ o, Booked c.engine o → P o) ∧ ∀ o e, nextExecution c = some (o, e) → P o := by
  have key : OrdersMeet P feed c := by
    refine reachable_induction (J := OrdersMeet P feed) (OrdersMeet.start hp P feed) ?_ executionsMeet_true hr
    rintro c c' - h hs -
    exact h.step hq hexit hfeed hs
  exact ⟨key.booked, fun o e hn => key.nextExecution hexit hn⟩

/-! ### The two order books -/

/-- Induction over a run for a property of the order book and the limit books: they are only written by popping an
order and by scheduling one. -/
theorem reachable_books {feed : List FeedItem} {J : BackTestEngine → Prop} (h0 : J (start hp feed).engine)
    (hcongr : ∀ e e', e'.orderBook = e.orderBook → e'.limitOrderBook = e.limitOrderBook → J e → J e')
    (hpop : ∀ e x, e.orderBook.top = some x → J e → J { e with orderBook := e.orderBook.pop })
    (hpopLimit : ∀ e side symbol x, (e.limitOrderBook.heap side symbol).top = some x → J e →
      J { e with limitOrderBook := e.limitOrderBook.setHeap side symbol (e.limitOrderBook.heap side symbol).pop })
    (hsched : ∀ e o, J e → J (e.schedule o hp)) {c : Config} (hr : Reachable createUuid hp feed c) : J c.engine := by
  refine reachable_induction (J := fun c => J c.engine) h0 ?_ executionsMeet_true hr
  rintro c c' - hJ hs -
  have exit : ∀ kind, J (popExit kind c.engine) := fun kind => hcongr c.engine _ rfl rfl hJ
  have hscheduled : J (leftBy (schedulePluginInstructions hp c.engine c.result)) :=
    schedulePluginInstructions_induction hJ fun _ _ _ _ h _ _ _ => hsched _ _ h
  cases step_kinds hs with
  | execute o e hn _ _ _ he =>
    rw [he]
    have hJe : J e := by
      cases nextExecution_cases hn with
      | orderBook bar x _ htop _ _ he => rw [he]; exact hpop _ x htop hJ
      | limit side symbol symbols x _ _ htop _ _ he => rw [he]; exact hpopLimit _ side symbol x htop hJ
      | exit kind l x _ _ _ _ _ _ he => rw [he]; exact exit kind
    rcases execute_cases createUuid hp e o with hrej | ha
    · rw [hrej]; exact hcongr e _ rfl rfl hJe
    · rw [execute_accepted ha]
      refine hcongr (e.scheduleRemainder (Executor.success o hp e.state (createUuid e.uuidCount)) hp) _ rfl rfl ?_
      unfold scheduleRemainder
      split
      · exact hsched _ _ hJe
      · exact hJe
  | finish e _ hsc hc =>
    rw [hc]
    obtain ⟨curve, peak, drawdown, hf⟩ := finishBar_frame e hp
    rw [hsc] at hscheduled
    rw [hf]
    exact hcongr e _ rfl rfl hscheduled
  | throw t _ hsc hc =>
    rw [hsc] at hscheduled
    rw [hc]
    exact hscheduled
  | closed item _ _ hc => rw [hc]; exact hJ
  | bar item _ _ hc => rw [hc]; exact hcongr c.engine _ rfl rfl hJ
  | move _ _ _ _ ho hl => exact hcongr c.engine _ ho hl hJ

/-- Limit orders wait in the heap of their side and symbol, everything else in the order book. -/
structure Filed (e : BackTestEngine) : Prop where
  orderBook : ∀ x ∈ e.orderBook.toList, x.order.isLimitOrder = false
  limits : ∀ side symbol, ∀ x ∈ (e.limitOrderBook.heap side symbol).toList,
    x.order.symbol = symbol ∧ x.order.limitPrice = some x.limitPrice ∧ x.order.isBuy = decide (side = .buy)

theorem limitHeap_setHeap_self (b : LimitOrderBook) (side : Side) (symbol : Symbol)
    (h : BinaryHeap (LimitOrder.before side)) : (b.setHeap side symbol h).heap side symbol = h := by
  cases side <;>
    simp [LimitOrderBook.heap, LimitOrderBook.setHeap, LimitOrderBook.setLimits, LimitOrderBook.limits]

theorem limitHeap_setHeap_ne (b : LimitOrderBook) {side side' : Side} {symbol symbol' : Symbol}
    (hne : ¬ (side' = side ∧ symbol' = symbol)) (h : BinaryHeap (LimitOrder.before side)) :
    (b.setHeap side symbol h).heap side' symbol' = b.heap side' symbol' := by
  cases side <;> cases side' <;>
    simp_all [LimitOrderBook.heap, LimitOrderBook.setHeap, LimitOrderBook.setLimits, LimitOrderBook.limits]

private theorem filed_setHeap {e : BackTestEngine} (h : Filed e) (side : Side) (symbol : Symbol)
    (hp : BinaryHeap (LimitOrder.before side))
    (hx : ∀ x ∈ hp.toList, x ∈ (e.limitOrderBook.heap side symbol).toList ∨
      (x.order.symbol = symbol ∧ x.order.limitPrice = some x.limitPrice ∧ x.order.isBuy = decide (side = .buy))) :
    Filed { e with limitOrderBook := e.limitOrderBook.setHeap side symbol hp } := by
  refine ⟨h.orderBook, fun side' symbol' x hmem => ?_⟩
  by_cases heq : side' = side ∧ symbol' = symbol
  · obtain ⟨rfl, rfl⟩ := heq
    change x ∈ ((e.limitOrderBook.setHeap side' symbol' hp).heap side' symbol').toList at hmem
    rw [limitHeap_setHeap_self] at hmem
    rcases hx x hmem with hold | hnew
    · exact h.limits side' symbol' x hold
    · exact hnew
  · change x ∈ ((e.limitOrderBook.setHeap side symbol hp).heap side' symbol').toList at hmem
    rw [limitHeap_setHeap_ne _ heq] at hmem
    exact h.limits side' symbol' x hmem

theorem filed {feed : List FeedItem} {c : Config} (hr : Reachable createUuid hp feed c) : Filed c.engine := by
  refine reachable_books (J := Filed) ?_ ?_ ?_ ?_ ?_ hr
  · refine ⟨fun x hx => ?_, fun side symbol x hx => ?_⟩
    · cases hx
    · cases side <;> cases hx
  · intro e e' ho hl h
    refine ⟨?_, fun side symbol => ?_⟩
    · rw [ho]; exact h.orderBook
    · rw [hl]; exact h.limits side symbol
  · exact fun e x _ h => ⟨fun y hy => h.orderBook y (BinaryHeap.mem_of_mem_pop hy), h.limits⟩
  · exact fun e side symbol x _ h => filed_setHeap h side symbol _ fun y hy => Or.inl (BinaryHeap.mem_of_mem_pop hy)
  · intro e o h
    rcases schedule_cases e o hp with ⟨hmarket, he⟩ | ⟨limit, hlimit, -, he⟩
    · rw [he]
      refine ⟨fun x hx => ?_, h.limits⟩
      rcases BinaryHeap.mem_push.1 hx with rfl | hx
      · exact hmarket
      · exact h.orderBook x hx
    · rw [he]
      refine filed_setHeap h _ o.symbol _ fun x hx => ?_
      rcases BinaryHeap.mem_push.1 hx with rfl | hx
      · refine Or.inr ⟨rfl, hlimit, ?_⟩
        cases o.isBuy <;> rfl
      · exact Or.inl hx

/-! ### Buys and sells -/

/-- The instruction buys or sells. -/
def BuyOrSell : CInstruction → Prop
  | .signal inst => inst.action = Constants.buy ∨ inst.action = Constants.sell
  | .order inst => inst.action = Constants.buy ∨ inst.action = Constants.sell
  | .invalid => True

instance : DecidablePred BuyOrSell
  | .signal inst => inferInstanceAs (Decidable (inst.action = Constants.buy ∨ inst.action = Constants.sell))
  | .order inst => inferInstanceAs (Decidable (inst.action = Constants.buy ∨ inst.action = Constants.sell))
  | .invalid => inferInstanceAs (Decidable True)

/-- Every instruction of the plugin buys or sells. -/
def OnlyBuySell (feed : List FeedItem) : Prop := ∀ item ∈ feed, ∀ c ∈ item.result.instructions, BuyOrSell c

instance (feed : List FeedItem) : Decidable (OnlyBuySell feed) :=
  inferInstanceAs (Decidable (∀ item ∈ feed, ∀ c ∈ item.result.instructions, BuyOrSell c))

/-- With a plugin that only buys and sells, every order executed is a buy or a sell. -/
theorem reachable_buySell {feed : List FeedItem} (hfeed : OnlyBuySell feed) {c : Config}
    (hr : Reachable createUuid hp feed c) {o : Order} {e : BackTestEngine} (hn : nextExecution c = some (o, e)) :
    o.isBuy = true ∨ o.isSell = true := by
  refine (reachable_orders (P := fun o => o.isBuy = true ∨ o.isSell = true) ?_ ?_ ?_ hr).2 o e hn
  · exact fun o q h => h
  · intro x
    cases h : x.isShortPosition <;> simp [ExitOrder.toCloseInstruction, h, Order.isBuy, Order.isSell]
  · intro item hitem i hi hp s n j o hj ho
    have := hfeed item hitem i hi
    cases i with
    | signal inst =>
      cases hj
      simp only [instructionToOrder] at ho
      split at ho
      · cases ho
        exact this.imp (fun h => decide_eq_true h) fun h => decide_eq_true h
      · cases ho
    | order inst =>
      cases hj
      cases ho
      exact this.imp (fun h => decide_eq_true h) fun h => decide_eq_true h
    | invalid => cases hj

end BackTestEngine

end QuantForge
