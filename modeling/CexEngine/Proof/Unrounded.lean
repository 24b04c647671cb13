import CexEngine.Proof.Returns

/-!
# Calls without rounding

A call whose sums and differences all come out exact ends as it does with exact ones, so what
holds for exact sums holds of it, whatever the products are.

* `Arithmetic.exactSums`: the same products, with exact sums.
* `MovesExactly`: an amount is moved from one balance to another without rounding.
* `executeTrades_exact`: **trades that move their amounts so end as with exact sums.**
* `Command.Unrounded`: a command that ends as it does with these.
-/

namespace CexEngine

/-- The same products, with exact sums and differences. -/
abbrev Arithmetic.exactSums (A : Arithmetic) : Arithmetic where
  add a b := a + b
  sub a b := a - b
  mul := A.mul
  add_nonneg := exactArithmetic.add_nonneg
  sub_nonneg := exactArithmetic.sub_nonneg
  mul_nonneg := A.mul_nonneg
  mul_comm := A.mul_comm

theorem Arithmetic.exactSums_exact (A : Arithmetic) : @ExactSums A.exactSums :=
  @ExactSums.mk A.exactSums (fun _ _ => rfl) fun _ _ => rfl

/-- If the amount is there, taking it from one balance and adding it to another is not rounded. -/
def MovesExactly [Arithmetic] (source target amount : Decimal) : Prop :=
  amount ≤ source → Arithmetic.sub source amount = source - amount ∧ Arithmetic.add target amount = target + amount

instance [Arithmetic] (source target amount : Decimal) : Decidable (MovesExactly source target amount) :=
  inferInstanceAs (Decidable (_ → _))

theorem MovesExactly.exact [Arithmetic] [ExactSums] (source target amount : Decimal) : MovesExactly source target amount :=
  fun _ => ⟨ExactSums.sub_eq _ _, ExactSums.add_eq _ _⟩

namespace BalanceCache

variable [A : Arithmetic] {c : BalanceCache} {user : UserId} {mint : Mint} {amount : Decimal}

theorem lockBalanceForOrder_exact (h : MovesExactly (c.available user mint) (c.locked user mint) amount) :
    c.lockBalanceForOrder user mint amount = @lockBalanceForOrder A.exactSums c user mint amount := by
  have hlock : c.lockBalance user mint amount = @lockBalance A.exactSums c user mint amount := by
    unfold lockBalance
    dsimp only
    split_ifs with hlt
    · rfl
    · obtain ⟨hsub, hadd⟩ := h (not_lt.1 hlt)
      rw [show Arithmetic.sub (c.entry user mint).available amount = _ from hsub,
        show Arithmetic.add (c.entry user mint).locked amount = _ from hadd]
      rfl
  rw [lockBalanceForOrder, hlock]
  rfl

theorem unlockBalanceForCancel_exact (h : MovesExactly (c.locked user mint) (c.available user mint) amount) :
    c.unlockBalanceForCancel user mint amount = @unlockBalanceForCancel A.exactSums c user mint amount := by
  have hunlock : c.unlockBalance user mint amount = @unlockBalance A.exactSums c user mint amount := by
    unfold unlockBalance
    dsimp only
    split_ifs with hlt
    · rfl
    · obtain ⟨hsub, hadd⟩ := h (not_lt.1 hlt)
      rw [show Arithmetic.sub (c.entry user mint).locked amount = _ from hsub,
        show Arithmetic.add (c.entry user mint).available amount = _ from hadd]
      rfl
  rw [unlockBalanceForCancel, hunlock]
  rfl

theorem release_exact (h : MovesExactly (c.locked user mint) (c.available user mint) amount) :
    c.release user mint amount = @release A.exactSums c user mint amount := by
  rw [release, unlockBalanceForCancel_exact h]
  rfl

theorem transfer_exact {user' : UserId} (h : MovesExactly (c.locked user mint) (c.available user' mint) amount) :
    c.transfer user user' mint amount true = @transfer A.exactSums c user user' mint amount true := by
  unfold transfer
  dsimp only
  rw [if_pos rfl, if_pos rfl]
  split_ifs with hlt
  · rfl
  obtain ⟨hsub, hadd⟩ := h (not_lt.1 hlt)
  rw [show Arithmetic.sub (c.entry user mint).locked amount = (c.entry user mint).locked - amount from hsub]
  have hread : ((c.put user mint ⟨(c.entry user mint).available, (c.entry user mint).locked - amount⟩).entry
      user' mint).available = c.available user' mint := by
    rw [entry_put, available]
    split_ifs with hu
    · rw [hu.1]
    · rfl
  rw [← hread] at hadd
  rw [hadd]
  rfl

/-- Both transfers of a trade move what they move without rounding. -/
structure TradeExact (c : BalanceCache) (t : MatchResult) : Prop where
  quote : MovesExactly (c.locked t.buyerId t.quoteMint) (c.available t.sellerId t.quoteMint) t.totalValue
  base : MovesExactly ((c.transfer t.buyerId t.sellerId t.quoteMint t.totalValue true).1.locked t.sellerId t.baseMint)
    ((c.transfer t.buyerId t.sellerId t.quoteMint t.totalValue true).1.available t.buyerId t.baseMint) t.amount

instance (c : BalanceCache) (t : MatchResult) : Decidable (c.TradeExact t) :=
  decidable_of_iff (_ ∧ _) ⟨fun ⟨h₁, h₂⟩ => ⟨h₁, h₂⟩, fun ⟨h₁, h₂⟩ => ⟨h₁, h₂⟩⟩

/-- And so do those of trades that are executed one after another. -/
def TradesExact : BalanceCache → List MatchResult → Prop
  | _, [] => True
  | c, t :: ts => c.TradeExact t ∧ TradesExact (c.executeTrade t false).1 ts

instance decidableTradesExact : ∀ (c : BalanceCache) (ts : List MatchResult), Decidable (c.TradesExact ts)
  | _, [] => .isTrue trivial
  | c, t :: ts =>
    have := decidableTradesExact (c.executeTrade t false).1 ts
    inferInstanceAs (Decidable (c.TradeExact t ∧ TradesExact (c.executeTrade t false).1 ts))

theorem executeTrade_exact {t : MatchResult} (h : c.TradeExact t) (skip : Bool) :
    c.executeTrade t skip = @executeTrade A.exactSums c t skip := by
  unfold executeTrade
  dsimp only
  rw [transfer_exact h.base, transfer_exact h.quote]
  rfl

/-- The messages to the DB writer are nothing to the balances. -/
theorem executeTrade_skip (c : BalanceCache) (t : MatchResult) (skip : Bool) :
    (c.executeTrade t skip).1 = (c.executeTrade t false).1 := by
  unfold executeTrade
  dsimp only
  split
  · rfl
  · split <;> rfl

theorem executeTrades_skip (skip : Bool) : ∀ (ts : List MatchResult) (c : BalanceCache),
    (c.executeTrades skip ts).1 = (c.executeTrades false ts).1 := by
  intro ts
  induction ts with
  | nil => exact fun _ => rfl
  | cons t ts ih =>
    intro c
    rw [executeTrades, executeTrades, executeTrade_skip]
    exact ih _

/-- **Trades that round no sum end as with exact sums.** -/
theorem executeTrades_exact (skip : Bool) : ∀ (ts : List MatchResult) (c : BalanceCache), c.TradesExact ts →
    c.executeTrades skip ts = @executeTrades A.exactSums skip c ts := by
  intro ts
  induction ts with
  | nil => exact fun _ _ => rfl
  | cons t ts ih =>
    rintro c ⟨ht, hts⟩
    rw [executeTrades, executeTrade_skip, ih _ hts, ← executeTrade_skip c t skip, executeTrade_exact ht]
    rfl

theorem TradesExact.exact [ExactSums] (c : BalanceCache) (ts : List MatchResult) : c.TradesExact ts := by
  induction ts generalizing c with
  | nil => trivial
  | cons t ts ih => exact ⟨⟨.exact _ _ _, .exact _ _ _⟩, ih _⟩

end BalanceCache

/-- No sum or difference that the command takes is rounded: it ends as with exact ones. -/
def Command.Unrounded [A : Arithmetic] (dv : Decimal → Decimal → Decimal) (s : Engine) (c : Command) : Prop :=
  s.handle dv c = @Engine.handle A.exactSums dv s c

end CexEngine
