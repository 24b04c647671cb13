import Mathlib.Data.List.AList
import CexEngine.Spec.Types

/-!
# The balance cache

`engine/balance_cache.rs`. Every operation that goes through `get_balance_mut` leaves an
entry behind, also when it fails; `available` and `locked` read a missing entry as zero.
-/

namespace CexEngine

open Arithmetic (add sub mul)

variable [Arithmetic]

structure Balance where
  available : Decimal
  locked : Decimal
  deriving DecidableEq, Repr

def Balance.new : Balance := ⟨0, 0⟩

def Balance.withAvailable (amount : Decimal) : Balance := ⟨amount, 0⟩

def Balance.total (b : Balance) : Decimal := add b.available b.locked

/-- What a refused or failed operation of the engine answers. A `context` is the text that
`anyhow` puts in front of the error it wraps. -/
inductive EngineError where
  /-- "Insufficient balance: user=.., mint=.., required=.., available=.." -/
  | insufficientBalance (user : UserId) (mint : Mint) (required available : Decimal)
  /-- "Insufficient locked balance: user=.., mint=.., required=.., locked=.., available=.." -/
  | insufficientLocked (user : UserId) (mint : Mint) (required locked available : Decimal)
  /-- "Insufficient available balance: user=.., mint=.., required=.., available=.., locked=.." -/
  | insufficientAvailable (user : UserId) (mint : Mint) (required available locked : Decimal)
  | message (text : String)
  | context (text : String) (cause : EngineError)
  deriving DecidableEq, Repr

/-- The map from `(user_id, mint)` to a balance. -/
structure BalanceCache where
  balances : AList fun _ : UserId × Mint => Balance

namespace BalanceCache

def new : BalanceCache := ⟨∅⟩

def getBalance (c : BalanceCache) (user : UserId) (mint : Mint) : Option Balance := c.balances.lookup (user, mint)

/-- The balance that `get_balance_mut` refers to. -/
def entry (c : BalanceCache) (user : UserId) (mint : Mint) : Balance := (c.getBalance user mint).getD .new

/-- Writes through the reference of `get_balance_mut`. -/
def put (c : BalanceCache) (user : UserId) (mint : Mint) (b : Balance) : BalanceCache :=
  ⟨c.balances.insert (user, mint) b⟩

def available (c : BalanceCache) (user : UserId) (mint : Mint) : Decimal := (c.entry user mint).available

def locked (c : BalanceCache) (user : UserId) (mint : Mint) : Decimal := (c.entry user mint).locked

def checkSufficientBalance (c : BalanceCache) (user : UserId) (mint : Mint) (required : Decimal) : Bool :=
  match c.getBalance user mint with
  | some b => b.available ≥ required
  | none => false

/-- `available` to `locked`, if `available` suffices. -/
def lockBalance (c : BalanceCache) (user : UserId) (mint : Mint) (amount : Decimal) :
    BalanceCache × Except EngineError Unit :=
  let b := c.entry user mint
  if b.available < amount then
    (c.put user mint b, .error (.insufficientBalance user mint amount b.available))
  else
    (c.put user mint { available := sub b.available amount, locked := add b.locked amount }, .ok ())

/-- `locked` to `available`, if `locked` suffices. -/
def unlockBalance (c : BalanceCache) (user : UserId) (mint : Mint) (amount : Decimal) :
    BalanceCache × Except EngineError Unit :=
  let b := c.entry user mint
  if b.locked < amount then
    (c.put user mint b, .error (.message "Not enough locked balance to unlock"))
  else
    (c.put user mint { available := add b.available amount, locked := sub b.locked amount }, .ok ())

/-- Takes `amount` from one user (from `locked` or from `available`), if it is there, and adds
it to the other user's `available`. -/
def transfer (c : BalanceCache) (fromUser toUser : UserId) (mint : Mint) (amount : Decimal) (fromLocked : Bool) :
    BalanceCache × Except EngineError Unit :=
  let b := c.entry fromUser mint
  if fromLocked then
    if b.locked < amount then
      (c.put fromUser mint b, .error (.insufficientLocked fromUser mint amount b.locked b.available))
    else
      let c := c.put fromUser mint { b with locked := sub b.locked amount }
      let t := c.entry toUser mint
      (c.put toUser mint { t with available := add t.available amount }, .ok ())
  else
    if b.available < amount then
      (c.put fromUser mint b, .error (.insufficientAvailable fromUser mint amount b.available b.locked))
    else
      let c := c.put fromUser mint { b with available := sub b.available amount }
      let t := c.entry toUser mint
      (c.put toUser mint { t with available := add t.available amount }, .ok ())

/-- Sets a balance (test set-up and the load at start). -/
def setBalance (c : BalanceCache) (user : UserId) (mint : Mint) (available locked : Decimal) : BalanceCache :=
  c.put user mint ⟨available, locked⟩

/-- A deposit or withdrawal; a balance that would become negative is set to zero. -/
def addAvailable (c : BalanceCache) (user : UserId) (mint : Mint) (delta : Decimal) : BalanceCache :=
  let b := c.entry user mint
  if add b.available delta < 0 then c.put user mint { b with available := 0 }
  else c.put user mint { b with available := add b.available delta }

end BalanceCache

end CexEngine
