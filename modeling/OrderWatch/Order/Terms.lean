import OrderWatch.Text.Word
import OrderWatch.Decimal.Text

/-
  What an order is about: its side, its kind, its trading
  pair, and the fees that its fills are charged.

  Key definitions:
    * `Side`
    * `OrderKind`
    * `Fee`
    * `splitPair`
-/

namespace OrderWatch

------------------------------------------------------------
-- Side and kind
------------------------------------------------------------

inductive Side where
  | buy
  | sell
deriving DecidableEq, Repr, Inhabited

namespace Side

instance : Worded Side where
  all := [.buy, .sell]
  word
    | .buy => "BUY"
    | .sell => "SELL"

instance : ToString Side :=
  ⟨Worded.word⟩

end Side

inductive OrderKind where
  | market
  | limit
  | limitMaker
deriving DecidableEq, Repr, Inhabited

namespace OrderKind

instance : Worded OrderKind where
  all := [.market, .limit, .limitMaker]
  word
    | .market => "MARKET"
    | .limit => "LIMIT"
    | .limitMaker => "LIMIT_MAKER"

instance : ToString OrderKind :=
  ⟨Worded.word⟩

/- Whether the order names the price it asks for. -/
def isLimit : OrderKind → Bool
  | .market => false
  | .limit | .limitMaker => true

end OrderKind

------------------------------------------------------------
-- Fees
------------------------------------------------------------

/- An amount charged in some asset. -/
structure Fee where
  asset : String
  amount : Decimal
deriving DecidableEq, Repr, Inhabited

namespace Fee

/- Nothing charged in an asset. -/
def zero (asset : String) : Fee :=
  ⟨asset, .zero⟩

/- The amount and the asset, a blank between them. -/
def text (f : Fee) : String :=
  s!"{f.amount} {f.asset}"

end Fee

------------------------------------------------------------
-- Trading pairs
------------------------------------------------------------

/-
  The base and the quote asset of a trading pair.  The first
  hyphen or slash divides them; without one there is no quote
  asset.
-/
def splitPair (pair : String) : String × String :=
  let (base, rest) :=
    pair.toList.span fun c => c != '-' && c != '/'
  (String.ofList base, String.ofList (rest.drop 1))

end OrderWatch
