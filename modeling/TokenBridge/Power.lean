/-!
Voting power on the scale that Ethereum counts in: a stake counts as its share of the total times
2^32 - 1, rounded down, and two thirds of that scale decide.
-/
namespace TokenBridge.Power

def maximum : Nat := 4294967295

def threshold : Nat := 2863311530

/-- Nothing where the total is zero. Of a stake above the total, the low 64 bits of the quotient. -/
def scaled (stake total : UInt64) : UInt64 :=
  if total = 0 then 0 else UInt64.ofNat (stake.toNat * maximum / total.toNat)

end TokenBridge.Power
