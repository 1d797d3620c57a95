/-!
Arithmetic on 64-bit counters, with the treatment of a result that 64 bits do not hold in the name.
-/
namespace TokenBridge.Counter

def next? (n : UInt64) : Option UInt64 :=
  if n.toNat + 1 < UInt64.size then some (UInt64.ofNat (n.toNat + 1)) else none

def add? (a b : UInt64) : Option UInt64 :=
  if a.toNat + b.toNat < UInt64.size then some (UInt64.ofNat (a.toNat + b.toNat)) else none

def cappedAdd (a b : UInt64) : UInt64 := UInt64.ofNat (min (a.toNat + b.toNat) (UInt64.size - 1))

def cappedSub (a b : UInt64) : UInt64 := UInt64.ofNat (a.toNat - b.toNat)

def distance (a b : UInt64) : Nat := (a.toNat - b.toNat) + (b.toNat - a.toNat)

def smaller (a b : UInt64) : UInt64 := if Nat.blt b.toNat a.toNat then b else a

def larger (a b : UInt64) : UInt64 := if Nat.blt a.toNat b.toNat then b else a

def below (a b : UInt64) : Bool := Nat.blt a.toNat b.toNat

end TokenBridge.Counter
