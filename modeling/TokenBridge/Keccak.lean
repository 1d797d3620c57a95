import TokenBridge.Word
/-!
Keccak-256: the sponge of rate 136 bytes over 25 lanes of 64 bits, padded by a one bit, zeros and a one
bit with no domain bits before them. A state is five planes of five lanes; lane x of plane y holds
bytes 8 (5 y + x) and on of a block.
-/
namespace TokenBridge.Keccak

abbrev Plane := List UInt64

abbrev State := List Plane

def rotate (a n : UInt64) : UInt64 := (a <<< n) ||| (a >>> (64 - n))

def mix (a b : Plane) : Plane := List.zipWith (· ^^^ ·) a b

def turn : Plane → Plane
  | [] => []
  | a :: rest => rest ++ [a]

def turnBack (p : Plane) : Plane := turn (turn (turn (turn p)))

def rotations : List (List UInt64) :=
  [[0, 1, 62, 28, 27],
   [36, 44, 6, 55, 20],
   [3, 10, 43, 25, 39],
   [41, 45, 15, 21, 8],
   [18, 2, 61, 56, 14]]

def roundConstants : List UInt64 :=
  [0x0000000000000001, 0x0000000000008082, 0x800000000000808A, 0x8000000080008000,
   0x000000000000808B, 0x0000000080000001, 0x8000000080008081, 0x8000000000008009,
   0x000000000000008A, 0x0000000000000088, 0x0000000080008009, 0x000000008000000A,
   0x000000008000808B, 0x800000000000008B, 0x8000000000008089, 0x8000000000008003,
   0x8000000000008002, 0x8000000000000080, 0x000000000000800A, 0x800000008000000A,
   0x8000000080008081, 0x8000000000008080, 0x0000000080000001, 0x8000000080008008]

def blank : State := List.replicate 5 (List.replicate 5 0)

def theta (s : State) : State :=
  let parity := s.foldr mix (List.replicate 5 0)
  let beside := mix (turnBack parity) ((turn parity).map fun a => rotate a 1)
  s.map (mix beside)

def rho (s : State) : State := List.zipWith (List.zipWith rotate) s rotations

def pi : State → State
  | [[a0, a1, a2, a3, a4], [b0, b1, b2, b3, b4], [c0, c1, c2, c3, c4], [d0, d1, d2, d3, d4],
      [e0, e1, e2, e3, e4]] =>
    [[a0, b1, c2, d3, e4], [a3, b4, c0, d1, e2], [a1, b2, c3, d4, e0], [a4, b0, c1, d2, e3],
      [a2, b3, c4, d0, e1]]
  | s => s

def chi (s : State) : State :=
  s.map fun p => mix p (List.zipWith (fun b c => ~~~b &&& c) (turn p) (turn (turn p)))

def iota (constant : UInt64) : State → State
  | (a :: rest) :: planes => ((a ^^^ constant) :: rest) :: planes
  | s => s

def permute (s : State) : State :=
  roundConstants.foldl (fun s constant => iota constant (chi (pi (rho (theta s))))) s

def rate : Nat := 136

def pad (message : Bytes) : Bytes :=
  let gap := rate - message.length % rate
  message ++ (if gap = 1 then [0x81] else 0x01 :: (List.replicate (gap - 2) 0 ++ [0x80]))

def littleEndian (raw : Bytes) : UInt64 :=
  raw.foldr (fun b value => (value <<< 8) ||| b.toUInt64) 0

def laneBytes (a : UInt64) : Bytes :=
  (List.range 8).map fun k => (a >>> UInt64.ofNat (8 * k)).toUInt8

def ofBlock (block : Bytes) : State :=
  (List.range 5).map fun y => (List.range 5).map fun x =>
    littleEndian ((block.drop (8 * (5 * y + x))).take 8)

def absorb (message : Bytes) : State :=
  let padded := pad message
  (List.range (padded.length / rate)).foldl
    (fun s i => permute (List.zipWith mix s (ofBlock ((padded.drop (rate * i)).take rate))))
    blank

def squeeze (s : State) : Word :=
  ⟨(List.range 4).flatMap fun x => laneBytes ((s.headD []).getD x 0), by
    simp [List.range_succ, laneBytes]⟩

def hash (message : Bytes) : Word := squeeze (absorb message)

end TokenBridge.Keccak
