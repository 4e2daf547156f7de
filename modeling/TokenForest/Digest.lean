/-!
# SHA-1 digests

The 160-bit digest of a list of bytes, as five 32-bit words and as hexadecimal text.
-/

namespace TokenForest

namespace Digest

/-- Eight bytes of a number, the most significant first. -/
def eightBytes (n : Nat) : List UInt8 := (List.range 8).map (fun i => UInt8.ofNat (n >>> (8 * (7 - i))))

/-- The message with a one bit, zeros up to 8 bytes short of a multiple of 64, and its length in bits. -/
def padded (message : List UInt8) : List UInt8 :=
  let zeros := (119 - message.length % 64) % 64
  message ++ [0x80] ++ List.replicate zeros 0 ++ eightBytes (8 * message.length)

/-- The 32-bit word of four bytes, the most significant first. -/
def word (a b c d : UInt8) : UInt32 :=
  (a.toUInt32 <<< 24) ||| (b.toUInt32 <<< 16) ||| (c.toUInt32 <<< 8) ||| d.toUInt32

/-- The words of a list of bytes; what does not fill a word is dropped. -/
def words : List UInt8 → List UInt32
  | a :: b :: c :: d :: rest => word a b c d :: words rest
  | _ => []

/-- The lists of sixteen words that a list starts with; `fuel` bounds their number. -/
def blocks : Nat → List UInt32 → List (List UInt32)
  | 0, _ => []
  | fuel + 1, ws => if ws.length < 16 then [] else ws.take 16 :: blocks fuel (ws.drop 16)

/-- The word turned left by some bits. -/
def rotate (x : UInt32) (n : UInt32) : UInt32 := (x <<< n) ||| (x >>> (32 - n))

/-- One more word of the schedule, from those 3, 8, 14 and 16 places back. -/
def extend (schedule : Array UInt32) : Array UInt32 :=
  let n := schedule.size
  let back (k : Nat) : UInt32 := schedule.getD (n - k) 0
  schedule.push (rotate (back 3 ^^^ back 8 ^^^ back 14 ^^^ back 16) 1)

/-- The eighty words that a block of sixteen is stretched to. -/
def schedule (block : List UInt32) : List UInt32 :=
  ((List.range 64).foldl (fun s _ => extend s) block.toArray).toList

/-- Five words. -/
structure State where
  a : UInt32
  b : UInt32
  c : UInt32
  d : UInt32
  e : UInt32
  deriving DecidableEq, Repr

/-- The mixing function and the constant of a step. -/
def mix (step : Nat) (b c d : UInt32) : UInt32 × UInt32 :=
  if step < 20 then ((b &&& c) ||| (~~~b &&& d), 0x5a827999)
  else if step < 40 then (b ^^^ c ^^^ d, 0x6ed9eba1)
  else if step < 60 then ((b &&& c) ||| (b &&& d) ||| (c &&& d), 0x8f1bbcdc)
  else (b ^^^ c ^^^ d, 0xca62c1d6)

/-- One step with a word of the schedule. -/
def step (s : State) (entry : UInt32 × Nat) : State :=
  let (f, k) := mix entry.2 s.b s.c s.d
  ⟨rotate s.a 5 + f + s.e + k + entry.1, s.a, rotate s.b 30, s.c, s.d⟩

/-- The state after one block. -/
def absorb (s : State) (block : List UInt32) : State :=
  let t := (schedule block).zipIdx.foldl step s
  ⟨s.a + t.a, s.b + t.b, s.c + t.c, s.d + t.d, s.e + t.e⟩

/-- The state before the first block. -/
def initial : State := ⟨0x67452301, 0xefcdab89, 0x98badcfe, 0x10325476, 0xc3d2e1f0⟩

/-- The digest of a message. -/
def sha1 (message : List UInt8) : State :=
  let bytes := padded message
  (blocks bytes.length (words bytes)).foldl absorb initial

/-- The eight hexadecimal digits of a word. -/
def hexWord (x : UInt32) : String :=
  String.ofList ((List.range 8).map (fun i => Nat.digitChar ((x.toNat >>> (4 * (7 - i))) % 16)))

/-- The forty hexadecimal digits of a digest. -/
def State.hex (s : State) : String := String.join ([s.a, s.b, s.c, s.d, s.e].map hexWord)

end Digest

end TokenForest
