import Danus.Lib.Text
import Mathlib.Algebra.Group.Nat.Defs

/-! SHA-256 over bytes, on natural numbers below `2 ^ 32` so that the kernel can run it. -/
namespace Python.Sha256

def rotr (x n : Nat) : Nat := (x >>> n ||| x <<< (32 - n)) % 2 ^ 32

def roundConstants : List Nat := [
  0x428a2f98, 0x71374491, 0xb5c0fbcf, 0xe9b5dba5, 0x3956c25b, 0x59f111f1, 0x923f82a4, 0xab1c5ed5,
  0xd807aa98, 0x12835b01, 0x243185be, 0x550c7dc3, 0x72be5d74, 0x80deb1fe, 0x9bdc06a7, 0xc19bf174,
  0xe49b69c1, 0xefbe4786, 0x0fc19dc6, 0x240ca1cc, 0x2de92c6f, 0x4a7484aa, 0x5cb0a9dc, 0x76f988da,
  0x983e5152, 0xa831c66d, 0xb00327c8, 0xbf597fc7, 0xc6e00bf3, 0xd5a79147, 0x06ca6351, 0x14292967,
  0x27b70a85, 0x2e1b2138, 0x4d2c6dfc, 0x53380d13, 0x650a7354, 0x766a0abb, 0x81c2c92e, 0x92722c85,
  0xa2bfe8a1, 0xa81a664b, 0xc24b8b70, 0xc76c51a3, 0xd192e819, 0xd6990624, 0xf40e3585, 0x106aa070,
  0x19a4c116, 0x1e376c08, 0x2748774c, 0x34b0bcb5, 0x391c0cb3, 0x4ed8aa4a, 0x5b9cca4f, 0x682e6ff3,
  0x748f82ee, 0x78a5636f, 0x84c87814, 0x8cc70208, 0x90befffa, 0xa4506ceb, 0xbef9a3f7, 0xc67178f2]

def initialState : List Nat := [
  0x6a09e667, 0xbb67ae85, 0x3c6ef372, 0xa54ff53a, 0x510e527f, 0x9b05688c, 0x1f83d9ab, 0x5be0cd19]

def smallSigma0 (x : Nat) : Nat := rotr x 7 ^^^ rotr x 18 ^^^ (x >>> 3)
def smallSigma1 (x : Nat) : Nat := rotr x 17 ^^^ rotr x 19 ^^^ (x >>> 10)
def bigSigma0 (x : Nat) : Nat := rotr x 2 ^^^ rotr x 13 ^^^ rotr x 22
def bigSigma1 (x : Nat) : Nat := rotr x 6 ^^^ rotr x 11 ^^^ rotr x 25
def choose (x y z : Nat) : Nat := (x &&& y) ^^^ ((2 ^ 32 - 1 - x) &&& z)
def majority (x y z : Nat) : Nat := (x &&& y) ^^^ (x &&& z) ^^^ (y &&& z)

/-- `n` further words of the message schedule, which is kept newest first. -/
def extendSchedule : Nat → List Nat → List Nat
  | 0, ws => ws
  | n + 1, ws =>
    extendSchedule n
      ((smallSigma1 (ws.getD 1 0) + ws.getD 6 0 + smallSigma0 (ws.getD 14 0) + ws.getD 15 0) %
        2 ^ 32 :: ws)

def compressRound (state : List Nat) (kw : Nat × Nat) : List Nat :=
  match state with
  | [a, b, c, d, e, f, g, h] =>
    let t1 := (h + bigSigma1 e + choose e f g + kw.1 + kw.2) % 2 ^ 32
    let t2 := (bigSigma0 a + majority a b c) % 2 ^ 32
    [(t1 + t2) % 2 ^ 32, a, b, c, (d + t1) % 2 ^ 32, e, f, g]
  | _ => state

def compressBlock (state block : List Nat) : List Nat :=
  let schedule := (extendSchedule 48 block.reverse).reverse
  List.zipWith (fun x y => (x + y) % 2 ^ 32) state
    ((roundConstants.zip schedule).foldl compressRound state)

/-- Big-endian 32-bit words. -/
def toWords : List Nat → List Nat
  | a :: b :: c :: d :: rest => (((a * 256 + b) * 256 + c) * 256 + d) :: toWords rest
  | _ => []

def padMessage (bytes : List Nat) : List Nat :=
  let n := bytes.length
  bytes ++ [0x80] ++ List.replicate ((119 - n % 64) % 64) 0 ++
    (List.range 8).reverse.map fun i => (8 * n) >>> (8 * i) % 256

/-- Blocks of sixteen words; the first argument bounds the number of blocks. -/
def toBlocks : Nat → List Nat → List (List Nat)
  | 0, _ => []
  | n + 1, ws => if ws.isEmpty then [] else ws.take 16 :: toBlocks n (ws.drop 16)

def digestWords (bytes : List Nat) : List Nat :=
  let ws := toWords (padMessage bytes)
  (toBlocks ws.length ws).foldl compressBlock initialState

def hexDigit (n : Nat) : Char := "0123456789abcdef".toList.getD (n % 16) '0'

def wordHex (w : Nat) : PyStr := (List.range 8).reverse.map fun i => hexDigit (w >>> (4 * i))

/-- `hashlib.sha256(data).hexdigest()` -/
def hexdigest (bytes : List Nat) : PyStr := (digestWords bytes).flatMap wordHex

theorem compressRound_length (state : List Nat) (kw : Nat × Nat) :
    (compressRound state kw).length = state.length := by
  unfold compressRound
  split <;> rfl

theorem compressRounds_length (kws : List (Nat × Nat)) (state : List Nat) :
    (kws.foldl compressRound state).length = state.length := by
  induction kws generalizing state with
  | nil => rfl
  | cons kw kws ih => rw [List.foldl_cons, ih, compressRound_length]

theorem compressBlock_length (state block : List Nat) :
    (compressBlock state block).length = state.length := by
  simp [compressBlock, compressRounds_length]

theorem digestWords_length (bytes : List Nat) : (digestWords bytes).length = 8 := by
  have key : ∀ (blocks : List (List Nat)) (state : List Nat),
      (blocks.foldl compressBlock state).length = state.length := by
    intro blocks
    induction blocks with
    | nil => intro state; rfl
    | cons b bs ih => intro state; rw [List.foldl_cons, ih, compressBlock_length]
  exact key _ _

theorem hexDigit_isHex (n : Nat) : isHex (hexDigit n) = true := by
  have key : ∀ k < 16, isHex ("0123456789abcdef".toList.getD k '0') = true := by decide
  exact key _ (Nat.mod_lt _ (by decide))

theorem wordHex_length (w : Nat) : (wordHex w).length = 8 := by simp [wordHex]

theorem flatMap_wordHex_length (ws : List Nat) : (ws.flatMap wordHex).length = 8 * ws.length := by
  induction ws with
  | nil => rfl
  | cons w ws ih => rw [List.flatMap_cons, List.length_append, ih, wordHex_length, List.length_cons]; omega

/-- A digest is sixty-four lowercase hexadecimal characters. -/
theorem hexdigest_isHexOf (bytes : List Nat) : isHexOf 64 (hexdigest bytes) = true := by
  have hl : (hexdigest bytes).length = 64 := by
    rw [hexdigest, flatMap_wordHex_length, digestWords_length]
  have ha : ∀ c ∈ hexdigest bytes, isHex c = true := by
    intro c hc
    simp only [hexdigest, List.mem_flatMap, wordHex, List.mem_map] at hc
    obtain ⟨w, _, i, _, rfl⟩ := hc
    exact hexDigit_isHex _
  simp [isHexOf, hl, List.all_eq_true.mpr ha]

end Python.Sha256
