import V9xRemote.Lib.Bytes

/-!
# The Data Encryption Standard (FIPS 46-3)

A block and a key are strings of 64 bits, numbered from 1 on from the left. The tables that
follow a rule are computed by it, and the final permutation is the inverse of the initial one;
the compression functions, `P` and the second choice are as published.
-/

namespace Des

abbrev Bits := List Bool

/-! ## Strings of bits -/

/-- The bits of a string of bytes, each byte's highest first. -/
def bits (s : Bytes) : Bits := s.flatMap fun b => (List.range 8).map fun i => b.toBitVec.getMsbD i

/-- The bits that a table numbers. -/
def select (table : List ℕ) (x : Bits) : Bits := table.map fun n => x.getD (n - 1) false

/-- Addition modulo 2. -/
def add (x y : Bits) : Bits := List.zipWith (· ^^ ·) x y

/-- The number that bits are the digits of. -/
def number (x : Bits) : ℕ := x.foldl (fun n b => 2 * n + b.toNat) 0

/-- The four bits of a number below 16. -/
def nibble (n : ℕ) : Bits := [n.testBit 3, n.testBit 2, n.testBit 1, n.testBit 0]

/-! ## The tables -/

/-- `IP`: the columns from the second bit of each byte on, each from the last byte up. -/
def ip : List ℕ := (List.range 64).map fun i => (if i < 32 then 58 + 2 * (i / 8) else 57 + 2 * (i / 8 - 4)) - 8 * (i % 8)

/-- `IP⁻¹`. -/
def ipInverse : List ℕ := (List.range 64).map fun i => ip.idxOf (i + 1) + 1

/-- `E`: each four bits with their neighbours on both sides. -/
def expansion : List ℕ := (List.range 48).map fun i => (4 * (i / 6) + i % 6 + 31) % 32 + 1

def p : List ℕ :=
  [16, 7, 20, 21, 29, 12, 28, 17, 1, 15, 23, 26, 5, 18, 31, 10, 2, 8, 24, 14, 32, 27, 3, 9, 19, 13, 30, 6, 22, 11, 4, 25]

/-- The first permuted choice, of the register `C`: columns from the left. -/
def choiceC : List ℕ := (List.range 28).map fun i => 57 + i / 8 - 8 * (i % 8)

/-- The first permuted choice, of the register `D`: columns from the right, and the rest of the
middle one. -/
def choiceD : List ℕ := (List.range 28).map fun i => if i < 24 then 63 - i / 8 - 8 * (i % 8) else 28 - 8 * (i - 24)

/-- The second permuted choice. -/
def choice2 : List ℕ :=
  [14, 17, 11, 24, 1, 5, 3, 28, 15, 6, 21, 10, 23, 19, 12, 4, 26, 8, 16, 7, 27, 20, 13, 2, 41, 52, 31, 37, 47, 55, 30,
    40, 51, 45, 33, 48, 44, 49, 39, 56, 34, 53, 46, 42, 50, 36, 29, 32]

/-- The left shifts of each iteration: two, but one in the first two, the ninth and the last. -/
def shifts : List ℕ := (List.range 16).map fun i => if i = 0 ∨ i = 1 ∨ i = 8 ∨ i = 15 then 1 else 2

/-- The rows of `S1` to `S8`. -/
def sBoxes : List (List (List ℕ)) :=
  [[[14, 4, 13, 1, 2, 15, 11, 8, 3, 10, 6, 12, 5, 9, 0, 7],
    [0, 15, 7, 4, 14, 2, 13, 1, 10, 6, 12, 11, 9, 5, 3, 8],
    [4, 1, 14, 8, 13, 6, 2, 11, 15, 12, 9, 7, 3, 10, 5, 0],
    [15, 12, 8, 2, 4, 9, 1, 7, 5, 11, 3, 14, 10, 0, 6, 13]],
   [[15, 1, 8, 14, 6, 11, 3, 4, 9, 7, 2, 13, 12, 0, 5, 10],
    [3, 13, 4, 7, 15, 2, 8, 14, 12, 0, 1, 10, 6, 9, 11, 5],
    [0, 14, 7, 11, 10, 4, 13, 1, 5, 8, 12, 6, 9, 3, 2, 15],
    [13, 8, 10, 1, 3, 15, 4, 2, 11, 6, 7, 12, 0, 5, 14, 9]],
   [[10, 0, 9, 14, 6, 3, 15, 5, 1, 13, 12, 7, 11, 4, 2, 8],
    [13, 7, 0, 9, 3, 4, 6, 10, 2, 8, 5, 14, 12, 11, 15, 1],
    [13, 6, 4, 9, 8, 15, 3, 0, 11, 1, 2, 12, 5, 10, 14, 7],
    [1, 10, 13, 0, 6, 9, 8, 7, 4, 15, 14, 3, 11, 5, 2, 12]],
   [[7, 13, 14, 3, 0, 6, 9, 10, 1, 2, 8, 5, 11, 12, 4, 15],
    [13, 8, 11, 5, 6, 15, 0, 3, 4, 7, 2, 12, 1, 10, 14, 9],
    [10, 6, 9, 0, 12, 11, 7, 13, 15, 1, 3, 14, 5, 2, 8, 4],
    [3, 15, 0, 6, 10, 1, 13, 8, 9, 4, 5, 11, 12, 7, 2, 14]],
   [[2, 12, 4, 1, 7, 10, 11, 6, 8, 5, 3, 15, 13, 0, 14, 9],
    [14, 11, 2, 12, 4, 7, 13, 1, 5, 0, 15, 10, 3, 9, 8, 6],
    [4, 2, 1, 11, 10, 13, 7, 8, 15, 9, 12, 5, 6, 3, 0, 14],
    [11, 8, 12, 7, 1, 14, 2, 13, 6, 15, 0, 9, 10, 4, 5, 3]],
   [[12, 1, 10, 15, 9, 2, 6, 8, 0, 13, 3, 4, 14, 7, 5, 11],
    [10, 15, 4, 2, 7, 12, 9, 5, 6, 1, 13, 14, 0, 11, 3, 8],
    [9, 14, 15, 5, 2, 8, 12, 3, 7, 0, 4, 10, 1, 13, 11, 6],
    [4, 3, 2, 12, 9, 5, 15, 10, 11, 14, 1, 7, 6, 0, 8, 13]],
   [[4, 11, 2, 14, 15, 0, 8, 13, 3, 12, 9, 7, 5, 10, 6, 1],
    [13, 0, 11, 7, 4, 9, 1, 10, 14, 3, 5, 12, 2, 15, 8, 6],
    [1, 4, 11, 13, 12, 3, 7, 14, 10, 15, 6, 8, 0, 5, 9, 2],
    [6, 11, 13, 8, 1, 4, 10, 7, 9, 5, 0, 15, 14, 2, 3, 12]],
   [[13, 2, 8, 4, 6, 15, 11, 1, 10, 9, 3, 14, 5, 0, 12, 7],
    [1, 15, 13, 8, 10, 3, 7, 4, 12, 5, 6, 11, 0, 14, 9, 2],
    [7, 11, 4, 1, 9, 12, 14, 2, 0, 6, 10, 13, 15, 3, 5, 8],
    [2, 1, 14, 7, 4, 10, 8, 13, 15, 12, 9, 0, 3, 5, 6, 11]]]

/-! ## The cipher -/

/-- A selection function: the outer bits choose the row, the inner four the column. -/
def sBox (rows : List (List ℕ)) (b : Bits) : Bits :=
  nibble ((rows.getD (number [b.getD 0 false, b.getD 5 false]) []).getD (number ((b.drop 1).take 4)) 0)

/-- `f(R, K) = P(S1(B1) … S8(B8))`, where `B1 … B8 = K ⊕ E(R)`. -/
def f (r k : Bits) : Bits :=
  let b := add k (select expansion r)
  select p ((List.range 8).flatMap fun i => sBox (sBoxes.getD i []) ((b.drop (6 * i)).take 6))

/-- The registers `C` and `D` after the shifts of the first iterations. -/
def registers (key : Bits) (shifts : List ℕ) : Bits × Bits :=
  shifts.foldl (fun (c, d) n => (c.rotate n, d.rotate n)) (select choiceC key, select choiceD key)

/-- `K_n`, for `n` from 0 on. -/
def roundKey (key : Bits) (n : ℕ) : Bits :=
  let (c, d) := registers key (shifts.take (n + 1))
  select choice2 (c ++ d)

/-- An iteration: `L' = R`, `R' = L ⊕ f(R, K)`. -/
def iteration (lr : Bits × Bits) (k : Bits) : Bits × Bits := (lr.2, add lr.1 (f lr.2 k))

/-- The enciphering computation: the preoutput block is `R16 L16`. -/
def encipher (key block : Bits) : Bits :=
  let start := select ip block
  let (l, r) := (List.range 16).foldl (fun lr n => iteration lr (roundKey key n)) (start.take 32, start.drop 32)
  select ipInverse (r ++ l)

/-- The bytes that bits make, eight for each. -/
def bytes (x : Bits) : Bytes := (List.range (x.length / 8)).map fun i => UInt8.ofNat (number ((x.drop (8 * i)).take 8))

/-! ## Lengths -/

@[simp] theorem select_length (table : List ℕ) (x : Bits) : (select table x).length = table.length := List.length_map _

theorem add_length (x y : Bits) : (add x y).length = min x.length y.length := List.length_zipWith

@[simp] theorem bits_cons (b : UInt8) (s : Bytes) :
    bits (b :: s) = (List.range 8).map (fun i => b.toBitVec.getMsbD i) ++ bits s := rfl

theorem bits_length (s : Bytes) : (bits s).length = 8 * s.length := by
  induction s with
  | nil => rfl
  | cons b s ih =>
    rw [bits_cons, List.length_append, ih, List.length_map, List.length_range, List.length_cons]
    omega

theorem number_byte (b : UInt8) : number ((List.range 8).map fun i => b.toBitVec.getMsbD i) = b.toNat := by
  have hall : ∀ x : BitVec 8, number ((List.range 8).map fun i => x.getMsbD i) = x.toNat := by decide
  exact hall b.toBitVec

/-- **The bytes of the bits of a string** are the string. -/
theorem bytes_bits (s : Bytes) : bytes (bits s) = s := by
  apply List.ext_getElem
  · rw [bytes, List.length_map, List.length_range, bits_length]
    omega
  · intro i h1 h2
    have hbits : bits s = bits (s.take i) ++ bits (s.drop i) := by
      rw [bits, bits, bits, ← List.flatMap_append, List.take_append_drop]
    have htake : (bits (s.take i)).length = 8 * i := by
      rw [bits_length, List.length_take_of_le (by omega)]
    have hbyte : ((bits s).drop (8 * i)).take 8 = (List.range 8).map fun j => s[i].toBitVec.getMsbD j := by
      rw [hbits, ← htake, List.drop_left, List.drop_eq_getElem_cons h2, bits_cons]
      exact List.take_left' (by simp)
    simp only [bytes, List.getElem_map, List.getElem_range, hbyte, number_byte]
    exact UInt8.ofNat_toNat

end Des
