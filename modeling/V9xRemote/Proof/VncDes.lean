import Mathlib.Data.List.Rotate
import Mathlib.Tactic.IntervalCases
import V9xRemote.Lib.Des
import V9xRemote.Spec.VncDes

/-!
# The VNC password check is DES

The routine of `src/guest/vncdes.c` keeps each bit in a byte (`unbits`). Its tables are those of
the standard, its loops are the standard's operations on such strings, and so its rounds are the
standard's (`vncDesRounds`). `vncAuth_des` says it of every key, block, password and challenge.
-/

namespace V9xRemote

open Bytes Des

/-! ## A bit in a byte -/

def bitByte (b : Bool) : UInt8 := if b then 1 else 0

def unbits (x : Bits) : Bytes := x.map bitByte

@[simp] theorem unbits_length (x : Bits) : (unbits x).length = x.length := List.length_map _

theorem unbits_append (x y : Bits) : unbits (x ++ y) = unbits x ++ unbits y := List.map_append

theorem unbits_at (x : Bits) (i : ℕ) : (unbits x).at' i = bitByte (x.getD i false) := by
  unfold unbits at'
  rw [List.getD_eq_getElem?_getD, List.getD_eq_getElem?_getD, List.getElem?_map]
  cases x[i]? <;> rfl

theorem bitByte_xor (a b : Bool) : bitByte a ^^^ bitByte b = bitByte (a ^^ b) := by
  cases a <;> cases b <;> rfl

theorem shiftRight_and_one (c : UInt8) {k : ℕ} (hk : k < 8) :
    (c >>> UInt8.ofNat k) &&& 1 = bitByte (c.toBitVec.getLsbD k) := by
  apply UInt8.toBitVec_inj.1
  have hshift : (c >>> UInt8.ofNat k).toBitVec = c.toBitVec >>> k := by
    apply BitVec.eq_of_toNat_eq
    rw [UInt8.toNat_toBitVec, UInt8.toNat_shiftRight, BitVec.toNat_ushiftRight, UInt8.toNat_toBitVec, UInt8.toNat_ofNat']
    congr 1
    omega
  rw [UInt8.toBitVec_and, hshift]
  show c.toBitVec >>> k &&& 1#8 = _
  rw [BitVec.and_one_eq_setWidth_ofBool_getLsbD, BitVec.getLsbD_ushiftRight, Nat.add_zero]
  cases c.toBitVec.getLsbD k <;> rfl

/-! ## Strings of bytes -/

/-- A bit of a string of bytes. -/
theorem bits_getD (s : Bytes) (i : ℕ) : (bits s).getD i false = (s.at' (i / 8)).toBitVec.getMsbD (i % 8) := by
  induction s generalizing i with
  | nil => simp [bits, at']
  | cons b s ih =>
    rw [bits_cons, List.getD_eq_getElem?_getD]
    by_cases hi : i < 8
    · have hzero : i / 8 = 0 := by omega
      have hmod : i % 8 = i := by omega
      rw [List.getElem?_append_left (by simpa using hi), hzero, hmod]
      simp [at', hi]
    · -- the rest of the string
      have hdiv : i / 8 = (i - 8) / 8 + 1 := by omega
      have hmod : i % 8 = (i - 8) % 8 := by omega
      rw [List.getElem?_append_right (by simpa using hi), List.length_map, List.length_range, ← List.getD_eq_getElem?_getD, ih,
        hdiv, hmod]
      rfl

/-- Strings of the same length with the same bits. -/
theorem bits_ext {x y : Bits} (hlength : x.length = y.length) (h : ∀ i < x.length, x.getD i false = y.getD i false) : x = y := by
  apply List.ext_getElem hlength
  intro i hx hy
  have hi := h i hx
  rwa [List.getD_eq_getElem?_getD, List.getD_eq_getElem?_getD, List.getElem?_eq_getElem hx, List.getElem?_eq_getElem hy] at hi

theorem unpack_eq {s : Bytes} (hs : s.length = 8) : vncDesUnpack s 64 = unbits (bits s) := by
  unfold vncDesUnpack unbits
  apply List.ext_getElem
  · rw [List.length_map, List.length_range, List.length_map, bits_length, hs]
  · intro i h1 h2
    have hbit := bits_getD s i
    have hi : i < (bits s).length := by rwa [List.length_map] at h2
    rw [List.getD_eq_getElem?_getD, List.getElem?_eq_getElem hi, Option.getD_some] at hbit
    rw [List.getElem_map, List.getElem_map, List.getElem_range, hbit, shiftRight_and_one _ (by omega), BitVec.getMsbD]
    have hlt : i % 8 < 8 := Nat.mod_lt _ (by decide)
    simp [hlt]

/-- **A permutation selects** the bits that its table numbers. -/
theorem permute_eq (x : Bits) {table : List ℕ} {count : ℕ} (hcount : table.length = count) :
    vncDesPermute (unbits x) table count = unbits (select table x) := by
  unfold vncDesPermute select unbits
  rw [List.map_map]
  apply List.ext_getElem
  · rw [List.length_map, List.length_range, List.length_map, hcount]
  · intro i h1 h2
    have hi : i < table.length := by simpa using h2
    rw [List.getElem_map, List.getElem_map, List.getElem_range, List.getD_eq_getElem?_getD, List.getElem?_eq_getElem hi]
    exact unbits_at x _

/-! ## The key schedule -/

theorem at'_middle (a : Bytes) {b : Bytes} (z : Bytes) {i : ℕ} (hi : i < b.length) : (a ++ (b ++ z)).at' (a.length + i) = b[i] := by
  unfold at'
  rw [List.getD_eq_getElem?_getD, List.getElem?_append_right (Nat.le_add_right _ _), Nat.add_sub_cancel_left,
    List.getElem?_append_left hi, List.getElem?_eq_getElem hi, Option.getD_some]

theorem set_middle (a : Bytes) {b : Bytes} (z : Bytes) {i : ℕ} (c : UInt8) (hi : i < b.length) :
    (a ++ (b ++ z)).set (a.length + i) c = a ++ (b.set i c ++ z) := by
  rw [List.set_append_right _ _ (Nat.le_add_right _ _), Nat.add_sub_cancel_left, List.set_append_left _ _ hi]

/-- The loop moves the bytes behind the first of a half one place down. -/
theorem rotate_loop (a z : Bytes) (x : UInt8) (rest : Bytes) {n : ℕ} (hn : n ≤ rest.length) :
    (List.range n).foldl (fun cd index => cd.set (a.length + index) (at' cd (a.length + index + 1))) (a ++ ((x :: rest) ++ z)) =
      a ++ ((rest.take n ++ (x :: rest).drop n) ++ z) := by
  induction n with
  | zero => rfl
  | succ n ih =>
    have hlength : (rest.take n ++ (x :: rest).drop n).length = rest.length + 1 := by
      simp
      omega
    have hbound : n + 1 < (rest.take n ++ (x :: rest).drop n).length := by omega
    -- the byte that moves next is still in its place
    have hnext : (rest.take n ++ (x :: rest).drop n)[n + 1] = rest[n] := by
      rw [List.getElem_append_right (by simp)]
      simp [Nat.min_eq_left (show n ≤ rest.length by omega)]
    rw [List.range_succ, List.foldl_append, ih (by omega), List.foldl_cons, List.foldl_nil, Nat.add_assoc,
      at'_middle a z (by omega), set_middle a z _ (by omega), hnext]
    congr 2
    rw [List.set_append_right _ _ (by simp), List.length_take, Nat.min_eq_left (show n ≤ rest.length by omega), Nat.sub_self,
      List.drop_eq_getElem_cons (by simp; omega), List.set_cons_zero, ← List.take_append_getElem (show n < rest.length by omega),
      List.append_assoc]
    rfl

/-- **A rotation** of one half. -/
theorem vncDesRotate_eq (a z : Bytes) {half : Bytes} (hhalf : half.length = 28) :
    vncDesRotate (a ++ (half ++ z)) a.length = a ++ (half.rotate 1 ++ z) := by
  obtain ⟨x, rest, rfl⟩ := List.exists_cons_of_length_eq_add_one hhalf
  have hrest : rest.length = 27 := by simpa using hhalf
  have htemp : (a ++ ((x :: rest) ++ z)).at' a.length = x := at'_middle a z (b := x :: rest) (i := 0) (Nat.succ_pos _)
  unfold vncDesRotate
  dsimp only
  rw [htemp, rotate_loop a z x rest (le_of_eq hrest.symm), set_middle a z x (by simp [hrest]), List.rotate_cons_succ,
    List.rotate_zero]
  congr 2
  -- the loop leaves the last byte, which the saved one replaces
  have hlast : (x :: rest).drop 27 = [(x :: rest)[27]] := by
    rw [List.drop_eq_getElem_cons (by omega), List.drop_eq_nil_of_le (by omega)]
  rw [← hrest, List.take_length, List.set_append_right _ _ le_rfl, Nat.sub_self, hrest, hlast, List.set_cons_zero]

theorem rotate_unbits (x : Bits) (n : ℕ) : (unbits x).rotate n = unbits (x.rotate n) := (List.map_rotate _ _ _).symm

/-- **The left shifts** of an iteration. -/
theorem vncDesShift_eq {c d : Bits} (hc : c.length = 28) (hd : d.length = 28) (n : ℕ) :
    vncDesShift (unbits (c ++ d)) n = unbits (c.rotate n ++ d.rotate n) := by
  unfold vncDesShift
  induction n generalizing c d with
  | zero => rw [List.rotate_zero, List.rotate_zero]; rfl
  | succ n ih =>
    have hfirst : vncDesRotate (unbits (c ++ d)) 0 = unbits (c.rotate 1 ++ d) := by
      have h := @vncDesRotate_eq [] (unbits d) (unbits c) (by simpa using hc)
      rw [rotate_unbits] at h
      rw [unbits_append, unbits_append]
      exact h
    have hsecond : vncDesRotate (unbits (c.rotate 1 ++ d)) 28 = unbits (c.rotate 1 ++ d.rotate 1) := by
      have h := @vncDesRotate_eq (unbits (c.rotate 1)) [] (unbits d) (by simpa using hd)
      rw [rotate_unbits, List.append_nil, List.append_nil, unbits_length, List.length_rotate, hc] at h
      rw [unbits_append, unbits_append]
      exact h
    rw [Function.iterate_succ_apply, hfirst, hsecond, ih (by rw [List.length_rotate, hc]) (by rw [List.length_rotate, hd]),
      List.rotate_rotate, List.rotate_rotate, Nat.add_comm 1 n]

/-! ## The S-boxes -/

theorem vncDesS_eq : vncDesS = sBoxes.map List.flatten := rfl

/-- Four rows of sixteen. -/
theorem sBoxes_rows : ∀ rows ∈ sBoxes, ∀ row ∈ rows, row.length = 16 := by decide

/-- A table of rows, read by row and column. -/
theorem flatten_getD {rows : List (List ℕ)} (hrows : ∀ row ∈ rows, row.length = 16) (r : ℕ) {c : ℕ} (hc : c < 16) :
    rows.flatten.getD (r * 16 + c) 0 = (rows.getD r []).getD c 0 := by
  induction rows generalizing r with
  | nil => simp
  | cons row rows ih =>
    have hlength := hrows row List.mem_cons_self
    rw [List.flatten_cons, List.getD_eq_getElem?_getD]
    cases r with
    | zero =>
      rw [Nat.zero_mul, Nat.zero_add, List.getElem?_append_left (by omega)]
      simp
    | succ r =>
      rw [List.getElem?_append_right (by omega), hlength, show (r + 1) * 16 + c - 16 = r * 16 + c by omega,
        ← List.getD_eq_getElem?_getD, ih (fun row h => hrows row (List.mem_cons_of_mem _ h))]
      rfl

theorem row_number (b0 b5 : Bool) : ((bitByte b0).toNat <<< 1) ||| (bitByte b5).toNat = number [b0, b5] := by
  cases b0 <;> cases b5 <;> rfl

theorem column_number (b1 b2 b3 b4 : Bool) :
    ((bitByte b1).toNat <<< 3) ||| ((bitByte b2).toNat <<< 2) ||| ((bitByte b3).toNat <<< 1) ||| (bitByte b4).toNat =
      number [b1, b2, b3, b4] := by
  cases b1 <;> cases b2 <;> cases b3 <;> cases b4 <;> rfl

theorem number_lt (x : Bits) : number x < 2 ^ x.length := by
  induction x using List.reverseRecOn with
  | nil => exact Nat.one_pos
  | append_singleton x b ih =>
    have hb := b.toNat_lt
    unfold number at ih ⊢
    rw [List.foldl_append, List.length_append, List.length_singleton, pow_succ]
    simp only [List.foldl_cons, List.foldl_nil]
    omega

theorem bit_byte (v i : ℕ) : UInt8.ofNat ((v >>> i) &&& 1) = bitByte (v.testBit i) := by
  rw [Nat.testBit, Nat.and_comm 1, Nat.and_one_is_mod]
  rcases Nat.mod_two_eq_zero_or_one (v >>> i) with h | h <;> rw [h] <;> rfl

theorem take_six {x : Bits} {i : ℕ} (hi : i + 6 ≤ x.length) :
    (x.drop i).take 6 = [x.getD i false, x.getD (i + 1) false, x.getD (i + 2) false, x.getD (i + 3) false,
      x.getD (i + 4) false, x.getD (i + 5) false] := by
  apply bits_ext
  · simp
    omega
  · intro j hj
    have hj6 : j < 6 := lt_of_lt_of_le hj (List.length_take_le _ _)
    have hget : ((x.drop i).take 6).getD j false = x.getD (i + j) false := by
      rw [List.getD_eq_getElem?_getD, List.getElem?_take_of_lt hj6, List.getElem?_drop, List.getD_eq_getElem?_getD]
    rw [hget]
    interval_cases j <;> rfl

/-- **The S-boxes**: each six bits choose four. -/
theorem vncDesSbox_eq {x : Bits} (hx : x.length = 48) :
    vncDesSbox (unbits x) = unbits ((List.range 8).flatMap fun i => sBox (sBoxes.getD i []) ((x.drop (6 * i)).take 6)) := by
  unfold vncDesSbox unbits
  rw [List.map_flatMap]
  apply List.flatMap_congr
  intro i hi
  have hi8 : i < 8 := List.mem_range.1 hi
  have hsix : ∀ j, at' ((x.map bitByte).drop (i * 6)) j = bitByte (x.getD (i * 6 + j) false) := by
    intro j
    rw [at'_drop]
    exact unbits_at x _
  have hrows : ∀ row ∈ sBoxes.getD i [], row.length = 16 := by
    have hmem : sBoxes.getD i [] ∈ sBoxes := by
      rw [List.getD_eq_getElem?_getD, List.getElem?_eq_getElem hi8]
      exact List.getElem_mem hi8
    exact sBoxes_rows _ hmem
  have htable : vncDesS.getD i [] = (sBoxes.getD i []).flatten := by
    rw [vncDesS_eq, List.getD_eq_getElem?_getD, List.getD_eq_getElem?_getD, List.getElem?_map]
    cases sBoxes[i]? <;> rfl
  dsimp only
  rw [hsix 0, hsix 1, hsix 2, hsix 3, hsix 4, hsix 5, row_number, column_number, htable,
    flatten_getD hrows _ (number_lt [_, _, _, _]), bit_byte, bit_byte, bit_byte, Nat.mul_comm 6 i,
    take_six (show i * 6 + 6 ≤ x.length by omega)]
  -- the source does not shift the lowest bit
  have hlast := bit_byte (((sBoxes.getD i []).getD (number [x.getD (i * 6 + 0) false, x.getD (i * 6 + 5) false]) []).getD
    (number [x.getD (i * 6 + 1) false, x.getD (i * 6 + 2) false, x.getD (i * 6 + 3) false, x.getD (i * 6 + 4) false]) 0) 0
  rw [Nat.shiftRight_zero] at hlast
  rw [hlast]
  rfl

/-! ## A round -/

theorem unbits_add (x y : Bits) : unbits (add x y) = List.zipWith (· ^^^ ·) (unbits x) (unbits y) := by
  unfold unbits add
  rw [List.map_zipWith, List.zipWith_map]
  congr
  funext a b
  exact (bitByte_xor a b).symm

/-- Addition place by place. -/
theorem map_xor {x y : Bits} {n : ℕ} (hx : x.length = n) (hy : y.length = n) :
    ((List.range n).map fun index => (unbits x).at' index ^^^ (unbits y).at' index) = unbits (add y x) := by
  rw [unbits_add]
  apply List.ext_getElem
  · simp [hx, hy]
  · intro i h1 h2
    have hi : i < n := by simpa using h1
    rw [List.getElem_map, List.getElem_range, List.getElem_zipWith, UInt8.xor_comm]
    simp [at', hx, hy, hi]

/-- The loop that exchanges the halves, `n` places in. -/
theorem swap_loop {l r mixed : Bytes} {size : ℕ} (hl : l.length = size) (hr : r.length = size) (hm : mixed.length = size)
    {n : ℕ} (hn : n ≤ size) :
    (List.range n).foldl (fun lr index =>
        (lr.set (size + index) (at' lr index ^^^ mixed.at' index)).set index (at' lr (size + index))) (l ++ r) =
      (r.take n ++ l.drop n) ++ ((List.zipWith (· ^^^ ·) l mixed).take n ++ r.drop n) := by
  induction n with
  | zero => simp
  | succ n ih =>
    have hln : n < l.length := by omega
    have hrn : n < r.length := by omega
    have hxn : n < (List.zipWith (· ^^^ ·) l mixed).length := by rw [List.length_zipWith]; omega
    have hfirst : (r.take n ++ l.drop n).length = size := by simp; omega
    have hsecond : ((List.zipWith (· ^^^ ·) l mixed).take n ++ r.drop n).length = size := by simp; omega
    -- neither half is written yet at place `n`
    have hleft : at' ((r.take n ++ l.drop n) ++ ((List.zipWith (· ^^^ ·) l mixed).take n ++ r.drop n)) n = l[n] := by
      unfold at'
      rw [List.getD_eq_getElem?_getD, List.getElem?_append_left (by omega), List.getElem?_append_right (by simp),
        List.length_take, Nat.min_eq_left (by omega), Nat.sub_self, List.getElem?_drop, Nat.add_zero,
        List.getElem?_eq_getElem hln, Option.getD_some]
    have hright : at' ((r.take n ++ l.drop n) ++ ((List.zipWith (· ^^^ ·) l mixed).take n ++ r.drop n)) (size + n) = r[n] := by
      have hlength : ((List.zipWith (· ^^^ ·) l mixed).take n).length = n := by
        rw [List.length_take]
        omega
      unfold at'
      rw [List.getD_eq_getElem?_getD, List.getElem?_append_right (by omega), hfirst, Nat.add_sub_cancel_left,
        List.getElem?_append_right (by omega), hlength, Nat.sub_self, List.getElem?_drop, Nat.add_zero,
        List.getElem?_eq_getElem hrn, Option.getD_some]
    have hmixed : mixed.at' n = mixed[n] := by
      unfold at'
      rw [List.getD_eq_getElem?_getD, List.getElem?_eq_getElem (by omega), Option.getD_some]
    rw [List.range_succ, List.foldl_append, ih (by omega), List.foldl_cons, List.foldl_nil, hleft, hright, hmixed,
      List.set_append_right _ _ (by omega), hfirst, Nat.add_sub_cancel_left, List.set_append_left _ _ (by omega)]
    congr 1
    · rw [List.set_append_right _ _ (by simp), List.length_take, Nat.min_eq_left (by omega), Nat.sub_self,
        List.drop_eq_getElem_cons hln, List.set_cons_zero, ← List.take_append_getElem hrn, List.append_assoc]
      rfl
    · rw [List.set_append_right _ _ (by rw [List.length_take]; omega), List.length_take, Nat.min_eq_left (by omega), Nat.sub_self,
        List.drop_eq_getElem_cons hrn, List.set_cons_zero, ← List.take_append_getElem hxn, List.append_assoc,
        List.getElem_zipWith]
      rfl

/-- **The halves are exchanged**, and the left one is added to. -/
theorem vncDesSwap_eq {l r m : Bits} (hl : l.length = 32) (hr : r.length = 32) (hm : m.length = 32) :
    vncDesSwap (unbits (l ++ r)) (unbits m) = unbits (r ++ add l m) := by
  have hloop := @swap_loop (unbits l) (unbits r) (unbits m) 32 (by simpa using hl) (by simpa using hr) (by simpa using hm) 32
    le_rfl
  have hadd : (unbits (add l m)).length = 32 := by rw [unbits_length, add_length, hl, hm]; rfl
  rw [← unbits_add, List.take_of_length_le (by simp [hr]), List.drop_of_length_le (by simp [hl]),
    List.take_of_length_le hadd.le, List.drop_of_length_le (by simp [hr]), List.append_nil, List.append_nil] at hloop
  unfold vncDesSwap
  dsimp only
  rw [unbits_append, unbits_append]
  exact hloop

theorem f_length (r k : Bits) : (f r k).length = 32 := select_length _ _

/-- **A round** of the routine is an iteration of the standard. -/
theorem vncDesRound_eq {c d l r : Bits} (hc : c.length = 28) (hd : d.length = 28) (hl : l.length = 32) (hr : r.length = 32)
    (round : ℕ) :
    vncDesRound (unbits (c ++ d), unbits (l ++ r)) round =
      (unbits (c.rotate (vncDesShifts.getD round 0) ++ d.rotate (vncDesShifts.getD round 0)),
        unbits (r ++ add l (f r (select choice2
          (c.rotate (vncDesShifts.getD round 0) ++ d.rotate (vncDesShifts.getD round 0)))))) := by
  set c' := c.rotate (vncDesShifts.getD round 0)
  set d' := d.rotate (vncDesShifts.getD round 0)
  have hhalf : (unbits (l ++ r)).drop 32 = unbits r := by
    rw [unbits_append, List.drop_append_of_le_length (by simp [hl]), List.drop_of_length_le (by simp [hl]), List.nil_append]
  have hsubkey : vncDesPermute (unbits (c' ++ d')) vncDesPc2 48 = unbits (select choice2 (c' ++ d')) := permute_eq _ rfl
  have hexpanded : vncDesPermute (unbits r) vncDesE 48 = unbits (select expansion r) := by
    have htable : vncDesE = expansion := by decide
    rw [htable]
    exact permute_eq _ rfl
  have hlength : (add (select choice2 (c' ++ d')) (select expansion r)).length = 48 := by
    rw [add_length, select_length, select_length]
    rfl
  unfold vncDesRound
  dsimp only
  have hsum := @map_xor (select expansion r) (select choice2 (c' ++ d')) 48 (select_length _ _) (select_length _ _)
  have htable : vncDesP = p := by decide
  have hmixed : select p ((List.range 8).flatMap fun i => sBox (sBoxes.getD i [])
      (((add (select choice2 (c' ++ d')) (select expansion r)).drop (6 * i)).take 6)) = f r (select choice2 (c' ++ d')) := rfl
  rw [vncDesShift_eq hc hd, hsubkey, hhalf, hexpanded, hsum, vncDesSbox_eq hlength, htable, permute_eq _ (by rfl), hmixed,
    vncDesSwap_eq hl hr (f_length _ _)]

/-! ## The rounds -/

theorem registers_length (key : Bits) (shifts : List ℕ) :
    (registers key shifts).1.length = 28 ∧ (registers key shifts).2.length = 28 := by
  induction shifts using List.reverseRecOn with
  | nil => exact ⟨select_length _ _, select_length _ _⟩
  | append_singleton shifts n ih =>
    unfold registers at ih ⊢
    rw [List.foldl_append, List.foldl_cons, List.foldl_nil, List.length_rotate, List.length_rotate]
    exact ih

/-- The registers an iteration later. -/
theorem registers_succ (key : Bits) {n : ℕ} (hn : n < shifts.length) :
    registers key (shifts.take (n + 1)) =
      ((registers key (shifts.take n)).1.rotate (shifts.getD n 0), (registers key (shifts.take n)).2.rotate (shifts.getD n 0)) := by
  unfold registers
  rw [← List.take_append_getElem hn, List.foldl_append, List.getD_eq_getElem?_getD, List.getElem?_eq_getElem hn]
  rfl

/-- The halves after `n` iterations. -/
def halves (key block : Bits) (n : ℕ) : Bits × Bits :=
  (List.range n).foldl (fun lr n => iteration lr (roundKey key n)) ((select ip block).take 32, (select ip block).drop 32)

theorem halves_succ (key block : Bits) (n : ℕ) :
    halves key block (n + 1) = iteration (halves key block n) (roundKey key n) := by
  unfold halves
  rw [List.range_succ, List.foldl_append]
  rfl

theorem halves_length (key block : Bits) (n : ℕ) :
    (halves key block n).1.length = 32 ∧ (halves key block n).2.length = 32 := by
  induction n with
  | zero => exact ⟨rfl, rfl⟩
  | succ n ih =>
    rw [halves_succ]
    unfold iteration
    rw [add_length, f_length, ih.1]
    exact ⟨ih.2, rfl⟩

/-- **The rounds** of the routine are the iterations of the standard. -/
theorem vncDesRounds (key block : Bits) {n : ℕ} (hn : n ≤ 16) :
    (List.range n).foldl vncDesRound
        (unbits ((registers key []).1 ++ (registers key []).2), unbits ((halves key block 0).1 ++ (halves key block 0).2)) =
      (unbits ((registers key (shifts.take n)).1 ++ (registers key (shifts.take n)).2),
        unbits ((halves key block n).1 ++ (halves key block n).2)) := by
  induction n with
  | zero => rfl
  | succ n ih =>
    have hshifts : vncDesShifts = shifts := by decide
    have hregisters := registers_succ key (show n < shifts.length from hn)
    obtain ⟨hc, hd⟩ := registers_length key (shifts.take n)
    obtain ⟨hl, hr⟩ := halves_length key block n
    have hkey : roundKey key n = select choice2
        ((registers key (shifts.take n)).1.rotate (shifts.getD n 0) ++ (registers key (shifts.take n)).2.rotate (shifts.getD n 0)) := by
      unfold roundKey
      rw [hregisters]
    rw [List.range_succ, List.foldl_append, ih (by omega), List.foldl_cons, List.foldl_nil, vncDesRound_eq hc hd hl hr,
      hregisters, halves_succ, hshifts, ← hkey]
    rfl

/-! ## A block -/

theorem pack_byte : ∀ b0 b1 b2 b3 b4 b5 b6 b7 : Bool, ∀ i < 8,
    ([b0, b1, b2, b3, b4, b5, b6, b7].foldl (fun (out : UInt8) b => (out <<< 1) ||| bitByte b) 0).toBitVec.getMsbD i =
      [b0, b1, b2, b3, b4, b5, b6, b7].getD i false := by decide

/-- A byte is packed from eight bits. -/
theorem vncDesPack_eq (x : Bits) (index : ℕ) {i : ℕ} (hi : i < 8) :
    (vncDesPack (unbits x) index).toBitVec.getMsbD i = x.getD (index * 8 + i) false := by
  have h := pack_byte (x.getD (index * 8 + 0) false) (x.getD (index * 8 + 1) false) (x.getD (index * 8 + 2) false)
    (x.getD (index * 8 + 3) false) (x.getD (index * 8 + 4) false) (x.getD (index * 8 + 5) false)
    (x.getD (index * 8 + 6) false) (x.getD (index * 8 + 7) false) i hi
  have hfold : vncDesPack (unbits x) index = [x.getD (index * 8 + 0) false, x.getD (index * 8 + 1) false,
      x.getD (index * 8 + 2) false, x.getD (index * 8 + 3) false, x.getD (index * 8 + 4) false, x.getD (index * 8 + 5) false,
      x.getD (index * 8 + 6) false, x.getD (index * 8 + 7) false].foldl (fun (out : UInt8) b => (out <<< 1) ||| bitByte b) 0 := by
    unfold vncDesPack
    simp only [unbits_at]
    rfl
  rw [hfold, h]
  interval_cases i <;> rfl

theorem pack_eq {x : Bits} (hx : x.length = 64) :
    bits ((List.range 8).map fun index => vncDesPack (unbits x) index) = x := by
  have hlength : (bits ((List.range 8).map fun index => vncDesPack (unbits x) index)).length = 64 := by
    rw [bits_length, List.length_map, List.length_range]
  apply bits_ext (hlength.trans hx.symm)
  intro i hi
  have hbyte : at' ((List.range 8).map fun index => vncDesPack (unbits x) index) (i / 8) = vncDesPack (unbits x) (i / 8) := by
    unfold at'
    rw [List.getD_eq_getElem?_getD, List.getElem?_map, List.getElem?_range (by omega)]
    rfl
  rw [bits_getD, hbyte, vncDesPack_eq x _ (Nat.mod_lt _ (by decide)), Nat.div_add_mod']

/-- The preoutput: the second half, then the first. -/
theorem exchanged {a b : Bytes} {n : ℕ} (ha : a.length = n) (hb : b.length = n) :
    (List.range n).map (fun index => (a ++ b).at' (n + index)) ++ (List.range n).map (fun index => (a ++ b).at' index) = b ++ a := by
  congr 1
  · apply List.ext_getElem
    · simp [hb]
    · intro i h1 h2
      rw [List.getElem_map, List.getElem_range, ← ha, at'_append_right]
      simp [at', h2]
  · apply List.ext_getElem
    · simp [ha]
    · intro i h1 h2
      rw [List.getElem_map, List.getElem_range, at', List.getD_eq_getElem?_getD, List.getElem?_append_left h2,
        List.getElem?_eq_getElem h2, Option.getD_some]

/-- **The routine is DES**, for every key and every block. -/
theorem vncDesEncrypt_eq {key block : Bytes} (hkey : key.length = 8) (hblock : block.length = 8) :
    bits (vncDesEncrypt key block) = encipher (bits key) (bits block) := by
  have hcd : vncDesPermute (vncDesUnpack key 64) vncDesPc1 56 =
      unbits ((registers (bits key) []).1 ++ (registers (bits key) []).2) := by
    have htable : vncDesPc1 = choiceC ++ choiceD := by decide
    rw [unpack_eq hkey, htable, permute_eq _ (by rfl)]
    exact congrArg unbits List.map_append
  have hlr : vncDesPermute (vncDesUnpack block 64) vncDesIp 64 =
      unbits ((halves (bits key) (bits block) 0).1 ++ (halves (bits key) (bits block) 0).2) := by
    have htable : vncDesIp = ip := by decide
    rw [unpack_eq hblock, htable, permute_eq _ (by rfl)]
    exact congrArg unbits (List.take_append_drop _ _).symm
  obtain ⟨hl, hr⟩ := halves_length (bits key) (bits block) 16
  -- the last round exchanges the halves too, which the preoutput takes back
  have hpreoutput : (List.range 32).map (fun index => (unbits ((halves (bits key) (bits block) 16).1 ++
        (halves (bits key) (bits block) 16).2)).at' (32 + index)) ++
      (List.range 32).map (fun index => (unbits ((halves (bits key) (bits block) 16).1 ++
        (halves (bits key) (bits block) 16).2)).at' index) =
      unbits ((halves (bits key) (bits block) 16).2 ++ (halves (bits key) (bits block) 16).1) := by
    rw [unbits_append, unbits_append]
    exact exchanged (by simpa using hl) (by simpa using hr)
  have htable : vncDesFp = ipInverse := by decide
  unfold vncDesEncrypt
  rw [hcd, hlr]
  dsimp only
  rw [vncDesRounds _ _ le_rfl]
  dsimp only
  rw [hpreoutput, htable, permute_eq _ (by rfl), pack_eq (select_length _ _)]
  rfl

/-! ## The response -/

/-- The first eight bytes of a password, padded with zeros. -/
def passwordBytes (password : Option Bytes) : Bytes := (cstr (password.getD []) ++ List.replicate 8 0).take 8

/-- The key of a password: its bytes, each with its bits reversed. -/
def passwordKey (password : Option Bytes) : Bits := (passwordBytes password).flatMap fun c => (bits [c]).reverse

theorem vncAuthKey_eq (n : ℕ) {m : ℕ} (hm : n ≤ m) (password : Option Bytes) :
    vncAuthKey n password = ((cstr (password.getD []) ++ List.replicate m 0).take n).map vncReversed := by
  induction n generalizing password with
  | zero => simp [vncAuthKey]
  | succ n ih =>
    -- at its end the password is not read any further
    have hpad : ∀ q : Option Bytes, cstr (q.getD []) = [] → vncReversed 0 :: vncAuthKey n q =
        ((cstr (q.getD []) ++ List.replicate m 0).take (n + 1)).map vncReversed := by
      intro q hq
      rw [ih (by omega), hq, List.nil_append, List.take_replicate, List.take_replicate, Nat.min_eq_left hm,
        Nat.min_eq_left (by omega), List.replicate_succ, List.map_cons]
    match password with
    | none => exact hpad none rfl
    | some [] => exact hpad (some []) rfl
    | some (c :: rest) =>
      by_cases hc : c = 0
      · rw [hc]
        exact hpad (some (0 :: rest)) rfl
      · have hcstr : cstr (c :: rest) = c :: cstr rest := by simp [cstr, hc]
        rw [vncAuthKey, if_pos hc, ih (by omega), Option.getD_some, Option.getD_some, hcstr]
        rfl

/-- A byte's bits in reverse. -/
theorem bits_vncReversed (c : UInt8) : bits [vncReversed c] = (bits [c]).reverse := by
  have hfold : vncReversed c = [c.toBitVec.getLsbD 0, c.toBitVec.getLsbD 1, c.toBitVec.getLsbD 2, c.toBitVec.getLsbD 3,
      c.toBitVec.getLsbD 4, c.toBitVec.getLsbD 5, c.toBitVec.getLsbD 6, c.toBitVec.getLsbD 7].foldl
        (fun (out : UInt8) b => (out <<< 1) ||| bitByte b) 0 := by
    have hbit : ∀ k < 8, (c >>> UInt8.ofNat k) &&& 1 = bitByte (c.toBitVec.getLsbD k) := fun k hk => shiftRight_and_one c hk
    simp only [List.foldl_cons, List.foldl_nil, ← hbit _ (by decide : 0 < 8), ← hbit _ (by decide : 1 < 8),
      ← hbit _ (by decide : 2 < 8), ← hbit _ (by decide : 3 < 8), ← hbit _ (by decide : 4 < 8), ← hbit _ (by decide : 5 < 8),
      ← hbit _ (by decide : 6 < 8), ← hbit _ (by decide : 7 < 8)]
    rfl
  apply bits_ext
  · rfl
  · intro i hi
    have hi8 : i < 8 := hi
    have hleft := bits_getD [vncReversed c] i
    rw [show i / 8 = 0 by omega, show i % 8 = i by omega, show at' [vncReversed c] 0 = vncReversed c from rfl] at hleft
    rw [hleft, hfold, pack_byte _ _ _ _ _ _ _ _ i hi8]
    interval_cases i <;> rfl

theorem bits_reversed (s : Bytes) : bits (s.map vncReversed) = s.flatMap fun c => (bits [c]).reverse := by
  induction s with
  | nil => rfl
  | cons c s ih =>
    rw [List.map_cons, List.flatMap_cons, ← ih, ← bits_vncReversed]
    exact bits_cons _ _

/-- **The password check**: the routine is DES for every key and block, and the response is the
encryption of the challenge's halves under the key of the password. -/
theorem vncAuth_des (key block : Vector UInt8 8) (password : Option Bytes) (challenge : Vector UInt8 16) :
    bits (vncDesEncrypt key.toList block.toList) = encipher (bits key.toList) (bits block.toList) ∧
      (vncAuthResponse password challenge.toList).length = 16 ∧
      bits (vncAuthResponse password challenge.toList) =
        encipher (passwordKey password) (bits (challenge.toList.take 8)) ++
          encipher (passwordKey password) (bits (challenge.toList.drop 8)) := by
  have hkey : bits (vncAuthKey 8 password) = passwordKey password := by
    rw [vncAuthKey_eq 8 le_rfl, bits_reversed]
    rfl
  have hlength : (vncAuthKey 8 password).length = 8 := by
    rw [vncAuthKey_eq 8 le_rfl, List.length_map, List.length_take, List.length_append, List.length_replicate]
    omega
  have hfirst : (challenge.toList.take 8).length = 8 := by simp
  have hsecond : (challenge.toList.drop 8).length = 8 := by simp
  refine ⟨vncDesEncrypt_eq (by simp) (by simp), rfl, ?_⟩
  rw [← hkey, ← vncDesEncrypt_eq hlength hfirst, ← vncDesEncrypt_eq hlength hsecond]
  exact List.flatMap_append

end V9xRemote
