import V9xRemote.Spec.Ed25519Words
import V9xRemote.Proof.Ed25519Scalar

/-!
# No word of Ed25519's arithmetic overflows

Each function whose words are checked has a result, and it is that of the function with
words that wrap. With what those compute this is the exactness of the field and of the scalars.
-/

namespace V9xRemote

open Bytes Limbs Ladder Lucas Edwards

/-! ## Carries -/

theorem feRippleWords_eq {a : List UInt32} {carry : UInt32} (hcarry : carry.toNat ≤ 2 ^ 24)
    (h : ∀ x ∈ a, x.toNat + 2 ^ 24 < 2 ^ 32) : feRippleWords carry a = some (feRipple carry a) := by
  induction a generalizing carry with
  | nil => rfl
  | cons limb rest ih =>
    have hlimb := h limb List.mem_cons_self
    have hfits : limb.toNat + carry.toNat < 2 ^ 32 := by omega
    have hsmall : ((limb + carry) >>> 8).toNat ≤ 2 ^ 24 := by
      rw [word_high, Words.toNat_add_of_lt hfits]
      omega
    have hrest := ih hsmall fun x hx => h x (List.mem_cons_of_mem _ hx)
    rw [feRippleWords, Words.bind_eq (Words.add_eq hfits), Words.bind_eq hrest]
    rfl

theorem feCarryPassWords_eq {a : Fe} (h : FeRoom a) : feCarryPassWords a = some (feCarryPass a) := by
  have hnone : (0 : UInt32).toNat ≤ 2 ^ 24 := by decide
  have hfold : ed25519Fold.toNat = 38 := rfl
  obtain ⟨-, hbytes, -, hout⟩ := feRipple_spec hnone h.2
  rw [feCarryPassWords, Words.bind_eq (feRippleWords_eq hnone h.2), feCarryPass]
  generalize feRipple 0 a = r at hbytes hout ⊢
  obtain ⟨b, out⟩ := r
  dsimp only at hbytes hout ⊢
  have hmul : out.toNat * ed25519Fold.toNat < 2 ^ 32 := by
    rw [hfold]
    omega
  rw [Words.bind_eq (Words.mul_eq hmul)]
  cases b with
  | nil => rfl
  | cons low rest =>
    have hlow := hbytes low List.mem_cons_self
    have hadd : low.toNat + (out * ed25519Fold).toNat < 2 ^ 32 := by
      rw [Words.toNat_mul_of_lt hmul, hfold]
      omega
    rw [feAddLowWords, Words.bind_eq (Words.add_eq hadd)]
    rfl

theorem feCarryPass_room {a : Fe} (h : FeRoom a) : FeRoom (feCarryPass a) := by
  obtain ⟨out, hpass⟩ := feCarryPass_spec h
  have hout := hpass.out
  exact hpass.bytes.room (by omega)

theorem feCarryWords_eq {a : Fe} (h : FeRoom a) : feCarryWords a = some (feCarry a) := by
  rw [feCarryWords, Words.bind_eq (feCarryPassWords_eq h), feCarryPassWords_eq (feCarryPass_room h)]
  rfl

/-! ## Sums and differences -/

section

variable {a b : Fe}

theorem feAddWords_eq (ha : FeCarried a) (hb : FeCarried b) : feAddWords a b = some (feAdd a b) := by
  have hsums : Words.zip Words.add a b = some (List.zipWith (· + ·) a b) := by
    refine Words.zip_eq fun x hx y hy => Words.add_eq ?_
    have := ha.le x hx
    have := hb.le y hy
    omega
  rw [feAddWords, Words.bind_eq hsums, feCarryWords_eq (feAdd_room ha hb).1]
  rfl

theorem feSubWords_eq (ha : FeCarried a) (hb : FeCarried b) : feSubWords a b = some (feSub a b) := by
  have hbiased : Words.zip Words.add a ed25519EightP = some (List.zipWith (· + ·) a ed25519EightP) := by
    refine Words.zip_eq fun x hx y hy => Words.add_eq ?_
    have := ha.le x hx
    have := (eightP_le y hy).2
    omega
  have hdifferences : Words.zip Words.sub (List.zipWith (· + ·) a ed25519EightP) b =
      some (List.zipWith (· - ·) (List.zipWith (· + ·) a ed25519EightP) b) := by
    refine Words.zip_eq fun x hx y hy => Words.sub_eq ?_
    have := (feSub_bias ha x hx).1
    have := hb.le y hy
    omega
  rw [feSubWords, Words.bind_eq hbiased, Words.bind_eq hdifferences, feCarryWords_eq (feSub_room ha hb).1]
  rfl

/-! ## Products -/

theorem addRowWords_eq {limb : UInt32} {columns bs : List UInt32} {B P : ℕ} (hcolumns : ∀ x ∈ columns, x.toNat ≤ B)
    (hproducts : ∀ y ∈ bs, limb.toNat * y.toNat ≤ P) (hfits : B + P < 2 ^ 32) :
    addRowWords limb columns bs = some (addRow limb columns bs) := by
  induction columns generalizing bs with
  | nil => cases bs <;> rfl
  | cons column columns ih =>
    cases bs with
    | nil => rfl
    | cons y bs =>
      have hcolumn := hcolumns column List.mem_cons_self
      have hproduct := hproducts y List.mem_cons_self
      have hmul : limb.toNat * y.toNat < 2 ^ 32 := by omega
      have hadd : column.toNat + (limb * y).toNat < 2 ^ 32 := by
        rw [Words.toNat_mul_of_lt hmul]
        omega
      have hrest := ih (fun x hx => hcolumns x (List.mem_cons_of_mem _ hx))
        fun z hz => hproducts z (List.mem_cons_of_mem _ hz)
      rw [addRowWords, Words.bind_eq (Words.mul_eq hmul), Words.bind_eq (Words.add_eq hadd), Words.bind_eq hrest]
      rfl

theorem addRowsWords_eq {columns rows b : List UInt32} {B P : ℕ} (hlength : rows.length + b.length ≤ columns.length)
    (hcolumns : ∀ x ∈ columns, x.toNat ≤ B) (hproducts : ∀ x ∈ rows, ∀ y ∈ b, x.toNat * y.toNat ≤ P)
    (hfits : B + rows.length * P < 2 ^ 32) : addRowsWords b columns rows = some (addRows b columns rows) := by
  induction rows generalizing columns B with
  | nil => rfl
  | cons limb rows ih =>
    rw [List.length_cons] at hlength hfits
    have hsplit : (rows.length + 1) * P = rows.length * P + P := Nat.succ_mul _ _
    have hlimb := hproducts limb List.mem_cons_self
    -- a row raises no column by more than `P`, and the rows behind it have that much less room
    have hrow := addRow_spec (by omega) hcolumns hlimb (by omega)
    rw [addRowsWords, Words.bind_eq (addRowWords_eq hcolumns hlimb (by omega)), addRows]
    generalize addRow limb columns b = row at hrow ⊢
    cases row with
    | nil => rfl
    | cons column row =>
      have hrowLength := hrow.length
      rw [List.length_cons] at hrowLength
      have hrest : addRowsWords b row rows = some (addRows b row rows) :=
        ih (by omega) (fun x hx => hrow.le x (List.mem_cons_of_mem _ hx))
          (fun x hx => hproducts x (List.mem_cons_of_mem _ hx)) (by omega)
      dsimp only
      rw [Words.bind_eq hrest]
      rfl

theorem feMulWords_eq (ha : FeCarried a) (hb : FeCarried b) : feMulWords a b = some (feMul a b) := by
  have hcolumns := feMul_columns ha hb
  have hrows := addRowsWords_eq (by rw [ha.length, hb.length, feColumns_length]) (feColumns_zero 64) (feMul_products ha hb)
    (by rw [ha.length]; omega)
  rw [feMulWords, Words.bind_eq hrows, feMul]
  generalize addRows b (List.replicate 64 0) a = columns at hcolumns ⊢
  obtain ⟨hsize, -, hle⟩ := hcolumns
  rw [feColumns_length] at hsize
  have hfold : ed25519Fold.toNat = 38 := rfl
  -- the columns are low enough for 38 of the upper ones on top of the lower ones
  have hfolded : Words.zip (fun low high => do
      let high ← Words.mul ed25519Fold high
      Words.add low high) (columns.take 32) (columns.drop 32) =
      some (List.zipWith (fun low high => low + ed25519Fold * high) (columns.take 32) (columns.drop 32)) := by
    apply Words.zip_eq
    intro low hlow high hhigh
    have := hle low (List.mem_of_mem_take hlow)
    have := hle high (List.mem_of_mem_drop hhigh)
    have hmul : ed25519Fold.toNat * high.toNat < 2 ^ 32 := by
      rw [hfold]
      omega
    have hadd : low.toNat + (ed25519Fold * high).toNat < 2 ^ 32 := by
      rw [Words.toNat_mul_of_lt hmul, hfold]
      omega
    rw [Words.bind_eq (Words.mul_eq hmul), Words.add_eq hadd]
  rw [Words.bind_eq hfolded, feCarryWords_eq (feMul_room hsize hle).1]

theorem feMul_carried (ha : FeCarried a) (hb : FeCarried b) : FeCarried (feMul a b) :=
  (FeIs.mul ⟨ha, rfl⟩ ⟨hb, rfl⟩).carried

/-- **Powers**: the ladder's elements stay carried. -/
theorem fePowWords_eq (ha : FeCarried a) (e : Bytes) : fePowWords a e = some (fePow a e) := by
  refine ladder_some (P := FeCarried) ?_ 256 feOne_is.carried
  intro bit result hresult
  have hsquare := feMul_carried hresult hresult
  have hwords : feSquareWords result = some (feSquare result) := feMulWords_eq hresult hresult
  rw [Words.bind_eq hwords]
  cases bit with
  | false => exact ⟨rfl, hsquare⟩
  | true => exact ⟨feMulWords_eq hsquare ha, feMul_carried hsquare ha⟩

end

/-! ## Bytes -/

/-- **A difference of strings** whose numbers allow it borrows nothing at the end. -/
theorem bytesSubWords_eq {a b : Bytes} {borrow : UInt32} (hlength : a.length = b.length) (hborrow : borrow.toNat ≤ 1)
    (hle : leNat b + borrow.toNat ≤ leNat a) : bytesSubWords borrow a b = some (bytesSub borrow a b) := by
  induction a generalizing b borrow with
  | nil =>
    obtain rfl := List.length_eq_zero_iff.1 hlength.symm
    -- nothing is left to borrow from, so nothing was borrowed
    have hzero : borrow = 0 := by
      rw [← UInt32.toNat_inj, UInt32.toNat_zero]
      rw [leNat_nil] at hle
      omega
    rw [bytesSubWords, if_pos hzero, bytesSub]
    · intro _ _ _ _ hnil
      cases hnil
    · intro _ _ _ _ hnil
      cases hnil
  | cons x a ih =>
    cases b with
    | nil => cases hlength
    | cons y b =>
      have hx := x.toNat_lt
      have hy := y.toNat_lt
      obtain ⟨hsum, hfirst, -, hnext⟩ := bytesSub_step (x := x) (y := y) hborrow
      have hadd : x.toUInt32.toNat + (0x100 : UInt32).toNat < 2 ^ 32 := by
        rw [UInt8.toNat_toUInt32]
        change x.toNat + 256 < 2 ^ 32
        omega
      have hsub : y.toUInt32.toNat ≤ (x.toUInt32 + 0x100).toNat := by
        rw [hsum, UInt8.toNat_toUInt32]
        omega
      have hsub' : borrow.toNat ≤ (x.toUInt32 + 0x100 - y.toUInt32).toNat := by
        rw [hfirst]
        omega
      have hnextLe : (if (x.toUInt32 + 0x100 - y.toUInt32 - borrow) >>> 8 ≠ 0 then (0 : UInt32) else 1).toNat ≤ 1 := by
        rw [hnext]
        split <;> omega
      rw [leNat_cons, leNat_cons] at hle
      have hrest := ih (Nat.succ.inj hlength) hnextLe (by rw [hnext]; split <;> omega)
      rw [bytesSubWords, Words.bind_eq (Words.add_eq hadd), Words.bind_eq (Words.sub_eq hsub),
        Words.bind_eq (Words.sub_eq hsub'), Words.bind_eq hrest]
      rfl

theorem bytesSubWords_all {a b : Bytes} (ha : a.length = 32) (hb : b.length = 32) (h : bytesGe a b 32 = true) :
    bytesSubWords 0 a b = some (bytesSub 0 a b) :=
  bytesSubWords_eq (ha.trans hb.symm) (by decide) ((bytesGe_all ha hb).1 h)

theorem feReduceWords_eq {out : Bytes} (h : out.length = 32) : feReduceWords out = some (feReduce out) := by
  rw [feReduceWords, feReduce]
  by_cases hge : bytesGe out ed25519PBytes 32 = true
  · rw [if_pos hge, if_pos hge, bytesSubWords_all h edP_bytes.1 hge]
  · rw [if_neg hge, if_neg hge]

theorem feToBytesWords_eq {a : Fe} (ha : FeCarried a) : feToBytesWords a = some (feToBytes a) := by
  have hroom := ha.room (by omega)
  obtain ⟨hcarried, -⟩ := feCarry_spec hroom
  -- one more pass over carried limbs leaves bytes, so narrowing them loses nothing
  obtain ⟨hbytes, hlength, -⟩ := feCarryPass_bytes hcarried
  have hnarrow : (feCarryPass (feCarry a)).mapM Words.narrow = some ((feCarryPass (feCarry a)).map UInt32.toUInt8) :=
    Words.mapM_eq fun x hx => Words.narrow_eq (hbytes x hx)
  have hsize : ((feCarryPass (feCarry a)).map UInt32.toUInt8).length = 32 := by rw [List.length_map, hlength]
  rw [feToBytesWords, Words.bind_eq (feCarryWords_eq hroom), Words.bind_eq (feCarryPassWords_eq (hcarried.room (by omega))),
    Words.bind_eq hnarrow, Words.bind_eq (feReduceWords_eq hsize), feReduceWords_eq (feReduce_spec hsize).1]
  rfl

/-! ## Scalars -/

/-- **A shift** whose result has room loses no bit. -/
theorem shiftInWords_eq {s : Bytes} {c : UInt8} (hfits : 2 * leNat s + c.toNat < 256 ^ s.length) :
    shiftInWords c s = some (shiftIn c s) := by
  induction s generalizing c with
  | nil =>
    have hzero : c = 0 := by
      rw [← UInt8.toNat_inj, UInt8.toNat_zero]
      rw [leNat_nil, List.length_nil, Nat.pow_zero] at hfits
      omega
    rw [shiftInWords, if_pos hzero, shiftIn]
  | cons x s ih =>
    rw [leNat_cons, List.length_cons, pow_succ] at hfits
    have hrest := ih (c := (x >>> 7) &&& 1) (by rw [shiftIn_out]; omega)
    rw [shiftInWords, Words.bind_eq hrest]
    rfl

theorem scalarReduceStepWords_eq {r : Bytes} (hlength : r.length = 32) (hsmall : leNat r < edL) (bit : Bool) :
    scalarReduceStepWords bit r = some (scalarReduceStep bit r) := by
  have hbit : bit.toNat ≤ 1 := Bool.toNat_le bit
  have hincoming : (if bit then (1 : UInt8) else 0).toNat = bit.toNat := by cases bit <;> rfl
  have hpow : (256 : ℕ) ^ 32 = 2 ^ 256 := by norm_num
  have hnum := edL_eq
  -- the order has 253 bits, so twice a residue and a bit still fit
  have hshift : shiftInWords (if bit then 1 else 0) r = some (shiftIn (if bit then 1 else 0) r) := by
    apply shiftInWords_eq
    rw [hincoming, hlength, hpow]
    omega
  have hsize : (shiftIn (if bit then 1 else 0) r).length = 32 := (shiftIn_spec (hincoming.trans_le hbit)).1.trans hlength
  rw [scalarReduceStepWords, Words.bind_eq hshift, scalarReduceStep]
  by_cases hge : bytesGe (shiftIn (if bit then 1 else 0) r) ed25519LBytes 32 = true
  · rw [if_pos hge, if_pos hge, bytesSubWords_all hsize edL_bytes.1 hge]
  · rw [if_neg hge, if_neg hge]
    rfl

theorem scalarReduceWords_eq (wide : Bytes) : scalarReduceWords wide = some (scalarReduce wide) := by
  have hpos : 0 < edL := by
    rw [edL_eq]
    omega
  refine ladder_some (P := fun r => r.length = 32 ∧ leNat r < edL) ?_ 512 ⟨by decide, by decide⟩
  rintro bit r ⟨hlength, hsmall⟩
  obtain ⟨hsize, hvalue⟩ := scalarReduceStep_spec hlength (Nat.mod_eq_of_lt hsmall).symm bit
  exact ⟨scalarReduceStepWords_eq hlength hsmall bit, hsize, hvalue ▸ Nat.mod_lt _ hpos⟩

theorem muladdRowsWords_eq {columns a b c : List UInt32} {B : ℕ} (hlength : a.length + b.length ≤ columns.length)
    (hac : a.length = c.length) (hcolumns : ∀ x ∈ columns, x.toNat ≤ B) (ha : ∀ x ∈ a, x.toNat < 256)
    (hb : ∀ x ∈ b, x.toNat < 256) (hc : ∀ x ∈ c, x.toNat < 256) (hfits : B + a.length * 65025 + 255 < 2 ^ 32) :
    muladdRowsWords b columns a c = some (muladdRows b columns a c) := by
  induction a generalizing columns c B with
  | nil =>
    obtain rfl := List.length_eq_zero_iff.1 hac.symm
    rw [muladdRowsWords, muladdRows] <;> exact nofun
  | cons limb a ih =>
    cases c with
    | nil => cases hac
    | cons n c =>
      rw [List.length_cons] at hlength hfits
      have hlimb := ha limb List.mem_cons_self
      have hn := hc n List.mem_cons_self
      have hproducts : ∀ y ∈ b, limb.toNat * y.toNat ≤ 65025 := fun y hy =>
        Nat.mul_le_mul (Nat.le_of_lt_succ hlimb) (Nat.le_of_lt_succ (hb y hy))
      have hrow : Columns columns (addRow limb columns b) (limb.toNat * limbValue b) (B + 65025) :=
        addRow_spec (by omega) hcolumns hproducts (by omega)
      rw [muladdRowsWords, Words.bind_eq (addRowWords_eq hcolumns hproducts (by omega)), muladdRows]
      generalize addRow limb columns b = row at hrow ⊢
      cases row with
      | nil => rfl
      | cons column row =>
        have hrowLength := hrow.length
        rw [List.length_cons] at hrowLength
        have hcolumn := hrow.le column List.mem_cons_self
        have hrest : muladdRowsWords b row a c = some (muladdRows b row a c) :=
          ih (by omega) (Nat.succ.inj hac) (fun x hx => hrow.le x (List.mem_cons_of_mem _ hx))
            (fun x hx => ha x (List.mem_cons_of_mem _ hx)) (fun x hx => hc x (List.mem_cons_of_mem _ hx)) (by omega)
        dsimp only
        rw [Words.bind_eq (Words.add_eq (show column.toNat + n.toNat < 2 ^ 32 by omega)), Words.bind_eq hrest]
        rfl

/-- **The bytes of columns** that fit carry nothing out at the end. -/
theorem muladdBytesWords_eq {columns : List UInt32} {carry : UInt32} (hcarry : carry.toNat ≤ 2 ^ 24)
    (h : ∀ x ∈ columns, x.toNat + 2 ^ 24 < 2 ^ 32) (hfits : carry.toNat + limbValue columns < 256 ^ columns.length) :
    muladdBytesWords carry columns = some (muladdBytes carry columns) := by
  induction columns generalizing carry with
  | nil =>
    have hzero : carry = 0 := by
      rw [← UInt32.toNat_inj, UInt32.toNat_zero]
      rw [limbValue_nil, List.length_nil, Nat.pow_zero] at hfits
      omega
    rw [muladdBytesWords, if_pos hzero, muladdBytes]
  | cons column rest ih =>
    have hcolumn := h column List.mem_cons_self
    have hsum : carry.toNat + column.toNat < 2 ^ 32 := by omega
    have hhigh : ((carry + column) >>> 8).toNat = (carry.toNat + column.toNat) / 256 := by
      rw [word_high, Words.toNat_add_of_lt hsum]
    rw [limbValue_cons, List.length_cons, pow_succ] at hfits
    have hrest : muladdBytesWords ((carry + column) >>> 8) rest = some (muladdBytes ((carry + column) >>> 8) rest) :=
      ih (by omega) (fun x hx => h x (List.mem_cons_of_mem _ hx)) (by omega)
    rw [muladdBytesWords, Words.bind_eq (Words.add_eq hsum), Words.bind_eq hrest]
    rfl

theorem scalarMuladdWords_eq {a b c : Bytes} (ha : a.length = 32) (hb : b.length = 32) (hc : c.length = 32) :
    scalarMuladdWords a b c = some (scalarMuladd a b c) := by
  have hsize : ∀ s : Bytes, s.length = 32 → (feFromBytes s).length = 32 := fun s hs => (feFromBytes_length s).trans hs
  have hrows := muladdRowsWords_eq (by rw [hsize a ha, hsize b hb, feColumns_length]) ((hsize a ha).trans (hsize c hc).symm)
    (feColumns_zero 64) (feFromBytes_lt a) (feFromBytes_lt b) (feFromBytes_lt c) (by rw [hsize a ha]; omega)
  have hcolumns := scalarMuladd_columns ha hb hc
  have hfits := scalarMuladd_fits ha hb hc
  rw [scalarMuladdWords, Words.bind_eq hrows, scalarMuladd]
  generalize muladdRows (feFromBytes b) (List.replicate 64 0) (feFromBytes a) (feFromBytes c) = columns at hcolumns ⊢
  obtain ⟨hcount, hvalue, hle⟩ := hcolumns
  rw [feColumns_length] at hcount
  rw [limbValue_zeros, Nat.zero_add] at hvalue
  have hroom : ∀ x ∈ columns, x.toNat + 2 ^ 24 < 2 ^ 32 := by
    intro x hx
    have := hle x hx
    omega
  have hsum : (0 : UInt32).toNat + limbValue columns < 256 ^ columns.length := by
    rw [hvalue, hcount, UInt32.toNat_zero]
    omega
  have hbytes := muladdBytesWords_eq (by decide) hroom hsum
  rw [Words.bind_eq hbytes, scalarReduceWords_eq]

/-! ## Exactness -/

/-- How an element is made: from bytes and small numbers by the functions of the field. -/
inductive FeTerm
  | bytes (bytes : Bytes) (h : bytes.length = 32)
  | small (n : UInt32) (h : n.toNat ≤ 293)
  | add (s t : FeTerm)
  | sub (s t : FeTerm)
  | mul (s t : FeTerm)
  | square (s : FeTerm)
  | pow (s : FeTerm) (e : Bytes) (h : e.length = 32)
  | invert (s : FeTerm)

namespace FeTerm

/-- The element, as the code makes it. -/
def eval : FeTerm → Fe
  | bytes b _ => feFromBytes b
  | small n _ => feSetSmall n
  | add s t => feAdd s.eval t.eval
  | sub s t => feSub s.eval t.eval
  | mul s t => feMul s.eval t.eval
  | square s => feSquare s.eval
  | pow s e _ => fePow s.eval e
  | invert s => feInvert s.eval

/-- The element, where no word overflows. -/
def words : FeTerm → Option Fe
  | bytes b _ => some (feFromBytes b)
  | small n _ => some (feSetSmall n)
  | add s t => do
    let a ← s.words
    let b ← t.words
    feAddWords a b
  | sub s t => do
    let a ← s.words
    let b ← t.words
    feSubWords a b
  | mul s t => do
    let a ← s.words
    let b ← t.words
    feMulWords a b
  | square s => do
    let a ← s.words
    feSquareWords a
  | pow s e _ => do
    let a ← s.words
    fePowWords a e
  | invert s => do
    let a ← s.words
    feInvertWords a

/-- The element of the field. -/
noncomputable def value : FeTerm → EdField
  | bytes b _ => (leNat b : ℕ)
  | small n _ => (n.toNat : ℕ)
  | add s t => s.value + t.value
  | sub s t => s.value - t.value
  | mul s t => s.value * t.value
  | square s => s.value * s.value
  | pow s e _ => s.value ^ leNat e
  | invert s => s.value⁻¹

/-- **Every chain of operations** stays carried and loses no bit. -/
theorem words_eq (t : FeTerm) : t.words = some t.eval ∧ FeIs t.eval t.value := by
  induction t with
  | bytes b h => exact ⟨rfl, feFromBytes_is h⟩
  | small n h => exact ⟨rfl, feSetSmall_is h⟩
  | add s t hs ht =>
    refine ⟨?_, hs.2.add ht.2⟩
    rw [words, Words.bind_eq hs.1, Words.bind_eq ht.1, feAddWords_eq hs.2.carried ht.2.carried]
    rfl
  | sub s t hs ht =>
    refine ⟨?_, hs.2.sub ht.2⟩
    rw [words, Words.bind_eq hs.1, Words.bind_eq ht.1, feSubWords_eq hs.2.carried ht.2.carried]
    rfl
  | mul s t hs ht =>
    refine ⟨?_, hs.2.mul ht.2⟩
    rw [words, Words.bind_eq hs.1, Words.bind_eq ht.1, feMulWords_eq hs.2.carried ht.2.carried]
    rfl
  | square s hs =>
    refine ⟨?_, hs.2.square⟩
    rw [words, Words.bind_eq hs.1, feSquareWords, feMulWords_eq hs.2.carried hs.2.carried]
    rfl
  | pow s e h hs =>
    refine ⟨?_, hs.2.pow h⟩
    rw [words, Words.bind_eq hs.1, fePowWords_eq hs.2.carried]
    rfl
  | invert s hs =>
    refine ⟨?_, hs.2.invert⟩
    rw [words, Words.bind_eq hs.1, feInvertWords, fePowWords_eq hs.2.carried]
    rfl

end FeTerm

theorem feRoom_of_lt {a : Fe} (hlength : a.length = 32) (h : ∀ x ∈ a, x.toNat < 2 ^ 31) : FeRoom a := by
  refine ⟨hlength, fun x hx => ?_⟩
  have := h x hx
  omega

/-- The canonical bytes are the only ones. -/
theorem feToBytes_unique {a : Fe} (ha : FeCarried a) {bytes : Bytes} (hlength : bytes.length = 32)
    (hsmall : leNat bytes < edP) (hvalue : ((leNat bytes : ℕ) : EdField) = feVal a) : bytes = feToBytes a := by
  obtain ⟨hsize, hbytes⟩ := FeIs.toBytes ⟨ha, rfl⟩
  apply leNat_inj (hlength.trans hsize.symm)
  rw [hbytes, ← hvalue, ZMod.val_natCast, Nat.mod_eq_of_lt hsmall]

/-- **The field arithmetic is exact.** Limbs below 2 ^ 31 are carried; on carried elements every
operation is that of the field, loses no bit of a word, and leaves a carried element, so any chain of
operations does; and an element has one string of bytes below the prime, the packed one. -/
theorem feArithmetic_exact :
    (∀ a : Fe, a.length = 32 → (∀ x ∈ a, x.toNat < 2 ^ 31) →
      feCarryWords a = some (feCarry a) ∧ FeCarried (feCarry a) ∧ feVal (feCarry a) = feVal a) ∧
    (∀ a b : Fe, FeCarried a → FeCarried b →
      (feAddWords a b = some (feAdd a b) ∧ FeCarried (feAdd a b) ∧ feVal (feAdd a b) = feVal a + feVal b) ∧
      (feSubWords a b = some (feSub a b) ∧ FeCarried (feSub a b) ∧ feVal (feSub a b) = feVal a - feVal b) ∧
      (feMulWords a b = some (feMul a b) ∧ FeCarried (feMul a b) ∧ feVal (feMul a b) = feVal a * feVal b)) ∧
    (∀ a : Fe, FeCarried a →
      (feSquareWords a = some (feSquare a) ∧ FeCarried (feSquare a) ∧ feVal (feSquare a) = feVal a ^ 2) ∧
      (feInvertWords a = some (feInvert a) ∧ FeCarried (feInvert a) ∧ feVal (feInvert a) = (feVal a)⁻¹) ∧
      (feToBytesWords a = some (feToBytes a) ∧ (feToBytes a).length = 32 ∧ leNat (feToBytes a) < edP ∧
        ((leNat (feToBytes a) : ℕ) : EdField) = feVal a ∧
        ∀ bytes : Bytes, bytes.length = 32 → leNat bytes < edP → ((leNat bytes : ℕ) : EdField) = feVal a →
          bytes = feToBytes a)) ∧
    ∀ t : FeTerm, t.words = some t.eval ∧ FeCarried t.eval ∧ feVal t.eval = t.value := by
  refine ⟨?_, ?_, ?_, fun t => ⟨t.words_eq.1, t.words_eq.2.carried, t.words_eq.2.val⟩⟩
  · intro a hlength hlimbs
    have hroom := feRoom_of_lt hlength hlimbs
    exact ⟨feCarryWords_eq hroom, feCarry_spec hroom⟩
  · intro a b ha hb
    have hadd := FeIs.add ⟨ha, rfl⟩ ⟨hb, rfl⟩
    have hsub := FeIs.sub ⟨ha, rfl⟩ ⟨hb, rfl⟩
    have hmul := FeIs.mul ⟨ha, rfl⟩ ⟨hb, rfl⟩
    exact ⟨⟨feAddWords_eq ha hb, hadd.carried, hadd.val⟩, ⟨feSubWords_eq ha hb, hsub.carried, hsub.val⟩,
      feMulWords_eq ha hb, hmul.carried, hmul.val⟩
  · intro a ha
    have hsquare := FeIs.square ⟨ha, rfl⟩
    have hinvert := FeIs.invert ⟨ha, rfl⟩
    obtain ⟨hlength, hbytes⟩ := FeIs.toBytes ⟨ha, rfl⟩
    refine ⟨⟨feMulWords_eq ha ha, hsquare.carried, hsquare.val.trans (sq (feVal a)).symm⟩,
      ⟨fePowWords_eq ha _, hinvert.carried, hinvert.val⟩, feToBytesWords_eq ha, hlength, ?_, ?_, ?_⟩
    · rw [hbytes]
      exact ZMod.val_lt (feVal a)
    · rw [hbytes]
      exact ZMod.natCast_zmod_val (feVal a)
    · exact fun bytes => feToBytes_unique ha

/-- The bytes of the base point's `x`, as an element, are packed to themselves. -/
theorem feArithmetic_exact_demo :
    let a := feFromBytes ed25519BaseXBytes
    FeCarried (feCarry a) ∧ feVal (feMul a a) = feVal a * feVal a ∧ feToBytesWords a = some (feToBytes a) ∧
      ed25519BaseXBytes = feToBytes a := by
  have ha : FeIs (feFromBytes ed25519BaseXBytes) (leNat ed25519BaseXBytes : ℕ) := feFromBytes_is rfl
  have hbytes := (feArithmetic_exact.2.2.1 _ ha.carried).2.2
  have hlimbs : ∀ x ∈ feFromBytes ed25519BaseXBytes, x.toNat < 2 ^ 31 := fun x hx => by
    have := feFromBytes_lt ed25519BaseXBytes x hx
    omega
  exact ⟨(feArithmetic_exact.1 _ rfl hlimbs).2.1, (feArithmetic_exact.2.1 _ _ ha.carried ha.carried).2.2.2.2,
    hbytes.1, hbytes.2.2.2.2 _ rfl (by rw [edP_eq]; decide) ha.val.symm⟩

/-- A scalar below the order is the only string of its residue. -/
theorem scalar_unique {s r : Bytes} {n : ℕ} (hlength : s.length = 32) (hsmall : leNat s < edL) (hvalue : leNat s % edL = n % edL)
    (hsize : r.length = 32) (hr : leNat r = n % edL) : s = r := by
  apply leNat_inj (hlength.trans hsize.symm)
  rw [hr, ← hvalue, Nat.mod_eq_of_lt hsmall]

/-- **The scalar arithmetic is exact.** A reduction and a product with a sum give the one string of 32
bytes below the order that stands for the result, and no word of them loses a bit. -/
theorem scalarArithmetic_exact :
    (∀ wide : Bytes, wide.length = 64 → scalarReduceWords wide = some (scalarReduce wide) ∧
      (scalarReduce wide).length = 32 ∧ leNat (scalarReduce wide) < edL ∧
      leNat (scalarReduce wide) = leNat wide % edL ∧
      ∀ s : Bytes, s.length = 32 → leNat s < edL → leNat s % edL = leNat wide % edL → s = scalarReduce wide) ∧
    ∀ a b c : Bytes, a.length = 32 → b.length = 32 → c.length = 32 →
      scalarMuladdWords a b c = some (scalarMuladd a b c) ∧
      (scalarMuladd a b c).length = 32 ∧ leNat (scalarMuladd a b c) < edL ∧
      leNat (scalarMuladd a b c) = (leNat a * leNat b + leNat c) % edL ∧
      ∀ s : Bytes, s.length = 32 → leNat s < edL → leNat s % edL = (leNat a * leNat b + leNat c) % edL →
        s = scalarMuladd a b c := by
  have hpos : 0 < edL := by
    rw [edL_eq]
    omega
  constructor
  · intro wide h
    obtain ⟨hlength, hvalue⟩ := scalarReduce_spec h
    exact ⟨scalarReduceWords_eq wide, hlength, hvalue.trans_lt (Nat.mod_lt _ hpos), hvalue,
      fun s hs hsmall hsame => scalar_unique hs hsmall hsame hlength hvalue⟩
  · intro a b c ha hb hc
    obtain ⟨hlength, hvalue⟩ := scalarMuladd_spec ha hb hc
    exact ⟨scalarMuladdWords_eq ha hb hc, hlength, hvalue.trans_lt (Nat.mod_lt _ hpos), hvalue,
      fun s hs hsmall hsame => scalar_unique hs hsmall hsame hlength hvalue⟩

/-- The order itself is reduced to zero, and zero is what the products of zeros are. -/
theorem scalarArithmetic_exact_demo :
    List.replicate 32 (0 : UInt8) = scalarReduce (ed25519LBytes ++ List.replicate 32 0) ∧
      List.replicate 32 (0 : UInt8) =
        scalarMuladd (List.replicate 32 0) (List.replicate 32 0) (List.replicate 32 0) :=
  ⟨(scalarArithmetic_exact.1 _ (by decide)).2.2.2.2 _ (by decide) (by decide) (by decide),
    (scalarArithmetic_exact.2 _ _ _ (by decide) (by decide) (by decide)).2.2.2.2 _ (by decide) (by decide)
      (by decide)⟩

end V9xRemote
