import V9xRemote.Proof.Ed25519Curve

/-!
# The field arithmetic of Ed25519

Elements stay in the carried form, where no product, sum or carry leaves 32 bits, and each
operation is that of the field on the values modulo `edP`.
-/

namespace V9xRemote

open Bytes Limbs Ladder Lucas Edwards

/-! ## Carries -/

/-- Every limb leaves room for a carry. -/
def FeRoom (a : Fe) : Prop := a.length = 32 ∧ ∀ x ∈ a, x.toNat + 2 ^ 24 < 2 ^ 32

/-- The limbs are bytes but for the lowest, which is at most `low`. -/
structure FeBytes (low : ℕ) (a : Fe) : Prop where
  length : a.length = 32
  head : ∀ x ∈ a.head?, x.toNat ≤ low
  tail : ∀ x ∈ a.tail, x.toNat < 256

/-- **The carried form.** -/
abbrev FeCarried (a : Fe) : Prop := FeBytes 293 a

theorem word_low (x : UInt32) : (x &&& 0xFF).toNat = x.toNat % 256 := by
  rw [UInt32.toNat_and]
  exact Nat.and_two_pow_sub_one_eq_mod x.toNat 8

theorem word_high (x : UInt32) : (x >>> 8).toNat = x.toNat / 256 := by
  rw [UInt32.toNat_shiftRight, Nat.shiftRight_eq_div_pow]
  rfl

/-- What a pass over the limbs leaves, and what leaves the top. -/
structure Rippled (carry : ℕ) (a b : List UInt32) (out : ℕ) : Prop where
  length : b.length = a.length
  bytes : ∀ x ∈ b, x.toNat < 256
  value : limbValue b + 256 ^ a.length * out = carry + limbValue a
  out : out ≤ 2 ^ 24

theorem feRipple_spec {a : List UInt32} {carry : UInt32} (hcarry : carry.toNat ≤ 2 ^ 24)
    (h : ∀ x ∈ a, x.toNat + 2 ^ 24 < 2 ^ 32) :
    Rippled carry.toNat a (feRipple carry a).1 (feRipple carry a).2.toNat := by
  induction a generalizing carry with
  | nil => exact ⟨rfl, List.forall_mem_nil _, by simp [feRipple], hcarry⟩
  | cons limb rest ih =>
    have hlimb := h limb List.mem_cons_self
    have hsum : (limb + carry).toNat = limb.toNat + carry.toNat := by
      rw [UInt32.toNat_add]
      exact Nat.mod_eq_of_lt (by omega)
    have hhigh : ((limb + carry) >>> 8).toNat = (limb.toNat + carry.toNat) / 256 := by
      rw [word_high, hsum]
    have hlow : ((limb + carry) &&& 0xFF).toNat = (limb.toNat + carry.toNat) % 256 := by
      rw [word_low, hsum]
    have hsmall : ((limb + carry) >>> 8).toNat ≤ 2 ^ 24 := by omega
    have hrest := ih hsmall fun x hx => h x (List.mem_cons_of_mem _ hx)
    unfold feRipple
    dsimp only
    constructor
    · rw [List.length_cons, List.length_cons, hrest.length]
    · refine List.forall_mem_cons.2 ⟨?_, hrest.bytes⟩
      rw [hlow]
      exact Nat.mod_lt _ (by omega)
    · have hvalue := hrest.value
      rw [hhigh] at hvalue
      rw [limbValue_cons, limbValue_cons, List.length_cons, pow_succ, hlow, mul_comm _ 256, mul_assoc]
      omega
    · exact hrest.out

/-- What a pass leaves: `2 ^ 256` is worth 38. -/
structure Passed (a b : Fe) (out : ℕ) : Prop where
  bytes : FeBytes (255 + 38 * out) b
  value : limbValue b + 2 ^ 256 * out = limbValue a + 38 * out
  small : ∀ x ∈ b.head?, x.toNat + 2 ^ 256 * out ≤ limbValue a + 38 * out
  out : out ≤ 2 ^ 24

theorem feCarryPass_spec {a : Fe} (h : FeRoom a) : ∃ out, Passed a (feCarryPass a) out := by
  obtain ⟨hlength, hroom⟩ := h
  have hnone : (0 : UInt32).toNat ≤ 2 ^ 24 := by decide
  have hripple := feRipple_spec hnone hroom
  unfold feCarryPass
  generalize feRipple 0 a = r at hripple ⊢
  obtain ⟨b, out⟩ := r
  obtain ⟨hb, hbytes, hvalue, hout⟩ := hripple
  dsimp only at hb hbytes hvalue hout ⊢
  obtain - | ⟨low, rest⟩ := b
  · rw [hlength] at hb
    exact absurd hb (by decide)
  have hlow := hbytes low List.mem_cons_self
  have hfold : (out * ed25519Fold).toNat = 38 * out.toNat := by
    rw [UInt32.toNat_mul, Nat.mod_eq_of_lt]
    · exact mul_comm _ _
    · have hfold : ed25519Fold.toNat = 38 := rfl
      rw [hfold]
      omega
  have hsum : (low + out * ed25519Fold).toNat = low.toNat + 38 * out.toNat := by
    rw [UInt32.toNat_add, hfold]
    exact Nat.mod_eq_of_lt (by omega)
  have hpow : (256 : ℕ) ^ 32 = 2 ^ 256 := by norm_num
  have hzero : (0 : UInt32).toNat = 0 := rfl
  rw [hlength, limbValue_cons, hpow, hzero] at hvalue
  refine ⟨out.toNat, ?_, ?_, ?_, hout⟩
  · constructor
    · rw [← hlength, ← hb]
      rfl
    · rintro x ⟨⟩
      rw [hsum]
      omega
    · intro x hx
      exact hbytes x (List.mem_cons_of_mem _ hx)
  · change limbValue ((low + out * ed25519Fold) :: rest) + _ = _
    rw [limbValue_cons, hsum]
    omega
  · rintro x ⟨⟩
    rw [hsum]
    omega

theorem FeBytes.room {low : ℕ} {a : Fe} (h : FeBytes low a) (hlow : low + 2 ^ 24 < 2 ^ 32) : FeRoom a := by
  refine ⟨h.length, fun x hx => ?_⟩
  have hlength := h.length
  have hhead := h.head
  have htail := h.tail
  obtain - | ⟨y, rest⟩ := a
  · exact absurd hx List.not_mem_nil
  · rcases List.mem_cons.1 hx with rfl | hx
    · have := hhead x rfl
      omega
    · have := htail x hx
      omega

theorem FeBytes.value_le {low : ℕ} {a : Fe} (h : FeBytes low a) : limbValue a + 256 ≤ 2 ^ 256 + low := by
  have hlength := h.length
  have hhead := h.head
  have htail := h.tail
  obtain - | ⟨y, rest⟩ := a
  · exact absurd hlength (by decide)
  · have hy := hhead y rfl
    have hrest := limbValue_lt htail
    have hthirtyone : rest.length = 31 := by simpa using hlength
    have hpow : (256 : ℕ) ^ 31 * 256 = 2 ^ 256 := by norm_num
    rw [List.tail_cons, hthirtyone] at hrest
    rw [limbValue_cons]
    omega

/-- A value of the field. -/
def feVal (a : Fe) : EdField := (limbValue a : ℕ)

theorem fold_eq : ((2 ^ 256 : ℕ) : EdField) = (38 : ℕ) := edField_eq (by rw [edP_eq]; decide)

theorem Passed.val {a b : Fe} {out : ℕ} (h : Passed a b out) : feVal b = feVal a := by
  have hvalue := congrArg (Nat.cast (R := EdField)) h.value
  rw [Nat.cast_add, Nat.cast_add, Nat.cast_mul, Nat.cast_mul, fold_eq] at hvalue
  exact add_right_cancel hvalue

/-- **Two passes** leave the carried form. -/
theorem feCarry_spec {a : Fe} (h : FeRoom a) : FeCarried (feCarry a) ∧ feVal (feCarry a) = feVal a := by
  obtain ⟨out, hfirst⟩ := feCarryPass_spec h
  have hout := hfirst.out
  obtain ⟨out', hsecond⟩ := feCarryPass_spec (hfirst.bytes.room (by omega))
  have hvalue := hfirst.bytes.value_le
  have hlast := hsecond.value
  -- at most one leaves the top of the second pass
  have hone : out' ≤ 1 := by
    by_contra hmore
    omega
  refine ⟨⟨hsecond.bytes.length, fun x hx => ?_, hsecond.bytes.tail⟩, hsecond.val.trans hfirst.val⟩
  have := hsecond.bytes.head x hx
  omega

/-! ## Sums and differences -/

/-- A carried element, and its value. -/
structure FeIs (a : Fe) (x : EdField) : Prop where
  carried : FeCarried a
  val : feVal a = x

variable {a b : Fe} {x y : EdField}

theorem FeCarried.le (h : FeCarried a) : ∀ x ∈ a, x.toNat ≤ 293 := by
  have hhead := h.head
  have htail := h.tail
  intro x hx
  obtain - | ⟨limb, rest⟩ := a
  · exact absurd hx List.not_mem_nil
  · rcases List.mem_cons.1 hx with rfl | hx
    · exact hhead x rfl
    · have := htail x hx
      omega

theorem feCarry_is (h : FeRoom a) (hx : feVal a = x) : FeIs (feCarry a) x :=
  ⟨(feCarry_spec h).1, (feCarry_spec h).2.trans hx⟩

theorem limbValue_add {a b : List UInt32} (hlength : a.length = b.length) {A B : ℕ} (ha : ∀ x ∈ a, x.toNat ≤ A)
    (hb : ∀ x ∈ b, x.toNat ≤ B) (hfits : A + B < 2 ^ 32) :
    limbValue (List.zipWith (· + ·) a b) = limbValue a + limbValue b ∧
      ∀ x ∈ List.zipWith (· + ·) a b, x.toNat ≤ A + B := by
  induction a generalizing b with
  | nil =>
    obtain rfl := List.length_eq_zero_iff.1 hlength.symm
    exact ⟨rfl, List.forall_mem_nil _⟩
  | cons x a ih =>
    obtain - | ⟨y, b⟩ := b
    · exact absurd hlength (by simp)
    · have hx := ha x List.mem_cons_self
      have hy := hb y List.mem_cons_self
      have hsum : (x + y).toNat = x.toNat + y.toNat := by
        rw [UInt32.toNat_add]
        exact Nat.mod_eq_of_lt (by omega)
      obtain ⟨hvalue, hle⟩ := ih (by simpa using hlength) (fun z hz => ha z (List.mem_cons_of_mem _ hz))
        fun z hz => hb z (List.mem_cons_of_mem _ hz)
      rw [List.zipWith_cons_cons, limbValue_cons, limbValue_cons, limbValue_cons, hvalue, hsum]
      refine ⟨by ring, List.forall_mem_cons.2 ⟨?_, hle⟩⟩
      rw [hsum]
      omega

theorem limbValue_sub {a b : List UInt32} (hlength : a.length = b.length) {A : ℕ} (ha : ∀ x ∈ a, x.toNat ≤ A)
    (hb : ∀ i (h : i < b.length), b[i].toNat ≤ (a.getD i 0).toNat) :
    limbValue (List.zipWith (· - ·) a b) + limbValue b = limbValue a ∧
      ∀ x ∈ List.zipWith (· - ·) a b, x.toNat ≤ A := by
  induction a generalizing b with
  | nil =>
    obtain rfl := List.length_eq_zero_iff.1 hlength.symm
    exact ⟨rfl, List.forall_mem_nil _⟩
  | cons x a ih =>
    obtain - | ⟨y, b⟩ := b
    · exact absurd hlength (by simp)
    · have hx := ha x List.mem_cons_self
      have hy : y.toNat ≤ x.toNat := hb 0 (Nat.succ_pos _)
      have hdiff : (x - y).toNat = x.toNat - y.toNat := UInt32.toNat_sub_of_le _ _ (UInt32.le_iff_toNat_le.2 hy)
      obtain ⟨hvalue, hle⟩ := ih (by simpa using hlength) (fun z hz => ha z (List.mem_cons_of_mem _ hz))
        fun i hi => hb (i + 1) (Nat.succ_lt_succ hi)
      rw [List.zipWith_cons_cons, limbValue_cons, limbValue_cons, limbValue_cons, hdiff]
      refine ⟨by omega, List.forall_mem_cons.2 ⟨?_, hle⟩⟩
      rw [hdiff]
      omega

theorem length_zipWith {f : UInt32 → UInt32 → UInt32} (ha : a.length = 32) (hb : b.length = 32) :
    (List.zipWith f a b).length = 32 := by
  rw [List.length_zipWith, ha, hb]
  rfl

/-- The sums of two elements, place by place. -/
theorem feAdd_room (ha : FeCarried a) (hb : FeCarried b) : FeRoom (List.zipWith (· + ·) a b) ∧
    limbValue (List.zipWith (· + ·) a b) = limbValue a + limbValue b := by
  obtain ⟨hvalue, hle⟩ := limbValue_add (ha.length.trans hb.length.symm) ha.le hb.le (by omega)
  refine ⟨⟨length_zipWith ha.length hb.length, fun z hz => ?_⟩, hvalue⟩
  have := hle z hz
  omega

/-- **Addition.** -/
theorem FeIs.add (ha : FeIs a x) (hb : FeIs b y) : FeIs (feAdd a b) (x + y) := by
  obtain ⟨hroom, hvalue⟩ := feAdd_room ha.carried hb.carried
  apply feCarry_is hroom
  unfold feVal
  rw [hvalue, Nat.cast_add]
  exact congrArg₂ (· + ·) ha.val hb.val

theorem eightP_value : ((limbValue ed25519EightP : ℕ) : EdField) = 0 := by
  have h : ((limbValue ed25519EightP : ℕ) : EdField) = (0 : ℕ) := edField_eq (by rw [edP_eq]; decide)
  rw [h, Nat.cast_zero]

theorem eightP_le : ∀ x ∈ ed25519EightP, 293 ≤ x.toNat ∧ x.toNat ≤ 2040 := by
  have hall : (ed25519EightP.all fun x => decide (293 ≤ x.toNat ∧ x.toNat ≤ 2040)) = true := by decide
  intro x hx
  exact of_decide_eq_true (List.all_eq_true.1 hall x hx)

theorem eightP_length : ed25519EightP.length = 32 := rfl

/-- With eight times `edP` added, no limb is smaller than one of a carried element. -/
theorem feSub_bias (ha : FeCarried a) : ∀ z ∈ List.zipWith (· + ·) a ed25519EightP, 293 ≤ z.toNat ∧ z.toNat ≤ 2333 := by
  intro z hz
  obtain ⟨i, hi, rfl⟩ := List.mem_iff_getElem.1 hz
  have hi32 : i < 32 := hi.trans_eq (length_zipWith ha.length eightP_length)
  have hia : i < a.length := hi32.trans_eq ha.length.symm
  have hi8 : i < ed25519EightP.length := hi32
  have hlimb := ha.le a[i] (List.getElem_mem hia)
  have hbias := eightP_le ed25519EightP[i] (List.getElem_mem hi8)
  rw [List.getElem_zipWith, UInt32.toNat_add]
  omega

/-- The differences of two elements, place by place. -/
theorem feSub_room (ha : FeCarried a) (hb : FeCarried b) :
    let differences := List.zipWith (· - ·) (List.zipWith (· + ·) a ed25519EightP) b
    FeRoom differences ∧ limbValue differences + limbValue b = limbValue a + limbValue ed25519EightP := by
  dsimp only
  have hsum := length_zipWith (f := (· + ·)) ha.length eightP_length
  obtain ⟨hvalue, -⟩ := limbValue_add (ha.length.trans eightP_length.symm) ha.le (fun z hz => (eightP_le z hz).2) (by omega)
  have hbias : ∀ i (h : i < b.length), b[i].toNat ≤ ((List.zipWith (· + ·) a ed25519EightP).getD i 0).toNat := by
    intro i hi
    have hlimb := hb.le b[i] (List.getElem_mem hi)
    rw [hb.length] at hi
    have hi' : i < (List.zipWith (· + ·) a ed25519EightP).length := hi.trans_eq hsum.symm
    have hlow := (feSub_bias ha _ (List.getElem_mem hi')).1
    rw [List.getD_eq_getElem?_getD, List.getElem?_eq_getElem hi', Option.getD_some]
    omega
  obtain ⟨hdiff, hle⟩ := limbValue_sub (hsum.trans hb.length.symm) (fun z hz => (feSub_bias ha z hz).2) hbias
  refine ⟨⟨length_zipWith hsum hb.length, fun z hz => ?_⟩, hdiff.trans hvalue⟩
  have := hle z hz
  omega

/-- **Subtraction.** -/
theorem FeIs.sub (ha : FeIs a x) (hb : FeIs b y) : FeIs (feSub a b) (x - y) := by
  obtain ⟨hroom, hvalue⟩ := feSub_room ha.carried hb.carried
  apply feCarry_is hroom
  have hcast := congrArg (Nat.cast (R := EdField)) hvalue
  rw [Nat.cast_add, Nat.cast_add, eightP_value, add_zero] at hcast
  unfold feVal
  rw [eq_sub_iff_add_eq, ← hb.val, ← ha.val]
  exact hcast

/-! ## Products -/

/-- Columns after some products, each at most `P`, were added to them. -/
structure Columns (columns columns' : List UInt32) (sum bound : ℕ) : Prop where
  length : columns'.length = columns.length
  value : limbValue columns' = limbValue columns + sum
  le : ∀ x ∈ columns', x.toNat ≤ bound

theorem addRow_spec {limb : UInt32} {columns bs : List UInt32} {B P : ℕ} (hlength : bs.length ≤ columns.length)
    (hcolumns : ∀ x ∈ columns, x.toNat ≤ B) (hproducts : ∀ y ∈ bs, limb.toNat * y.toNat ≤ P) (hfits : B + P < 2 ^ 32) :
    Columns columns (addRow limb columns bs) (limb.toNat * limbValue bs) (B + P) := by
  induction columns generalizing bs with
  | nil =>
    obtain rfl := List.length_eq_zero_iff.1 (Nat.le_zero.1 hlength)
    exact ⟨rfl, rfl, List.forall_mem_nil _⟩
  | cons column columns ih =>
    obtain - | ⟨y, bs⟩ := bs
    · refine ⟨rfl, rfl, fun x hx => ?_⟩
      have hle := hcolumns x hx
      omega
    · have hcolumn := hcolumns column List.mem_cons_self
      have hproduct := hproducts y List.mem_cons_self
      have hmul : (limb * y).toNat = limb.toNat * y.toNat := by
        rw [UInt32.toNat_mul]
        exact Nat.mod_eq_of_lt (by omega)
      have hsum : (column + limb * y).toNat = column.toNat + limb.toNat * y.toNat := by
        rw [UInt32.toNat_add, hmul]
        exact Nat.mod_eq_of_lt (by omega)
      have hrest := ih (Nat.le_of_succ_le_succ hlength) (fun x hx => hcolumns x (List.mem_cons_of_mem _ hx))
        fun z hz => hproducts z (List.mem_cons_of_mem _ hz)
      constructor
      · exact congrArg (· + 1) hrest.length
      · rw [addRow, limbValue_cons, limbValue_cons, limbValue_cons, hrest.value, hsum]
        ring
      · refine List.forall_mem_cons.2 ⟨?_, hrest.le⟩
        rw [hsum]
        omega

/-- **The rows of a product.** -/
theorem addRows_spec {columns a b : List UInt32} {B P : ℕ} (hlength : a.length + b.length ≤ columns.length)
    (hcolumns : ∀ x ∈ columns, x.toNat ≤ B) (hproducts : ∀ x ∈ a, ∀ y ∈ b, x.toNat * y.toNat ≤ P)
    (hfits : B + a.length * P < 2 ^ 32) :
    Columns columns (addRows b columns a) (limbValue a * limbValue b) (B + a.length * P) := by
  induction a generalizing columns B with
  | nil =>
    unfold addRows
    refine ⟨rfl, ?_, fun x hx => ?_⟩
    · rw [limbValue_nil, Nat.zero_mul, Nat.add_zero]
    · exact Nat.le_add_right_of_le (hcolumns x hx)
  | cons limb a ih =>
    rw [List.length_cons] at hlength hfits
    have hsplit : (a.length + 1) * P = a.length * P + P := Nat.succ_mul _ _
    have hrow : Columns columns (addRow limb columns b) (limb.toNat * limbValue b) (B + P) :=
      addRow_spec (by omega) hcolumns (hproducts limb List.mem_cons_self) (by omega)
    unfold addRows
    generalize addRow limb columns b = row at hrow ⊢
    obtain - | ⟨column, row⟩ := row
    · have hempty := hrow.length
      rw [List.length_nil] at hempty
      omega
    · have hrowLength := hrow.length
      rw [List.length_cons] at hrowLength
      have hrest : Columns row (addRows b row a) (limbValue a * limbValue b) (B + P + a.length * P) :=
        ih (by omega) (fun x hx => hrow.le x (List.mem_cons_of_mem _ hx))
          (fun x hx => hproducts x (List.mem_cons_of_mem _ hx)) (by omega)
      have hvalue := hrow.value
      rw [limbValue_cons] at hvalue
      constructor
      · rw [List.length_cons, hrest.length, hrowLength]
      · rw [limbValue_cons, limbValue_cons, hrest.value]
        linear_combination hvalue
      · refine List.forall_mem_cons.2 ⟨?_, fun x hx => ?_⟩
        · have := hrow.le column List.mem_cons_self
          rw [List.length_cons]
          omega
        · have := hrest.le x hx
          rw [List.length_cons]
          omega

theorem limbValue_scale {k : UInt32} {a : List UInt32} (h : ∀ x ∈ a, k.toNat * x.toNat < 2 ^ 32) :
    limbValue (a.map (k * ·)) = k.toNat * limbValue a ∧ ∀ x ∈ a.map (k * ·), ∃ y ∈ a, x.toNat = k.toNat * y.toNat := by
  have hmul : ∀ x ∈ a, (k * x).toNat = k.toNat * x.toNat := by
    intro x hx
    rw [UInt32.toNat_mul]
    exact Nat.mod_eq_of_lt (h x hx)
  constructor
  · induction a with
    | nil => rfl
    | cons x a ih =>
      have hrest := ih (fun y hy => h y (List.mem_cons_of_mem _ hy)) fun y hy => hmul y (List.mem_cons_of_mem _ hy)
      rw [List.map_cons, limbValue_cons, limbValue_cons, hrest, hmul x List.mem_cons_self]
      ring
  · intro x hx
    obtain ⟨y, hy, rfl⟩ := List.mem_map.1 hx
    exact ⟨y, hy, hmul y hy⟩

/-- No product of two carried limbs is larger. -/
theorem feMul_products (ha : FeCarried a) (hb : FeCarried b) : ∀ x ∈ a, ∀ y ∈ b, x.toNat * y.toNat ≤ 85849 :=
  fun x hx y hy => Nat.mul_le_mul (ha.le x hx) (hb.le y hy)

theorem feColumns_zero (n : ℕ) : ∀ x ∈ List.replicate n (0 : UInt32), x.toNat ≤ 0 := by
  intro x hx
  rw [List.eq_of_mem_replicate hx]
  exact Nat.le_refl 0

theorem feColumns_length : (List.replicate 64 (0 : UInt32)).length = 64 := List.length_replicate

/-- The columns of a product. -/
theorem feMul_columns (ha : FeCarried a) (hb : FeCarried b) :
    Columns (List.replicate 64 0) (addRows b (List.replicate 64 0) a) (limbValue a * limbValue b) (32 * 85849) := by
  have hcolumns := addRows_spec (by rw [ha.length, hb.length, feColumns_length]) (feColumns_zero 64) (feMul_products ha hb)
    (by rw [ha.length]; omega)
  rwa [ha.length, Nat.zero_add] at hcolumns

/-- The high half of the columns, folded on the low one. -/
theorem feMul_room {columns : List UInt32} (hsize : columns.length = 64) (hle : ∀ x ∈ columns, x.toNat ≤ 32 * 85849) :
    let folded := List.zipWith (fun low high => low + ed25519Fold * high) (columns.take 32) (columns.drop 32)
    FeRoom folded ∧ limbValue folded = limbValue (columns.take 32) + 38 * limbValue (columns.drop 32) := by
  dsimp only
  have hlow : (columns.take 32).length = 32 := by rw [List.length_take, hsize]; rfl
  have hhigh : (columns.drop 32).length = 32 := by rw [List.length_drop, hsize]
  have hfold : ed25519Fold.toNat = 38 := rfl
  have hscaled : ∀ x ∈ columns.drop 32, ed25519Fold.toNat * x.toNat < 2 ^ 32 := by
    intro x hx
    have := hle x (List.mem_of_mem_drop hx)
    rw [hfold]
    omega
  obtain ⟨hscale, hmem⟩ := limbValue_scale hscaled
  have hscaledLe : ∀ x ∈ (columns.drop 32).map (ed25519Fold * ·), x.toNat ≤ 38 * (32 * 85849) := by
    intro x hx
    obtain ⟨z, hz, heq⟩ := hmem x hx
    have := hle z (List.mem_of_mem_drop hz)
    rw [hfold] at heq
    omega
  have hzip : List.zipWith (fun low high => low + ed25519Fold * high) (columns.take 32) (columns.drop 32) =
      List.zipWith (· + ·) (columns.take 32) ((columns.drop 32).map (ed25519Fold * ·)) :=
    List.zipWith_map_right.symm
  have hmapLength : ((columns.drop 32).map (ed25519Fold * ·)).length = 32 := by rw [List.length_map, hhigh]
  obtain ⟨hsum, hsumLe⟩ := limbValue_add (hlow.trans hmapLength.symm) (fun x hx => hle x (List.mem_of_mem_take hx))
    hscaledLe (by omega)
  rw [hzip]
  refine ⟨⟨length_zipWith hlow hmapLength, fun z hz => ?_⟩, ?_⟩
  · have := hsumLe z hz
    omega
  · rw [hsum, hscale, hfold]

/-- **Multiplication.** -/
theorem FeIs.mul (ha : FeIs a x) (hb : FeIs b y) : FeIs (feMul a b) (x * y) := by
  have hcolumns := feMul_columns ha.carried hb.carried
  unfold feMul
  dsimp only
  generalize addRows b (List.replicate 64 0) a = columns at hcolumns ⊢
  obtain ⟨hsize, hvalue, hle⟩ := hcolumns
  rw [feColumns_length] at hsize
  rw [limbValue_zeros, Nat.zero_add] at hvalue
  have hlow : (columns.take 32).length = 32 := by rw [List.length_take, hsize]; rfl
  have hsplit : limbValue columns = limbValue (columns.take 32) + 2 ^ 256 * limbValue (columns.drop 32) := by
    have hpow : (256 : ℕ) ^ 32 = 2 ^ 256 := by norm_num
    have happend := limbValue_append (columns.take 32) (columns.drop 32)
    rwa [List.take_append_drop, hlow, hpow] at happend
  obtain ⟨hroom, hfolded⟩ := feMul_room hsize hle
  apply feCarry_is hroom
  have hcast := congrArg (Nat.cast (R := EdField)) hsplit
  rw [hvalue, Nat.cast_mul, Nat.cast_add, Nat.cast_mul, fold_eq] at hcast
  unfold feVal
  rw [hfolded, Nat.cast_add, Nat.cast_mul, ← hcast, ← ha.val, ← hb.val]
  rfl

theorem FeIs.square (ha : FeIs a x) : FeIs (feSquare a) (x * x) := ha.mul ha

/-! ## Constants and powers -/

theorem feSetSmall_is {n : UInt32} (h : n.toNat ≤ 293) : FeIs (feSetSmall n) (n.toNat : ℕ) := by
  unfold feSetSmall
  refine ⟨⟨rfl, ?_, ?_⟩, ?_⟩
  · rintro x ⟨⟩
    exact h
  · intro x hx
    rw [List.eq_of_mem_replicate hx]
    decide
  · unfold feVal
    rw [limbValue_cons, limbValue_zeros, Nat.mul_zero, Nat.add_zero]

theorem feZero_is : FeIs (feSetSmall 0) 0 := by
  have h : FeIs (feSetSmall 0) (((0 : UInt32).toNat : ℕ) : EdField) := feSetSmall_is (by decide)
  rwa [UInt32.toNat_zero, Nat.cast_zero] at h

theorem feOne_is : FeIs (feSetSmall 1) 1 := by
  have h : FeIs (feSetSmall 1) (((1 : UInt32).toNat : ℕ) : EdField) := feSetSmall_is (by decide)
  rwa [UInt32.toNat_one, Nat.cast_one] at h

theorem feFromBytes_lt (bytes : Bytes) : ∀ x ∈ feFromBytes bytes, x.toNat < 256 := by
  intro x hx
  obtain ⟨c, -, rfl⟩ := List.mem_map.1 hx
  rw [UInt8.toNat_toUInt32]
  exact c.toNat_lt

theorem feFromBytes_length (bytes : Bytes) : (feFromBytes bytes).length = bytes.length := List.length_map _

theorem feFromBytes_is {bytes : Bytes} (h : bytes.length = 32) : FeIs (feFromBytes bytes) (leNat bytes : ℕ) := by
  have hbytes := feFromBytes_lt bytes
  refine ⟨⟨(feFromBytes_length bytes).trans h, fun x hx => ?_, fun x hx => hbytes x (List.mem_of_mem_tail hx)⟩, ?_⟩
  · have := hbytes x (List.mem_of_mem_head? hx)
    omega
  · unfold feVal feFromBytes
    rw [limbValue_bytes]

theorem feD_is : FeIs (feFromBytes ed25519DBytes) edD := by
  have h : FeIs (feFromBytes ed25519DBytes) (leNat ed25519DBytes : ℕ) := feFromBytes_is rfl
  rwa [edD_eq] at h

/-- **Powers.** -/
theorem FeIs.pow {e : Bytes} (ha : FeIs a x) (he : e.length = 32) : FeIs (fePow a e) (x ^ leNat e) := by
  refine ladder_rel (R := fun r k => FeIs r (x ^ k)) ?_ _ ?_ ?_
  · intro bit r k hr
    have hsquare := hr.square
    rw [← pow_add, ← two_mul] at hsquare
    cases bit with
    | false => exact hsquare
    | true =>
      rw [Bool.toNat_true, pow_succ]
      exact hsquare.mul ha
  · intro i _
    exact byteBit_eq e i
  · have hlt := leNat_lt e
    have hpow : (256 : ℕ) ^ 32 = 2 ^ 256 := by norm_num
    rw [he, hpow] at hlt
    rw [Nat.div_eq_of_lt hlt, pow_zero]
    exact feOne_is

/-- **Inversion**; zero goes to zero. -/
theorem FeIs.invert (ha : FeIs a x) : FeIs (feInvert a) x⁻¹ := by
  have hnum := edP_eq
  have hexponent : leNat (ed25519Exponent 0xEB 0x7F) = edP - 2 := by
    rw [hnum]
    decide
  have hpow := ha.pow (e := ed25519Exponent 0xEB 0x7F) rfl
  rw [hexponent] at hpow
  have hinv : x ^ (edP - 2) = x⁻¹ := by
    by_cases hzero : x = 0
    · rw [hzero, inv_zero, zero_pow (by omega)]
    · have hsplit : edP - 2 + 1 = edP - 1 := by omega
      apply eq_inv_of_mul_eq_one_left
      rw [← pow_succ, hsplit]
      exact ZMod.pow_card_sub_one_eq_one hzero
  rw [hinv] at hpow
  exact hpow

/-! ## Bytes -/

theorem leNat_take_succ {s : Bytes} {n : ℕ} (h : n < s.length) :
    leNat (s.take (n + 1)) = leNat (s.take n) + 256 ^ n * (s.at' n).toNat := by
  have hlength : (s.take n).length = n := by
    rw [List.length_take]
    omega
  have hat : s.at' n = s[n] := by
    unfold Bytes.at'
    rw [List.getD_eq_getElem?_getD, List.getElem?_eq_getElem h, Option.getD_some]
  rw [List.take_succ_eq_append_getElem h, leNat_append, hlength, leNat_cons, leNat_nil, hat]
  ring

/-- **The comparison of two strings** is that of their numbers. -/
theorem bytesGe_iff {a b : Bytes} {n : ℕ} (ha : n ≤ a.length) (hb : n ≤ b.length) :
    bytesGe a b n = true ↔ leNat (b.take n) ≤ leNat (a.take n) := by
  induction n with
  | zero => exact iff_of_true rfl le_rfl
  | succ n ih =>
    have hlow : ∀ s : Bytes, n ≤ s.length → leNat (s.take n) < 256 ^ n := by
      intro s hs
      have hlt := leNat_lt (s.take n)
      rwa [List.length_take, Nat.min_eq_left hs] at hlt
    have halow := hlow a (Nat.le_of_succ_le ha)
    have hblow := hlow b (Nat.le_of_succ_le hb)
    rw [leNat_take_succ ha, leNat_take_succ hb]
    unfold bytesGe
    by_cases heq : a.at' n = b.at' n
    · rw [if_neg (not_not.2 heq), ih (Nat.le_of_succ_le ha) (Nat.le_of_succ_le hb), heq]
      exact (Nat.add_le_add_iff_right).symm
    · -- the highest byte that differs decides
      rw [if_pos heq, decide_eq_true_eq]
      have hne : (a.at' n).toNat ≠ (b.at' n).toNat := fun h => heq (UInt8.toNat_inj.1 h)
      rw [gt_iff_lt, UInt8.lt_iff_toNat_lt]
      constructor
      · intro hlt
        have hstep := Nat.mul_le_mul_left (256 ^ n) (Nat.succ_le_of_lt hlt)
        rw [Nat.mul_succ] at hstep
        omega
      · intro hle
        by_contra hnot
        have hstep := Nat.mul_le_mul_left (256 ^ n) (Nat.succ_le_of_lt (lt_of_le_of_ne (not_lt.1 hnot) hne))
        rw [Nat.mul_succ] at hstep
        omega

theorem bytesGe_all {a b : Bytes} (ha : a.length = 32) (hb : b.length = 32) :
    bytesGe a b 32 = true ↔ leNat b ≤ leNat a := by
  have h := bytesGe_iff (Nat.le_of_eq ha.symm) (Nat.le_of_eq hb.symm)
  rwa [List.take_of_length_le (Nat.le_of_eq ha), List.take_of_length_le (Nat.le_of_eq hb)] at h

/-- One place of a difference of strings: no word wraps, and what is borrowed from the next place. -/
theorem bytesSub_step {x y : UInt8} {borrow : UInt32} (hborrow : borrow.toNat ≤ 1) :
    (x.toUInt32 + 0x100).toNat = x.toNat + 256 ∧
    (x.toUInt32 + 0x100 - y.toUInt32).toNat = x.toNat + 256 - y.toNat ∧
    (x.toUInt32 + 0x100 - y.toUInt32 - borrow).toNat = x.toNat + 256 - y.toNat - borrow.toNat ∧
    (if (x.toUInt32 + 0x100 - y.toUInt32 - borrow) >>> 8 ≠ 0 then (0 : UInt32) else 1).toNat =
      if x.toNat < y.toNat + borrow.toNat then 1 else 0 := by
  have hx := x.toNat_lt
  have hy := y.toNat_lt
  have hsum : (x.toUInt32 + 0x100).toNat = x.toNat + 256 := by
    rw [UInt32.toNat_add, UInt8.toNat_toUInt32]
    exact Nat.mod_eq_of_lt (show x.toNat + 256 < 2 ^ 32 by omega)
  have hfirst : (x.toUInt32 + 0x100 - y.toUInt32).toNat = x.toNat + 256 - y.toNat := by
    rw [UInt32.toNat_sub_of_le, hsum, UInt8.toNat_toUInt32]
    rw [UInt32.le_iff_toNat_le, hsum, UInt8.toNat_toUInt32]
    omega
  have hdiff : (x.toUInt32 + 0x100 - y.toUInt32 - borrow).toNat = x.toNat + 256 - y.toNat - borrow.toNat := by
    rw [UInt32.toNat_sub_of_le, hfirst]
    rw [UInt32.le_iff_toNat_le, hfirst]
    omega
  refine ⟨hsum, hfirst, hdiff, ?_⟩
  have hhigh := word_high (x.toUInt32 + 0x100 - y.toUInt32 - borrow)
  rw [hdiff] at hhigh
  generalize (x.toUInt32 + 0x100 - y.toUInt32 - borrow) >>> 8 = high at hhigh ⊢
  by_cases hless : x.toNat < y.toNat + borrow.toNat
  · have hzero : high = 0 := by
      rw [← UInt32.toNat_inj, hhigh, UInt32.toNat_zero]
      omega
    rw [if_pos hless, if_neg (not_not.2 hzero)]
    rfl
  · have hone : high ≠ 0 := by
      intro hzero
      rw [hzero, UInt32.toNat_zero] at hhigh
      omega
    rw [if_neg hless, if_pos hone]
    rfl

/-- The difference of two strings, and the borrow of the end. -/
theorem bytesSub_spec {a b : Bytes} {borrow : UInt32} (hlength : a.length = b.length) (hborrow : borrow.toNat ≤ 1) :
    (bytesSub borrow a b).length = a.length ∧ ∃ out ≤ 1,
      leNat (bytesSub borrow a b) + leNat b + borrow.toNat = leNat a + 256 ^ a.length * out := by
  induction a generalizing b borrow with
  | nil =>
    obtain rfl := List.length_eq_zero_iff.1 hlength.symm
    exact ⟨rfl, borrow.toNat, hborrow, by simp [bytesSub]⟩
  | cons x a ih =>
    obtain - | ⟨y, b⟩ := b
    · exact absurd hlength (by simp)
    · have hx := x.toNat_lt
      have hy := y.toNat_lt
      obtain ⟨-, -, hdiff, hnext⟩ := bytesSub_step (x := x) (y := y) hborrow
      have hbyte : ((x.toUInt32 + 0x100 - y.toUInt32 - borrow) &&& 0xFF).toUInt8.toNat =
          (x.toNat + 256 - y.toNat - borrow.toNat) % 256 := by
        rw [UInt32.toNat_toUInt8, word_low, hdiff]
        exact Nat.mod_mod _ _
      unfold bytesSub
      dsimp only
      generalize (if (x.toUInt32 + 0x100 - y.toUInt32 - borrow) >>> 8 ≠ 0 then (0 : UInt32) else 1) = next at hnext ⊢
      have hnextLe : next.toNat ≤ 1 := by
        rw [hnext]
        split <;> omega
      obtain ⟨hsize, out, hout, hvalue⟩ := ih (by simpa using hlength : a.length = b.length) hnextLe
      refine ⟨congrArg (· + 1) hsize, out, hout, ?_⟩
      rw [hnext] at hvalue
      rw [leNat_cons, leNat_cons, leNat_cons, hbyte, List.length_cons, pow_succ, mul_comm _ 256, mul_assoc]
      split at hvalue <;> omega

theorem bytesSub_all {a b : Bytes} (ha : a.length = 32) (hb : b.length = 32) (hle : leNat b ≤ leNat a) :
    (bytesSub 0 a b).length = 32 ∧ leNat (bytesSub 0 a b) = leNat a - leNat b := by
  have hzero : (0 : UInt32).toNat = 0 := rfl
  have hnone : (0 : UInt32).toNat ≤ 1 := by decide
  obtain ⟨hlength, out, hout, hvalue⟩ := bytesSub_spec (ha.trans hb.symm) hnone
  have hlt := leNat_lt (bytesSub 0 a b)
  rw [hlength, ha] at hlt
  rw [hzero, ha] at hvalue
  refine ⟨hlength.trans ha, ?_⟩
  -- a borrow of the end would make the difference too long
  obtain rfl | rfl : out = 0 ∨ out = 1 := by omega
  · omega
  · omega

/-- The third pass leaves bytes. -/
theorem feCarryPass_bytes (h : FeCarried a) : (∀ x ∈ feCarryPass a, x.toNat < 256) ∧ (feCarryPass a).length = 32 ∧
    feVal (feCarryPass a) = feVal a := by
  obtain ⟨out, hpass⟩ := feCarryPass_spec (h.room (by omega))
  have hvalue := h.value_le
  have hlast := hpass.value
  have hone : out ≤ 1 := by
    by_contra hmore
    omega
  refine ⟨fun x hx => ?_, hpass.bytes.length, hpass.val⟩
  have hhead := hpass.bytes.head
  have hsmall := hpass.small
  have htail := hpass.bytes.tail
  generalize feCarryPass a = b at hx hhead hsmall htail
  obtain - | ⟨limb, rest⟩ := b
  · exact absurd hx List.not_mem_nil
  · rcases List.mem_cons.1 hx with rfl | hx
    · have hle := hhead x rfl
      have hwrapped := hsmall x rfl
      -- with one out of the top, little is left below
      obtain rfl | rfl : out = 0 ∨ out = 1 := by omega
      · omega
      · omega
    · exact htail x hx

theorem leNat_bytes {limbs : List UInt32} (h : ∀ x ∈ limbs, x.toNat < 256) :
    leNat (limbs.map UInt32.toUInt8) = limbValue limbs := by
  induction limbs with
  | nil => rfl
  | cons x limbs ih =>
    have hx := h x List.mem_cons_self
    have hrest := ih fun y hy => h y (List.mem_cons_of_mem _ hy)
    rw [List.map_cons, leNat_cons, limbValue_cons, hrest, UInt32.toNat_toUInt8, Nat.mod_eq_of_lt hx]

theorem edP_bytes : ed25519PBytes.length = 32 ∧ leNat ed25519PBytes = edP := by
  rw [edP_eq]
  decide

theorem feReduce_spec {out : Bytes} (h : out.length = 32) : (feReduce out).length = 32 ∧
    leNat (feReduce out) = if edP ≤ leNat out then leNat out - edP else leNat out := by
  obtain ⟨hp, hvalue⟩ := edP_bytes
  have hge := bytesGe_all h hp
  rw [hvalue] at hge
  unfold feReduce
  by_cases hle : edP ≤ leNat out
  · obtain ⟨hlength, hsub⟩ := bytesSub_all h hp (by rw [hvalue]; exact hle)
    rw [if_pos (hge.2 hle), if_pos hle, hsub, hvalue]
    exact ⟨hlength, rfl⟩
  · rw [if_neg fun hyes => hle (hge.1 hyes), if_neg hle]
    exact ⟨h, rfl⟩

/-- **The canonical bytes.** -/
theorem FeIs.toBytes (ha : FeIs a x) : (feToBytes a).length = 32 ∧ leNat (feToBytes a) = x.val := by
  obtain ⟨hcarried, hval⟩ := feCarry_spec (ha.carried.room (by omega))
  obtain ⟨hbytes, hlength, hpass⟩ := feCarryPass_bytes hcarried
  have hvalue := leNat_bytes hbytes
  have hlt := limbValue_lt hbytes
  have hsize : ((feCarryPass (feCarry a)).map UInt32.toUInt8).length = 32 := by rw [List.length_map, hlength]
  have hx : ((limbValue (feCarryPass (feCarry a)) : ℕ) : EdField) = x := hpass.trans (hval.trans ha.val)
  have hxval : x.val = limbValue (feCarryPass (feCarry a)) % edP := by rw [← hx, ZMod.val_natCast]
  have hpow : (256 : ℕ) ^ 32 = 2 ^ 256 := by norm_num
  rw [hlength, hpow] at hlt
  unfold feToBytes
  obtain ⟨hlength1, hvalue1⟩ := feReduce_spec hsize
  obtain ⟨hlength2, hvalue2⟩ := feReduce_spec hlength1
  refine ⟨hlength2, ?_⟩
  rw [hvalue2, hvalue1, hvalue, hxval, edP_eq]
  generalize limbValue (feCarryPass (feCarry a)) = v at hlt ⊢
  generalize hp : 57896044618658097711785492504343953926634992332820282019728792003956564819949 = p
  by_cases hone : p ≤ v
  · rw [if_pos hone]
    by_cases htwo : p ≤ v - p
    · rw [if_pos htwo, Nat.mod_eq_sub_mod hone, Nat.mod_eq_sub_mod htwo, Nat.mod_eq_of_lt (by omega)]
    · rw [if_neg htwo, Nat.mod_eq_sub_mod hone, Nat.mod_eq_of_lt (by omega)]
  · rw [if_neg hone, if_neg hone, Nat.mod_eq_of_lt (by omega)]

/-- **Equality.** -/
theorem FeIs.equal_iff (ha : FeIs a x) (hb : FeIs b y) : feEqual a b = true ↔ x = y := by
  obtain ⟨hlengthA, hvalueA⟩ := ha.toBytes
  obtain ⟨hlengthB, hvalueB⟩ := hb.toBytes
  unfold feEqual
  rw [beq_iff_eq]
  constructor
  · intro heq
    apply ZMod.val_injective edP
    rw [← hvalueA, ← hvalueB, heq]
  · intro heq
    apply leNat_inj (hlengthA.trans hlengthB.symm)
    rw [hvalueA, hvalueB, heq]

theorem FeIs.isZero_iff (ha : FeIs a x) : feIsZero a = true ↔ x = 0 := ha.equal_iff feZero_is

theorem FeIs.isOdd_eq (ha : FeIs a x) : feIsOdd a = decide (x.val % 2 = 1) := by
  obtain ⟨hlength, hvalue⟩ := ha.toBytes
  rw [← hvalue]
  unfold feIsOdd
  generalize feToBytes a = bytes at hlength ⊢
  obtain - | ⟨c, rest⟩ := bytes
  · exact absurd hlength (by decide)
  · have hat : Bytes.at' (c :: rest) 0 = c := rfl
    have hlow : (c &&& 1).toNat = c.toNat % 2 := by
      rw [UInt8.toNat_and]
      exact Nat.and_two_pow_sub_one_eq_mod c.toNat 1
    have hparity : (c.toNat + 256 * leNat rest) % 2 = c.toNat % 2 := by omega
    have hone : (1 : UInt8).toNat = 1 := rfl
    rw [hat, leNat_cons, hparity, Bool.eq_iff_iff, beq_iff_eq, decide_eq_true_eq, ← UInt8.toNat_inj, hlow, hone]

end V9xRemote
