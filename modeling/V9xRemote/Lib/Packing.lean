import Mathlib.Algebra.Order.Ring.Nat
import Mathlib.Tactic.Common

/-!
# Fields packed into bytes

Numbers of `bits` bits each, the first in the high bits of the first byte, with the last byte
filled up by zeros (`pack`), and the fields of a byte (`fields`).
-/

namespace Packing

variable {bits : ℕ}

/-- The lowest `n` fields of a number, the highest first. -/
def fields (bits : ℕ) : ℕ → ℕ → List ℕ
  | 0, _ => []
  | n + 1, word => fields bits n (word >>> bits) ++ [word % 2 ^ bits]

/-- Packing from where `filled` bits are taken. -/
def packFrom (bits byte filled : ℕ) : List ℕ → List ℕ
  | [] => if filled ≠ 0 then [byte <<< (8 - filled)] else []
  | v :: rest =>
    let byte := (byte <<< bits) ||| v
    let filled := filled + bits
    if filled = 8 then byte :: packFrom bits 0 0 rest else packFrom bits byte filled rest

def pack (bits : ℕ) (values : List ℕ) : List ℕ := packFrom bits 0 0 values

@[simp] theorem fields_length (n word : ℕ) : (fields bits n word).length = n := by
  induction n generalizing word with
  | zero => rfl
  | succ n ih => rw [fields, List.length_append, ih]; rfl

/-- One more field. -/
theorem fields_or {v : ℕ} (hv : v < 2 ^ bits) (n word : ℕ) :
    fields bits (n + 1) ((word <<< bits) ||| v) = fields bits n word ++ [v] := by
  have hor : (word <<< bits) ||| v = word * 2 ^ bits + v := by
    rw [← Nat.shiftLeft_add_eq_or_of_lt hv, Nat.shiftLeft_eq]
  rw [fields, hor, Nat.shiftRight_eq_div_pow, Nat.mul_comm, Nat.mul_add_mod, Nat.mod_eq_of_lt hv,
    Nat.mul_add_div (Nat.two_pow_pos bits), Nat.div_eq_of_lt hv, Nat.add_zero]

/-- Zeros at the low end are fields behind the others. -/
theorem fields_pad (bits n m word : ℕ) : (fields bits (n + m) (word <<< (bits * m))).take n = fields bits n word := by
  induction m generalizing word with
  | zero =>
    rw [Nat.add_zero, Nat.mul_zero, Nat.shiftLeft_zero]
    exact List.take_of_length_le (by rw [fields_length])
  | succ m ih =>
    have hshift : word <<< (bits * (m + 1)) >>> bits = word <<< (bits * m) := by
      rw [Nat.mul_succ, Nat.shiftLeft_add, Nat.shiftLeft_shiftRight]
    rw [← Nat.add_assoc, fields, hshift, List.take_append_of_le_length (by rw [fields_length]; omega), ih]

theorem full_or_room {per k : ℕ} (hper : bits * per = 8) (hk : k < per) :
    k + 1 = per ∧ bits * (k + 1) = 8 ∨ k + 1 < per ∧ bits * (k + 1) ≠ 8 := by
  have hpos : 0 < bits := Nat.pos_of_ne_zero fun h => by rw [h] at hper; omega
  rcases Nat.eq_or_lt_of_le (Nat.succ_le_of_lt hk) with heq | hlt
  · have hnext : k + 1 = per := heq
    exact Or.inl ⟨hnext, by rw [hnext, hper]⟩
  · exact Or.inr ⟨hlt, fun hfull => hlt.ne (Nat.eq_of_mul_eq_mul_left hpos (hfull.trans hper.symm))⟩

/-- **Unpacking from where the fields of a byte are begun.** -/
theorem unpack_packFrom {per : ℕ} (hper : bits * per = 8) {values : List ℕ} (hvalues : ∀ v ∈ values, v < 2 ^ bits) (k byte : ℕ)
    (hk : k < per) :
    ((packFrom bits byte (bits * k) values).flatMap (fields bits per)).take (k + values.length) =
      fields bits k byte ++ values := by
  induction values generalizing k byte with
  | nil =>
    rw [packFrom, List.append_nil, List.length_nil, Nat.add_zero]
    split
    · have hpad := fields_pad bits k (per - k) byte
      rw [Nat.mul_sub, hper, Nat.add_sub_cancel' hk.le] at hpad
      rw [List.flatMap_cons, List.flatMap_nil, List.append_nil, hpad]
    · rename_i hzero
      have hbits : bits ≠ 0 := by
        rintro rfl
        omega
      have : k = 0 := by
        by_contra hne
        exact hzero (Nat.mul_ne_zero hbits hne)
      rw [this]
      rfl
  | cons v rest ih =>
    have hv := hvalues v List.mem_cons_self
    have hrest : ∀ w ∈ rest, w < 2 ^ bits := fun w hw => hvalues w (List.mem_cons_of_mem _ hw)
    rw [packFrom]
    rw [List.length_cons, ← Nat.mul_succ]
    rcases full_or_room hper hk with ⟨hnext, hfull⟩ | ⟨hnext, hroom⟩
    · -- the byte is full
      rw [if_pos hfull]
      have hih := ih hrest 0 0 (by omega)
      rw [Nat.mul_zero, Nat.zero_add] at hih
      rw [List.flatMap_cons, ← hnext, fields_or hv, hnext, List.take_append, List.take_of_length_le (by
        rw [List.length_append, fields_length]
        simp only [List.length_cons, List.length_nil]
        omega), List.length_append, fields_length]
      rw [show k + (rest.length + 1) - (k + [v].length) = rest.length by simp only [List.length_cons, List.length_nil]; omega,
        hih]
      rw [List.append_assoc]
      rfl
    · rw [if_neg hroom]
      have hih := ih hrest (k + 1) ((byte <<< bits) ||| v) hnext
      rw [show k + (rest.length + 1) = k + 1 + rest.length by omega, hih, fields_or hv, List.append_assoc]
      rfl

/-- **What is packed is unpacked.** -/
theorem unpack_pack {per : ℕ} (hper : bits * per = 8) {values : List ℕ} (hvalues : ∀ v ∈ values, v < 2 ^ bits) :
    ((pack bits values).flatMap (fields bits per)).take values.length = values := by
  have hpos : 0 < per := Nat.pos_of_ne_zero fun h => by rw [h] at hper; omega
  have h := unpack_packFrom hper hvalues 0 0 hpos
  rwa [Nat.mul_zero, Nat.zero_add] at h

theorem packFrom_length {per k : ℕ} (hper : bits * per = 8) (hk : k < per) (byte : ℕ) (values : List ℕ) :
    (packFrom bits byte (bits * k) values).length = (bits * k + values.length * bits + 7) / 8 := by
  induction values generalizing k byte with
  | nil =>
    have hlt : bits * k < 8 := hper ▸ Nat.mul_lt_mul_of_pos_left hk (Nat.pos_of_ne_zero fun h => by rw [h] at hper; omega)
    rw [packFrom]
    split <;> simp only [List.length_cons, List.length_nil] <;> omega
  | cons v rest ih =>
    rw [packFrom]
    rw [← Nat.mul_succ, List.length_cons, Nat.add_mul, Nat.one_mul]
    rcases full_or_room hper hk with ⟨hnext, hfull⟩ | ⟨hnext, hroom⟩
    · rw [if_pos hfull]
      have hih := ih (k := 0) (by omega) 0
      rw [Nat.mul_zero, Nat.zero_add] at hih
      rw [List.length_cons, hih]
      rw [Nat.mul_succ] at hfull
      omega
    · rw [if_neg hroom, ih hnext, Nat.mul_succ]
      omega

theorem pack_length {per : ℕ} (hper : bits * per = 8) (values : List ℕ) :
    (pack bits values).length = (values.length * bits + 7) / 8 := by
  have hpos : 0 < per := Nat.pos_of_ne_zero fun h => by rw [h] at hper; omega
  have h := packFrom_length hper hpos 0 values
  rwa [Nat.mul_zero, Nat.zero_add] at h

/-- A packed byte is a byte. -/
theorem packFrom_lt {per : ℕ} (hper : bits * per = 8) {values : List ℕ} (hvalues : ∀ v ∈ values, v < 2 ^ bits) (k byte : ℕ)
    (hk : k < per) (hbyte : byte < 2 ^ (bits * k)) : ∀ b ∈ packFrom bits byte (bits * k) values, b < 256 := by
  have hpos : 0 < bits := Nat.pos_of_ne_zero fun h => by rw [h] at hper; omega
  induction values generalizing k byte with
  | nil =>
    intro b hb
    rw [packFrom] at hb
    split at hb
    · obtain rfl := List.mem_singleton.1 hb
      have hlt : bits * k < 8 := hper ▸ Nat.mul_lt_mul_of_pos_left hk hpos
      rw [Nat.shiftLeft_eq]
      calc byte * 2 ^ (8 - bits * k) < 2 ^ (bits * k) * 2 ^ (8 - bits * k) :=
            Nat.mul_lt_mul_of_pos_right hbyte (Nat.two_pow_pos _)
        _ = 2 ^ 8 := by rw [← pow_add, Nat.add_sub_cancel' hlt.le]
    · exact absurd hb List.not_mem_nil
  | cons v rest ih =>
    have hv := hvalues v List.mem_cons_self
    have hrest : ∀ w ∈ rest, w < 2 ^ bits := fun w hw => hvalues w (List.mem_cons_of_mem _ hw)
    have hnew : (byte <<< bits) ||| v < 2 ^ (bits * (k + 1)) := by
      rw [Nat.mul_succ]
      refine Nat.or_lt_two_pow ?_ (lt_of_lt_of_le hv (Nat.pow_le_pow_right (by omega) (by omega)))
      rw [Nat.shiftLeft_eq, pow_add]
      exact Nat.mul_lt_mul_of_pos_right hbyte (Nat.two_pow_pos _)
    intro b hb
    rw [packFrom] at hb
    rw [← Nat.mul_succ] at hb
    rcases full_or_room hper hk with ⟨hnext, hfull⟩ | ⟨hnext, hroom⟩
    · rw [if_pos hfull] at hb
      rcases List.mem_cons.1 hb with rfl | hb
      · rw [hfull] at hnew
        exact hnew
      · exact ih hrest 0 0 (by omega) (by simp) b hb
    · rw [if_neg hroom] at hb
      exact ih hrest (k + 1) _ hnext hnew b hb

theorem pack_lt {per : ℕ} (hper : bits * per = 8) {values : List ℕ} (hvalues : ∀ v ∈ values, v < 2 ^ bits) :
    ∀ b ∈ pack bits values, b < 256 := by
  have hpos : 0 < per := Nat.pos_of_ne_zero fun h => by rw [h] at hper; omega
  have h := packFrom_lt hper hvalues 0 0 hpos (by simp)
  rwa [Nat.mul_zero] at h

end Packing
