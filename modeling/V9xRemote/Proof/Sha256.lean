import V9xRemote.Lib.Fips
import V9xRemote.Spec.Sha256
import V9xRemote.Proof.Sha512

/-!
# The code's SHA-256 is that of FIPS 180-4, and any cut of a message gives its digest

The context of SHA-256 is the state and the open block of `Absorbed`, as that of SHA-512 is;
a message that comes in any number of parts has the digest of the whole in both.
-/

namespace V9xRemote

open Bytes Blocks

/-! ## The compression -/

theorem sha256Word_eq (block : Bytes) (i : ℕ) : sha256Word block i = Fips256.word block i := by
  apply UInt32.toNat_inj.1
  have h0 := (block.at' (4 * i)).toNat_lt
  have h1 := (block.at' (4 * i + 1)).toNat_lt
  have h2 := (block.at' (4 * i + 2)).toNat_lt
  have h3 := (block.at' (4 * i + 3)).toNat_lt
  have hbytes : (List.range 4).map (fun j => block.at' (4 * i + j)) =
    [block.at' (4 * i), block.at' (4 * i + 1), block.at' (4 * i + 2), block.at' (4 * i + 3)] := rfl
  unfold Fips256.word Fips.beNat sha256Word
  rw [be32_toNat, hbytes, UInt32.toNat_ofNat']
  simp only [List.foldl_cons, List.foldl_nil]
  rw [Nat.mod_eq_of_lt (by omega)]
  omega

theorem sha256Extend_eq (n : ℕ) (w : List UInt32) : sha256Extend n w = Fips256.extend n w := by
  induction n generalizing w with
  | zero => rfl
  | succ n ih => exact ih _

theorem sha256Schedule_eq (block : Bytes) : sha256Schedule block = Fips256.schedule block := by
  unfold sha256Schedule Fips256.schedule
  rw [sha256Extend_eq]
  exact congrArg (fun f => Fips256.extend 48 ((List.range 16).map f)) (funext (sha256Word_eq block))

def stateOf (s : Sha256Words) : Fips256.State := ⟨s.a, s.b, s.c, s.d, s.e, s.f, s.g, s.h⟩

theorem sha256K_eq : sha256K = Fips256.k := by decide +kernel

theorem stateOf_h0 : stateOf sha256H0 = Fips256.h0 := by decide +kernel

theorem stateOf_round (s : Sha256Words) (kw : UInt32 × UInt32) :
    stateOf (sha256Round s kw) = Fips256.round (stateOf s) kw := rfl

/-- **A block.** -/
theorem stateOf_block (s : Sha256Words) (block : Bytes) :
    stateOf (sha256Block s block) = Fips256.compress (stateOf s) block := by
  have hrounds : stateOf ((sha256K.zip (sha256Schedule block)).foldl sha256Round s) =
      (Fips256.k.zip (Fips256.schedule block)).foldl Fips256.round (stateOf s) := by
    rw [← sha256K_eq, ← sha256Schedule_eq]
    exact (List.foldl_hom stateOf fun s kw => (stateOf_round s kw).symm).symm
  unfold sha256Block Fips256.compress
  dsimp only
  rw [← hrounds]
  generalize (sha256K.zip (sha256Schedule block)).foldl sha256Round s = r
  rfl

/-! ## The message in parts -/

/-- What the context holds of the message. -/
def Sha256.held (ctx : Sha256) : Fips256.State × Bytes := (stateOf ctx.state, ctx.buffer)

theorem sha256Push_held (ctx : Sha256) (byte : UInt8) :
    (sha256Push ctx byte).held = absorb 64 Fips256.compress ctx.held byte := by
  unfold sha256Push absorb Sha256.held
  dsimp only
  split
  · rw [stateOf_block]
  · rfl

theorem sha256Push_count (ctx : Sha256) (more : Bytes) :
    (more.foldl sha256Push ctx).countHi = ctx.countHi ∧ (more.foldl sha256Push ctx).countLo = ctx.countLo := by
  induction more generalizing ctx with
  | nil => exact ⟨rfl, rfl⟩
  | cons byte more ih =>
    have hcounts : (sha256Push ctx byte).countHi = ctx.countHi ∧ (sha256Push ctx byte).countLo = ctx.countLo := by
      unfold sha256Push
      dsimp only
      split <;> exact ⟨rfl, rfl⟩
    obtain ⟨hhi, hlo⟩ := ih (sha256Push ctx byte)
    exact ⟨hhi.trans hcounts.1, hlo.trans hcounts.2⟩

/-- **The context of a message so far.** -/
structure Sha256Is (ctx : Sha256) (data : Bytes) : Prop where
  absorbed : Absorbed 64 Fips256.compress Fips256.h0 data ctx.held.1 ctx.held.2
  count : 2 ^ 32 * ctx.countHi.toNat + ctx.countLo.toNat = data.length

theorem sha256Init_is : Sha256Is sha256Init [] := ⟨stateOf_h0 ▸ Absorbed.nil (by decide), rfl⟩

/-- **An update.** -/
theorem Sha256Is.update {ctx : Sha256} {data : Bytes} (h : Sha256Is ctx data) {more : Bytes} (hmore : more.length < 2 ^ 32)
    (htotal : data.length + more.length < 2 ^ 64) : Sha256Is (sha256Update ctx more) (data ++ more) := by
  unfold sha256Update
  dsimp only
  generalize hstart : { ctx with
    countLo := ctx.countLo + UInt32.ofNat more.length
    countHi := if ctx.countLo + UInt32.ofNat more.length < UInt32.ofNat more.length then ctx.countHi + 1
      else ctx.countHi } = start
  have hheld : start.held = ctx.held := by rw [← hstart]; rfl
  have hfold : (more.foldl sha256Push start).held = more.foldl (absorb 64 Fips256.compress) ctx.held := by
    rw [← hheld]
    exact (List.foldl_hom Sha256.held fun ctx byte => (sha256Push_held ctx byte).symm).symm
  obtain ⟨hhi, hlo⟩ := sha256Push_count start more
  constructor
  · rw [hfold]
    exact h.absorbed.pushes more
  · rw [hhi, hlo, ← hstart, List.length_append]
    exact count_add h.count hmore htotal

/-! ## The padding -/

theorem sha256Bytes_ofNat (n : ℕ) : sha256Bytes (UInt32.ofNat n) = Fips.beBytes 4 n := sha512Bytes_ofNat n

theorem sha256Bytes_words (s : Sha256Words) : s.toList.flatMap sha256Bytes = (stateOf s).digest :=
  congrArg (List.flatMap · s.toList) (funext sha512Bytes_eq)

/-- The two words of the length in bits. -/
theorem sha256Bits_eq {hi lo : UInt32} {length : ℕ} (h : 2 ^ 32 * hi.toNat + lo.toNat = length) :
    sha256Bytes ((hi <<< 3) ||| (lo >>> 29)) ++ sha256Bytes (lo <<< 3) = Fips.beBytes 8 (8 * length) := by
  rw [bits_mid h, bits_low h, sha256Bytes_ofNat, sha256Bytes_ofNat, Fips.beBytes_add 4 4]
  rfl

/-- **The digest of a message in parts** is that of the whole. -/
theorem Sha256Is.final {ctx : Sha256} {data : Bytes} (h : Sha256Is ctx data) : sha256Final ctx = Fips256.sha256 data := by
  have hopen := h.absorbed.open_length
  have hshort := h.absorbed.short
  have htail : (Fips.beBytes 8 (8 * data.length)).length = 8 := Fips.beBytes_length _ _
  have hfinish : sha256Final ctx =
      (finish 64 Fips256.compress ctx.held (Fips.beBytes 8 (8 * data.length))).digest := by
    unfold sha256Final finish
    dsimp only [Sha256.held]
    rw [sha256Bytes_words, htail]
    refine congrArg Fips256.State.digest ?_
    -- behind the mark there may be no room for the length, and then one more block
    by_cases hspill : (ctx.buffer ++ [0x80]).length > 56
    · have hzeros : ([] : Bytes) ++ List.replicate (56 - ([] : Bytes).length) 0 = List.replicate (64 - 8) 0 := rfl
      rw [if_pos hspill, if_pos (show _ > 64 - 8 from hspill)]
      dsimp only
      rw [stateOf_block, stateOf_block, hzeros, List.append_assoc _ (sha256Bytes _), sha256Bits_eq h.count]
    · rw [if_neg hspill, if_neg (show ¬_ > 64 - 8 from hspill)]
      dsimp only
      rw [stateOf_block, List.append_assoc _ (sha256Bytes _), sha256Bits_eq h.count]
  rw [hfinish, finish_eq (by rw [htail]; decide) hshort, htail, hopen, ← h.absorbed.fold]
  rfl

/-! ## Any cut of a message -/

/-- **However a message is cut into updates**, both hashes give its FIPS 180-4 digest. -/
theorem sha_parts (parts : List Bytes) (hlength : parts.flatten.length < 2 ^ 32) :
    sha256Final (parts.foldl sha256Update sha256Init) = Fips256.sha256 parts.flatten ∧
      sha512Final (parts.foldl sha512Update sha512Init) = Fips.sha512 parts.flatten := by
  rw [← Nat.zero_add parts.flatten.length] at hlength
  have h256 : Sha256Is (parts.foldl sha256Update sha256Init) ([] ++ parts.flatten) :=
    parts_rel (fun _ _ _ h hfits => h.update (by omega) (by omega)) parts sha256Init_is hlength
  have h512 : Sha512Is (parts.foldl sha512Update sha512Init) ([] ++ parts.flatten) :=
    parts_rel (fun _ _ _ h hfits => h.update (by omega) (by omega)) parts sha512Init_is hlength
  exact ⟨h256.final, h512.final⟩

/-- A message in three parts, one of them empty. -/
theorem sha_parts_demo :
    sha256Final ([ascii "a", [], ascii "bc"].foldl sha256Update sha256Init) = Fips256.sha256 (ascii "abc") ∧
      sha512Final ([ascii "a", [], ascii "bc"].foldl sha512Update sha512Init) = Fips.sha512 (ascii "abc") :=
  sha_parts [ascii "a", [], ascii "bc"] (by decide)

end V9xRemote
