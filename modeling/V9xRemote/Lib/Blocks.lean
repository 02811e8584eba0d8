import V9xRemote.Lib.Bytes

/-!
# Hashing block by block

A hash goes over the blocks of a padded message. One that takes the message in parts holds the
state behind the whole blocks, and the bytes of the open one; `Absorbed` says of which message.
-/

namespace Blocks

variable {σ : Type} {size : ℕ} {compress : σ → Bytes → σ} {start state : σ} {data buffer : Bytes}

/-- The state behind the whole blocks of a string. -/
def foldBlocks (size : ℕ) (compress : σ → Bytes → σ) (state : σ) (data : Bytes) : σ :=
  if 0 < size ∧ size ≤ data.length then foldBlocks size compress (compress state (data.take size)) (data.drop size)
  else state
termination_by data.length
decreasing_by
  rw [List.length_drop]
  omega

theorem foldBlocks_short (h : data.length < size) : foldBlocks size compress state data = state := by
  rw [foldBlocks, if_neg]
  omega

theorem foldBlocks_block {block : Bytes} (hsize : 0 < size) (h : block.length = size) (rest : Bytes) :
    foldBlocks size compress state (block ++ rest) = foldBlocks size compress (compress state block) rest := by
  have hlong : size ≤ (block ++ rest).length := by
    rw [List.length_append]
    omega
  rw [foldBlocks, if_pos ⟨hsize, hlong⟩, List.take_left' h, List.drop_left' h]

theorem foldBlocks_last {block : Bytes} (hsize : 0 < size) (h : block.length = size) :
    foldBlocks size compress state block = compress state block := by
  have hstep : foldBlocks size compress state (block ++ []) = foldBlocks size compress (compress state block) [] :=
    foldBlocks_block hsize h []
  rw [List.append_nil] at hstep
  exact hstep.trans (foldBlocks_short hsize)

/-- **The state and the open block** of a message. -/
structure Absorbed (size : ℕ) (compress : σ → Bytes → σ) (start : σ) (data : Bytes) (state : σ) (buffer : Bytes) :
    Prop where
  short : buffer.length < size
  open_length : buffer.length = data.length % size
  fold : ∀ rest, foldBlocks size compress start (data ++ rest) = foldBlocks size compress state (buffer ++ rest)

theorem Absorbed.nil (hsize : 0 < size) : Absorbed size compress start [] start [] :=
  ⟨hsize, (Nat.zero_mod size).symm, fun _ => rfl⟩

/-- **One more byte.** -/
theorem Absorbed.push (h : Absorbed size compress start data state buffer) (byte : UInt8) :
    Absorbed size compress start (data ++ [byte])
      (if (buffer ++ [byte]).length = size then compress state (buffer ++ [byte]) else state)
      (if (buffer ++ [byte]).length = size then [] else buffer ++ [byte]) := by
  have hshort := h.short
  have hopen := h.open_length
  have hlength : (buffer ++ [byte]).length = buffer.length + 1 := by simp
  have hdata : (data ++ [byte]).length = data.length + 1 := by simp
  have hmod : (data.length + 1) % size = (buffer.length + 1) % size := by
    rw [hopen, Nat.mod_add_mod]
  by_cases hfull : (buffer ++ [byte]).length = size
  · rw [if_pos hfull, if_pos hfull]
    refine ⟨?_, ?_, fun rest => ?_⟩
    · rw [List.length_nil]
      omega
    · rw [hdata, hmod, ← hlength, hfull, Nat.mod_self, List.length_nil]
    · have hstep := h.fold ([byte] ++ rest)
      rw [← List.append_assoc, ← List.append_assoc] at hstep
      rw [hstep, foldBlocks_block (by omega) hfull, List.nil_append]
  · rw [if_neg hfull, if_neg hfull]
    refine ⟨by omega, ?_, fun rest => ?_⟩
    · rw [hdata, hmod, hlength, Nat.mod_eq_of_lt (by omega)]
    · have hstep := h.fold ([byte] ++ rest)
      rw [← List.append_assoc, ← List.append_assoc] at hstep
      exact hstep

/-- A byte into the open block; a full one is hashed at once. -/
def absorb (size : ℕ) (compress : σ → Bytes → σ) (context : σ × Bytes) (byte : UInt8) : σ × Bytes :=
  if (context.2 ++ [byte]).length = size then (compress context.1 (context.2 ++ [byte]), [])
  else (context.1, context.2 ++ [byte])

/-- **More bytes**, one by one. -/
theorem Absorbed.pushes {context : σ × Bytes} (h : Absorbed size compress start data context.1 context.2) (more : Bytes) :
    Absorbed size compress start (data ++ more) (more.foldl (absorb size compress) context).1
      (more.foldl (absorb size compress) context).2 := by
  induction more generalizing context data with
  | nil =>
    rw [List.append_nil]
    exact h
  | cons byte more ih =>
    have hpush : Absorbed size compress start (data ++ [byte]) (absorb size compress context byte).1
        (absorb size compress context byte).2 := by
      have hstep := h.push byte
      unfold absorb
      split
      · rename_i hfull
        rw [if_pos hfull, if_pos hfull] at hstep
        exact hstep
      · rename_i hroom
        rw [if_neg hroom, if_neg hroom] at hstep
        exact hstep
    have hmore := ih hpush
    rw [List.append_assoc] at hmore
    exact hmore

/-- The end of a message: a mark, zeros and a tail that fills the last block, in a further block where
the open one has no room. -/
def finish (size : ℕ) (compress : σ → Bytes → σ) (context : σ × Bytes) (tail : Bytes) : σ :=
  let buffer := context.2 ++ [0x80]
  if buffer.length > size - tail.length then
    compress (compress context.1 (buffer ++ List.replicate (size - buffer.length) 0))
      (List.replicate (size - tail.length) 0 ++ tail)
  else compress context.1 (buffer ++ List.replicate (size - tail.length - buffer.length) 0 ++ tail)

/-- **The end of a message** is the padding up to the next block that has room for the tail. -/
theorem finish_eq {context : σ × Bytes} {tail : Bytes} (htail : tail.length < size) (hopen : context.2.length < size) :
    finish size compress context tail = foldBlocks size compress context.1
      (context.2 ++ 0x80 :: (List.replicate ((2 * size - tail.length - 1 - context.2.length) % size) 0 ++ tail)) := by
  obtain ⟨state, buffer⟩ := context
  dsimp only at hopen ⊢
  have hmarked : (buffer ++ [0x80]).length = buffer.length + 1 := by rw [List.length_append, List.length_singleton]
  have hlist : ∀ n, buffer ++ 0x80 :: (List.replicate n 0 ++ tail) = buffer ++ [0x80] ++ List.replicate n 0 ++ tail := by
    intro n
    simp only [List.append_assoc, List.cons_append, List.nil_append]
  rw [finish]
  dsimp only
  rw [hlist, hmarked]
  by_cases hlong : buffer.length + 1 > size - tail.length
  · have hzeros : (2 * size - tail.length - 1 - buffer.length) % size =
        (size - (buffer.length + 1)) + (size - tail.length) := by
      rw [Nat.mod_eq_of_lt (by omega)]
      omega
    have hfirst : (buffer ++ [0x80] ++ List.replicate (size - (buffer.length + 1)) 0).length = size := by
      rw [List.length_append, hmarked, List.length_replicate]
      omega
    have hlast : (List.replicate (size - tail.length) 0 ++ tail).length = size := by
      rw [List.length_append, List.length_replicate]
      omega
    rw [if_pos hlong, hzeros, List.replicate_add, ← List.append_assoc (buffer ++ [0x80]), List.append_assoc _ _ tail,
      foldBlocks_block (by omega) hfirst, foldBlocks_last (by omega) hlast]
  · have hzeros : (2 * size - tail.length - 1 - buffer.length) % size = size - tail.length - (buffer.length + 1) := by
      have hover : 2 * size - tail.length - 1 - buffer.length = size - tail.length - (buffer.length + 1) + size := by omega
      rw [hover, Nat.add_mod_right, Nat.mod_eq_of_lt (by omega)]
    have hlast : (buffer ++ [0x80] ++ List.replicate (size - tail.length - (buffer.length + 1)) 0 ++ tail).length =
        size := by
      rw [List.length_append, List.length_append, hmarked, List.length_replicate]
      omega
    rw [if_neg hlong, hzeros, foldBlocks_last (by omega) hlast]

/-- **A message in parts**: what holds of the empty context and is kept by an update. -/
theorem parts_rel {τ : Type} {R : τ → Bytes → Prop} {update : τ → Bytes → τ} {limit : ℕ}
    (hupdate : ∀ context data more, R context data → data.length + more.length < limit →
      R (update context more) (data ++ more))
    (parts : List Bytes) {context : τ} (h : R context data) (hlength : data.length + parts.flatten.length < limit) :
    R (parts.foldl update context) (data ++ parts.flatten) := by
  induction parts generalizing context data with
  | nil =>
    rw [List.flatten_nil, List.append_nil]
    exact h
  | cons part parts ih =>
    rw [List.flatten_cons, List.length_append] at hlength
    rw [List.flatten_cons, ← List.append_assoc]
    exact ih (hupdate context data part h (by omega)) (by rw [List.length_append]; omega)

end Blocks
