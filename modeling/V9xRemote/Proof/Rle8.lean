import V9xRemote.Lib.Cursor
import V9xRemote.Spec.McpImage

/-!
# RLE8 streams

The stream of an image is, line by line, the pieces of a row and a mark. The host's decoder
paints one piece after another, whatever follows the stream, and where the stream breaks off
it reports an error: it reads the stream and no more.
-/

namespace V9xRemote

open Bytes Cursor

/-- What an encoder may write of a row. -/
inductive Rle8Piece
  | run (count : ℕ) (value : UInt8)
  | literal (bytes : Bytes)
deriving DecidableEq, Repr

namespace Rle8Piece

/-- A run's count is a byte; an absolute run has three bytes at least. -/
def Ok : Rle8Piece → Prop
  | run count _ => 1 ≤ count ∧ count ≤ 255
  | literal bytes => 3 ≤ bytes.length ∧ bytes.length ≤ 255

/-- The pixels it stands for. -/
def pixels : Rle8Piece → Bytes
  | run count value => List.replicate count value
  | literal bytes => bytes

/-- The bytes it is written as, padded to a word. -/
def code : Rle8Piece → Bytes
  | run count value => [UInt8.ofNat count, value]
  | literal bytes => 0 :: UInt8.ofNat bytes.length :: (bytes ++ List.replicate (bytes.length % 2) 0)

end Rle8Piece

/-- The pixels of a line. -/
def rle8Pixels (line : List Rle8Piece) : Bytes := line.flatMap Rle8Piece.pixels

/-- The pieces of a line, as they are written. -/
def rle8Code (line : List Rle8Piece) : Bytes := line.flatMap Rle8Piece.code

/-- The mark behind the line `y`: the bitmap's end behind the last one. -/
def rle8Mark (height y : ℕ) : Bytes := [0, if y + 1 = height then 1 else 0]

/-- The lines from `y` on, as they are written. -/
def rle8Text (height : ℕ) : ℕ → List (List Rle8Piece) → Bytes
  | _, [] => []
  | y, line :: lines => rle8Code line ++ rle8Mark height y ++ rle8Text height (y + 1) lines

variable {head rest row : Bytes} {width height x y : ℕ} {image : List Bytes} {piece : Rle8Piece} {line : List Rle8Piece}

/-! ## Painting -/

theorem paintRow_length {bytes : Bytes} (h : x + bytes.length ≤ row.length) :
    (paintRow row x bytes).length = row.length := by
  rw [paintRow, List.length_append, List.length_append, List.length_take, List.length_drop]
  omega

theorem paintRow_nil (row : Bytes) (x : ℕ) : paintRow row x [] = row := by
  rw [paintRow, List.append_nil, List.length_nil, Nat.add_zero, List.take_append_drop]

/-- One piece painted behind another. -/
theorem paintRow_append {a b : Bytes} (h : x + a.length ≤ row.length) :
    paintRow (paintRow row x a) (x + a.length) b = paintRow row x (a ++ b) := by
  have hx : (row.take x).length = x := by rw [List.length_take]; omega
  have hlen : (row.take x ++ a).length = x + a.length := by rw [List.length_append, hx]
  unfold paintRow
  rw [← hlen, List.take_left, List.drop_append]
  simp [hx, Nat.add_assoc, Nat.add_comm a.length]

/-- A whole row. -/
theorem paintRow_whole {bytes : Bytes} (h : row.length = bytes.length) : paintRow row 0 bytes = bytes := by
  rw [paintRow, List.take_zero, List.nil_append, Nat.zero_add, ← h, List.drop_length, List.append_nil]

/-! ## Decoding -/

variable {data : Bytes} {start : ℕ}

theorem toNat_count {count : ℕ} (h : count ≤ 255) : (UInt8.ofNat count).toNat = count := by
  rw [UInt8.toNat_ofNat']
  omega

/-- **A piece is painted** and passed, whatever follows it. -/
theorem decode_piece (h : At data start (piece.code ++ rest)) (hok : piece.Ok) (hy : y < height)
    (hx : x + piece.pixels.length ≤ width) :
    decodeRle8 data width height start x y image =
      decodeRle8 data width height (start + piece.code.length) (x + piece.pixels.length) y
        (image.modify y fun row => paintRow row x piece.pixels) := by
  have hroom := h.room
  cases piece with
  | run count value =>
    obtain ⟨hpos, hmax⟩ := hok
    have hcount : data.at' start = UInt8.ofNat count := h.at' 0
    have hvalue : data.at' (start + 1) = value := h.at' 1
    simp only [Rle8Piece.pixels, List.length_replicate] at hx
    simp only [Rle8Piece.code, List.length_cons, List.length_nil] at hroom
    have hbad : ¬((y ≥ height || x + count > width) = true) := by
      simp only [Bool.or_eq_true, decide_eq_true_eq]
      omega
    rw [decodeRle8, dif_neg (by omega)]
    dsimp only
    rw [hcount, hvalue, toNat_count hmax, if_pos (by omega : count ≠ 0), if_neg hbad]
    simp only [Rle8Piece.code, Rle8Piece.pixels, List.length_replicate, List.length_cons, List.length_nil, Nat.zero_add]
  | literal bytes =>
    obtain ⟨hmin, hmax⟩ := hok
    have hzero : data.at' start = 0 := h.at' 0
    have hcount : data.at' (start + 1) = UInt8.ofNat bytes.length := h.at' 1
    have hnat := toNat_count hmax
    have hbytes : (data.drop (start + 2)).take bytes.length = bytes := by
      have hsplit : (Rle8Piece.literal bytes).code ++ rest =
          [0, UInt8.ofNat bytes.length] ++ (bytes ++ (List.replicate (bytes.length % 2) 0 ++ rest)) := by
        simp [Rle8Piece.code]
      rw [hsplit] at h
      exact h.next.take
    have hlength : (Rle8Piece.literal bytes).code.length = 2 + bytes.length + bytes.length % 2 := by
      simp only [Rle8Piece.code, List.length_cons, List.length_append, List.length_replicate]
      omega
    rw [hlength] at hroom
    simp only [Rle8Piece.pixels] at hx
    have hne : ∀ k : UInt8, k.toNat < 3 → UInt8.ofNat bytes.length ≠ k := by
      intro k hk heq
      rw [← heq, hnat] at hk
      omega
    have hbad : ¬((y ≥ height || x + bytes.length > width || start + 2 + bytes.length > data.length) = true) := by
      simp only [Bool.or_eq_true, decide_eq_true_eq]
      omega
    rw [decodeRle8, dif_neg (by omega)]
    dsimp only
    rw [hzero, hcount, hnat, if_neg (by decide), if_neg (hne 0 (by decide)), if_neg (hne 1 (by decide)),
      if_neg (hne 2 (by decide)), if_neg hbad, hbytes, hlength]
    simp only [Rle8Piece.pixels, Nat.add_assoc]

theorem modify_at (done todo : List Bytes) (f : Bytes → Bytes) :
    (done ++ row :: todo).modify done.length f = done ++ f row :: todo := by
  induction done with
  | nil => rfl
  | cons first done ih => exact congrArg (first :: ·) ih

/-- **The pieces of a line** are painted one behind another. -/
theorem decode_line {done todo : List Bytes} (line : List Rle8Piece) (h : At data start (rle8Code line ++ rest))
    (hok : ∀ piece ∈ line, piece.Ok) (hy : done.length < height) (hx : x + (rle8Pixels line).length ≤ width)
    (hrow : row.length = width) :
    decodeRle8 data width height start x done.length (done ++ row :: todo) =
      decodeRle8 data width height (start + (rle8Code line).length) (x + (rle8Pixels line).length) done.length
        (done ++ paintRow row x (rle8Pixels line) :: todo) := by
  induction line generalizing start x row with
  | nil =>
    have hnil : paintRow row x (rle8Pixels []) = row := paintRow_nil row x
    rw [hnil]
    rfl
  | cons piece line ih =>
    have hpiece := hok piece List.mem_cons_self
    have hpixels : rle8Pixels (piece :: line) = piece.pixels ++ rle8Pixels line := rfl
    have hcode : rle8Code (piece :: line) = piece.code ++ rle8Code line := rfl
    rw [hpixels, List.length_append] at hx
    rw [hcode, List.append_assoc] at h
    have hpainted : (paintRow row x piece.pixels).length = width := by rw [paintRow_length (by omega), hrow]
    rw [decode_piece h hpiece hy (by omega), modify_at,
      ih h.next (fun p hp => hok p (List.mem_cons_of_mem _ hp)) (by omega) hpainted, paintRow_append (by omega), hpixels,
      hcode, List.length_append, List.length_append, Nat.add_assoc, Nat.add_assoc]

/-- **A mark** goes to the next row or ends the bitmap. -/
theorem decode_mark (h : At data start (rle8Mark height y ++ rest)) :
    decodeRle8 data width height start x y image =
      if y + 1 = height then .ok image else decodeRle8 data width height (start + 2) 0 (y + 1) image := by
  have hzero : data.at' start = 0 := h.at' 0
  have hvalue : data.at' (start + 1) = if y + 1 = height then 1 else 0 := h.at' 1
  have hroom : start + 2 ≤ data.length := h.room
  rw [decodeRle8, dif_neg (by omega)]
  dsimp only
  rw [hzero, hvalue, if_neg (by decide)]
  by_cases hlast : y + 1 = height
  · rw [if_pos hlast, if_pos hlast, if_neg (by decide), if_pos rfl]
  · rw [if_neg hlast, if_neg hlast, if_pos rfl]

/-- **A stream gives its rows**, whatever follows it. -/
theorem decode_text {done todo : List Bytes} (lines : List (List Rle8Piece))
    (h : At data start (rle8Text height done.length lines ++ rest)) (hok : ∀ line ∈ lines, ∀ piece ∈ line, piece.Ok)
    (hne : lines ≠ []) (hheight : done.length + lines.length = height)
    (hlines : ∀ line ∈ lines, (rle8Pixels line).length = width) (htodo : todo.length = lines.length)
    (hrows : ∀ row ∈ todo, row.length = width) :
    decodeRle8 data width height start 0 done.length (done ++ todo) = .ok (done ++ lines.map rle8Pixels) := by
  induction lines generalizing start done todo with
  | nil => exact absurd rfl hne
  | cons line lines ih =>
    obtain ⟨row, todo, rfl⟩ := List.exists_cons_of_length_pos (by rw [htodo]; exact Nat.succ_pos _ : 0 < todo.length)
    have hline := hlines line List.mem_cons_self
    have hrow := hrows row List.mem_cons_self
    rw [List.length_cons] at hheight
    rw [rle8Text, List.append_assoc, List.append_assoc] at h
    rw [decode_line line h (hok line List.mem_cons_self) (by omega) (by omega) hrow, paintRow_whole (by omega),
      decode_mark h.next]
    cases lines with
    | nil =>
      rw [if_pos (by simpa using hheight)]
      cases todo with
      | nil => rfl
      | cons _ _ => simp at htodo
    | cons next lines =>
      rw [if_neg (by rw [List.length_cons] at hheight; omega)]
      have hdone : (done ++ [rle8Pixels line]).length = done.length + 1 := by rw [List.length_append]; rfl
      have hnext := h.next.next
      rw [← hdone] at hnext
      have hrest := @ih _ (done ++ [rle8Pixels line]) todo hnext (fun l hl => hok l (List.mem_cons_of_mem _ hl))
        (List.cons_ne_nil _ _) (by rw [hdone]; omega) (fun l hl => hlines l (List.mem_cons_of_mem _ hl))
        (by simpa using htodo) (fun r hr => hrows r (List.mem_cons_of_mem _ hr))
      rw [hdone] at hrest
      simp only [List.append_assoc, List.singleton_append] at hrest
      exact hrest

/-! ## A stream that breaks off -/

/-- A beginning of a text of two parts ends in the first one or goes past it. -/
theorem cut_append {cut a b : Bytes} (h : cut <+: a ++ b) :
    (cut <+: a ∧ cut.length < a.length) ∨ ∃ cut', cut = a ++ cut' ∧ cut' <+: b := by
  have ha : a <+: a ++ b := List.prefix_append a b
  by_cases hshort : cut.length < a.length
  · exact .inl ⟨List.prefix_of_prefix_length_le h ha hshort.le, hshort⟩
  · obtain ⟨cut', rfl⟩ := List.prefix_of_prefix_length_le ha h (not_lt.1 hshort)
    exact .inr ⟨cut', rfl, (List.prefix_append_right_inj a).1 h⟩

theorem decode_short (h : data.length < start + 2) :
    ∃ e, decodeRle8 data width height start x y image = .error e := by
  rw [decodeRle8, dif_pos h]
  exact ⟨_, rfl⟩

/-- **A piece that breaks off** is an error. -/
theorem decode_piece_cut {cut : Bytes} (hcut : cut <+: piece.code) (hshort : cut.length < piece.code.length)
    (h : At data start cut) (hok : piece.Ok) :
    ∃ e, decodeRle8 data width height start x y image = .error e := by
  have hlength := h.length
  by_cases htwo : cut.length < 2
  · exact decode_short (by omega)
  cases piece with
  | run count value =>
    simp only [Rle8Piece.code, List.length_cons, List.length_nil] at hshort
    omega
  | literal bytes =>
    obtain ⟨hmin, hmax⟩ := hok
    have hnat := toNat_count hmax
    match cut, hcut, h, htwo, hlength, hshort with
    | first :: second :: cut, hcut, h, htwo, hlength, hshort =>
      obtain ⟨hfirst, hcut⟩ := List.cons_prefix_cons.1 hcut
      obtain ⟨hsecond, hcut⟩ := List.cons_prefix_cons.1 hcut
      have hzero : data.at' start = 0 := (h.at' 0).trans hfirst
      have hcount : data.at' (start + 1) = UInt8.ofNat bytes.length := (h.at' 1).trans hsecond
      simp only [Rle8Piece.code, List.length_cons, List.length_append, List.length_replicate] at hshort hlength
      have hne : ∀ k : UInt8, k.toNat < 3 → UInt8.ofNat bytes.length ≠ k := by
        intro k hk heq
        rw [← heq, hnat] at hk
        omega
      rw [decodeRle8, dif_neg (by omega)]
      dsimp only
      rw [hzero, hcount, hnat, if_neg (by decide), if_neg (hne 0 (by decide)), if_neg (hne 1 (by decide)),
        if_neg (hne 2 (by decide))]
      split
      · exact ⟨_, rfl⟩
      · -- all of the literal is there, so the byte that pads it is missing
        rename_i hinside
        simp only [Bool.or_eq_true, decide_eq_true_eq] at hinside
        exact decode_short (by omega)

/-- **A line that breaks off**, or what follows it, where that cannot be decoded. -/
theorem decode_line_cut {t : Bytes} (line : List Rle8Piece) (hok : ∀ piece ∈ line, piece.Ok) (hy : y < height)
    (ht : ∀ start x image cut, At data start cut → cut <+: t → cut.length < t.length →
      ∃ e, decodeRle8 data width height start x y image = .error e)
    {cut : Bytes} (h : At data start cut) (hcut : cut <+: rle8Code line ++ t)
    (hshort : cut.length < (rle8Code line ++ t).length) (hx : x + (rle8Pixels line).length ≤ width) :
    ∃ e, decodeRle8 data width height start x y image = .error e := by
  induction line generalizing start x image cut with
  | nil => exact ht _ _ _ _ h hcut hshort
  | cons piece line ih =>
    have hpiece := hok piece List.mem_cons_self
    have hpixels : rle8Pixels (piece :: line) = piece.pixels ++ rle8Pixels line := rfl
    have hcode : rle8Code (piece :: line) = piece.code ++ rle8Code line := rfl
    rw [hpixels, List.length_append] at hx
    rw [hcode, List.append_assoc] at hcut hshort
    rcases cut_append hcut with ⟨hcut, hshort⟩ | ⟨cut, rfl, hrest⟩
    · exact decode_piece_cut hcut hshort h hpiece
    · rw [decode_piece h hpiece hy (by omega)]
      rw [List.length_append, List.length_append] at hshort
      exact ih (fun p hp => hok p (List.mem_cons_of_mem _ hp)) h.next hrest (by omega) (by omega)

/-- **A stream that breaks off** is an error. -/
theorem decode_text_cut (lines : List (List Rle8Piece)) (hok : ∀ line ∈ lines, ∀ piece ∈ line, piece.Ok)
    (hlines : ∀ line ∈ lines, (rle8Pixels line).length = width) (hne : lines ≠ []) (hheight : y + lines.length = height)
    {cut : Bytes} (h : At data start cut) (hcut : cut <+: rle8Text height y lines)
    (hshort : cut.length < (rle8Text height y lines).length) :
    ∃ e, decodeRle8 data width height start 0 y image = .error e := by
  induction lines generalizing start y image cut with
  | nil => exact absurd rfl hne
  | cons line lines ih =>
    have hline := hlines line List.mem_cons_self
    rw [List.length_cons] at hheight
    rw [rle8Text, List.append_assoc] at hcut hshort
    refine decode_line_cut line (hok line List.mem_cons_self) (by omega) (fun start x image cut h hcut hshort => ?_) h
      hcut hshort (by omega)
    have hmark : (rle8Mark height y).length = 2 := rfl
    rcases cut_append hcut with ⟨-, hshort⟩ | ⟨cut, rfl, hrest⟩
    · have := h.length
      exact decode_short (by omega)
    · rw [decode_mark h]
      cases lines with
      | nil =>
        simp only [rle8Text, List.append_nil, List.length_append] at hshort
        omega
      | cons next lines =>
        rw [if_neg (by rw [List.length_cons] at hheight; omega)]
        rw [List.length_append, List.length_append] at hshort
        exact ih (fun l hl => hok l (List.mem_cons_of_mem _ hl)) (fun l hl => hlines l (List.mem_cons_of_mem _ hl))
          (List.cons_ne_nil _ _) (by omega) h.next hrest (by omega)

end V9xRemote
