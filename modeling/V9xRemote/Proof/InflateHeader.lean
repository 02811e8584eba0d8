import V9xRemote.Proof.Inflate

/-!
# The header of a dynamic block

The code lengths are collected into the caller's scratch state, index by index; the list of
those below the index is what the format has collected.
-/

namespace V9xRemote

open Bytes Checked Deflate Canonical

variable {s s' s'' : InflateStream} {code : InflateCode} {codeLengths : List ℕ}

/-! ## Lists of lengths -/

theorem lengthList_update (lengths : ℕ → ℕ) (n v : ℕ) :
    lengthList (Function.update lengths n v) (n + 1) = lengthList lengths n ++ [v] := by
  rw [lengthList_succ, Function.update_self]
  refine congrArg (· ++ [v]) (List.map_congr_left fun i hi => ?_)
  exact Function.update_of_ne (List.mem_range.1 hi).ne _ _

theorem lengthList_getLast? (lengths : ℕ → ℕ) (n : ℕ) :
    (lengthList lengths n).getLast? = if n = 0 then none else some (lengths (n - 1)) := by
  cases n with
  | zero => rfl
  | succ n => rw [lengthList_succ, List.getLast?_concat, if_neg n.succ_ne_zero, Nat.add_sub_cancel]

theorem lengthList_drop (lengths : ℕ → ℕ) (n m : ℕ) :
    (lengthList lengths (n + m)).drop n = lengthList (fun i => lengths (n + i)) m := by
  refine List.ext_getElem ?_ fun i _ _ => ?_
  · rw [List.length_drop, lengthList_length, lengthList_length]
    omega
  · simp only [lengthList, List.getElem_drop, List.getElem_map, List.getElem_range]

/-! ## The code length code -/

theorem order_inverse : (∀ i < 19, codeLengthOrder.idxOf (codeLengthOrder.getD i 0) = i ∧ codeLengthOrder.getD i 0 < 19) ∧
    ∀ symbol < 19, codeLengthOrder.getD (codeLengthOrder.idxOf symbol) 0 = symbol := by
  decide

theorem fields_succ (n : ℕ) (bs : List Bool) : fields (n + 1) bs = (field 3 bs).bind fun (v, bs) =>
    (fields n bs).map fun (vs, rest) => (v :: vs, rest) := by
  rw [fields]
  simp [Option.map_eq_bind]

/-- What holds while the lengths of the code length code are read. -/
structure ClenRead (s : InflateStream) (n i : ℕ) (clen : ℕ → ℕ) (s' : InflateStream) (vs : List ℕ) : Prop where
  reads : Reads s s'
  length : vs.length = i
  fields : fields n s.rest = (fields (n - i) s'.rest).map fun (ws, rest) => (vs ++ ws, rest)
  clen : ∀ symbol < 19, clen symbol = vs.getD (codeLengthOrder.idxOf symbol) 0

theorem ClenRead.next {n i v : ℕ} {clen : ℕ → ℕ} {vs : List ℕ} (h : ClenRead s n i clen s' vs) (hi : i < n) (hn : n ≤ 19)
    (hreads : Reads s' s'') (hfield : field 3 s'.rest = some (v, s''.rest)) :
    ClenRead s n (i + 1) (Function.update clen (codeLengthOrder.getD i 0) v) s'' (vs ++ [v]) where
  reads := h.reads.trans hreads
  length := by rw [List.length_append, h.length, List.length_singleton]
  fields := by
    obtain ⟨m, hm⟩ : ∃ m, n - i = m + 1 := ⟨n - i - 1, by omega⟩
    have hm' : n - (i + 1) = m := by omega
    rw [h.fields, hm, hm', fields_succ, hfield, Option.bind_some, Option.map_map]
    refine congrArg (Option.map · _) (funext fun p => ?_)
    simp
  clen := by
    intro symbol hsymbol
    rw [Function.update_apply]
    by_cases heq : symbol = codeLengthOrder.getD i 0
    · have hindex : codeLengthOrder.idxOf symbol = i := by
        rw [heq]
        exact (order_inverse.1 i (by omega)).1
      rw [if_pos heq, hindex, ← h.length, List.getD_append_right _ _ _ _ le_rfl, Nat.sub_self]
      rfl
    · have hindex : codeLengthOrder.idxOf symbol ≠ i := by
        intro hi'
        exact heq (by rw [← hi', order_inverse.2 symbol hsymbol])
      rw [if_neg heq, h.clen symbol hsymbol]
      rcases lt_or_gt_of_ne hindex with hlt | hgt
      · exact (List.getD_append _ _ _ _ (by rw [h.length]; exact hlt)).symm
      · rw [List.getD_eq_default _ _ (by rw [h.length]; omega),
          List.getD_eq_default _ _ (by rw [List.length_append, h.length, List.length_singleton]; omega)]

/-- The lengths of the code length code. -/
theorem post_clen (hs : s.Ready) {n : ℕ} (hn : n ≤ 19) :
    Post ((List.range n).foldlM
      (fun clen i => do
        let value ← inflateBits 3
        let place ← constAt inflateClenOrder i
        tableSet inflateClenSymbols clen place value)
      fun _ => 0) s
      (fun clen s' => Reads s s' ∧
        ∃ vs, fields n s.rest = some (vs, s'.rest) ∧ lengthList clen 19 = codeLengthCode vs)
      (fun e s' => Failed s e s' ∧ fields n s.rest = none) := by
  have hfold : Post ((List.range n).foldlM
      (fun clen i => do
        let value ← inflateBits 3
        let place ← constAt inflateClenOrder i
        tableSet inflateClenSymbols clen place value)
      fun _ => 0) s (fun clen s' => ∃ vs, ClenRead s n n clen s' vs)
      (fun e s' => Failed s e s' ∧ fields n s.rest = none) := by
    refine post_foldlM_range (I := fun i clen s' => ∃ vs, ClenRead s n i clen s' vs) n ?_
      ⟨[], Reads.refl hs, rfl, ?_, fun symbol _ => rfl⟩
    · rintro i hi clen s' ⟨vs, h⟩
      rw [post_bind]
      refine (post_bits h.reads.ready 3).imp (fun v s'' hv => ?_) (fun e s'' hv => ?_)
      · simp only [constAt, tableAt, tableSet, post_bind, post_check, post_pure]
        exact ⟨show i < 19 by omega, (order_inverse.1 i (by omega)).2, vs ++ [v], h.next hi hn hv.1 hv.2⟩
      · obtain ⟨m, hm⟩ : ∃ m, n - i = m + 1 := ⟨n - i - 1, by omega⟩
        refine ⟨Failed.behind h.reads hv.1, ?_⟩
        rw [h.fields, hm, fields_succ, hv.2]
        rfl
    · rw [Nat.sub_zero]
      cases fields n s.rest <;> rfl
  refine hfold.imp (fun clen s' h => ?_) fun _ _ h => h
  obtain ⟨vs, h⟩ := h
  refine ⟨h.reads, vs, ?_, List.map_congr_left fun symbol hsymbol => h.clen symbol (List.mem_range.1 hsymbol)⟩
  rw [h.fields, Nat.sub_self, fields, Option.map_some]
  exact congrArg some (Prod.ext (List.append_nil vs) rfl)

/-! ## Code lengths -/

theorem run_of_decode (before : List ℕ) {symbol : ℕ} {bs rest : List Bool}
    (h : decode codeLengths bs = some (symbol, rest)) : run codeLengths before bs =
      if symbol < 16 then some ([symbol], rest)
      else if symbol = 16 then
        before.getLast?.bind fun last => (field 2 rest).map fun (v, rest) => (List.replicate (3 + v) last, rest)
      else if symbol = 17 then (field 3 rest).map fun (v, rest) => (List.replicate (3 + v) 0, rest)
      else (field 7 rest).map fun (v, rest) => (List.replicate (11 + v) 0, rest) := by
  rw [run, h]
  by_cases h1 : symbol < 16
  · simp [h1]
  by_cases h2 : symbol = 16
  · simp [h2, Option.map_eq_bind]
  by_cases h3 : symbol = 17
  · simp [h3, Option.map_eq_bind]
  · simp [h1, h2, h3, Option.map_eq_bind]

/-- What a pass over the code lengths leaves to do, or their end. -/
def Collects (codeLengths : List ℕ) (total : ℕ) (lengths : ℕ → ℕ) (index : ℕ) (s : InflateStream)
    (r : ((ℕ → ℕ) × ℕ) ⊕ (ℕ → ℕ)) (s' : InflateStream) : Prop :=
  Reads s s' ∧ r.elim
    (fun next => next.2 ≤ total ∧ s'.rest.length < s.rest.length ∧
      runs codeLengths total (lengthList lengths index) s.rest =
        runs codeLengths total (lengthList next.1 next.2) s'.rest)
    fun lengths' => runs codeLengths total (lengthList lengths index) s.rest = some (lengthList lengths' total, s'.rest)

/-- A repeated length is written as often as it stands for. -/
theorem post_repeat {total index value count : ℕ} {lengths : ℕ → ℕ} (htotal : total ≤ inflateLengthsSize)
    (hindex : index < total) (hreads : Reads s s')
    (hrun : run codeLengths (lengthList lengths index) s.rest = some (List.replicate count value, s'.rest)) :
    Post (inflateRepeat total lengths index value count) s' (Collects codeLengths total lengths index s)
      (fun e s'' => Failed s e s'' ∧ runs codeLengths total (lengthList lengths index) s.rest = none) := by
  have hmore : (lengthList lengths index).length < total := by rwa [lengthList_length]
  have hruns := runs_some hmore hrun
  rw [lengthList_length, List.length_replicate] at hruns
  rw [inflateRepeat, post_ite, post_stop]
  refine ⟨fun hfar => ⟨hreads.failed (by decide), by rw [hruns, if_neg (by omega)]⟩, fun hfit => ?_⟩
  rw [if_pos (by omega)] at hruns
  rw [post_bind]
  have hfold : Post ((List.range count).foldlM
      (fun lengths i => tableSet inflateLengthsSize lengths (index + i) value) lengths) s'
      (fun lengths' s'' => s'' = s' ∧
        lengthList lengths' (index + count) = lengthList lengths index ++ List.replicate count value)
      (fun e s'' => Failed s e s'' ∧ runs codeLengths total (lengthList lengths index) s.rest = none) := by
    refine post_foldlM_range (I := fun i (lengths' : ℕ → ℕ) s'' => s'' = s' ∧
      lengthList lengths' (index + i) = lengthList lengths index ++ List.replicate i value) count ?_
      ⟨rfl, (List.append_nil _).symm⟩
    rintro i hi lengths' s'' ⟨rfl, hlist⟩
    simp only [tableSet, post_bind, post_check, post_pure]
    refine ⟨by omega, trivial, ?_⟩
    rw [← Nat.add_assoc, lengthList_update, hlist, List.replicate_succ', List.append_assoc]
  refine hfold.imp (fun lengths' s'' h => ?_) fun _ _ h => h
  obtain ⟨rfl, hlist⟩ := h
  rw [post_pure]
  refine ⟨hreads, ?_⟩
  rw [Sum.elim_inl, hruns, hlist]
  exact ⟨by dsimp only; omega, run_length_lt hrun, rfl⟩

/-- **One pass over the code lengths** is one run of them. -/
theorem post_lengths (hcodes : Codes codeLengths) (htable : Sorted code codeLengths) (hs : s.Ready) {total index : ℕ}
    {lengths : ℕ → ℕ} (htotal : total ≤ inflateLengthsSize) (hindex : index ≤ total) :
    Post (inflateLengths code total (lengths, index)) s (Collects codeLengths total lengths index s)
      (fun e s' => Failed s e s' ∧ runs codeLengths total (lengthList lengths index) s.rest = none) := by
  rw [inflateLengths, post_ite]
  refine ⟨fun hless => ?_, fun hfull => ?_⟩
  swap
  · obtain rfl : index = total := by omega
    rw [post_pure]
    exact ⟨Reads.refl hs, runs_full (lengthList_length _ _).ge⟩
  have hmore : (lengthList lengths index).length < total := by rwa [lengthList_length]
  have hnone : ∀ {e : InflateStatus} {s' : InflateStream}, Failed s e s' →
      run codeLengths (lengthList lengths index) s.rest = none →
      Failed s e s' ∧ runs codeLengths total (lengthList lengths index) s.rest = none :=
    fun hfailed hrun => ⟨hfailed, runs_none hmore hrun⟩
  rw [post_bind]
  refine (post_decode hcodes htable hs).imp (fun symbol s1 h => ?_) (fun e s1 h => ?_)
  swap
  · refine hnone h.1 ?_
    rw [run, h.2]
    rfl
  obtain ⟨hreads, hdecode⟩ := h
  have hrun := run_of_decode (lengthList lengths index) hdecode
  rw [post_ite]
  refine ⟨fun hliteral => ?_, fun hnot => ?_⟩
  · rw [if_pos hliteral] at hrun
    have hruns := runs_some hmore hrun
    rw [lengthList_length, List.length_singleton, if_pos (by omega)] at hruns
    simp only [tableSet, post_bind, post_check, post_pure]
    refine ⟨by omega, hreads, ?_⟩
    rw [Sum.elim_inl, hruns, lengthList_update]
    exact ⟨hless, run_length_lt hrun, rfl⟩
  rw [if_neg hnot] at hrun
  rw [post_ite]
  refine ⟨fun hrepeat => ?_, fun hnot => ?_⟩
  · rw [if_pos hrepeat, lengthList_getLast?] at hrun
    rw [post_ite, post_stop]
    refine ⟨fun hfirst => hnone (hreads.failed (by decide)) ?_, fun hbehind => ?_⟩
    · rw [hrun, if_pos hfirst]
      rfl
    · rw [if_neg hbehind, Option.bind_some] at hrun
      simp only [tableAt, post_bind, post_check, post_pure]
      refine ⟨by omega, (post_bits hreads.ready 2).imp (fun v s2 h => ?_) (fun e s2 h => ?_)⟩
      · obtain ⟨hreads2, hfield⟩ := h
        rw [hfield, Option.map_some] at hrun
        dsimp only at hrun
        rw [Nat.add_comm 3] at hrun
        exact post_repeat htotal hless (hreads.trans hreads2) hrun
      · exact hnone (Failed.behind hreads h.1) (by rw [hrun, h.2]; rfl)
  rw [if_neg hnot] at hrun
  rw [post_ite]
  refine ⟨fun hzeros => ?_, fun hnot => ?_⟩
  · rw [if_pos hzeros] at hrun
    rw [post_bind]
    refine (post_bits hreads.ready 3).imp (fun v s2 h => ?_) (fun e s2 h => ?_)
    · obtain ⟨hreads2, hfield⟩ := h
      rw [hfield, Option.map_some] at hrun
      dsimp only at hrun
      rw [Nat.add_comm 3] at hrun
      exact post_repeat htotal hless (hreads.trans hreads2) hrun
    · exact hnone (Failed.behind hreads h.1) (by rw [hrun, h.2]; rfl)
  · rw [if_neg hnot] at hrun
    rw [post_bind]
    refine (post_bits hreads.ready 7).imp (fun v s2 h => ?_) (fun e s2 h => ?_)
    · obtain ⟨hreads2, hfield⟩ := h
      rw [hfield, Option.map_some] at hrun
      dsimp only at hrun
      rw [Nat.add_comm 11] at hrun
      exact post_repeat htotal hless (hreads.trans hreads2) hrun
    · exact hnone (Failed.behind hreads h.1) (by rw [hrun, h.2]; rfl)

/-- **All code lengths.** -/
theorem post_runs (hcodes : Codes codeLengths) (htable : Sorted code codeLengths) (hs : s.Ready) {total : ℕ}
    (lengths : ℕ → ℕ) (htotal : total ≤ inflateLengthsSize) :
    Post (loop InflateStream.bitsLeft (inflateLengths code total) (lengths, 0)) s
      (fun lengths' s' => Reads s s' ∧ runs codeLengths total [] s.rest = some (lengthList lengths' total, s'.rest))
      (fun e s' => Failed s e s' ∧ runs codeLengths total [] s.rest = none) := by
  refine post_loop (I := fun (state : (ℕ → ℕ) × ℕ) s' => Reads s s' ∧ state.2 ≤ total ∧
    runs codeLengths total [] s.rest = runs codeLengths total (lengthList state.1 state.2) s'.rest) ?_
    ⟨Reads.refl hs, Nat.zero_le _, rfl⟩
  rintro ⟨lengths1, index⟩ s1 ⟨hreads, hindex, hsame⟩
  refine (post_lengths hcodes htable hreads.ready htotal hindex).imp (fun r s2 h => ?_) (fun e s2 h => ?_)
  · obtain ⟨hreads2, h⟩ := h
    cases r with
    | inl next =>
      obtain ⟨hnext, hlt, hruns⟩ := h
      rw [rest_length hreads2.ready, rest_length hreads.ready] at hlt
      exact ⟨⟨hreads.trans hreads2, hnext, hsame.trans hruns⟩, hlt⟩
    | inr lengths' => exact ⟨hreads.trans hreads2, hsame.trans h⟩
  · exact ⟨Failed.behind hreads h.1, hsame.trans h.2⟩

/-! ## Dynamic blocks -/

/-- The codes a header describes, where they are codes. -/
def codesOf (lengths : ℕ → ℕ) (hlit hdist : ℕ) (rest : List Bool) : Option ((List ℕ × List ℕ) × List Bool) :=
  if lengthOf (lengthList lengths hlit) 256 ≠ 0 ∧ Complete (lengthList lengths hlit) ∧
      DistanceCode (lengthList (fun i => lengths (hlit + i)) hdist) then
    some ((lengthList lengths hlit, lengthList (fun i => lengths (hlit + i)) hdist), rest)
  else none

/-- What the decoder has behind a dynamic block's header. -/
def Headed (s : InflateStream) (h : (ℕ × ℕ) × InflateCode × (ℕ → ℕ)) (s' : InflateStream) : Prop :=
  Reads s s' ∧ (257 ≤ h.1.1 ∧ h.1.1 ≤ 286) ∧ h.1.2 ≤ 32 ∧ header s.rest = codesOf h.2.2 h.1.1 h.1.2 s'.rest

/-- **The header of a dynamic block**, up to the building of its codes. -/
theorem post_header (hs : s.Ready) (scratch : InflateScratch) : Post (inflateHeader scratch) s (Headed s)
    (fun e s' => Failed s e s' ∧ header s.rest = none) := by
  rw [inflateHeader, post_bind]
  refine (post_bits hs 5).imp (fun hlit s1 h1 => ?_) (fun e s1 h1 => ⟨h1.1, by rw [header, h1.2]; rfl⟩)
  obtain ⟨hreads1, hfield1⟩ := h1
  have hlit32 : hlit < 32 := field_lt hfield1
  rw [post_bind]
  refine (post_bits hreads1.ready 5).imp (fun hdist s2 h2 => ?_)
    (fun e s2 h2 => ⟨Failed.behind hreads1 h2.1, by rw [header, hfield1]; simp [h2.2]⟩)
  obtain ⟨hreads2, hfield2⟩ := h2
  have hdist32 : hdist < 32 := field_lt hfield2
  rw [post_bind]
  have hreads12 := hreads1.trans hreads2
  refine (post_bits hreads2.ready 4).imp (fun hclen s3 h3 => ?_)
    (fun e s3 h3 => ⟨Failed.behind hreads12 h3.1, by rw [header, hfield1]; simp [hfield2, h3.2]⟩)
  obtain ⟨hreads3, hfield3⟩ := h3
  have hclen16 : hclen < 16 := field_lt hfield3
  have hreads13 := hreads12.trans hreads3
  rw [post_ite, post_stop]
  refine ⟨fun hgreat => ⟨hreads13.failed (by decide), ?_⟩, fun hlegal => ?_⟩
  · rw [header, hfield1]
    simp only [Option.bind_eq_bind, Option.bind_some, hfield2, hfield3, guard, if_neg (not_le.2 hgreat)]
    rfl
  have hlegal' : hlit + 257 ≤ 286 := not_lt.1 hlegal
  rw [post_bind]
  refine (post_clen hreads3.ready (show hclen + 4 ≤ 19 by omega)).imp (fun clen s4 h4 => ?_)
    (fun e s4 h4 => ⟨Failed.behind hreads13 h4.1, by rw [header, hfield1]; simp [hfield2, hfield3, h4.2]⟩)
  obtain ⟨hreads4, vs, hfields, hlist⟩ := h4
  have hreads14 := hreads13.trans hreads4
  have hclenSymbols : inflateClenSymbols ≤ 288 := Nat.le_of_ble_eq_true rfl
  rw [post_bind]
  refine (post_build (Nat.le_refl inflateClenSymbols) hclenSymbols false).imp (fun code s5 h5 => ?_) (fun e s5 h5 => ?_)
  swap
  · obtain ⟨rfl, rfl, hnot⟩ := h5
    rw [hlist] at hnot
    have hincomplete : ¬Complete (codeLengthCode vs) := hnot
    refine ⟨hreads14.failed (by decide), ?_⟩
    rw [header, hfield1]
    simp [hfield2, hfield3, hfields, hincomplete]
  obtain ⟨rfl, hok, htable⟩ := h5
  rw [hlist] at hok htable
  have hcomplete : Complete (codeLengthCode vs) := hok
  have hcodes : Codes (codeLengthCode vs) := by
    refine hok.codes ?_
    rw [codeLengthCode, List.length_map, List.length_range]
    exact hclenSymbols
  have htotal : hlit + 257 + (hdist + 1) ≤ inflateLengthsSize := by
    have : inflateLengthsSize = 320 := rfl
    omega
  rw [post_bind]
  refine (post_runs hcodes htable hreads14.ready scratch.lengths htotal).imp (fun lengths s6 h6 => ?_)
    (fun e s6 h6 => ⟨Failed.behind hreads14 h6.1, ?_⟩)
  swap
  · rw [header, hfield1]
    simp [hfield2, hfield3, hfields, hcomplete, h6.2]
  obtain ⟨hreads6, hruns⟩ := h6
  rw [post_pure]
  refine ⟨hreads14.trans hreads6, ⟨Nat.le_add_left _ _, hlegal'⟩, by dsimp only; omega, ?_⟩
  have htake : (lengthList lengths (hlit + 257 + (hdist + 1))).take (hlit + 257) = lengthList lengths (hlit + 257) :=
    lengthList_take (Nat.le_add_right _ _)
  have hdrop := lengthList_drop lengths (hlit + 257) (hdist + 1)
  rw [header, hfield1]
  simp only [Option.bind_eq_bind, Option.bind_some, hfield2, hfield3, hfields, guard, if_pos hlegal', if_pos hcomplete,
    Option.pure_def, hruns, htake, hdrop]
  unfold codesOf
  split
  · rfl
  · rfl

/-- **`v9x_inflate_dynamic`.** -/
theorem post_dynamic (hs : s.Ready) (scratch : InflateScratch) : Post (inflateDynamic scratch) s
    (fun _ s' => Keeps s s' ∧ body 2 s.done s.rest = some (s'.done, s'.rest)) (Refuses (body 2 s.done s.rest) s) := by
  have hbody : body 2 s.done s.rest =
      (header s.rest).bind fun (codes, rest) => items codes.1 codes.2 s.done rest := rfl
  rw [hbody, inflateDynamic, post_bind]
  refine (post_header hs scratch).imp (fun h s1 hheader => ?_) (fun e s1 h => ⟨h.1, ?_⟩)
  swap
  · rw [h.2]
    exact exceeds_none
  obtain ⟨⟨hlit, hdist⟩, code, lengths⟩ := h
  obtain ⟨hreads, ⟨hlitMin, hlitMax⟩, hdistMax, hheader⟩ := hheader
  dsimp only at hlitMin hlitMax hdistMax hheader ⊢
  have hsize : inflateLengthsSize = 320 := rfl
  rw [hheader]
  have hrefused : ∀ {e : InflateStatus} {s' : InflateStream}, Failed s e s' →
      ¬(lengthOf (lengthList lengths hlit) 256 ≠ 0 ∧ Complete (lengthList lengths hlit) ∧
        DistanceCode (lengthList (fun i => lengths (hlit + i)) hdist)) →
      Refuses ((codesOf lengths hlit hdist s1.rest).bind fun (codes, rest) => items codes.1 codes.2 s.done rest) s e s' := by
    intro e s' hfailed hnot
    refine ⟨hfailed, ?_⟩
    rw [codesOf, if_neg hnot]
    exact exceeds_none
  have hending : lengthOf (lengthList lengths hlit) 256 = lengths 256 := lengthOf_lengthList (by omega)
  simp only [tableAt, post_bind, post_check, post_pure, post_ite, post_stop]
  refine ⟨by omega, fun hnone => hrefused (hreads.failed (by decide)) fun h => h.1 (hending.trans hnone), fun hsome => ?_⟩
  refine (post_build (by omega) (by omega) false).imp (fun litlen s2 h2 => ?_) (fun e s2 h2 => ?_)
  swap
  · obtain ⟨rfl, rfl, hnot⟩ := h2
    exact hrefused (hreads.failed (by decide)) fun h => hnot h.2.1
  obtain ⟨rfl, hlitlenOk, tlitlen⟩ := h2
  refine (post_build (by omega) (by omega) true).imp (fun distance s3 h3 => ?_) (fun e s3 h3 => ?_)
  swap
  · obtain ⟨rfl, rfl, hnot⟩ := h3
    exact hrefused (hreads.failed (by decide)) fun h => hnot h.2.2
  obtain ⟨rfl, hdistanceOk, tdistance⟩ := h3
  have hcodes : codesOf lengths hlit hdist s3.rest =
      some ((lengthList lengths hlit, lengthList (fun i => lengths (hlit + i)) hdist), s3.rest) :=
    if_pos ⟨fun h => hsome (hending.symm.trans h), hlitlenOk, hdistanceOk⟩
  rw [hcodes, Option.bind_some]
  refine (post_codes (hlitlenOk.codes (by rw [lengthList_length]; omega)) tlitlen
    (hdistanceOk.codes (by rw [lengthList_length]; omega)) tdistance hreads.ready).imp (fun _ s4 h4 => ?_)
    (fun e s4 h4 => ?_)
  · rw [← hreads.done]
    exact ⟨hreads.kept.trans h4.1, h4.2⟩
  · rw [← hreads.done]
    exact ⟨Failed.behind hreads h4.1, hreads.kept.exceeds h4.2⟩

end V9xRemote
