import V9xRemote.Spec.UpdateUrl
import V9xRemote.Proof.UpdateVersion

/-!
# The two readers of URLs

`UrlText` is what both readers take a URL for: a scheme, a host, perhaps a port, a path. They
differ in what they ask of these parts, and only the update reader asks for anything that keeps
a URL in its place in a request.
-/

namespace V9xRemote

open Bytes Scan

/-! ## The parts of a URL -/

/-- A URL with these parts: a port has digits, and a path starts with a slash. -/
structure UrlText (url host : Bytes) (digits : Option Bytes) (path : Bytes) : Prop where
  spelled : ∃ scheme, scheme.map lower = ascii "http://" ∧ url = scheme ++ (host ++ (digits.elim [] (58 :: ·) ++ path))
  host_ne : host ≠ []
  host_byte : ∀ c ∈ host, c ≠ 58 ∧ c ≠ 47
  port : ∀ d ∈ digits, d ≠ [] ∧ ∀ c ∈ d, decimalDigit c
  path : path = [] ∨ path.head? = some 47

/-- The port of a URL. -/
def urlPort (digits : Option Bytes) : ℕ := digits.elim 80 undecimal

/-- The path that is asked for. -/
def urlTarget (path : Bytes) : Bytes := if path = [] then [47] else path

/-- A host of letters, digits, dots and hyphens, a port of at most five digits that is not 0, and a
path of printable ASCII without blanks. -/
def PlainParts (host : Bytes) (digits : Option Bytes) (path : Bytes) : Prop :=
  (∀ c ∈ host, updateHostByte c = true) ∧ (∀ d ∈ digits, d.length ≤ 5 ∧ undecimal d ≠ 0) ∧
    ∀ c ∈ path, updatePathByte c = true

instance (host : Bytes) (digits : Option Bytes) (path : Bytes) : Decidable (PlainParts host digits path) :=
  decidable_of_iff (host.all updateHostByte = true ∧ (∀ d ∈ digits, d.length ≤ 5 ∧ undecimal d ≠ 0) ∧
    path.all updatePathByte = true) (by rw [PlainParts, List.all_eq_true, List.all_eq_true])

/-- A byte that the host goes on with. -/
def urlHostByte (c : UInt8) : Bool := c != 47 && c != 58

/-- The parts, cut out of the URL. -/
def urlParts (url : Bytes) : Option (Bytes × Option Bytes × Bytes) :=
  let host := (url.drop 7).takeWhile urlHostByte
  let rest := (url.drop 7).dropWhile urlHostByte
  let digits := rest.tail.takeWhile updateIsDigit
  let path := rest.tail.dropWhile updateIsDigit
  if !(ascii "http://").isPrefixOf (url.map lower) ∨ host = [] then none
  else if rest.head? ≠ some 58 then some (host, none, rest)
  else if digits = [] ∨ ¬(path = [] ∨ path.head? = some 47) then none
  else some (host, some digits, path)

section

variable {url host path text rest : Bytes} {digits : Option Bytes}

theorem urlHostByte_iff (c : UInt8) : urlHostByte c = true ↔ c ≠ 58 ∧ c ≠ 47 := by
  rw [urlHostByte, Bool.and_eq_true, bne_iff_ne, bne_iff_ne]
  exact and_comm

theorem urlScheme_iff (url : Bytes) : (ascii "http://").isPrefixOf (url.map lower) = true ↔
    ∃ scheme rest, scheme.map lower = ascii "http://" ∧ url = scheme ++ rest := by
  rw [List.isPrefixOf_iff_prefix]
  constructor
  · rintro ⟨rest, hmap⟩
    obtain ⟨scheme, more, rfl, hscheme, -⟩ := List.map_eq_append_iff.1 hmap.symm
    exact ⟨scheme, more, hscheme, rfl⟩
  · rintro ⟨scheme, rest, hscheme, rfl⟩
    rw [List.map_append, hscheme]
    exact List.prefix_append _ _

/-- What stands behind a host without a port is a path. -/
theorem urlRest_path (hend : ∀ c ∈ rest.head?, ¬urlHostByte c = true) (hcolon : rest.head? ≠ some 58) :
    rest = [] ∨ rest.head? = some 47 := by
  cases rest with
  | nil => exact Or.inl rfl
  | cons c rest =>
    have hstop := hend c rfl
    rw [urlHostByte_iff, not_and_or, not_not, not_not] at hstop
    exact Or.inr (congrArg some (hstop.resolve_left fun hc => hcolon (congrArg some hc)))

/-- A path ends every scan that stops at a slash. -/
theorem urlPath_ends {p : UInt8 → Bool} (hslash : p 47 = false) (hpath : path = [] ∨ path.head? = some 47) :
    ∀ c ∈ path.head?, ¬p c = true := by
  intro c hc
  rcases hpath with rfl | hpath
  · cases hc
  · obtain rfl := Option.some_inj.1 (hpath.symm.trans hc)
    rw [hslash]
    exact Bool.false_ne_true

theorem urlScheme_length {scheme : Bytes} (hscheme : scheme.map lower = ascii "http://") : scheme.length = 7 := by
  rw [← List.length_map lower, hscheme]
  rfl

/-- A text that has the parts: they are cut out of it. -/
theorem UrlText.parts (h : UrlText url host digits path) : urlParts url = some (host, digits, path) := by
  obtain ⟨⟨scheme, hscheme, rfl⟩, hne, hhost, hport, hpath⟩ := h
  have hfront := (urlScheme_iff _).2 ⟨scheme, host ++ (digits.elim [] (58 :: ·) ++ path), hscheme, rfl⟩
  have hdrop : (scheme ++ (host ++ (digits.elim [] (58 :: ·) ++ path))).drop 7 =
      host ++ (digits.elim [] (58 :: ·) ++ path) := urlScheme_length hscheme ▸ List.drop_left
  -- the host ends at the colon of the port or at the path, and never earlier
  have hhead : ∀ c ∈ (digits.elim [] (58 :: ·) ++ path).head?, ¬urlHostByte c = true := by
    cases digits with
    | none => exact urlPath_ends rfl hpath
    | some d =>
      rintro _ ⟨⟩
      decide
  obtain ⟨htake, hdropped⟩ := span_iff.1 ⟨rfl, fun c hc => (urlHostByte_iff c).2 (hhost c hc), hhead⟩
  rw [urlParts, hdrop, ← htake, ← hdropped, hfront, if_neg (by rw [or_iff_right (by decide)]; exact hne)]
  cases digits with
  | none =>
    have hcolon : path.head? ≠ some 58 := fun hc => urlPath_ends (p := (· == 58)) rfl hpath 58 hc rfl
    exact if_pos hcolon
  | some d =>
    obtain ⟨hd, hdigits⟩ := hport d rfl
    obtain ⟨htake', hdropped'⟩ :=
      span_iff.1 ⟨rfl, fun c hc => (updateIsDigit_iff c).2 (hdigits c hc), urlPath_ends (p := updateIsDigit) rfl hpath⟩
    have hcolon : ((some d).elim [] (58 :: ·) ++ path).head? = some 58 := rfl
    have htail : ((some d).elim [] (58 :: ·) ++ path).tail = d ++ path := rfl
    rw [if_neg (not_not.2 hcolon), htail, ← htake', ← hdropped', if_neg (not_or.2 ⟨hd, not_not.2 hpath⟩)]

/-- The parts that are cut out of a text: it has them. -/
theorem urlParts_text (h : urlParts url = some (host, digits, path)) : UrlText url host digits path := by
  rw [urlParts] at h
  split at h
  · cases h
  rename_i hstart
  obtain ⟨hfront, hne⟩ := not_or.1 hstart
  rw [Bool.not_eq_true', Bool.not_eq_false] at hfront
  obtain ⟨scheme, rest, hscheme, rfl⟩ := (urlScheme_iff url).1 hfront
  have hdrop : (scheme ++ rest).drop 7 = rest := urlScheme_length hscheme ▸ List.drop_left
  rw [hdrop] at h hne
  obtain ⟨hsplit, hbytes, hend⟩ := span_iff.2 ⟨rfl, (rfl : rest.dropWhile urlHostByte = _)⟩
  generalize rest.takeWhile urlHostByte = first at h hne hsplit hbytes
  generalize rest.dropWhile urlHostByte = second at h hsplit hend
  have hhost : ∀ c ∈ first, c ≠ 58 ∧ c ≠ 47 := fun c hc => (urlHostByte_iff c).1 (hbytes c hc)
  subst hsplit
  split at h
  · rename_i hcolon
    obtain ⟨rfl, rfl, rfl⟩ : first = host ∧ none = digits ∧ second = path := by simpa using h
    exact ⟨⟨scheme, hscheme, rfl⟩, hne, hhost, nofun, urlRest_path hend hcolon⟩
  · rename_i hcolon
    cases second with
    | nil => exact absurd nofun hcolon
    | cons c rest =>
      obtain rfl : c = 58 := by simpa using hcolon
      rw [List.tail_cons] at h
      obtain ⟨hsplit, hdigits, -⟩ := span_iff.2 ⟨rfl, (rfl : rest.dropWhile updateIsDigit = _)⟩
      generalize rest.takeWhile updateIsDigit = number at h hsplit hdigits
      generalize rest.dropWhile updateIsDigit = after at h hsplit
      subst hsplit
      split at h
      · cases h
      · rename_i hparts
        obtain ⟨hnumber, hafter⟩ := not_or.1 hparts
        obtain ⟨rfl, rfl, rfl⟩ : first = host ∧ some number = digits ∧ after = path := by simpa using h
        refine ⟨⟨scheme, hscheme, rfl⟩, hne, hhost, ?_, not_not.1 hafter⟩
        rintro _ ⟨⟩
        exact ⟨hnumber, fun d hd => (updateIsDigit_iff d).1 (hdigits d hd)⟩

/-- The parts are cut out where the text has them. -/
theorem urlText_iff : UrlText url host digits path ↔ urlParts url = some (host, digits, path) :=
  ⟨UrlText.parts, urlParts_text⟩

/-! ## The reader of the HTTP client -/

theorem httpPortDigits_eq {value : ℕ} {any : Bool} (hvalue : value ≤ 65535) (text : Bytes) :
    httpPortDigits value any text =
      if (any = true ∨ text.takeWhile updateIsDigit ≠ []) ∧ undecimalFrom value (text.takeWhile updateIsDigit) ≤ 65535 then
        some (undecimalFrom value (text.takeWhile updateIsDigit), text.dropWhile updateIsDigit)
      else none := by
  induction text generalizing value any with
  | nil =>
    rw [httpPortDigits]
    exact if_congr ⟨fun h => ⟨Or.inl h, hvalue⟩, fun h => h.1.resolve_right (not_not.2 rfl)⟩ rfl rfl
  | cons c rest ih =>
    rw [httpPortDigits]
    dsimp only
    by_cases hdigit : updateIsDigit c = true
    · have hc : 48 ≤ c ∧ c ≤ 57 := (updateIsDigit_iff c).1 hdigit
      have hnext : value * 10 + (c.toNat - 48) = 10 * value + (c.toNat - 48) := by omega
      have hle := le_undecimalFrom (10 * value + (c.toNat - 48)) (rest.takeWhile updateIsDigit)
      rw [if_pos hc, hnext, List.takeWhile_cons_of_pos hdigit, List.dropWhile_cons_of_pos hdigit]
      by_cases hlarge : 10 * value + (c.toNat - 48) > 65535
      · rw [if_pos hlarge, if_neg]
        exact fun h => absurd (hle.trans h.2) (not_le.2 hlarge)
      · rw [if_neg hlarge, ih (not_lt.1 hlarge)]
        exact if_congr (and_congr_left fun _ => iff_of_true (Or.inl rfl) (Or.inr (List.cons_ne_nil _ _))) rfl rfl
    · have hc : ¬(48 ≤ c ∧ c ≤ 57) := mt (updateIsDigit_iff c).2 hdigit
      rw [if_neg hc, List.takeWhile_cons_of_neg hdigit, List.dropWhile_cons_of_neg hdigit]
      exact if_congr ⟨fun h => ⟨Or.inl h, hvalue⟩, fun h => h.1.resolve_right (not_not.2 rfl)⟩ rfl rfl

/-- The path of the HTTP client, behind a host or a port. -/
theorem httpUrlPath_eq (hpath : path = [] ∨ path.head? = some 47) :
    httpUrlPath path = if path.length < httpMaxPath then some (urlTarget path) else none := by
  rw [httpUrlPath, urlTarget]
  by_cases hnil : path = []
  · rw [if_pos hnil, if_pos hnil, hnil]
    rfl
  · rw [if_neg hnil, if_neg hnil]
    by_cases hlong : path.length < httpMaxPath
    · rw [if_pos hlong, if_neg]
      rintro (hne | hge)
      · exact hne (hpath.resolve_left hnil)
      · omega
    · rw [if_neg hlong, if_pos (Or.inr (not_lt.1 hlong))]

theorem httpCiEqual_https (h : (ascii "http://").isPrefixOf (url.map lower) = true) :
    httpCiEqual url (ascii "https://") = false := by
  obtain ⟨scheme, rest, hscheme, rfl⟩ := (urlScheme_iff url).1 h
  rw [httpCiEqual, List.map_append, hscheme]
  rfl

/-- **What the HTTP client asks of the parts.** -/
theorem httpParseUrl_parts (url : Bytes) : (httpParseUrl url).1 = (urlParts url).bind fun parts =>
    if parts.1.length < httpMaxHost ∧ urlPort parts.2.1 ≤ 65535 ∧ parts.2.2.length < httpMaxPath then
      some ⟨parts.1, urlPort parts.2.1, urlTarget parts.2.2⟩
    else none := by
  by_cases hfront : (ascii "http://").isPrefixOf (url.map lower) = true
  swap
  · rw [urlParts, if_pos (Or.inl (by rw [Bool.eq_false_of_not_eq_true hfront]; rfl)), Option.bind_none, httpParseUrl]
    split
    · rfl
    · rw [if_pos (by rw [httpCiEqual, Bool.eq_false_of_not_eq_true hfront]; rfl)]
  -- an `http://` in any case is no `https://`
  have hhttp : httpCiEqual url (ascii "http://") = true := hfront
  rw [httpParseUrl, if_neg (by rw [httpCiEqual_https hfront]; exact Bool.false_ne_true),
    if_neg (by rw [hhttp]; exact Bool.false_ne_true)]
  obtain ⟨-, -, hend⟩ := span_iff.2 ⟨rfl, (rfl : (url.drop 7).dropWhile urlHostByte = _)⟩
  have hsame : (fun c : UInt8 => c != 47 && c != 58) = urlHostByte := rfl
  rw [urlParts, hfront, hsame]
  generalize (url.drop 7).takeWhile urlHostByte = host
  generalize (url.drop 7).dropWhile urlHostByte = rest at hend
  by_cases hhost : host = []
  · rw [if_pos (Or.inr hhost), if_pos (Or.inr hhost)]
    rfl
  dsimp only
  rw [Bool.not_true, if_neg (not_or.2 ⟨Bool.false_ne_true, hhost⟩)]
  -- each bound is tested where the part ends; a part that is too long is refused whatever follows
  by_cases hlong : host.length < httpMaxHost
  swap
  · rw [if_pos (Or.inl (not_lt.1 hlong))]
    split_ifs
    · exact (if_neg fun h => hlong h.1).symm
    · rfl
    · exact (if_neg fun h => hlong h.1).symm
  rw [if_neg (not_or.2 ⟨not_le.2 hlong, hhost⟩)]
  by_cases hcolon : rest.head? = some 58
  swap
  · have hpath := urlRest_path hend hcolon
    rw [if_neg hcolon, if_pos hcolon, Option.bind_some, httpUrlPath_eq hpath, apply_ite (Option.map _)]
    exact if_congr ⟨fun h => ⟨hlong, show 80 ≤ 65535 by decide, h⟩, fun h => h.2.2⟩ rfl rfl
  rw [if_pos hcolon, if_neg (not_not.2 hcolon), httpPortDigits_eq (Nat.zero_le _)]
  by_cases hdigits : rest.tail.takeWhile updateIsDigit = []
  · rw [if_pos (Or.inl hdigits), if_neg fun h => h.1.elim Bool.false_ne_true fun hne => hne hdigits]
    rfl
  by_cases hport : undecimalFrom 0 (rest.tail.takeWhile updateIsDigit) ≤ 65535
  swap
  · rw [if_neg fun h => hport h.2]
    split_ifs
    · rfl
    · exact (if_neg fun h => hport h.2.1).symm
  rw [if_pos ⟨Or.inr hdigits, hport⟩]
  by_cases hpath : rest.tail.dropWhile updateIsDigit = [] ∨ (rest.tail.dropWhile updateIsDigit).head? = some 47
  · rw [if_neg (not_or.2 ⟨hdigits, not_not.2 hpath⟩)]
    dsimp only
    rw [httpUrlPath_eq hpath, Option.bind_some, apply_ite (Option.map _)]
    exact if_congr ⟨fun h => ⟨hlong, hport, h⟩, fun h => h.2.2⟩ rfl rfl
  · obtain ⟨hnil, hslash⟩ := not_or.1 hpath
    rw [if_pos (Or.inr hpath)]
    dsimp only
    rw [httpUrlPath, if_neg hnil, if_pos (Or.inl hslash)]
    rfl

/-! ## The update reader -/

theorem updateUrlHost_eq (hhost : host.length < updateHostMax) (text : Bytes) :
    updateUrlHost host text =
      if (text.takeWhile urlHostByte).all updateHostByte = true ∧
          host.length + (text.takeWhile urlHostByte).length < updateHostMax then
        some (host ++ text.takeWhile urlHostByte, text.dropWhile urlHostByte)
      else none := by
  induction text generalizing host with
  | nil =>
    rw [updateUrlHost, List.takeWhile_nil, List.dropWhile_nil, List.append_nil, if_pos ⟨List.all_nil, hhost⟩]
  | cons c rest ih =>
    rw [updateUrlHost]
    by_cases hgo : urlHostByte c = true
    · obtain ⟨hcolon, hslash⟩ := (urlHostByte_iff c).1 hgo
      rw [if_neg (not_or.2 ⟨hcolon, hslash⟩), List.takeWhile_cons_of_pos hgo, List.dropWhile_cons_of_pos hgo]
      by_cases hbyte : updateHostByte c = true
      swap
      · rw [if_pos (by rw [Bool.eq_false_of_not_eq_true hbyte]; rfl),
          if_neg fun h => hbyte (List.all_eq_true.1 h.1 c List.mem_cons_self)]
      rw [if_neg (by rw [hbyte]; exact Bool.false_ne_true)]
      by_cases hroom : host.length + 1 ≥ updateHostMax
      · rw [if_pos hroom, if_neg]
        rintro ⟨-, hfits⟩
        rw [List.length_cons] at hfits
        omega
      · have hnext : (host ++ [c]).length = host.length + 1 := List.length_append
        rw [if_neg hroom, ih (by omega), hnext, List.append_assoc, List.singleton_append, List.length_cons]
        refine if_congr (and_congr ?_ (by omega)) rfl rfl
        rw [List.all_cons, hbyte, Bool.true_and]
    · have hstop : c = 58 ∨ c = 47 := by
        rwa [urlHostByte_iff, not_and_or, not_not, not_not] at hgo
      rw [if_pos hstop, List.takeWhile_cons_of_neg hgo, List.dropWhile_cons_of_neg hgo, List.append_nil,
        if_pos ⟨List.all_nil, hhost⟩]

theorem updateUrlPath_eq (hpath : path.length < updatePathMax) (text : Bytes) :
    updateUrlPath path text =
      if text.all updatePathByte = true ∧ path.length + text.length < updatePathMax then some (path ++ text)
      else none := by
  induction text generalizing path with
  | nil => rw [updateUrlPath, List.append_nil, if_pos ⟨List.all_nil, hpath⟩]
  | cons c rest ih =>
    rw [updateUrlPath]
    by_cases hbyte : updatePathByte c = true
    swap
    · rw [if_pos (by rw [Bool.eq_false_of_not_eq_true hbyte]; rfl),
        if_neg fun h => hbyte (List.all_eq_true.1 h.1 c List.mem_cons_self)]
    rw [if_neg (by rw [hbyte]; exact Bool.false_ne_true)]
    by_cases hroom : path.length + 1 ≥ updatePathMax
    · rw [if_pos hroom, if_neg]
      rintro ⟨-, hfits⟩
      rw [List.length_cons] at hfits
      omega
    · have hnext : (path ++ [c]).length = path.length + 1 := List.length_append
      rw [if_neg hroom, ih (by omega), hnext, List.append_assoc, List.singleton_append, List.length_cons]
      refine if_congr (and_congr ?_ (by omega)) rfl rfl
      rw [List.all_cons, hbyte, Bool.true_and]

theorem updateUrlPort_eq (text : Bytes) : updateUrlPort text =
    if text.takeWhile updateIsDigit ≠ [] ∧ undecimal (text.takeWhile updateIsDigit) ≤ 65535 ∧
        (text.takeWhile updateIsDigit).length ≤ 5 ∧ undecimal (text.takeWhile updateIsDigit) ≠ 0 then
      some (undecimal (text.takeWhile updateIsDigit), text.dropWhile updateIsDigit)
    else none := by
  obtain ⟨hsplit, hdigits, hend⟩ := span_iff.2 ⟨rfl, (rfl : text.dropWhile updateIsDigit = _)⟩
  rw [updateUrlPort]
  by_cases hnumber : VersionNumber (text.takeWhile updateIsDigit)
  · have hpart := (updateVersionPart_number text _ _).2
      ⟨_, hnumber, hsplit, fun c hc => mt (updateIsDigit_iff c).2 (hend c hc), rfl⟩
    rw [hpart, Option.bind_eq_bind, Option.bind_some]
    dsimp only
    rw [← ite_not]
    exact if_congr ⟨fun h => ⟨List.ne_nil_of_length_pos hnumber.one, hnumber.small, hnumber.five, h⟩,
      fun h => h.2.2.2⟩ rfl rfl
  · rw [if_neg fun h => hnumber ⟨fun c hc => (updateIsDigit_iff c).1 (hdigits c hc),
      List.length_pos_of_ne_nil h.1, h.2.2.1, h.2.1⟩]
    cases hpart : updateVersionPart text 0 0 with
    | none => rfl
    | some found =>
      obtain ⟨digits, hfound, htext, hhead, -⟩ := (updateVersionPart_number text found.2 found.1).1 hpart
      obtain ⟨rfl, -⟩ := span_iff.1 ⟨htext, fun c hc => (updateIsDigit_iff c).2 (hfound.decimal c hc),
        fun c hc => mt (updateIsDigit_iff c).1 (hhead c hc)⟩
      exact absurd hfound hnumber

/-- What the update reader makes of a path. -/
theorem updateUrlEnd_eq (port : ℕ) (hpath : path = [] ∨ path.head? = some 47) : updateUrlEnd host port path =
    if path.all updatePathByte = true ∧ path.length < updatePathMax then
      some ⟨host, port, urlTarget path⟩ else none := by
  rw [updateUrlEnd, urlTarget]
  by_cases hnil : path = []
  · rw [if_pos hnil, if_pos hnil, if_pos]
    rw [hnil]
    exact ⟨List.all_nil, by decide⟩
  · rw [if_neg hnil, if_neg hnil, if_neg (not_not.2 (hpath.resolve_left hnil)),
      updateUrlPath_eq (by decide), apply_ite (Option.map _),
      List.length_nil, Nat.zero_add]
    rfl

/-- **What the update reader asks of the parts.** -/
theorem updateUrlSplit_parts (url : Bytes) : updateUrlSplit url = (urlParts url).bind fun parts =>
    if PlainParts parts.1 parts.2.1 parts.2.2 ∧ parts.1.length < updateHostMax ∧ urlPort parts.2.1 ≤ 65535 ∧
        parts.2.2.length < updatePathMax then
      some ⟨parts.1, urlPort parts.2.1, urlTarget parts.2.2⟩
    else none := by
  by_cases hfront : (ascii "http://").isPrefixOf (url.map lower) = true
  swap
  · have hnot := Bool.eq_false_of_not_eq_true hfront
    rw [urlParts, if_pos (Or.inl (by rw [hnot]; rfl)), updateUrlSplit, if_pos (by rw [hnot]; rfl)]
    rfl
  obtain ⟨-, -, hend⟩ := span_iff.2 ⟨rfl, (rfl : (url.drop 7).dropWhile urlHostByte = _)⟩
  rw [updateUrlSplit, urlParts, hfront, Bool.not_true, if_neg Bool.false_ne_true,
    updateUrlHost_eq (by decide), List.nil_append,
    List.length_nil, Nat.zero_add]
  generalize (url.drop 7).takeWhile urlHostByte = host
  generalize (url.drop 7).dropWhile urlHostByte = rest at hend
  dsimp only
  by_cases hhost : host = []
  · rw [if_pos (Or.inr hhost)]
    split_ifs
    · exact if_pos hhost
    · rfl
  rw [if_neg (not_or.2 ⟨Bool.false_ne_true, hhost⟩)]
  by_cases hbytes : host.all updateHostByte = true ∧ host.length < updateHostMax
  swap
  · rw [if_neg hbytes]
    split_ifs
    · exact (if_neg fun h => hbytes ⟨List.all_eq_true.2 h.1.1, h.2.1⟩).symm
    · rfl
    · exact (if_neg fun h => hbytes ⟨List.all_eq_true.2 h.1.1, h.2.1⟩).symm
  rw [if_pos hbytes, Option.bind_eq_bind, Option.bind_some]
  dsimp only
  rw [if_neg hhost]
  obtain ⟨hbytes, hlong⟩ := hbytes
  rw [List.all_eq_true] at hbytes
  by_cases hcolon : rest.head? = some 58
  swap
  · have hpath := urlRest_path hend hcolon
    rw [if_neg hcolon, if_pos hcolon, Option.bind_some, updateUrlEnd_eq _ hpath]
    exact if_congr ⟨fun h => ⟨⟨hbytes, nofun, List.all_eq_true.1 h.1⟩, hlong, show 80 ≤ 65535 by decide, h.2⟩,
      fun h => ⟨List.all_eq_true.2 h.1.2.2, h.2.2.2⟩⟩ rfl rfl
  rw [if_pos hcolon, if_neg (not_not.2 hcolon), updateUrlPort_eq]
  generalize rest.tail.takeWhile updateIsDigit = digits
  generalize rest.tail.dropWhile updateIsDigit = path
  by_cases hport : digits ≠ [] ∧ undecimal digits ≤ 65535 ∧ digits.length ≤ 5 ∧ undecimal digits ≠ 0
  swap
  · rw [if_neg hport]
    split_ifs
    · rfl
    · rename_i hparts
      obtain ⟨hdigits, -⟩ := not_or.1 hparts
      exact (if_neg fun h => hport ⟨hdigits, h.2.2.1, h.1.2.1 digits rfl⟩).symm
  rw [if_pos hport, Option.bind_eq_bind, Option.bind_some]
  dsimp only
  by_cases hpath : path = [] ∨ path.head? = some 47
  · rw [if_neg (not_or.2 ⟨hport.1, not_not.2 hpath⟩), Option.bind_some, updateUrlEnd_eq _ hpath]
    refine if_congr ⟨fun h => ⟨⟨hbytes, ?_, List.all_eq_true.1 h.1⟩, hlong, hport.2.1, h.2⟩,
      fun h => ⟨List.all_eq_true.2 h.1.2.2, h.2.2.2⟩⟩ rfl rfl
    rintro _ ⟨⟩
    exact hport.2.2
  · obtain ⟨hnil, hslash⟩ := not_or.1 hpath
    rw [if_pos (Or.inr hpath), updateUrlEnd, if_neg hnil, if_pos hslash]
    rfl

/-! ## A request -/

/-- No blank, no control character. -/
def Unbroken (text : Bytes) : Prop := ∀ c ∈ text, 32 < c ∧ c ≠ 127

instance (text : Bytes) : Decidable (Unbroken text) :=
  decidable_of_iff (text.all (fun c => decide (32 < c ∧ c ≠ 127)) = true) (by simp [Unbroken])

/-- Within the limits of both readers. -/
def UrlFits (url : Bytes) : Prop := ∀ host digits path, UrlText url host digits path →
  host.length < updateHostMax ∧ path.length < updatePathMax

/-- Both readers refuse the URL, or both give the same host, port and path. -/
def UrlsAgree (url : Bytes) : Prop := ∀ host port path,
  updateUrlSplit url = some ⟨host, port, path⟩ ↔ (httpParseUrl url).1 = some ⟨host, port, path⟩

/-- A request with this URL has nothing of it in its first two lines that would end them or a word
of them. -/
def UrlKept (url : Bytes) : Prop := ∀ request target head, request.url = url → (httpParseUrl url).1 = some target →
  httpRequestHead request target = some head → ∃ rest,
    head = request.method ++ ascii " " ++ target.path ++ ascii " HTTP/1.0\r\nHost: " ++ target.host ++
      ascii "\r\n" ++ rest ∧
      Unbroken target.path ∧ Unbroken target.host

/-- What the parts of a URL have to be for both. -/
def PlainUrl (url : Bytes) : Prop := ∀ host digits path, UrlText url host digits path → urlPort digits ≤ 65535 →
  (host.length < updateHostMax ∧ path.length < updatePathMax → PlainParts host digits path) ∧
    (host.length < httpMaxHost ∧ path.length < httpMaxPath → Unbroken path ∧ Unbroken host)

theorem httpAppend_parts (capacity : ℕ) (target out : Bytes) (parts : List Bytes)
    (h : parts.foldlM (httpAppend capacity) target = some out) : out = target ++ parts.flatten := by
  induction parts generalizing target with
  | nil => exact (Option.some_inj.1 h).symm.trans (List.append_nil _).symm
  | cons part parts ih =>
    rw [List.foldlM_cons] at h
    obtain ⟨next, hnext, hrest⟩ := Option.bind_eq_some_iff.1 h
    rw [httpAppend] at hnext
    split at hnext
    · obtain rfl := Option.some_inj.1 hnext
      rw [ih _ hrest, List.flatten_cons, List.append_assoc]
    · cases hnext

theorem httpAppend_fits {capacity : ℕ} (target : Bytes) (parts : List Bytes)
    (h : target.length + parts.flatten.length < capacity) :
    parts.foldlM (httpAppend capacity) target = some (target ++ parts.flatten) := by
  induction parts generalizing target with
  | nil => exact congrArg some (List.append_nil _).symm
  | cons part parts ih =>
    rw [List.flatten_cons, List.length_append] at h
    rw [List.foldlM_cons, httpAppend, if_pos (by omega)]
    change parts.foldlM (httpAppend capacity) (target ++ part) = _
    rw [ih _ (by rw [List.length_append]; omega), List.flatten_cons, List.append_assoc]

theorem urlTarget_unbroken : Unbroken (urlTarget path) ↔ Unbroken path := by
  rw [urlTarget]
  split
  · rename_i hnil
    rw [hnil]
    exact iff_of_true (by decide : Unbroken [47]) (List.forall_mem_nil _)
  · exact Iff.rfl

/-- **The readers agree on a URL** within both limits where its parts are plain. -/
theorem urlsAgree_iff (hparts : urlParts url = some (host, digits, path))
    (hfits : host.length < updateHostMax ∧ path.length < updatePathMax) :
    UrlsAgree url ↔ (urlPort digits ≤ 65535 → PlainParts host digits path) := by
  have hhost : host.length < httpMaxHost := hfits.1.trans (by decide)
  have hpath : path.length < httpMaxPath := hfits.2.trans (by decide)
  rw [UrlsAgree, updateUrlSplit_parts, httpParseUrl_parts, hparts, Option.bind_some, Option.bind_some]
  dsimp only
  constructor
  · intro hagree hport
    by_contra hnot
    have hboth := (hagree host (urlPort digits) (urlTarget path)).2 (if_pos ⟨hhost, hport, hpath⟩)
    rw [if_neg fun h => hnot h.1] at hboth
    cases hboth
  · intro hplain host' port' path'
    by_cases hport : urlPort digits ≤ 65535
    · rw [if_pos ⟨hplain hport, hfits.1, hport, hfits.2⟩, if_pos ⟨hhost, hport, hpath⟩, Option.some_inj, Option.some_inj,
        UpdateUrl.mk.injEq, HttpUrl.mk.injEq]
    · rw [if_neg fun h => hport h.2.2.1, if_neg fun h => hport h.2.1]
      exact iff_of_false nofun nofun

/-- The first lines of what is sent in front of the body. -/
theorem httpRequestHead_lines {request : HttpRequest} {target : HttpUrl} {head : Bytes}
    (h : httpRequestHead request target = some head) : ∃ rest, head =
      request.method ++ ascii " " ++ target.path ++ ascii " HTTP/1.0\r\nHost: " ++ target.host ++ ascii "\r\n" ++ rest := by
  have hagent : ascii "\r\nUser-Agent: v9x-agent\r\nConnection: close\r\n" =
      ascii "\r\n" ++ ascii "User-Agent: v9x-agent\r\nConnection: close\r\n" := by decide
  rw [httpRequestHead] at h
  rw [httpAppend_parts _ _ _ _ h, hagent]
  simp only [List.cons_append, List.flatten_cons, List.nil_append, List.append_assoc]
  exact ⟨_, rfl⟩

/-- A plain `GET` has room for every host and path. -/
theorem exists_httpRequestHead (url : Bytes) (target : HttpUrl) (hhost : target.host.length ≤ httpMaxHost)
    (hpath : target.path.length ≤ httpMaxPath) :
    ∃ head, httpRequestHead ⟨ascii "GET", url, none, none⟩ target = some head := by
  refine ⟨_, httpAppend_fits [] _ ?_⟩
  have hget : httpCiEqual (ascii "GET") (ascii "post") = false := rfl
  rw [hget]
  simp only [Option.isSome_none, Bool.or_self, Bool.false_eq_true, if_false, Option.getD_none, List.flatten_append,
    List.flatten_cons, List.flatten_nil, List.append_nil, List.length_append, List.length_nil]
  have hfixed : (ascii "GET").length + (ascii " ").length + (ascii " HTTP/1.0\r\nHost: ").length +
      (ascii "\r\nUser-Agent: v9x-agent\r\nConnection: close\r\n").length + (ascii "\r\n").length < 768 := by decide
  rw [httpMaxHost] at hhost
  rw [httpMaxPath] at hpath ⊢
  omega

/-- **A request keeps a URL in its place** where the host and the path have nothing that would end
a word. -/
theorem urlKept_iff (hparts : urlParts url = some (host, digits, path)) (hport : urlPort digits ≤ 65535) :
    UrlKept url ↔ (host.length < httpMaxHost ∧ path.length < httpMaxPath → Unbroken path ∧ Unbroken host) := by
  have hparse : (httpParseUrl url).1 =
      if host.length < httpMaxHost ∧ urlPort digits ≤ 65535 ∧ path.length < httpMaxPath then
      some ⟨host, urlPort digits, urlTarget path⟩ else none := by
    rw [httpParseUrl_parts, hparts, Option.bind_some]
  constructor
  · rintro hkept ⟨hhost, hpath⟩
    rw [if_pos ⟨hhost, hport, hpath⟩] at hparse
    have htarget : (urlTarget path).length ≤ httpMaxPath := by
      rw [urlTarget]
      split
      · decide
      · exact hpath.le
    obtain ⟨head, hhead⟩ := exists_httpRequestHead url ⟨host, urlPort digits, urlTarget path⟩ hhost.le htarget
    obtain ⟨rest, -, hclean, hclean'⟩ := hkept _ _ head rfl hparse hhead
    exact ⟨urlTarget_unbroken.1 hclean, hclean'⟩
  · rintro hclean request target head - htarget hhead
    rw [hparse] at htarget
    split at htarget
    · rename_i hfits
      obtain rfl := Option.some_inj.1 htarget
      obtain ⟨rest, hlines⟩ := httpRequestHead_lines hhead
      obtain ⟨hpath, hhost⟩ := hclean ⟨hfits.1, hfits.2.2⟩
      exact ⟨rest, hlines, urlTarget_unbroken.2 hpath, hhost⟩
    · cases htarget

/-- **The two readers agree and a URL stays in its place** exactly for the URLs with plain parts. -/
theorem urlReaders_iff (url : Bytes) : ((UrlFits url → UrlsAgree url) ∧ UrlKept url) ↔ PlainUrl url := by
  cases hparts : urlParts url with
  | none =>
    have hnone : ∀ host digits path, ¬UrlText url host digits path := fun host digits path h => by
      rw [urlText_iff, hparts] at h
      cases h
    refine iff_of_true ⟨fun _ host port path => ?_, fun request target head _ htarget _ => ?_⟩
      fun host digits path h => absurd h (hnone host digits path)
    · rw [updateUrlSplit_parts, httpParseUrl_parts, hparts]
      exact iff_of_false nofun nofun
    · rw [httpParseUrl_parts, hparts] at htarget
      cases htarget
  | some parts =>
    obtain ⟨host, digits, path⟩ := parts
    have honly : ∀ {host' digits' path'}, UrlText url host' digits' path' →
        (host, digits, path) = (host', digits', path') :=
      fun h => Option.some_inj.1 (hparts.symm.trans (urlText_iff.1 h))
    have hfits : UrlFits url ↔ host.length < updateHostMax ∧ path.length < updatePathMax := by
      refine ⟨fun h => h host digits path (urlText_iff.2 hparts), fun h host' digits' path' htext => ?_⟩
      obtain ⟨⟩ := honly htext
      exact h
    have hplain : PlainUrl url ↔ (urlPort digits ≤ 65535 →
        (host.length < updateHostMax ∧ path.length < updatePathMax → PlainParts host digits path) ∧
          (host.length < httpMaxHost ∧ path.length < httpMaxPath → Unbroken path ∧ Unbroken host)) := by
      refine ⟨fun h => h host digits path (urlText_iff.2 hparts), fun h host' digits' path' htext => ?_⟩
      obtain ⟨⟩ := honly htext
      exact h
    rw [hplain, hfits]
    by_cases hport : urlPort digits ≤ 65535
    · rw [urlKept_iff hparts hport, forall_prop_of_true hport]
      refine and_congr_left fun _ => forall_congr' fun hboth => ?_
      rw [urlsAgree_iff hparts hboth, forall_prop_of_true hport]
    · refine iff_of_true ⟨fun hboth => (urlsAgree_iff hparts hboth).2 fun h => absurd h hport, ?_⟩ fun h => absurd h hport
      intro request target head _ htarget _
      rw [httpParseUrl_parts, hparts, Option.bind_some, if_neg fun h => hport h.2.1] at htarget
      cases htarget

/-- A blank in the path: the update reader refuses the URL, and the HTTP client puts it into the
request line. -/
theorem urlReaders_blank :
    let url := ascii "http://host/a b"
    UrlFits url ∧ ¬UrlsAgree url ∧ ¬UrlKept url := by
  have hparts : urlParts (ascii "http://host/a b") = some (ascii "host", none, ascii "/a b") := by decide
  have hplain : ¬PlainParts (ascii "host") none (ascii "/a b") := by decide
  refine ⟨fun host digits path h => ?_, fun hagree => ?_, fun hkept => ?_⟩
  · obtain ⟨⟩ := Option.some_inj.1 (hparts.symm.trans (urlText_iff.1 h))
    decide
  · exact hplain ((urlsAgree_iff hparts (by decide)).1 hagree (by decide))
  · exact absurd ((urlKept_iff hparts (by decide)).1 hkept (by decide)).1 (by decide)

end

end V9xRemote
