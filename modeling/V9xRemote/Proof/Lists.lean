import V9xRemote.Spec.Lists
import V9xRemote.Proof.Responses

/-!
# Lists decode to what the system listed

What is written of a list is whole entries, from its start on, and the host reads exactly
them. Where one is left out the answer is marked as truncated, but for one case: a subkey
whose name does not fit its buffer ends the enumeration, and nothing marks it.
-/

namespace V9xRemote

open Bytes Cursor

/-! ## Entries -/

/-- **Entries are read back**, one after the other. -/
theorem parseEntries_at {α β : Type} (field : α → Bytes) (read : α → β) {entry : ℕ → Except PyExc (β × ℕ)}
    {payload rest : Bytes} {offset : ℕ} {xs : List α} (h : At payload offset (xs.flatMap field ++ rest))
    (hentry : ∀ x ∈ xs, ∀ offset rest, At payload offset (field x ++ rest) →
      entry offset = .ok (read x, offset + (field x).length)) :
    parseEntries entry xs.length offset = .ok (xs.map read, offset + (xs.flatMap field).length) := by
  induction xs generalizing offset with
  | nil => rfl
  | cons x xs ih =>
    rw [List.flatMap_cons, List.append_assoc] at h
    have hrest := ih h.next fun y hy => hentry y (List.mem_cons_of_mem _ hy)
    rw [List.length_cons, parseEntries, hentry x List.mem_cons_self _ _ h]
    simp only [bind, Except.bind, pure, Except.pure]
    rw [hrest]
    simp only [List.flatMap_cons, List.length_append, Nat.add_assoc, List.map_cons]

/-- Some entries, from a list's start on, are written. -/
structure Written {α : Type} (field : α → Bytes) (xs : List α) (out out' : Bytes) (count count' : ℕ) (listed : List α) :
    Prop where
  start : listed <+: xs
  wrote : out' = out ++ listed.flatMap field
  count : count' = count + listed.length
  fits : out'.length ≤ listResponseSize

section

variable {α : Type} {field : α → Bytes} {xs listed : List α} {x : α} {out out' : Bytes} {count count' : ℕ}

theorem Written.stop (hout : out.length ≤ listResponseSize) : Written field xs out out count count [] :=
  ⟨List.nil_prefix, (List.append_nil _).symm, rfl, hout⟩

theorem Written.cons (h : Written field xs (out ++ field x) out' (count + 1) count' listed) :
    Written field (x :: xs) out out' count count' (x :: listed) where
  start := (List.prefix_cons_inj x).2 h.start
  wrote := by rw [h.wrote, List.flatMap_cons, List.append_assoc]
  count := by
    rw [h.count, List.length_cons]
    omega
  fits := h.fits

end

/-- The written length of a word. -/
theorem writeU32_read (v : UInt32) : (writeU32 v).readU32 0 = v := by
  have h := readU32_writeU32 v []
  rwa [List.append_nil] at h

variable {payload rest : Bytes} {offset : ℕ}

theorem unpackFrom_word {v : UInt32} (h : At payload offset (writeU32 v ++ rest)) :
    unpackFrom payload offset 4 = .ok (writeU32 v) := unpackFrom_at h

/-! ## The registry -/

/-- A value on the wire. -/
def registryField (value : RegistryValue) : Bytes :=
  stringField value.name ++ (writeU32 value.type ++ (writeU32 (UInt32.ofNat value.data.length) ++ value.data))

theorem registryField_length (value : RegistryValue) :
    (registryField value).length = 2 + value.name.length + (8 + value.data.length) := by
  simp only [registryField, List.length_append, stringField_length, writeU32_length]
  omega

/-- What the host makes of a value. -/
def RegistryValue.read (value : RegistryValue) : RegValue := ⟨value.name, value.type, value.data⟩

/-- **A value is read back.** -/
theorem parseRegValue_at {value : RegistryValue} (hname : value.name.length < 65536) (hdata : value.data.length < 2 ^ 32)
    (h : At payload offset (registryField value ++ rest)) :
    parseRegValue payload offset = .ok (value.read, offset + (registryField value).length) := by
  rw [registryField, List.append_assoc, List.append_assoc, List.append_assoc] at h
  have htype := h.next
  have hlength := htype.next
  have hraw := hlength.next
  simp only [writeU32_length] at hlength hraw
  have hhead : unpackFrom payload (offset + (stringField value.name).length) 8 =
      .ok (writeU32 value.type ++ writeU32 (UInt32.ofNat value.data.length)) := by
    have hboth : At payload (offset + (stringField value.name).length)
        ((writeU32 value.type ++ writeU32 (UInt32.ofNat value.data.length)) ++ (value.data ++ rest)) := by
      rw [List.append_assoc]
      exact htype
    exact unpackFrom_at hboth
  have hsize : (readU32 (writeU32 value.type ++ writeU32 (UInt32.ofNat value.data.length)) 4).toNat =
      value.data.length := by
    have hread := readU32_append_right (writeU32 value.type) (writeU32 (UInt32.ofNat value.data.length)) 0
    rw [writeU32_length, Nat.add_zero, writeU32_read] at hread
    rw [hread, UInt32.toNat_ofNat_of_lt' hdata]
  have hkind : readU32 (writeU32 value.type ++ writeU32 (UInt32.ofNat value.data.length)) 0 = value.type :=
    readU32_writeU32 _ _
  have hroom := hlength.room
  rw [writeU32_length] at hroom
  have htake := hraw.take
  have hoffset : offset + (stringField value.name).length + 4 + 4 = offset + (stringField value.name).length + 8 := by omega
  rw [hoffset] at htake
  rw [parseRegValue, parseAnsiString, parseStringBytes_at h hname]
  simp only [bind, Except.bind, pure, Except.pure]
  rw [if_neg (by omega), hhead]
  simp only [hsize, hkind, htake, ne_eq, not_true, if_false]
  have hend : offset + (stringField value.name).length + 8 + value.data.length =
      offset + (registryField value).length := by
    rw [registryField_length, stringField_length]
    omega
  rw [hend]
  by_cases hdword : (decide (value.type = 4) && decide (value.data.length ≥ 4)) = true
  · have hlong : 0 + 4 ≤ value.data.length := by
      have hlong := of_decide_eq_true (Bool.and_eq_true_iff.1 hdword).2
      omega
    rw [if_pos hdword, unpackFrom, if_pos hlong]
    rfl
  · rw [if_neg hdword]
    rfl

/-- What is written of the subkeys. -/
structure SubkeysWritten (names : List Bytes) (out out' : Bytes) (count count' : ℕ) (full : Bool) (listed : List Bytes) :
    Prop extends Written stringField names out out' count count' listed where
  short : ∀ n ∈ listed, n.length < listMaxPath
  /-- where the enumeration ends without a mark -/
  ended : full = false → listed = names ∨ ∃ name, listed ++ [name] <+: names ∧ listMaxPath ≤ name.length

theorem regSubkeys_written (names : List Bytes) (out : Bytes) (count : ℕ) (hout : out.length ≤ listResponseSize) :
    ∃ listed, SubkeysWritten names out (regSubkeys out count names).1 count (regSubkeys out count names).2.1
      (regSubkeys out count names).2.2 listed := by
  induction names generalizing out count with
  | nil =>
    exact ⟨[], .stop hout, List.forall_mem_nil _, fun _ => Or.inl rfl⟩
  | cons name names ih =>
    rw [regSubkeys]
    split
    · rename_i hlong
      exact ⟨[], .stop hout, List.forall_mem_nil _, fun _ => Or.inr ⟨name, List.prefix_append [name] names, hlong⟩⟩
    · rename_i hshort
      have hname : name.length < listMaxPath := not_le.1 hshort
      have hpath : listMaxPath = 260 := rfl
      by_cases hroom : out.length + (2 + name.length) ≤ listResponseSize
      · rw [appendString_fits _ _ _ (by omega) hroom]
        have hlength : (out ++ stringField name).length ≤ listResponseSize := by
          rw [List.length_append, stringField_length]
          omega
        obtain ⟨listed, h⟩ := ih _ (count + 1) hlength
        refine ⟨name :: listed, h.toWritten.cons, List.forall_mem_cons.2 ⟨hname, h.short⟩, fun hfull => ?_⟩
        rcases h.ended hfull with heq | ⟨long, hlong, hlen⟩
        · exact Or.inl (by rw [heq])
        · exact Or.inr ⟨long, (List.prefix_cons_inj name).2 hlong, hlen⟩
      · rw [appendString_full _ _ _ (by omega) (not_le.1 hroom)]
        exact ⟨[], .stop hout, List.forall_mem_nil _, nofun⟩

/-- Values that are written whole, with room for the question for one more. -/
def ValuesFit : ℕ → List RegistryValue → Prop
  | offset, [] => offset + 2 + listMaxPath + 8 ≤ listResponseSize
  | offset, value :: values =>
    value.name.length < listMaxPath ∧ offset + 2 + listMaxPath + 8 + value.data.length ≤ listResponseSize ∧
      ValuesFit (offset + (registryField value).length) values

/-- What is written of the values. -/
structure ValuesWritten (values : List RegistryValue) (out out' : Bytes) (count count' : ℕ) (full : Bool)
    (listed : List RegistryValue) : Prop extends Written registryField values out out' count count' listed where
  short : ∀ v ∈ listed, v.name.length < listMaxPath ∧ v.data.length < 2 ^ 32
  whole : full = false → listed = values
  full : full = false ↔ ValuesFit out.length values

theorem ValuesWritten.stopped {values : List RegistryValue} {out : Bytes} {count : ℕ}
    (hout : out.length ≤ listResponseSize) (hnot : ¬ValuesFit out.length values) :
    ValuesWritten values out out count count true [] :=
  ⟨.stop hout, List.forall_mem_nil _, nofun, ⟨nofun, fun hfit => absurd hfit hnot⟩⟩

theorem regValues_written (values : List RegistryValue) (out : Bytes) (count : ℕ) (hout : out.length ≤ listResponseSize) :
    ∃ listed, ValuesWritten values out (regValues out count values).1 count (regValues out count values).2.1
      (regValues out count values).2.2 listed := by
  have hpath : listMaxPath = 260 := rfl
  have hsize : listResponseSize = 16384 := rfl
  induction values generalizing out count with
  | nil =>
    refine ⟨[], .stop hout, List.forall_mem_nil _, fun _ => rfl, ?_⟩
    show regValueFull out = false ↔ _
    rw [regValueFull, decide_eq_false_iff_not, ValuesFit, not_lt]
  | cons value values ih =>
    rw [regValues]
    by_cases hroom : regValueFull out = true
    · rw [if_pos hroom]
      refine ⟨[], .stopped hout fun hfit => ?_⟩
      rw [regValueFull, decide_eq_true_eq] at hroom
      have := hfit.2.1
      omega
    rw [if_neg hroom]
    rw [regValueFull, decide_eq_true_eq] at hroom
    split
    · rename_i hlong
      refine ⟨[], .stopped hout fun hfit => ?_⟩
      have hname := hfit.1
      have hdata := hfit.2.1
      omega
    · rename_i hshort
      rw [not_or, not_le, not_lt] at hshort
      obtain ⟨hname, hdata⟩ := hshort
      have hfield := registryField_length value
      rw [appendString_fits _ _ _ (by omega) (by omega)]
      have hnext : out ++ stringField value.name ++
          (writeU32 value.type ++ (writeU32 (UInt32.ofNat value.data.length) ++ value.data)) =
            out ++ registryField value := by
        rw [List.append_assoc]
        rfl
      dsimp only
      rw [hnext]
      have hlength : (out ++ registryField value).length ≤ listResponseSize := by
        rw [List.length_append]
        omega
      obtain ⟨listed, h⟩ := ih _ (count + 1) hlength
      refine ⟨value :: listed, h.toWritten.cons, List.forall_mem_cons.2 ⟨⟨hname, by omega⟩, h.short⟩,
        fun hfull => by rw [h.whole hfull], ?_⟩
      rw [h.full, ValuesFit, List.length_append]
      exact ⟨fun hfit => ⟨hname, by omega, hfit⟩, fun hfit => hfit.2.2⟩

/-- A name that is too long cuts the enumeration off behind the ones before it. -/
theorem regSubkeys_cut {names listed : List Bytes} {name : Bytes} (hnames : listed ++ [name] <+: names)
    (hshort : ∀ n ∈ listed, n.length < listMaxPath) (hlong : listMaxPath ≤ name.length) (out : Bytes) (count : ℕ)
    (hfits : out.length + (stringFields listed).length ≤ listResponseSize) :
    regSubkeys out count names = (out ++ stringFields listed, count + listed.length, false) := by
  induction listed generalizing names out count with
  | nil =>
    obtain ⟨rest, rfl⟩ := hnames
    rw [List.nil_append, List.singleton_append, regSubkeys, if_pos hlong]
    exact congrArg₂ Prod.mk (List.append_nil _).symm rfl
  | cons first listed ih =>
    obtain ⟨rest, rfl⟩ := hnames
    have hfirst := hshort first List.mem_cons_self
    have hpath : listMaxPath = 260 := rfl
    rw [stringFields_cons, List.length_append, stringField_length] at hfits
    rw [List.cons_append, List.cons_append, regSubkeys, if_neg (not_le.2 hfirst),
      appendString_fits _ _ _ (by omega) (by omega)]
    have hrest := ih (List.prefix_append (listed ++ [name]) rest) (fun n hn => hshort n (List.mem_cons_of_mem _ hn))
      (out ++ stringField first) (count + 1) (by
        rw [List.length_append, stringField_length]
        omega)
    dsimp only
    rw [hrest, stringFields_cons, List.append_assoc, List.length_cons]
    exact congrArg₂ Prod.mk rfl (congrArg₂ Prod.mk (by omega) rfl)

theorem stringFields_count (texts : List Bytes) : 2 * texts.length ≤ (stringFields texts).length := by
  induction texts with
  | nil => exact le_rfl
  | cons text texts ih =>
    rw [stringFields_cons, List.length_append, stringField_length, List.length_cons]
    omega

theorem registryFields_count (values : List RegistryValue) :
    2 * values.length ≤ (values.flatMap registryField).length := by
  induction values with
  | nil => exact le_rfl
  | cons value values ih =>
    rw [List.flatMap_cons, List.length_append, registryField_length, List.length_cons]
    omega

/-- A REG_QUERY response, by its parts. -/
def regPayload (subkeys : List Bytes) (values : List RegistryValue) (full : Bool) : Bytes :=
  writeU32 (UInt32.ofNat subkeys.length) ++ (writeU32 (UInt32.ofNat values.length) ++
    (writeU32 (if full then regTruncated else 0) ++ (stringFields subkeys ++ values.flatMap registryField)))

theorem regPayload_length (subkeys : List Bytes) (values : List RegistryValue) (full : Bool) :
    (regPayload subkeys values full).length =
      12 + ((stringFields subkeys).length + (values.flatMap registryField).length) := by
  simp only [regPayload, List.length_append, writeU32_length]
  omega

/-- **A REG_QUERY response is read back.** -/
theorem parseRegQuery_eq {subkeys : List Bytes} {values : List RegistryValue} {full : Bool}
    (hsubkeys : ∀ n ∈ subkeys, n.length < listMaxPath)
    (hvalues : ∀ v ∈ values, v.name.length < listMaxPath ∧ v.data.length < 2 ^ 32)
    (hfits : (regPayload subkeys values full).length ≤ listResponseSize) :
    parseRegQuery (regPayload subkeys values full) =
      .ok ⟨subkeys, values.map RegistryValue.read, if full then regTruncated else 0⟩ := by
  have hpath : listMaxPath = 260 := rfl
  have hsize : listResponseSize = 16384 := rfl
  have hlength := regPayload_length subkeys values full
  have hcount := stringFields_count subkeys
  have hcount' := registryFields_count values
  have hstart : At (regPayload subkeys values full) 0
      (writeU32 (UInt32.ofNat subkeys.length) ++ (writeU32 (UInt32.ofNat values.length) ++
        (writeU32 (if full then regTruncated else 0) ++ (stringFields subkeys ++ values.flatMap registryField)))) :=
    at_start _
  generalize regPayload subkeys values full = payload at hstart hfits hlength ⊢
  have hhead : unpackFrom payload 0 12 = .ok (writeU32 (UInt32.ofNat subkeys.length) ++
      (writeU32 (UInt32.ofNat values.length) ++ writeU32 (if full then regTruncated else 0))) := by
    have hall : At payload 0 ((writeU32 (UInt32.ofNat subkeys.length) ++
        (writeU32 (UInt32.ofNat values.length) ++ writeU32 (if full then regTruncated else 0))) ++
          (stringFields subkeys ++ values.flatMap registryField)) := by
      simp only [List.append_assoc]
      exact hstart
    exact unpackFrom_at hall
  have hfirst : (readU32 (writeU32 (UInt32.ofNat subkeys.length) ++
      (writeU32 (UInt32.ofNat values.length) ++ writeU32 (if full then regTruncated else 0))) 0).toNat =
        subkeys.length := by
    rw [readU32_writeU32, UInt32.toNat_ofNat_of_lt' (show subkeys.length < 2 ^ 32 by omega)]
  have hsecond : (readU32 (writeU32 (UInt32.ofNat subkeys.length) ++
      (writeU32 (UInt32.ofNat values.length) ++ writeU32 (if full then regTruncated else 0))) 4).toNat =
        values.length := by
    have hread := readU32_append_right (writeU32 (UInt32.ofNat subkeys.length))
      (writeU32 (UInt32.ofNat values.length) ++ writeU32 (if full then regTruncated else 0)) 0
    rw [writeU32_length, Nat.add_zero, readU32_writeU32] at hread
    rw [hread, UInt32.toNat_ofNat_of_lt' (show values.length < 2 ^ 32 by omega)]
  have hthird : readU32 (writeU32 (UInt32.ofNat subkeys.length) ++
      (writeU32 (UInt32.ofNat values.length) ++ writeU32 (if full then regTruncated else 0))) 8 =
        if full then regTruncated else 0 :=
    writeU32_read (if full then regTruncated else 0)
  have hnames : At payload 12 (subkeys.flatMap stringField ++ values.flatMap registryField) := hstart.next.next.next
  have hparsedNames := parseEntries_at stringField id hnames fun n hn offset rest h =>
    parseStringBytes_at h (show n.length < 65536 by have := hsubkeys n hn; omega)
  have hfields := hnames.next
  rw [← List.append_nil (values.flatMap registryField)] at hfields
  have hparsedValues := parseEntries_at registryField RegistryValue.read hfields fun v hv offset rest h =>
    parseRegValue_at (by have := (hvalues v hv).1; omega) (hvalues v hv).2 h
  have hend : 12 + (subkeys.flatMap stringField).length + (values.flatMap registryField).length = payload.length := by
    rw [hlength, stringFields, Nat.add_assoc]
  rw [parseRegQuery, if_neg (by omega)]
  simp only [bind, Except.bind, pure, Except.pure, hhead, hfirst, hsecond, hthird]
  rw [show parseEntries (parseAnsiString payload) subkeys.length 12 = _ from hparsedNames]
  simp only []
  rw [hparsedValues]
  simp only [hend, ne_eq, not_true, if_false, List.map_id]

/-- A REG_QUERY response fits, is read as an initial part of what the key holds, and is marked
where something is left out. -/
def RegQueryDecodes (key : RegistryKey) : Prop :=
  (handleRegQuery key).length ≤ listResponseSize ∧ ∃ subkeys values flags,
    parseRegQuery (handleRegQuery key) = .ok ⟨subkeys, values.map RegistryValue.read, flags⟩ ∧
      subkeys <+: key.subkeys ∧ values <+: key.values ∧
        (subkeys ≠ key.subkeys ∨ values ≠ key.values → flags &&& regTruncated ≠ 0)

/-- A subkey's name that is too long is reached, and everything else fits. -/
def SilentCut (key : RegistryKey) : Prop := ∃ listed name, listed ++ [name] <+: key.subkeys ∧
  (∀ n ∈ listed, n.length < listMaxPath) ∧ listMaxPath ≤ name.length ∧ 12 + (stringFields listed).length ≤ listResponseSize ∧
    ValuesFit (12 + (stringFields listed).length) key.values

/-- What a query sends. -/
theorem regQuery_eq (key : RegistryKey) : ∃ subkeys values full, handleRegQuery key = regPayload subkeys values full ∧
    (regPayload subkeys values full).length ≤ listResponseSize ∧ subkeys <+: key.subkeys ∧ values <+: key.values ∧
      (∀ n ∈ subkeys, n.length < listMaxPath) ∧ (∀ v ∈ values, v.name.length < listMaxPath ∧ v.data.length < 2 ^ 32) ∧
        (full = false → values = key.values ∧ (subkeys = key.subkeys ∨ SilentCut key)) ∧
          (SilentCut key → full = false ∧ subkeys ≠ key.subkeys) := by
  have hzeros : (List.replicate 12 (0 : UInt8)).length = 12 := rfl
  have hsize : listResponseSize = 16384 := rfl
  obtain ⟨subkeys, hs⟩ := regSubkeys_written key.subkeys (List.replicate 12 0) 0 (by omega)
  have hout : (regSubkeys (List.replicate 12 0) 0 key.subkeys).1 = List.replicate 12 0 ++ stringFields subkeys := hs.wrote
  have hcount := hs.count
  rw [Nat.zero_add] at hcount
  cases hfull : (regSubkeys (List.replicate 12 0) 0 key.subkeys).2.2 with
  | true =>
    -- nothing is asked about the values
    have heq : handleRegQuery key = regPayload subkeys [] true := by
      unfold handleRegQuery
      dsimp only
      rw [hfull, if_pos rfl, hout, hcount]
      exact congrArg _ (congrArg _ (congrArg _ (List.append_nil _).symm))
    have hfits := hs.fits
    rw [hout, List.length_append] at hfits
    refine ⟨subkeys, [], true, heq, ?_, hs.start, List.nil_prefix, hs.short, List.forall_mem_nil _, nofun, ?_⟩
    · rw [regPayload_length, List.flatMap_nil, List.length_nil]
      omega
    · rintro ⟨listed, name, hnames, hshort, hlong, hroom, -⟩
      rw [regSubkeys_cut hnames hshort hlong _ 0 (by omega)] at hfull
      cases hfull
  | false =>
    obtain ⟨values, hv⟩ := regValues_written key.values _ 0 hs.fits
    have hout' := hv.wrote
    have hcount' := hv.count
    rw [Nat.zero_add] at hcount'
    have heq : handleRegQuery key = regPayload subkeys values
        (regValues (regSubkeys (List.replicate 12 0) 0 key.subkeys).1 0 key.values).2.2 := by
      unfold handleRegQuery
      dsimp only
      rw [hfull, if_neg Bool.false_ne_true, hout', hcount, hcount', hout, List.append_assoc]
      rfl
    have hfits := hv.fits
    rw [hout', hout, List.length_append, List.length_append] at hfits
    have hstart : (regSubkeys (List.replicate 12 0) 0 key.subkeys).1.length = 12 + (stringFields subkeys).length := by
      rw [hout, List.length_append]
      rfl
    have hfit := hv.full
    rw [hstart] at hfit
    refine ⟨subkeys, values, _, heq, ?_, hs.start, hv.start, hs.short, hv.short, fun hwhole => ⟨hv.whole hwhole, ?_⟩, ?_⟩
    · rw [regPayload_length]
      omega
    · refine (hs.ended hfull).imp id fun ⟨name, hname, hlong⟩ => ⟨subkeys, name, hname, hs.short, hlong, by omega, ?_⟩
      exact hfit.1 hwhole
    · rintro ⟨listed, name, hnames, hshort, hlong, hroom, hvalues⟩
      have hcut := regSubkeys_cut hnames hshort hlong (List.replicate 12 0) 0 (by omega)
      rw [hcut] at hout
      have hlisted : stringFields listed = stringFields subkeys := List.append_cancel_left hout
      refine ⟨hfit.2 (hlisted ▸ hvalues), fun hall => ?_⟩
      rw [hcut, Nat.zero_add] at hcount
      have hlength := hnames.length_le
      rw [List.length_append, List.length_singleton, ← hall] at hlength
      dsimp only at hcount
      omega

/-- **The registry.** -/
theorem regQuery_decodes_iff (key : RegistryKey) : RegQueryDecodes key ↔ ¬SilentCut key := by
  obtain ⟨subkeys, values, full, heq, hfits, hsubkeys, hvalues, hshort, hsmall, hwhole, hcut⟩ := regQuery_eq key
  have hparsed := parseRegQuery_eq hshort hsmall hfits
  constructor
  · rintro ⟨-, subkeys', values', flags, hread, -, -, hmarked⟩ hsilent
    obtain ⟨hfull, hne⟩ := hcut hsilent
    rw [heq, hparsed, hfull] at hread
    obtain ⟨rfl, -, rfl⟩ := RegKey.mk.inj (Except.ok.inj hread)
    exact hmarked (Or.inl hne) rfl
  · intro hloud
    refine ⟨heq ▸ hfits, subkeys, values, _, heq ▸ hparsed, hsubkeys, hvalues, fun hleft => ?_⟩
    cases full with
    | true => exact by decide
    | false =>
      obtain ⟨hv, hs⟩ := hwhole rfl
      rcases hs with hs | hs
      · exact absurd hleft (not_or.2 ⟨not_not.2 hs, not_not.2 hv⟩)
      · exact absurd hs hloud

/-! ## Processes -/

section

variable {self : UInt32} {pool : List ExecJob}

/-- A process on the wire. -/
def processField (self : UInt32) (pool : List ExecJob) (entry : ProcessEntry) : Bytes :=
  writeU32 entry.pid ++ writeU32 entry.parent ++ writeU32 entry.threads ++
    writeU32 (processFlags self pool entry.pid) ++ writeU32 ((agentJob pool entry.pid).getD 0) ++
    stringField entry.exeFile.text

theorem processField_length (entry : ProcessEntry) :
    (processField self pool entry).length = 22 + entry.exeFile.text.length := by
  simp only [processField, List.length_append, stringField_length, writeU32_length]
  omega

/-- What the host makes of a process. -/
def ProcessEntry.read (self : UInt32) (pool : List ExecJob) (entry : ProcessEntry) : GuestProcess :=
  ⟨entry.pid, entry.parent, entry.threads, processFlags self pool entry.pid, (agentJob pool entry.pid).getD 0,
    entry.exeFile.text⟩

/-- **A process is read back.** -/
theorem parseProcess_at {entry : ProcessEntry} (h : At payload offset (processField self pool entry ++ rest)) :
    parseProcess payload offset = .ok (entry.read self pool, offset + (processField self pool entry).length) := by
  have hlength : (processField self pool entry).length = 20 + (stringField entry.exeFile.text).length := by
    rw [processField_length, stringField_length]
    omega
  rw [processField, List.append_assoc] at h
  have hhead := unpackFrom_at h
  have hname := parseStringBytes_at h.next (entry.exeFile.length_small (by decide))
  have hroom := h.room
  have htwenty : ∀ a b c d e : UInt32, (writeU32 a ++ writeU32 b ++ writeU32 c ++ writeU32 d ++ writeU32 e).length = 20 :=
    fun _ _ _ _ _ => rfl
  rw [htwenty] at hhead hname hroom
  have hread : ∀ a b c d e : UInt32, readU32 (writeU32 a ++ writeU32 b ++ writeU32 c ++ writeU32 d ++ writeU32 e) 0 = a ∧
      readU32 (writeU32 a ++ writeU32 b ++ writeU32 c ++ writeU32 d ++ writeU32 e) 4 = b ∧
        readU32 (writeU32 a ++ writeU32 b ++ writeU32 c ++ writeU32 d ++ writeU32 e) 8 = c ∧
          readU32 (writeU32 a ++ writeU32 b ++ writeU32 c ++ writeU32 d ++ writeU32 e) 12 = d ∧
            readU32 (writeU32 a ++ writeU32 b ++ writeU32 c ++ writeU32 d ++ writeU32 e) 16 = e :=
    fun a b c d e => ⟨readU32_writeU32 a (writeU32 b ++ writeU32 c ++ writeU32 d ++ writeU32 e),
      readU32_writeU32 b (writeU32 c ++ writeU32 d ++ writeU32 e), readU32_writeU32 c (writeU32 d ++ writeU32 e),
      readU32_writeU32 d (writeU32 e), writeU32_read e⟩
  obtain ⟨hpid, hparent, hthreads, hflags, hjob⟩ := hread entry.pid entry.parent entry.threads
    (processFlags self pool entry.pid) ((agentJob pool entry.pid).getD 0)
  rw [parseProcess, if_neg (not_lt.2 hroom)]
  simp only [bind, Except.bind, pure, Except.pure, hhead, hpid, hparent, hthreads, hflags, hjob]
  rw [parseAnsiString, hname, hlength, Nat.add_assoc]
  rfl

theorem processEntries_written (entries : List ProcessEntry) (out : Bytes) (count : ℕ)
    (hout : out.length ≤ listResponseSize) : ∃ listed,
      Written (processField self pool) entries out (processEntries self pool out count entries).1 count
        (processEntries self pool out count entries).2 listed := by
  induction entries generalizing out count with
  | nil => exact ⟨[], .stop hout⟩
  | cons entry entries ih =>
    rw [processEntries]
    split
    · exact ⟨[], .stop hout⟩
    · rename_i hhead
      have hname := entry.exeFile.length_lt
      dsimp only
      generalize hwords : writeU32 entry.pid ++ writeU32 entry.parent ++ writeU32 entry.threads ++
        writeU32 (processFlags self pool entry.pid) ++ writeU32 ((agentJob pool entry.pid).getD 0) = head
      have hlength : head.length = 20 := by
        rw [← hwords]
        rfl
      by_cases hroom : out.length + 20 + (2 + entry.exeFile.text.length) ≤ listResponseSize
      · rw [appendString_fits _ _ _ (by omega) (by rw [List.length_append, hlength]; exact hroom)]
        have hfield : out ++ head ++ stringField entry.exeFile.text = out ++ processField self pool entry := by
          rw [List.append_assoc, ← hwords]
          rfl
        dsimp only
        rw [hfield]
        obtain ⟨listed, h⟩ := ih (out ++ processField self pool entry) (count + 1) (by
          rw [List.length_append, processField_length]
          omega)
        exact ⟨entry :: listed, h.cons⟩
      · rw [appendString_full _ _ _ (by omega) (by rw [List.length_append, hlength]; exact not_le.1 hroom)]
        exact ⟨[], .stop hout⟩

theorem processFields_count (listed : List ProcessEntry) :
    22 * listed.length ≤ (listed.flatMap (processField self pool)).length := by
  induction listed with
  | nil => exact le_rfl
  | cons entry listed ih =>
    rw [List.flatMap_cons, List.length_append, processField_length, List.length_cons]
    omega

/-- A PROCESS_LIST fits and is read as an initial part of the processes. -/
def ProcessListDecodes (self : UInt32) (pool : List ExecJob) (entries : List ProcessEntry) : Prop :=
  (processList self pool entries).length ≤ listResponseSize ∧ ∃ listed, listed <+: entries ∧
    parseProcessList (processList self pool entries) = .ok (listed.map (ProcessEntry.read self pool))

/-- **Processes.** -/
theorem processList_decodes (self : UInt32) (pool : List ExecJob) (entries : List ProcessEntry) :
    ProcessListDecodes self pool entries := by
  have hsize : listResponseSize = 16384 := rfl
  unfold ProcessListDecodes
  have hzeros : (List.replicate 4 (0 : UInt8)).length = 4 := rfl
  obtain ⟨listed, h⟩ := @processEntries_written self pool entries (List.replicate 4 0) 0 (by omega)
  have heq : processList self pool entries = writeU32 (UInt32.ofNat listed.length) ++
      listed.flatMap (processField self pool) := by
    unfold processList
    dsimp only
    rw [h.wrote, h.count, Nat.zero_add]
    rfl
  have hfits := h.fits
  rw [h.wrote, List.length_append] at hfits
  have hcount := @processFields_count self pool listed
  have hlength : (processList self pool entries).length = 4 + (listed.flatMap (processField self pool)).length := by
    rw [heq, List.length_append]
    rfl
  have hbegin : At (processList self pool entries) 0 (writeU32 (UInt32.ofNat listed.length) ++
      (listed.flatMap (processField self pool) ++ [])) := by
    rw [List.append_nil, ← heq]
    exact at_start _
  generalize processList self pool entries = payload at hlength hbegin ⊢
  have hhead := unpackFrom_word hbegin
  have hentries := hbegin.next
  rw [writeU32_length, Nat.zero_add] at hentries
  have hparsed := parseEntries_at (processField self pool) (ProcessEntry.read self pool) hentries
    fun _ _ _ _ hat => parseProcess_at hat
  have hread : (readU32 (writeU32 (UInt32.ofNat listed.length)) 0).toNat = listed.length := by
    rw [writeU32_read, UInt32.toNat_ofNat_of_lt' (show listed.length < 2 ^ 32 by omega)]
  refine ⟨by omega, listed, h.start, ?_⟩
  rw [parseProcessList, if_neg (by omega)]
  simp only [bind, Except.bind, pure, Except.pure, hhead, hread, hparsed, hlength, ne_eq, not_true, if_false]

end

/-! ## Windows -/

/-- The words in front of a window's texts. -/
def windowHead (window : SystemWindow) : Bytes :=
  writeU32 window.handle ++ writeU32 window.pid ++ writeU32 (windowFlags window) ++
    writeU32 window.left.toUInt32 ++ writeU32 window.top.toUInt32 ++ writeU32 window.right.toUInt32 ++
    writeU32 window.bottom.toUInt32

theorem windowHead_length (window : SystemWindow) : (windowHead window).length = 28 := rfl

theorem windowHead_read (window : SystemWindow) : (windowHead window).readU32 0 = window.handle ∧
    (windowHead window).readU32 4 = window.pid ∧ (windowHead window).readU32 8 = windowFlags window ∧
      readS32 (windowHead window) 12 = window.left.toInt ∧ readS32 (windowHead window) 16 = window.top.toInt ∧
        readS32 (windowHead window) 20 = window.right.toInt ∧ readS32 (windowHead window) 24 = window.bottom.toInt := by
  have hwords : ∀ a b c d e f g : UInt32,
      let head := writeU32 a ++ writeU32 b ++ writeU32 c ++ writeU32 d ++ writeU32 e ++ writeU32 f ++ writeU32 g
      readU32 head 0 = a ∧ readU32 head 4 = b ∧ readU32 head 8 = c ∧ readU32 head 12 = d ∧ readU32 head 16 = e ∧
        readU32 head 20 = f ∧ readU32 head 24 = g :=
    fun a b c d e f g => ⟨readU32_writeU32 a (writeU32 b ++ writeU32 c ++ writeU32 d ++ writeU32 e ++ writeU32 f ++ writeU32 g),
      readU32_writeU32 b (writeU32 c ++ writeU32 d ++ writeU32 e ++ writeU32 f ++ writeU32 g),
      readU32_writeU32 c (writeU32 d ++ writeU32 e ++ writeU32 f ++ writeU32 g),
      readU32_writeU32 d (writeU32 e ++ writeU32 f ++ writeU32 g), readU32_writeU32 e (writeU32 f ++ writeU32 g),
      readU32_writeU32 f (writeU32 g), writeU32_read g⟩
  obtain ⟨h0, h4, h8, h12, h16, h20, h24⟩ := hwords window.handle window.pid (windowFlags window) window.left.toUInt32
    window.top.toUInt32 window.right.toUInt32 window.bottom.toUInt32
  refine ⟨h0, h4, h8, ?_, ?_, ?_, ?_⟩ <;> rw [readS32, windowHead]
  · rw [h12]
    rfl
  · rw [h16]
    rfl
  · rw [h20]
    rfl
  · rw [h24]
    rfl

/-- A window on the wire. -/
def windowField (window : SystemWindow) : Bytes :=
  windowHead window ++ stringFields [window.className.text, window.title.text]

theorem windowField_length (window : SystemWindow) :
    (windowField window).length = 32 + window.className.text.length + window.title.text.length := by
  rw [windowField, stringFields_cons, stringFields_cons]
  simp only [List.length_append, stringField_length, windowHead_length, stringFields, List.flatMap_nil, List.length_nil]
  omega

/-- What the host makes of a window. -/
def SystemWindow.read (window : SystemWindow) : GuestWindow :=
  ⟨window.handle, window.pid, windowFlags window, window.left.toInt, window.top.toInt, window.right.toInt,
    window.bottom.toInt, window.className.text, window.title.text⟩

/-- **A window is read back.** -/
theorem parseWindow_at {window : SystemWindow} (h : At payload offset (windowField window ++ rest)) :
    parseWindow payload offset = .ok (window.read, offset + (windowField window).length) := by
  rw [windowField, stringFields_cons, stringFields_cons, List.append_assoc, List.append_assoc, List.append_assoc] at h
  have hroom := h.room
  have hhead := unpackFrom_at h
  have hclass := h.next
  rw [windowHead_length] at hroom hhead hclass
  have hclassRead := parseStringBytes_at hclass (window.className.length_small (by decide))
  have htitleRead := parseStringBytes_at hclass.next (window.title.length_small (by decide))
  obtain ⟨h0, h4, h8, h12, h16, h20, h24⟩ := windowHead_read window
  have hend : offset + 28 + (stringField window.className.text).length + (stringField window.title.text).length =
      offset + (windowField window).length := by
    rw [windowField_length, stringField_length, stringField_length]
    omega
  rw [parseWindow, if_neg (not_lt.2 hroom)]
  simp only [bind, Except.bind, pure, Except.pure, hhead, h0, h4, h8, h12, h16, h20, h24, parseAnsiString, hclassRead,
    htitleRead, hend]
  rfl

/-- What is written of the windows that show. -/
structure WindowsWritten (shown : List SystemWindow) (out out' : Bytes) (count count' : ℕ) (full : Bool)
    (listed : List SystemWindow) : Prop extends Written windowField shown out out' count count' listed where
  whole : full = false → listed = shown

theorem windowEntries_written (windows : List SystemWindow) (out : Bytes) (count : ℕ)
    (hout : out.length ≤ listResponseSize) : ∃ listed, WindowsWritten (windows.filter (·.visible)) out
      (windowEntries out count windows).1 count (windowEntries out count windows).2.1
        (windowEntries out count windows).2.2 listed := by
  induction windows generalizing out count with
  | nil => exact ⟨[], .stop hout, fun _ => rfl⟩
  | cons window windows ih =>
    rw [windowEntries]
    by_cases hvisible : window.visible = true
    · rw [hvisible, if_neg (by decide), List.filter_cons_of_pos (by exact hvisible)]
      split
      · exact ⟨[], .stop hout, nofun⟩
      · rename_i hhead
        have hclass := window.className.length_lt
        have htitle := window.title.length_lt
        have hshort : ∀ t ∈ [window.className.text, window.title.text], t.length < 65536 :=
          List.forall_mem_cons.2 ⟨by omega, List.forall_mem_cons.2 ⟨by omega, List.forall_mem_nil _⟩⟩
        have hfield : out ++ windowHead window ++ stringFields [window.className.text, window.title.text] =
            out ++ windowField window := List.append_assoc _ _ _
        have hlength := congrArg List.length hfield
        rw [List.length_append, List.length_append, windowHead_length] at hlength
        dsimp only
        rw [← windowHead]
        by_cases hroom : (out ++ windowField window).length ≤ listResponseSize
        · rw [appendStrings_fits _ _ _ hshort (by rw [List.length_append, windowHead_length]; omega), hfield]
          obtain ⟨listed, h⟩ := ih (out ++ windowField window) (count + 1) hroom
          exact ⟨window :: listed, h.toWritten.cons, fun hfull => by rw [h.whole hfull]⟩
        · rw [appendStrings_full _ _ _ hshort (by rw [List.length_append, windowHead_length]; omega)
            (by rw [List.length_append, windowHead_length]; omega)]
          exact ⟨[], .stop hout, nofun⟩
    · rw [List.filter_cons_of_neg (by exact hvisible), if_pos (by simpa using hvisible)]
      exact ih out count hout

theorem windowFields_count (listed : List SystemWindow) : 32 * listed.length ≤ (listed.flatMap windowField).length := by
  induction listed with
  | nil => exact le_rfl
  | cons window listed ih =>
    rw [List.flatMap_cons, List.length_append, windowField_length, List.length_cons]
    omega

/-- A WINDOW_LIST fits, is read as an initial part of the windows that show, and is marked where
one is left out. -/
def WindowListDecodes (windows : List SystemWindow) : Prop :=
  (windowList windows).length ≤ listResponseSize ∧ ∃ listed, listed <+: windows.filter (·.visible) ∧
    parseWindowList (windowList windows) = .ok (listed.map SystemWindow.read) ∧
      (listed ≠ windows.filter (·.visible) → (windowList windows).readU32 4 ≠ 0)

/-- **Windows.** -/
theorem windowList_decodes (windows : List SystemWindow) : WindowListDecodes windows := by
  have hsize : listResponseSize = 16384 := rfl
  unfold WindowListDecodes
  have hzeros : (List.replicate 8 (0 : UInt8)).length = 8 := rfl
  obtain ⟨listed, h⟩ := windowEntries_written windows (List.replicate 8 0) 0 (by omega)
  have hwhole := h.whole
  generalize hflag : (windowEntries (List.replicate 8 0) 0 windows).2.2 = full at hwhole
  have heq : windowList windows = writeU32 (UInt32.ofNat listed.length) ++ (writeU32 (if full then 1 else 0) ++
      listed.flatMap windowField) := by
    unfold windowList
    dsimp only
    rw [h.wrote, h.count, hflag, Nat.zero_add]
    rfl
  have hfits := h.fits
  rw [h.wrote, List.length_append] at hfits
  have hcount := windowFields_count listed
  have hlength : (windowList windows).length = 8 + (listed.flatMap windowField).length := by
    rw [heq, List.length_append, List.length_append, writeU32_length, writeU32_length]
    omega
  have hbegin : At (windowList windows) 0 (writeU32 (UInt32.ofNat listed.length) ++ (writeU32 (if full then 1 else 0) ++
      (listed.flatMap windowField ++ []))) := by
    rw [List.append_nil, ← heq]
    exact at_start _
  have hmark : (windowList windows).readU32 4 = if full then 1 else 0 := by
    have hsecond := hbegin.next
    rw [writeU32_length, Nat.zero_add] at hsecond
    rw [← Nat.add_zero 4, hsecond.readU32, readU32_writeU32]
  generalize windowList windows = payload at hlength hbegin hmark ⊢
  have hhead : unpackFrom payload 0 8 = .ok (writeU32 (UInt32.ofNat listed.length) ++ writeU32 (if full then 1 else 0)) := by
    have hall := hbegin
    rw [← List.append_assoc] at hall
    exact unpackFrom_at hall
  have hentries := hbegin.next.next
  rw [writeU32_length, writeU32_length, Nat.zero_add] at hentries
  have hparsed := parseEntries_at windowField SystemWindow.read hentries fun _ _ _ _ hat => parseWindow_at hat
  have hread : (readU32 (writeU32 (UInt32.ofNat listed.length) ++ writeU32 (if full then 1 else 0)) 0).toNat =
      listed.length := by
    rw [readU32_writeU32, UInt32.toNat_ofNat_of_lt' (show listed.length < 2 ^ 32 by omega)]
  refine ⟨by omega, listed, h.start, ?_, fun hleft => ?_⟩
  · rw [parseWindowList, if_neg (by omega)]
    simp only [bind, Except.bind, pure, Except.pure, hhead, hread, hparsed, hlength, ne_eq, not_true, if_false]
  · rw [hmark]
    cases full with
    | true => exact by decide
    | false => exact absurd (hwhole rfl) hleft

/-! ## Every list -/

/-- **The lists decode**, but for a registry key with a silent cut. -/
theorem list_responses_decode_iff (key : RegistryKey) (self : UInt32) (pool : List ExecJob)
    (entries : List ProcessEntry) (windows : List SystemWindow) :
    RegQueryDecodes key ∧ ProcessListDecodes self pool entries ∧ WindowListDecodes windows ↔ ¬SilentCut key := by
  rw [regQuery_decodes_iff]
  exact and_iff_left ⟨processList_decodes self pool entries, windowList_decodes windows⟩

/-- A key with one subkey, of 300 characters: nothing of it is listed and nothing says so. -/
theorem long_subkey_dropped : ∃ key : RegistryKey, key.subkeys.length = 1 ∧
    parseRegQuery (handleRegQuery key) = .ok ⟨[], [], 0⟩ ∧ ¬RegQueryDecodes key := by
  have hsent : handleRegQuery ⟨[List.replicate 300 0x8A], []⟩ = List.replicate 12 0 := by
    have hlong : (List.replicate 300 (0x8A : UInt8)).length ≥ listMaxPath := by
      rw [List.length_replicate]
      decide
    rw [handleRegQuery, regSubkeys, if_pos hlong]
    rfl
  refine ⟨⟨[List.replicate 300 0x8A], []⟩, rfl, by rw [hsent]; decide, fun h => ?_⟩
  refine (regQuery_decodes_iff _).1 h ⟨[], List.replicate 300 0x8A, List.prefix_rfl, List.forall_mem_nil _, ?_, ?_, ?_⟩
  · rw [List.length_replicate]
    decide
  · decide
  · change 12 + 0 + 2 + listMaxPath + 8 ≤ listResponseSize
    decide

end V9xRemote
