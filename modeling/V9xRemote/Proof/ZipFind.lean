import Mathlib.Data.List.TakeWhile
import V9xRemote.Proof.ZipRead

/-!
# The directory of an archive that opened

Two ways lead into the directory: by an index, and by a name. Both walk from its start; what
was checked once at opening holds for every walk, so the records are those that tile it, and
a name is found by comparing it with each of them.
-/

namespace V9xRemote

open Bytes Checked

variable {σ : Type} {s : σ} {data : Bytes} {archive : ZipArchive} {wanted : Bytes}

/-! ## One name -/

/-- The name of an indexed entry. -/
def ZipArchive.name (archive : ZipArchive) (index : ℕ) : Bytes :=
  bytesAt archive.data (archive.entry index).name (archive.entry index).nameLength

/-- The same text, without ASCII case. -/
def sameText (a b : Bytes) : Bool := a.map zipAsciiUpper == b.map zipAsciiUpper

theorem sameText_iff {a b : Bytes} (h : a.length = b.length) :
    sameText a b = true ↔ ∀ i < b.length, zipAsciiUpper (a.at' i) = zipAsciiUpper (b.at' i) := by
  rw [sameText, beq_iff_eq]
  constructor
  · intro heq i hi
    have hat := congrArg (fun text => text[i]?) heq
    simp only [List.getElem?_map] at hat
    rw [List.getElem?_eq_getElem (by omega), List.getElem?_eq_getElem hi] at hat
    rw [at', at', List.getD_eq_getElem _ _ (by omega), List.getD_eq_getElem _ _ hi]
    exact Option.some.inj hat
  · intro hall
    apply List.ext_getElem
    · rw [List.length_map, List.length_map, h]
    · intro i hi hi'
      rw [List.length_map] at hi hi'
      have hat := hall i hi'
      rw [at', at', List.getD_eq_getElem _ _ hi, List.getD_eq_getElem _ _ hi'] at hat
      rw [List.getElem_map, List.getElem_map]
      exact hat

/-- **A name is compared** within both texts, up to the first difference. -/
theorem post_zipSameName {here : ℕ} (left i : ℕ) (hhere : here + (i + left) ≤ data.length) (hwanted : i + left ≤ wanted.length)
    {R : ZipStatus → σ → Prop} :
    Post (zipSameName data here wanted left i) s
      (fun same s' => s' = s ∧ (same = true ↔ ∀ k, i ≤ k → k < i + left →
        zipAsciiUpper (data.at' (here + k)) = zipAsciiUpper (wanted.at' k))) R := by
  induction left generalizing i with
  | zero =>
    rw [zipSameName, post_pure]
    exact ⟨rfl, iff_of_true rfl fun k hk hlt => by omega⟩
  | succ left ih =>
    rw [zipSameName, post_bind, post_zipRead8]
    refine ⟨by omega, ?_⟩
    rw [post_bind, post_check]
    refine ⟨by omega, ?_⟩
    rw [post_ite]
    refine ⟨fun hdiffer => post_pure.2 ⟨rfl, ?_⟩, fun hequal => ?_⟩
    · exact iff_of_false (by decide) fun hall => hdiffer (hall i le_rfl (by omega))
    · refine (ih (i + 1) (by omega) (by omega)).imp ?_ fun _ _ h => h
      rintro same s' ⟨rfl, hsame⟩
      refine ⟨rfl, hsame.trans ⟨fun hall k hk hlt => ?_, fun hall k hk hlt => hall k (by omega) (by omega)⟩⟩
      rcases Nat.eq_or_lt_of_le hk with rfl | hk
      · exact not_not.1 hequal
      · exact hall k hk (by omega)

/-! ## The lookup -/

/-- The entries of that name among the first ones. -/
def ZipArchive.named (archive : ZipArchive) (wanted : Bytes) (count : ℕ) : List ℕ :=
  (List.range count).filter fun index => sameText (archive.name index) wanted

theorem named_succ (archive : ZipArchive) (wanted : Bytes) (count : ℕ) : archive.named wanted (count + 1) =
    archive.named wanted count ++ if sameText (archive.name count) wanted then [count] else [] := by
  rw [ZipArchive.named, List.range_succ, List.filter_append, List.filter_singleton]
  cases sameText (archive.name count) wanted <;> rfl

theorem named_prefix (archive : ZipArchive) (wanted : Bytes) {count total : ℕ} (h : count ≤ total) :
    archive.named wanted count <+: archive.named wanted total := by
  induction total with
  | zero =>
    obtain rfl : count = 0 := by omega
    exact List.prefix_refl _
  | succ total ih =>
    rcases Nat.lt_or_ge total count with hlt | hge
    · obtain rfl : count = total + 1 := by omega
      exact List.prefix_refl _
    · rw [named_succ]
      exact (ih hge).trans (List.prefix_append _ _)

/-- What the caller's entry holds: the first of that name. -/
def ZipArchive.firstNamed (archive : ZipArchive) (slot : Option ZipEntry) (indices : List ℕ) : Option ZipEntry :=
  match indices with
  | [] => slot
  | index :: _ => some (archive.entry index)

/-- What a lookup comes to, for the entries of its name. -/
structure ZipLookup (archive : ZipArchive) (slot : Option ZipEntry) (indices : List ℕ) (result : Except ZipStatus Unit)
    (slot' : Option ZipEntry) : Prop where
  slot : slot' = archive.firstNamed slot indices
  result : result = match indices with
    | [] => .error .notFound
    | [_] => .ok ()
    | _ :: _ :: _ => .error .duplicate

/-- **An entry of the directory** is walked to, wherever the lookup stands. -/
theorem post_zipWalk (hdata : data.length < 2 ^ 32) (hopened : archive.Opened data) {index : ℕ}
    (hindex : index < archive.entryCount) {R : ZipStatus → σ → Prop} :
    Post (zipWalk archive index) s (fun found s' => s' = s ∧ found = some (archive.entry index)) R := by
  have hentry := @post_zipEntryAt σ s data archive index hdata hopened
  rw [zipEntryAt, if_neg (by omega)] at hentry
  exact hentry.imp (fun found s' h => ⟨h.1, h.2.2⟩) fun e s' h => absurd h.2 (by omega)

theorem post_zipFindFrom (hdata : data.length < 2 ^ 32) (hopened : archive.Opened data) (slot : Option ZipEntry)
    (left index : ℕ) (hcount : index + left = archive.entryCount)
    (hfew : (archive.named wanted index).length ≤ 1) :
    Post (zipFindFrom archive wanted left index (archive.named wanted index).length)
      (archive.firstNamed slot (archive.named wanted index))
      (fun _ slot' => ZipLookup archive slot (archive.named wanted archive.entryCount) (.ok ()) slot')
      (fun e slot' => ZipLookup archive slot (archive.named wanted archive.entryCount) (.error e) slot') := by
  induction left generalizing index with
  | zero =>
    obtain rfl : index = archive.entryCount := by omega
    rw [zipFindFrom, post_ite]
    refine ⟨fun hnone => post_stop.2 ⟨rfl, ?_⟩, fun hsome => post_pure.2 ⟨rfl, ?_⟩⟩
    · rw [List.length_eq_zero_iff.1 hnone]
    · obtain ⟨only, honly⟩ := List.length_eq_one_iff.1 (by omega : (archive.named wanted archive.entryCount).length = 1)
      rw [honly]
  | succ left ih =>
    have hnext := ih (index + 1) (by omega)
    have hstep := named_succ archive wanted index
    have hname := hopened.entry_name (by omega : index < archive.entryCount)
    have hlength : (archive.name index).length = (archive.entry index).nameLength := bytesAt_length hname
    have hskip : sameText (archive.name index) wanted = false →
        Post (zipFindFrom archive wanted left (index + 1) (archive.named wanted index).length)
          (archive.firstNamed slot (archive.named wanted index))
          (fun _ slot' => ZipLookup archive slot (archive.named wanted archive.entryCount) (.ok ()) slot')
          (fun e slot' => ZipLookup archive slot (archive.named wanted archive.entryCount) (.error e) slot') := by
      intro hother
      rw [hother, if_neg (by decide), List.append_nil] at hstep
      rw [hstep] at hnext
      exact hnext hfew
    rw [zipFindFrom, post_bind]
    refine (post_zipWalk hdata hopened (by omega)).imp ?_ fun _ _ h => h
    rintro found s' ⟨rfl, rfl⟩
    dsimp only
    rw [post_ite]
    refine ⟨fun hdiffer => hskip ?_, fun hsame => ?_⟩
    · -- names of two lengths are not the same
      rw [sameText, beq_eq_false_iff_ne]
      intro heq
      have hlengths := congrArg List.length heq
      rw [List.length_map, List.length_map, hlength] at hlengths
      exact hdiffer hlengths
    · have hlen := not_not.1 hsame
      rw [post_bind]
      refine (post_zipSameName wanted.length 0 (by omega) (by omega)).imp ?_ fun _ _ h => h
      rintro same s' ⟨rfl, hiff⟩
      have htext : same = sameText (archive.name index) wanted := by
        rw [Bool.eq_iff_iff, hiff, sameText_iff (hlength.trans hlen)]
        have hat : ∀ k < wanted.length, (archive.name index).at' k = archive.data.at' ((archive.entry index).name + k) := by
          intro k hk
          have hget := bytesAt_get (i := k) (by omega : k < (archive.entry index).nameLength) hname
          rw [at', List.getD_eq_getElem?_getD, ZipArchive.name, hget, Option.getD_some]
        constructor
        · intro hall k hk
          rw [hat k hk]
          exact hall k (Nat.zero_le _) (by omega)
        · intro hall k _ hk
          rw [← hat k (by omega)]
          exact hall k (by omega)
      rw [post_ite]
      refine ⟨fun hnot => hskip ?_, fun hyes => ?_⟩
      · rw [← htext]
        simpa using hnot
      · have hfound : sameText (archive.name index) wanted = true := by
          rw [← htext]
          simpa using hyes
        rw [hfound, if_pos rfl] at hstep
        rw [post_ite]
        refine ⟨fun hmany => post_stop.2 ?_, fun hone => ?_⟩
        · -- the second of that name
          obtain ⟨first, hfirst⟩ := List.length_eq_one_iff.1 (by omega : (archive.named wanted index).length = 1)
          obtain ⟨rest, hrest⟩ := named_prefix archive wanted (show index + 1 ≤ archive.entryCount by omega)
          rw [hstep, hfirst] at hrest
          rw [hfirst, ← hrest]
          exact ⟨rfl, rfl⟩
        · have hzero : archive.named wanted index = [] := List.length_eq_zero_iff.1 (by omega)
          rw [hzero, List.nil_append] at hstep
          rw [hstep] at hnext
          rw [post_bind, post_modify, hzero]
          exact hnext (le_refl 1)

/-- **A lookup** by a safe name. -/
theorem zipFind_lookup (hdata : data.length < 2 ^ 32) (hopened : archive.Opened data) {name : Bytes}
    (hsafe : zipNameIsSafe name zipNameMax83 = true) (slot : Option ZipEntry) :
    ∃ result slot', zipFind archive name slot = some (result, slot') ∧
      ZipLookup archive slot (archive.named name archive.entryCount) result slot' := by
  have hparts := hsafe
  simp only [zipNameIsSafe, Bool.and_eq_true, decide_eq_true_eq] at hparts
  obtain ⟨⟨⟨⟨⟨-, hshort⟩, hplain⟩, -⟩, -⟩, -⟩ := hparts
  have hwanted : name.cstr.take (zipNameMax83 + 1) = name := by
    have hcstr : name.cstr = name := by
      apply List.takeWhile_eq_self_iff.2
      intro c hc
      rw [Bool.not_eq_true', List.any_eq_false] at hplain
      have hgood := hplain c hc
      simp only [decide_eq_true_eq]
      rintro rfl
      exact hgood (by decide)
    rw [hcstr, List.take_of_length_le (by omega)]
  have hrun : zipFind archive name = zipFindFrom archive name archive.entryCount 0 0 := by
    unfold zipFind
    dsimp only
    rw [hwanted, hsafe]
    rfl
  have hpost := @post_zipFindFrom data archive name hdata hopened slot archive.entryCount 0 (Nat.zero_add _) (Nat.zero_le _)
  obtain ⟨result, slot', hresult, hends⟩ := hpost.run
  refine ⟨result, slot', ?_, ?_⟩
  · rw [hrun]
    exact hresult
  · cases result with
    | ok value => exact hends
    | error e => exact hends

/-! ## The directory -/

/-- What holds of an archive that opened. -/
structure ZipDirectory (archive : ZipArchive) (data : Bytes) : Prop where
  inside : archive.directoryOffset + archive.directorySize ≤ data.length
  /-- every index has its entry -/
  entries : ∀ index < archive.entryCount, zipEntryAt archive index () = some (.ok (some (archive.entry index)), ())
  /-- the records are whole, and tile the directory -/
  records : ∀ index < archive.entryCount, CentralRecord data (centralOffset data archive.directoryOffset index)
    (archive.directoryOffset + archive.directorySize)
  starts : centralOffset data archive.directoryOffset 0 = archive.directoryOffset
  follows : ∀ index, centralOffset data archive.directoryOffset (index + 1) =
    centralOffset data archive.directoryOffset index + centralLength data (centralOffset data archive.directoryOffset index)
  ends : centralOffset data archive.directoryOffset archive.entryCount = archive.directoryOffset + archive.directorySize
  /-- a name lies in its record -/
  names : ∀ index < archive.entryCount,
    (archive.entry index).name = centralOffset data archive.directoryOffset index + zipCentralFixed ∧
      (archive.entry index).name + (archive.entry index).nameLength ≤ centralOffset data archive.directoryOffset (index + 1) ∧
        (archive.entry index).name + (archive.entry index).nameLength ≤ data.length
  /-- a lookup, by the entries of that name -/
  found : ∀ name, zipNameIsSafe name zipNameMax83 = true → ∀ slot index,
    zipFind archive name slot = some (.ok (), some (archive.entry index)) ↔
      archive.named name archive.entryCount = [index]
  duplicate : ∀ name, zipNameIsSafe name zipNameMax83 = true → ∀ slot,
    (∃ slot', zipFind archive name slot = some (.error .duplicate, slot')) ↔
      2 ≤ (archive.named name archive.entryCount).length
  notFound : ∀ name, zipNameIsSafe name zipNameMax83 = true → ∀ slot,
    zipFind archive name slot = some (.error .notFound, slot) ↔ archive.named name archive.entryCount = []

theorem zipOpen_opened (hdata : data.length < 2 ^ 32) (hopen : zipOpen data () = some (.ok archive, ())) :
    archive.Opened data := by
  obtain ⟨r, s', hrun, hends⟩ := (post_zipOpen (s := ()) hdata).run
  rw [hopen] at hrun
  obtain ⟨rfl, rfl⟩ := Prod.mk.inj (Option.some.inj hrun)
  exact hends.2

/-- What a lookup answers says which entries have the name. -/
theorem ZipLookup.iff {slot slot' : Option ZipEntry} {indices : List ℕ} {result : Except ZipStatus Unit}
    (h : ZipLookup archive slot indices result slot') :
    (∀ index, (result = .ok () ∧ slot' = some (archive.entry index)) ↔ indices = [index]) ∧
      (result = .error .duplicate ↔ 2 ≤ indices.length) ∧
        (result = .error .notFound ∧ slot' = slot ↔ indices = []) := by
  obtain ⟨hslot, hresult⟩ := h
  match indices with
  | [] =>
    refine ⟨fun index => ?_, ?_, ?_⟩
    · exact iff_of_false (fun hok => by rw [hresult] at hok; cases hok.1) fun heq => by cases heq
    · exact iff_of_false (fun hdup => by rw [hresult] at hdup; cases hdup) fun hle => by cases hle
    · exact iff_of_true ⟨hresult, hslot⟩ rfl
  | [only] =>
    refine ⟨fun index => ?_, ?_, ?_⟩
    · constructor
      · rintro ⟨-, hentry⟩
        rw [hslot] at hentry
        have hindex := congrArg ZipEntry.index (Option.some.inj hentry)
        exact congrArg (fun i => [i]) hindex
      · intro heq
        obtain rfl := List.singleton_injective heq
        exact ⟨hresult, hslot⟩
    · exact iff_of_false (fun hdup => by rw [hresult] at hdup; cases hdup) fun hle => by simp at hle
    · exact iff_of_false (fun hnone => by rw [hresult] at hnone; cases hnone.1) fun heq => by cases heq
  | first :: second :: rest =>
    refine ⟨fun index => ?_, ?_, ?_⟩
    · exact iff_of_false (fun hok => by rw [hresult] at hok; cases hok.1) fun heq => by cases heq
    · exact iff_of_true hresult (by simp)
    · exact iff_of_false (fun hnone => by rw [hresult] at hnone; cases hnone.1) fun heq => by cases heq

/-- **The directory is consistent.** Opening ends on every buffer, within it; and in an archive
that opened every index has an entry, the records tile the directory, and a lookup by a safe
name answers by how many entries have that name. -/
theorem zip_directory (data : Bytes) (hdata : data.length < 2 ^ 32) :
    (∃ result, zipOpen data () = some (result, ())) ∧
      ∀ archive, zipOpen data () = some (.ok archive, ()) → ZipDirectory archive data := by
  constructor
  · obtain ⟨result, s', hrun, -⟩ := (post_zipOpen (s := ()) hdata).run
    exact ⟨result, hrun⟩
  intro archive hopen
  have hopened := zipOpen_opened hdata hopen
  have hinside := hopened.inside
  have hlookup : ∀ name, zipNameIsSafe name zipNameMax83 = true → ∀ slot, ∃ result slot',
      zipFind archive name slot = some (result, slot') ∧
        (∀ index, (result = .ok () ∧ slot' = some (archive.entry index)) ↔
          archive.named name archive.entryCount = [index]) ∧
        (result = .error .duplicate ↔ 2 ≤ (archive.named name archive.entryCount).length) ∧
          (result = .error .notFound ∧ slot' = slot ↔ archive.named name archive.entryCount = []) := by
    intro name hsafe slot
    obtain ⟨result, slot', hrun, h⟩ := zipFind_lookup hdata hopened hsafe slot
    exact ⟨result, slot', hrun, h.iff⟩
  refine {
    inside := hinside
    entries := fun index hindex => ?_
    records := fun index hindex => hopened.records.1 index (Nat.zero_le _) (by omega)
    starts := rfl
    follows := fun index => rfl
    ends := ?_
    names := fun index hindex => ?_
    found := fun name hsafe slot index => ?_
    duplicate := fun name hsafe slot => ?_
    notFound := fun name hsafe slot => ?_ }
  · obtain ⟨r, s', hrun, hends⟩ := (@post_zipEntryAt Unit () data archive index hdata hopened).run
    rw [hrun]
    cases r with
    | ok found => rw [hends.2.2]
    | error e => exact absurd hends.2 (by omega)
  · have hend := hopened.records.2
    rwa [Nat.zero_add] at hend
  · have hrecord := hopened.records.1 index (Nat.zero_le _) (by omega)
    have hroom := hrecord.room
    have hlength : (archive.entry index).name + (archive.entry index).nameLength ≤
        centralOffset data archive.directoryOffset (index + 1) := by
      rw [ZipArchive.entry, hopened.same, centralOffset, centralLength]
      simp only [centralEntry]
      omega
    refine ⟨?_, hlength, hlength.trans (hroom.trans hinside)⟩
    rw [ZipArchive.entry, hopened.same]
    rfl
  · obtain ⟨result, slot', hrun, hfound, -, -⟩ := hlookup name hsafe slot
    rw [hrun, ← hfound index, Option.some_inj, Prod.mk.injEq]
  · obtain ⟨result, slot', hrun, -, hduplicate, -⟩ := hlookup name hsafe slot
    rw [hrun, ← hduplicate]
    constructor
    · rintro ⟨other, hother⟩
      exact (Prod.mk.inj (Option.some.inj hother)).1
    · rintro rfl
      exact ⟨slot', rfl⟩
  · obtain ⟨result, slot', hrun, -, -, hnone⟩ := hlookup name hsafe slot
    rw [hrun, ← hnone, Option.some_inj, Prod.mk.injEq]

theorem zip_directory_demo : (∃ result, zipOpen zipSample () = some (result, ())) ∧
    ∀ archive, zipOpen zipSample () = some (.ok archive, ()) → ZipDirectory archive zipSample :=
  zip_directory zipSample (by decide)

end V9xRemote
