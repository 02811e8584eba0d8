import Mathlib.Data.List.TakeWhile
import V9xRemote.Proof.Mdns
import V9xRemote.Proof.MdnsNames

/-!
# What an mDNS query asks for

A query is its questions, each a name, a type and a class. The names are compared as dotted
text, which is the comparison of their labels where no label has a dot or a NUL.
-/

namespace V9xRemote

open Bytes

variable {packet name : Bytes} {service : MdnsService} {labels target : List Bytes}

/-! ## Text and labels -/

/-- Labels as dotted text. -/
def dotText (labels : List Bytes) : Bytes := [46].intercalate labels

def lowerLabel (text : Bytes) : Bytes := text.map mdnsLower

/-- The same labels, without ASCII case. -/
def SameLabels (labels target : List Bytes) : Prop := labels.map lowerLabel = target.map lowerLabel

/-- The labels, as a C string of dotted text, read as the others. -/
def ReadsAs (labels target : List Bytes) : Prop := lowerLabel (cstr (dotText labels)) = lowerLabel (dotText target)

/-- A label has a dot or a NUL. -/
def HasMark (labels : List Bytes) : Prop := ∃ label ∈ labels, 46 ∈ label ∨ 0 ∈ label

instance (labels target : List Bytes) : Decidable (SameLabels labels target) := inferInstanceAs (Decidable (_ = _))

instance (labels target : List Bytes) : Decidable (ReadsAs labels target) := inferInstanceAs (Decidable (_ = _))

theorem dotLabelsFrom_text (labels : List Bytes) (h : ∀ label ∈ labels, label ≠ []) :
    dotLabelsFrom [] labels = dotText labels := by
  have hbehind : ∀ (labels : List Bytes) (text : Bytes), text ≠ [] →
      dotLabelsFrom text labels = dotText (text :: labels) := by
    intro labels
    induction labels with
    | nil =>
      intro text _
      rw [dotText, List.intercalate_singleton]
      rfl
    | cons label labels ih =>
      intro text htext
      have hlength : text.length ≠ 0 := fun hzero => htext (List.eq_nil_of_length_eq_zero hzero)
      have hadd : dotAdd text label = text ++ [46] ++ label := by rw [dotAdd, if_pos hlength]
      rw [dotLabelsFrom, List.foldl_cons, ← dotLabelsFrom, hadd, ih _ (by simp), dotText, dotText,
        List.intercalate_cons_cons]
      cases labels with
      | nil => rw [List.intercalate_singleton, List.intercalate_singleton, List.append_assoc]
      | cons next labels => rw [List.intercalate_cons_cons, List.intercalate_cons_cons]; simp
  cases labels with
  | nil => rfl
  | cons label labels => exact hbehind labels label (h label List.mem_cons_self)

/-- Lower case neither makes nor takes away a dot or a NUL. -/
theorem lower_marks : (List.range 256).all fun n =>
    (mdnsLower (UInt8.ofNat n) == 46) == (UInt8.ofNat n == 46) && (mdnsLower (UInt8.ofNat n) == 0) == (UInt8.ofNat n == 0) := by
  decide +kernel

theorem lower_dot (ch : UInt8) : mdnsLower ch = 46 ↔ ch = 46 := by
  have hall := List.all_eq_true.1 lower_marks ch.toNat (List.mem_range.2 ch.toNat_lt)
  simp only [UInt8.ofNat_toNat, Bool.and_eq_true, beq_iff_eq] at hall
  rw [← beq_iff_eq, hall.1, beq_iff_eq]

theorem lower_nul (ch : UInt8) : mdnsLower ch = 0 ↔ ch = 0 := by
  have hall := List.all_eq_true.1 lower_marks ch.toNat (List.mem_range.2 ch.toNat_lt)
  simp only [UInt8.ofNat_toNat, Bool.and_eq_true, beq_iff_eq] at hall
  rw [← beq_iff_eq, hall.2, beq_iff_eq]

theorem lowerLabel_dot (text : Bytes) : 46 ∈ lowerLabel text ↔ 46 ∈ text := by
  simp only [lowerLabel, List.mem_map, lower_dot, exists_eq_right]

theorem lowerLabel_nul (text : Bytes) : 0 ∈ lowerLabel text ↔ 0 ∈ text := by
  simp only [lowerLabel, List.mem_map, lower_nul, exists_eq_right]

theorem lowerLabel_dotText (labels : List Bytes) : lowerLabel (dotText labels) = dotText (labels.map lowerLabel) := by
  induction labels with
  | nil => rfl
  | cons label labels ih =>
    cases labels with
    | nil => rw [dotText, dotText, List.map_singleton, List.intercalate_singleton, List.intercalate_singleton]
    | cons next labels =>
      have hdot : lowerLabel [46] = [46] := by decide
      rw [List.map_cons, List.map_cons, dotText, dotText, List.intercalate_cons_cons, List.intercalate_cons_cons,
        ← dotText, ← dotText, ← List.map_cons, ← ih, lowerLabel, List.map_append, List.map_append]
      exact congrArg₂ (· ++ ·) (congrArg₂ (· ++ ·) rfl hdot) rfl

/-- The bytes of dotted text. -/
theorem mem_dotText {ch : UInt8} (h : ch ∈ dotText labels) : ch = 46 ∨ ∃ label ∈ labels, ch ∈ label := by
  induction labels with
  | nil => exact absurd h List.not_mem_nil
  | cons label labels ih =>
    cases labels with
    | nil =>
      rw [dotText, List.intercalate_singleton] at h
      exact Or.inr ⟨label, List.mem_cons_self, h⟩
    | cons next labels =>
      rw [dotText, List.intercalate_cons_cons, ← dotText, List.mem_append, List.mem_append, List.mem_singleton] at h
      rcases h with (h | h) | h
      · exact Or.inr ⟨label, List.mem_cons_self, h⟩
      · exact Or.inl h
      · rcases ih h with hdot | ⟨l, hl, hmem⟩
        · exact Or.inl hdot
        · exact Or.inr ⟨l, List.mem_cons_of_mem _ hl, hmem⟩

/-- Labels without a dot are read back from their text. -/
theorem dotText_injective (hlabels : ∀ label ∈ labels, 46 ∉ label) (htarget : ∀ label ∈ target, 46 ∉ label)
    (hne : labels ≠ []) (hne' : target ≠ []) (h : dotText labels = dotText target) : labels = target := by
  rw [← List.splitOn_intercalate 46 hlabels hne, ← List.splitOn_intercalate 46 htarget hne']
  exact congrArg (List.splitOn 46) h

theorem hasMark_lower (labels : List Bytes) : HasMark (labels.map lowerLabel) ↔ HasMark labels := by
  simp only [HasMark, List.mem_map, exists_exists_and_eq_and, lowerLabel_dot, lowerLabel_nul]

theorem SameLabels.hasMark (h : SameLabels labels target) : HasMark labels ↔ HasMark target := by
  rw [← hasMark_lower labels, ← hasMark_lower target, h]

/-- Text of labels without a NUL has none. -/
theorem dotText_plain (h : ¬HasMark labels) : 0 ∉ dotText labels := by
  intro hmem
  rcases mem_dotText hmem with hdot | ⟨label, hlabel, hzero⟩
  · exact absurd hdot (by decide)
  · exact h ⟨label, hlabel, Or.inr hzero⟩

/-- The same labels read as each other. -/
theorem SameLabels.readsAs (h : SameLabels labels target) (htarget : ¬HasMark target) : ReadsAs labels target := by
  rw [ReadsAs, cstr_plain (dotText_plain (mt h.hasMark.1 htarget)), lowerLabel_dotText, lowerLabel_dotText, h]

/-- **Text compares labels** where none has a dot or a NUL. -/
theorem ReadsAs.same (h : ReadsAs labels target) (hlabels : ¬HasMark labels) (htarget : ¬HasMark target)
    (hne : labels ≠ []) (hne' : target ≠ []) : SameLabels labels target := by
  rw [ReadsAs, cstr_plain (dotText_plain hlabels), lowerLabel_dotText, lowerLabel_dotText] at h
  have hdots : ∀ {ls : List Bytes}, ¬HasMark ls → ∀ label ∈ ls.map lowerLabel, 46 ∉ label := by
    intro ls hls label hlabel hdot
    exact mt (hasMark_lower ls).1 hls ⟨label, hlabel, Or.inl hdot⟩
  exact dotText_injective (hdots hlabels) (hdots htarget) (by simpa using hne) (by simpa using hne') h

/-- `v9x_mdns_same` on C strings. -/
theorem mdnsSame_iff (left : Bytes) {right : Bytes} (hright : 0 ∉ right) :
    mdnsSame left right = true ↔ lowerLabel (cstr left) = lowerLabel right := by
  induction left generalizing right with
  | nil =>
    cases right with
    | nil => exact iff_of_true rfl rfl
    | cons ch right =>
      have hch : ch ≠ 0 := fun hzero => hright (hzero ▸ List.mem_cons_self)
      exact iff_of_false (by simpa [mdnsSame, Bytes.at'] using hch) (by simp [lowerLabel, cstr])
  | cons ch left ih =>
    rw [mdnsSame]
    by_cases hch : ch = 0
    · subst hch
      rw [if_neg (by simp)]
      cases right with
      | nil => exact iff_of_true rfl rfl
      | cons c right =>
        have hc : c ≠ 0 := fun hzero => hright (hzero ▸ List.mem_cons_self)
        exact iff_of_false (by simpa [Bytes.at'] using hc) (by simp [lowerLabel, cstr])
    · have hcstr : cstr (ch :: left) = ch :: cstr left := List.takeWhile_cons_of_pos (by simpa using hch)
      rw [hcstr]
      cases right with
      | nil =>
        have hend : mdnsLower (Bytes.at' [] 0) = 0 := by decide
        have hstop : ¬(ch ≠ 0 ∧ mdnsLower ch = mdnsLower (Bytes.at' [] 0)) := by
          rw [hend, lower_nul]
          exact fun hboth => hboth.1 hboth.2
        rw [if_neg hstop]
        exact iff_of_false (by simpa using fun hzero => absurd hzero hch) (by simp [lowerLabel])
      | cons c right =>
        have hat : Bytes.at' (c :: right) 0 = c := rfl
        rw [hat]
        by_cases hsame : mdnsLower ch = mdnsLower c
        · rw [if_pos ⟨hch, hsame⟩, List.tail_cons, ih fun hmem => hright (List.mem_cons_of_mem _ hmem)]
          simp only [lowerLabel, List.map_cons, hsame, List.cons.injEq, true_and]
        · rw [if_neg (fun hboth => hsame hboth.2)]
          refine iff_of_false (by simpa using fun hzero => absurd hzero hch) ?_
          intro htext
          exact hsame (List.cons.inj htext).1

/-! ## The names of the records -/

/-- A service whose instance and host are labels without a dot or a NUL. -/
structure MdnsService.Named (service : MdnsService) : Prop where
  instanceName : LabelOk service.instanceName ∧ ¬HasMark [service.instanceName]
  host : LabelOk service.host ∧ ¬HasMark [service.host]

theorem not_hasMark_cons {label : Bytes} : ¬HasMark (label :: labels) ↔ ¬HasMark [label] ∧ ¬HasMark labels := by
  simp only [HasMark, List.mem_cons, exists_eq_or_imp, List.not_mem_nil, or_false, exists_eq_left, not_or]

theorem serviceLabels_plain : ¬HasMark serviceLabels := by
  unfold HasMark
  decide

theorem enumLabels_plain : ¬HasMark enumLabels := by
  unfold HasMark
  decide

theorem localLabels_plain : ¬HasMark [ascii "local"] := by
  unfold HasMark
  decide

theorem owner_plain (h : service.Named) (which : MdnsWant) : ¬HasMark (which.owner service) := by
  cases which with
  | service => exact serviceLabels_plain
  | enum => exact enumLabels_plain
  | srv | txt => exact not_hasMark_cons.2 ⟨h.instanceName.2, serviceLabels_plain⟩
  | a => exact not_hasMark_cons.2 ⟨h.host.2, localLabels_plain⟩

theorem owner_ne_nil (service : MdnsService) (which : MdnsWant) : which.owner service ≠ [] := by
  cases which <;> exact List.cons_ne_nil _ _

/-- The text a record's name is compared with. -/
def ownerText (service : MdnsService) : MdnsWant → Bytes
  | .service => mdnsServiceName
  | .enum => mdnsEnumName
  | .srv | .txt => mdnsJoin service.instanceName mdnsServiceName
  | .a => mdnsJoin service.host (ascii "local")

theorem mdnsJoin_label {label rest : Bytes} (hlabel : label.length ≤ 63) (hplain : ¬HasMark [label])
    (hrest : rest.length ≤ 190) : mdnsJoin label rest = label ++ [46] ++ rest := by
  have hmax : mdnsNameMax = 256 := rfl
  have hnul : 0 ∉ label := fun hzero => hplain ⟨label, List.mem_cons_self, Or.inr hzero⟩
  rw [mdnsJoin, cstr_plain hnul, List.take_of_length_le (by omega), List.take_of_length_le (by
    rw [List.length_append, List.length_singleton]
    omega)]

theorem ownerText_eq (h : service.Named) (which : MdnsWant) : ownerText service which = dotText (which.owner service) := by
  have hservice : mdnsServiceName = dotText serviceLabels := by decide
  have henum : mdnsEnumName = dotText enumLabels := by decide
  have hlocal : ascii "local" = dotText [ascii "local"] := by decide
  have hlong : mdnsServiceName.length ≤ 190 := by decide
  have hshort : (ascii "local").length ≤ 190 := by decide
  cases which with
  | service => exact hservice
  | enum => exact henum
  | srv | txt =>
    rw [ownerText, mdnsJoin_label h.instanceName.1.2 h.instanceName.2 hlong, hservice]
    exact (List.intercalate_cons_of_ne_nil (List.cons_ne_nil _ _)).symm
  | a =>
    rw [ownerText, mdnsJoin_label h.host.1.2 h.host.2 hshort, hlocal]
    exact (List.intercalate_cons_of_ne_nil (List.cons_ne_nil _ _)).symm

/-- A name is compared with a record's. -/
theorem same_owner (h : service.Named) (which : MdnsWant) (labels : List Bytes) :
    mdnsSame (dotText labels) (ownerText service which) = true ↔ ReadsAs labels (which.owner service) := by
  rw [ownerText_eq h, mdnsSame_iff _ (dotText_plain (owner_plain h which))]
  rfl

/-- Records are about different names, but for the two about the instance. -/
theorem owner_apart (h : service.Named) {which other : MdnsWant} (hread : ReadsAs labels (which.owner service))
    (hother : ReadsAs labels (other.owner service)) :
    which = other ∨ (which = .srv ∨ which = .txt) ∧ (other = .srv ∨ other = .txt) := by
  have hsame : SameLabels (which.owner service) (other.owner service) := by
    apply ReadsAs.same ?_ (owner_plain h which) (owner_plain h other) (owner_ne_nil _ _) (owner_ne_nil _ _)
    rw [ReadsAs, cstr_plain (dotText_plain (owner_plain h which))]
    exact hread.symm.trans hother
  have hlength := congrArg List.length hsame
  simp only [List.length_map] at hlength
  -- of the names of four labels one ends in the service's labels, and the other does not
  have hsecond : ∀ label : Bytes, ¬SameLabels enumLabels (label :: serviceLabels) := by
    intro label hsame'
    have htail := (List.cons.inj hsame').2
    exact absurd htail (by decide)
  cases which <;> cases other <;> first
    | exact Or.inl rfl
    | (right; decide)
    | exact absurd hsame (hsecond _)
    | exact absurd hsame.symm (hsecond _)
    | exact absurd hlength (by simp [MdnsWant.owner, serviceLabels, enumLabels])

/-! ## Questions -/

structure MdnsQuestion where
  labels : List Bytes
  type : ℕ
  klass : ℕ
deriving DecidableEq, Repr

/-- The question is in a class that is answered. -/
def MdnsQuestion.Answered (q : MdnsQuestion) : Prop := q.klass &&& 0x7fff = 1 ∨ q.klass &&& 0x7fff = 255

/-- The question is of a type that a record answers, in a class that is answered. -/
def MdnsQuestion.Asks (q : MdnsQuestion) (which : MdnsWant) : Prop :=
  q.Answered ∧ (q.type = which.type ∨ q.type = 255)

instance (q : MdnsQuestion) : Decidable q.Answered := inferInstanceAs (Decidable (_ ∨ _))

instance (q : MdnsQuestion) (which : MdnsWant) : Decidable (q.Asks which) := inferInstanceAs (Decidable (_ ∧ _))

theorem or_and_ne_zero (a b c : UInt32) : (a ||| b) &&& c ≠ 0 ↔ a &&& c ≠ 0 ∨ b &&& c ≠ 0 := by
  have hdistrib : (a ||| b) &&& c = (a &&& c) ||| (b &&& c) := by
    apply UInt32.toNat_inj.1
    rw [UInt32.toNat_and, UInt32.toNat_or, UInt32.toNat_or, UInt32.toNat_and, UInt32.toNat_and, Nat.and_or_distrib_right]
  rw [hdistrib, ne_eq, UInt32.or_eq_zero_iff]
  exact not_and_or

theorem typeBit_iff (c : Prop) [Decidable c] (other which : MdnsWant) :
    (if c then other.bit else 0) &&& which.bit ≠ 0 ↔ c ∧ which = other := by
  by_cases hc : c
  · rw [if_pos hc, and_iff_right hc]
    cases other <;> cases which <;> decide
  · rw [if_neg hc]
    exact iff_of_false (by simp) fun h => hc h.1

/-- **What a question wants**: the records its name reads as, of its type. -/
theorem questionWants_iff (h : service.Named) (labels : List Bytes) (type : ℕ) (which : MdnsWant) :
    mdnsQuestionWants service (dotText labels) type &&& which.bit ≠ 0 ↔
      (type = which.type ∨ type = 255) ∧ ReadsAs labels (which.owner service) := by
  have hservice : mdnsSame (dotText labels) mdnsServiceName = true ↔ ReadsAs labels (MdnsWant.service.owner service) :=
    same_owner h .service labels
  have henum : mdnsSame (dotText labels) mdnsEnumName = true ↔ ReadsAs labels (MdnsWant.enum.owner service) :=
    same_owner h .enum labels
  have hinstance : mdnsSame (dotText labels) (mdnsJoin service.instanceName mdnsServiceName) = true ↔
      ReadsAs labels (MdnsWant.srv.owner service) := same_owner h .srv labels
  have hhost : mdnsSame (dotText labels) (mdnsJoin service.host (ascii "local")) = true ↔
      ReadsAs labels (MdnsWant.a.owner service) := same_owner h .a labels
  -- a record of a name of its own
  have hone : ∀ {other : MdnsWant}, other ≠ .srv ∧ other ≠ .txt → ReadsAs labels (other.owner service) →
      ((if type = other.type ∨ type = 255 then other.bit else 0) &&& which.bit ≠ 0 ↔
        (type = which.type ∨ type = 255) ∧ ReadsAs labels (which.owner service)) := by
    intro other hown hread
    rw [typeBit_iff]
    constructor
    · rintro ⟨htype, rfl⟩
      exact ⟨htype, hread⟩
    · rintro ⟨htype, hwhich⟩
      rcases owner_apart h hwhich hread with rfl | ⟨-, hpair⟩
      · exact ⟨htype, rfl⟩
      · rcases hpair with rfl | rfl
        · exact absurd rfl hown.1
        · exact absurd rfl hown.2
  rw [mdnsQuestionWants]
  by_cases hs : ReadsAs labels (MdnsWant.service.owner service)
  · rw [if_pos (hservice.2 hs)]
    exact hone (by decide) hs
  rw [if_neg (mt hservice.1 hs)]
  by_cases he : ReadsAs labels (MdnsWant.enum.owner service)
  · rw [if_pos (henum.2 he)]
    exact hone (by decide) he
  rw [if_neg (mt henum.1 he)]
  by_cases hi : ReadsAs labels (MdnsWant.srv.owner service)
  · rw [if_pos (hinstance.2 hi), or_and_ne_zero, typeBit_iff, typeBit_iff]
    constructor
    · rintro (⟨htype, rfl⟩ | ⟨htype, rfl⟩)
      · exact ⟨htype, hi⟩
      · exact ⟨htype, hi⟩
    · rintro ⟨htype, hwhich⟩
      rcases owner_apart h hwhich hi with rfl | ⟨rfl | rfl, -⟩
      · exact Or.inl ⟨htype, rfl⟩
      · exact Or.inl ⟨htype, rfl⟩
      · exact Or.inr ⟨htype, rfl⟩
  rw [if_neg (mt hinstance.1 hi)]
  by_cases ha : ReadsAs labels (MdnsWant.a.owner service)
  · rw [if_pos (hhost.2 ha)]
    exact hone (by decide) ha
  · rw [if_neg (mt hhost.1 ha)]
    apply iff_of_false
    · simp
    · rintro ⟨-, hwhich⟩
      cases which with
      | service => exact hs hwhich
      | enum => exact he hwhich
      | srv | txt => exact hi hwhich
      | a => exact ha hwhich

end V9xRemote
