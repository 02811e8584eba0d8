import V9xRemote.Proof.McpMdns
import V9xRemote.Proof.MdnsQuery

/-!
# The questions of an mDNS packet

A packet is a query by its header and its questions, one after the other. The parser takes
every query and no other packet; what it says is wanted is what the questions' names read as.
-/

namespace V9xRemote

open Bytes

variable {packet : Bytes} {service : MdnsService} {offset : ℕ}

/-- A big-endian half word of the packet. -/
def wordAt (packet : Bytes) (i : ℕ) : ℕ := (packet.at' i).toNat * 256 + (packet.at' (i + 1)).toNat

/-- **The questions** from an offset on: each has a name of at most 16 jumps and under 256 characters, a type and a
class. -/
inductive QuestionsAt (packet : Bytes) : ℕ → List MdnsQuestion → Prop
  | nil {offset : ℕ} : QuestionsAt packet offset []
  | cons {offset jumps last : ℕ} {labels : List Bytes} {qs : List MdnsQuestion}
    (hname : NameAt packet offset jumps labels last) (hjumps : jumps ≤ 16) (htext : (dotText labels).length < mdnsNameMax)
    (hinside : last + 4 ≤ packet.length) (hrest : QuestionsAt packet (last + 4) qs) :
    QuestionsAt packet offset (⟨labels, wordAt packet last, wordAt packet (last + 2)⟩ :: qs)

/-- **A query**, and its questions. -/
structure IsQuery (packet : Bytes) (qs : List MdnsQuestion) : Prop where
  header : 12 ≤ packet.length
  notResponse : (packet.at' 2).toNat &&& 0x80 = 0
  opcode : (packet.at' 2).toNat &&& 0x78 = 0
  count : qs.length = wordAt packet 4
  questions : QuestionsAt packet 12 qs

/-- The first of the questions, by the name that is there. -/
theorem QuestionsAt.first {qs : List MdnsQuestion} {count : ℕ} (h : QuestionsAt packet offset qs)
    (hlength : qs.length = count + 1) :
    ∃ jumps labels last rest, NameAt packet offset jumps labels last ∧ jumps ≤ 16 ∧
      (dotText labels).length < mdnsNameMax ∧ last + 4 ≤ packet.length ∧ rest.length = count ∧
        QuestionsAt packet (last + 4) rest := by
  cases h with
  | nil => cases hlength
  | cons hname hjumps htext hinside hrest =>
    exact ⟨_, _, _, _, hname, hjumps, htext, hinside, Nat.succ.inj hlength, hrest⟩

theorem QuestionsAt.unique {qs qs' : List MdnsQuestion} (h : QuestionsAt packet offset qs)
    (h' : QuestionsAt packet offset qs') (hlength : qs.length = qs'.length) : qs = qs' := by
  induction h generalizing qs' with
  | nil =>
    cases h' with
    | nil => rfl
    | cons => cases hlength
  | cons hname hjumps htext hinside hrest ih =>
    cases h' with
    | nil => cases hlength
    | cons hname' hjumps' htext' hinside' hrest' =>
      obtain ⟨-, rfl, rfl⟩ := hname.unique hname'
      rw [ih hrest' (Nat.succ.inj hlength)]

theorem IsQuery.unique {qs qs' : List MdnsQuestion} (h : IsQuery packet qs) (h' : IsQuery packet qs') : qs = qs' :=
  h.questions.unique h'.questions (h.count.trans h'.count.symm)

/-! ## Reading -/

theorem byteAt_eq {i : ℕ} (h : i < packet.length) : mdnsByte packet i = .ok (packet.at' i).toNat := by
  rw [byte_some (List.getElem?_eq_getElem h), Bytes.at', List.getD_eq_getElem?_getD, List.getElem?_eq_getElem h]
  rfl

theorem mdnsWord_eq {i : ℕ} (h : i + 1 < packet.length) : mdnsWord packet i = .ok (wordAt packet i) := by
  rw [mdnsWord, byteAt_eq (by omega), byteAt_eq h]
  have hlow := (packet.at' (i + 1)).toNat_lt
  have hword : ((packet.at' i).toNat <<< 8) ||| (packet.at' (i + 1)).toNat = wordAt packet i := by
    rw [← Nat.shiftLeft_add_eq_or_of_lt hlow, Nat.shiftLeft_eq, wordAt]
  simp only [bind, Except.bind, hword]
  rfl

/-- **Reading a name** ends, with the text of the name that is there or refused. -/
theorem readName_spec (packet : Bytes) (offset : ℕ) :
    (∃ jumps labels last, NameAt packet offset jumps labels last ∧ jumps ≤ 16 ∧
      (dotText labels).length < mdnsNameMax ∧ mdnsReadNameText packet offset = .ok (dotText labels, last)) ∨
    (mdnsReadNameText packet offset = .error .refused ∧ ∀ jumps labels last, NameAt packet offset jumps labels last →
      ¬(jumps ≤ 16 ∧ (dotText labels).length < mdnsNameMax)) := by
  rcases @readFrom_spec packet [] offset 0 none (by decide) (Nat.zero_le _) with
    ⟨jumps, labels, last, hat, ⟨hjumps, htext⟩, hread⟩ | ⟨hread, hnone⟩
  · rw [dotLabelsFrom_text labels hat.nonempty] at htext hread
    exact Or.inl ⟨jumps, labels, last, hat, by omega, htext, hread⟩
  · refine Or.inr ⟨hread, ?_⟩
    rintro jumps labels last hat ⟨hjumps, htext⟩
    rw [← dotLabelsFrom_text labels hat.nonempty] at htext
    exact hnone jumps labels last hat ⟨by omega, htext⟩

/-- What a question adds to the query. -/
def askedQuery (service : MdnsService) (query : MdnsQuery) (q : MdnsQuestion) : MdnsQuery :=
  if q.Answered then
    { query with
      wants := query.wants ||| mdnsQuestionWants service (dotText q.labels) q.type
      unicast := query.unicast || decide (q.klass &&& 0x8000 ≠ 0) }
  else query

theorem questions_cons {count last : ℕ} {labels : List Bytes} (query : MdnsQuery)
    (hread : mdnsReadNameText packet offset = .ok (dotText labels, last)) (hinside : last + 4 ≤ packet.length) :
    mdnsQuestions packet service (count + 1) offset query = mdnsQuestions packet service count (last + 4)
      (askedQuery service query ⟨labels, wordAt packet last, wordAt packet (last + 2)⟩) := by
  rw [mdnsQuestions, hread]
  simp only [bind, Except.bind]
  rw [if_neg (by omega), mdnsWord_eq (by omega), mdnsWord_eq (by omega), askedQuery]
  dsimp only
  by_cases hanswered : wordAt packet (last + 2) &&& 0x7fff = 1 ∨ wordAt packet (last + 2) &&& 0x7fff = 255
  · rw [if_neg (fun hother => hanswered.elim hother.1 hother.2)]
    exact congrArg _ (if_pos hanswered).symm
  · rw [if_pos (not_or.1 hanswered)]
    exact congrArg _ (if_neg hanswered).symm

/-- **The loop over the questions** ends, with what they want or refused. -/
theorem questions_spec (service : MdnsService) (count offset : ℕ) (query : MdnsQuery) :
    (∃ qs, qs.length = count ∧ QuestionsAt packet offset qs ∧
      mdnsQuestions packet service count offset query = .ok (qs.foldl (askedQuery service) query)) ∨
    (mdnsQuestions packet service count offset query = .error .refused ∧
      ∀ qs, qs.length = count → ¬QuestionsAt packet offset qs) := by
  induction count generalizing offset query with
  | zero => exact Or.inl ⟨[], rfl, .nil, rfl⟩
  | succ count ih =>
    rcases readName_spec packet offset with ⟨jumps, labels, last, hat, hjumps, htext, hread⟩ | ⟨hread, hnone⟩
    · by_cases hinside : last + 4 ≤ packet.length
      · rw [questions_cons query hread hinside]
        rcases ih (last + 4) (askedQuery service query ⟨labels, wordAt packet last, wordAt packet (last + 2)⟩) with
          ⟨qs, hlength, hqs, hrun⟩ | ⟨hrun, hnone⟩
        · exact Or.inl ⟨_ :: qs, congrArg (· + 1) hlength, .cons hat hjumps htext hinside hqs, hrun⟩
        · refine Or.inr ⟨hrun, ?_⟩
          intro qs hlength hqs
          obtain ⟨_, _, _, rest, hname, -, -, -, hcount, hrest⟩ := hqs.first hlength
          obtain ⟨-, -, rfl⟩ := hname.unique hat
          exact hnone rest hcount hrest
      · refine Or.inr ⟨?_, ?_⟩
        · rw [mdnsQuestions, hread]
          simp only [bind, Except.bind]
          rw [if_pos (by omega)]
          rfl
        · intro qs hlength hqs
          obtain ⟨_, _, _, _, hname, -, -, hinside', -, -⟩ := hqs.first hlength
          obtain ⟨-, -, rfl⟩ := hname.unique hat
          exact hinside hinside'
    · refine Or.inr ⟨?_, ?_⟩
      · rw [mdnsQuestions, hread]
        rfl
      · intro qs hlength hqs
        obtain ⟨_, _, _, _, hname, hjumps, htext, -⟩ := hqs.first hlength
        exact hnone _ _ _ hname ⟨hjumps, htext⟩

/-- **The parser takes every query** and no other packet, and never reads outside of it. -/
theorem parseQuery_spec (packet : Bytes) (service : MdnsService) :
    (∃ qs id, IsQuery packet qs ∧
      mdnsParseQuery packet service = .ok (qs.foldl (askedQuery service) ⟨id, 0, false⟩)) ∨
    (mdnsParseQuery packet service = .error .refused ∧ ∀ qs, ¬IsQuery packet qs) := by
  rw [mdnsParseQuery]
  by_cases hheader : packet.length < 12
  · rw [if_pos hheader]
    exact Or.inr ⟨rfl, fun qs hqs => absurd hqs.header (by omega)⟩
  rw [if_neg hheader, byteAt_eq (by omega)]
  simp only [bind, Except.bind]
  by_cases hresponse : (packet.at' 2).toNat &&& 0x80 = 0
  · rw [if_neg (not_not.2 hresponse)]
    by_cases hopcode : (packet.at' 2).toNat &&& 0x78 = 0
    · rw [if_neg (not_not.2 hopcode), mdnsWord_eq (by omega), mdnsWord_eq (by omega)]
      dsimp only
      rcases @questions_spec packet service (wordAt packet 4) 12 ⟨UInt16.ofNat (wordAt packet 0), 0, false⟩ with
        ⟨qs, hcount, hqs, hrun⟩ | ⟨hrun, hnone⟩
      · exact Or.inl ⟨qs, _, ⟨by omega, hresponse, hopcode, hcount, hqs⟩, hrun⟩
      · exact Or.inr ⟨hrun, fun qs hqs => hnone qs hqs.count hqs.questions⟩
    · rw [if_pos hopcode]
      exact Or.inr ⟨rfl, fun qs hqs => hopcode hqs.opcode⟩
  · rw [if_pos hresponse]
    exact Or.inr ⟨rfl, fun qs hqs => hresponse hqs.notResponse⟩

/-! ## What is wanted -/

/-- **A record is wanted** where a question asks for it by a name that reads as its own. -/
theorem asked_iff (h : service.Named) (which : MdnsWant) (qs : List MdnsQuestion) (query : MdnsQuery) :
    (qs.foldl (askedQuery service) query).wants &&& which.bit ≠ 0 ↔
      query.wants &&& which.bit ≠ 0 ∨ ∃ q ∈ qs, q.Asks which ∧ ReadsAs q.labels (which.owner service) := by
  induction qs generalizing query with
  | nil => simp
  | cons q qs ih =>
    rw [List.foldl_cons, ih, List.exists_mem_cons_iff]
    by_cases hanswered : q.Answered
    · rw [askedQuery, if_pos hanswered, or_and_ne_zero, questionWants_iff h, MdnsQuestion.Asks, and_iff_right hanswered,
        or_assoc]
    · have hno : ¬(q.Asks which ∧ ReadsAs q.labels (which.owner service)) := fun hasks => hanswered hasks.1.1
      rw [askedQuery, if_neg hanswered, or_iff_right hno]

/-- The name of the root reads as no record's. -/
theorem readsAs_ne_nil {labels : List Bytes} {which : MdnsWant} (h : ReadsAs labels (which.owner service)) :
    labels ≠ [] := by
  rintro rfl
  have hempty : dotText (which.owner service) = [] := List.map_eq_nil_iff.1 h.symm
  have hlong : ∀ (first second : Bytes) (rest : List Bytes), dotText (first :: second :: rest) ≠ [] := by
    intro first second rest htext
    rw [dotText, List.intercalate_cons_cons] at htext
    simp at htext
  cases which <;> exact hlong _ _ _ hempty

/-- **The law of queries.** The parser ends inside the packet, takes the well-formed queries, and marks a record
exactly where a question asks for it by the labels of its name. -/
def QueryLaw (packet : Bytes) (service : MdnsService) : Prop :=
  mdnsParseQuery packet service ≠ .error .fault ∧
    ((∃ query, mdnsParseQuery packet service = .ok query) ↔ ∃ qs, IsQuery packet qs) ∧
    ∀ which, (∃ query, mdnsParseQuery packet service = .ok query ∧ query.wants &&& which.bit ≠ 0) ↔
      ∃ qs, IsQuery packet qs ∧ ∃ q ∈ qs, q.Asks which ∧ SameLabels q.labels (which.owner service)

/-- A question whose labels only read as a name, by a dot or a NUL in one, asks for nothing that no other question
asks for by the name's labels. -/
def NamesPlain (packet : Bytes) (service : MdnsService) : Prop :=
  ∀ qs, IsQuery packet qs → ∀ q ∈ qs, ∀ which, q.Asks which → HasMark q.labels →
    ReadsAs q.labels (which.owner service) →
    ∃ other ∈ qs, other.Asks which ∧ SameLabels other.labels (which.owner service)

/-- A plain byte is no dot and no NUL. -/
theorem mdnsPlain_mark {text : Bytes} (h : ∀ c ∈ text, mdnsPlain c = true) : ¬HasMark [text] := by
  rintro ⟨label, hlabel, hmark⟩
  rw [List.mem_singleton.1 hlabel] at hmark
  rcases hmark with hdot | hnul
  · exact absurd (h _ hdot) (by decide)
  · exact absurd (h _ hnul) (by decide)

/-- **The agent's names** are labels without a dot or a NUL. -/
theorem mdnsDescribe_named (agent : MdnsAgent) (address : UInt32) : (mdnsDescribe agent address).Named := by
  obtain ⟨hgood, -, -⟩ := mdnsDescribe_good agent address
  refine ⟨⟨hgood.instanceName, mdnsPlain_mark (mdnsInstance_plain (id8_plain agent))⟩, hgood.host, mdnsPlain_mark ?_⟩
  have hkey : ∀ c ∈ mdnsAppend [] 16 (ascii "v9x-"), mdnsPlain c = true := by decide +kernel
  intro c hc
  rcases mdnsAppend_mem hc with hc | hc
  · exact hkey c hc
  · exact id8_plain agent c hc

/-- **The law holds exactly of the packets** in which no question reads as a name by a dot or a NUL in a label, but
for records that are asked for anyway. -/
theorem mdns_query_law (packet : Bytes) {service : MdnsService} (h : service.Named) :
    QueryLaw packet service ↔ NamesPlain packet service := by
  rcases parseQuery_spec packet service with ⟨qs, id, hqs, hparse⟩ | ⟨hparse, hnone⟩
  · have hbits : ∀ which, (∃ query, mdnsParseQuery packet service = .ok query ∧ query.wants &&& which.bit ≠ 0) ↔
        ∃ q ∈ qs, q.Asks which ∧ ReadsAs q.labels (which.owner service) := by
      intro which
      have hasked := asked_iff h which qs ⟨id, 0, false⟩
      have hzero : ¬((0 : UInt32) &&& which.bit ≠ 0) := by simp
      rw [or_iff_right hzero] at hasked
      rw [hparse, ← hasked]
      simp
    have hsame : ∀ which, (∃ qs', IsQuery packet qs' ∧ ∃ q ∈ qs', q.Asks which ∧ SameLabels q.labels (which.owner service)) ↔
        ∃ q ∈ qs, q.Asks which ∧ SameLabels q.labels (which.owner service) := by
      intro which
      constructor
      · rintro ⟨qs', hqs', hasks⟩
        obtain rfl := hqs'.unique hqs
        exact hasks
      · exact fun hasks => ⟨qs, hqs, hasks⟩
    constructor
    · rintro ⟨-, -, hlaw⟩ qs' hqs' q hq which hasks - hreads
      obtain rfl := hqs'.unique hqs
      exact (hsame which).1 ((hlaw which).1 ((hbits which).2 ⟨q, hq, hasks, hreads⟩))
    · intro hplain
      refine ⟨by rw [hparse]; nofun, iff_of_true ⟨_, hparse⟩ ⟨qs, hqs⟩, ?_⟩
      intro which
      rw [hbits, hsame]
      constructor
      · rintro ⟨q, hq, hasks, hreads⟩
        by_cases hmark : HasMark q.labels
        · exact hplain qs hqs q hq which hasks hmark hreads
        · exact ⟨q, hq, hasks,
            hreads.same hmark (owner_plain h which) (readsAs_ne_nil hreads) (owner_ne_nil service which)⟩
      · rintro ⟨q, hq, hasks, hlabels⟩
        exact ⟨q, hq, hasks, hlabels.readsAs (owner_plain h which)⟩
  · -- not a query: nothing is asked and nothing marked
    have hno : ∀ query, mdnsParseQuery packet service ≠ .ok query := by
      rw [hparse]
      nofun
    refine iff_of_true ⟨by rw [hparse]; nofun, ?_, ?_⟩ fun qs hqs => absurd hqs (hnone qs)
    · exact iff_of_false (fun hok => hno _ hok.choose_spec) fun hqs => hnone _ hqs.choose_spec
    · intro which
      apply iff_of_false
      · rintro ⟨query, hok, -⟩
        exact hno query hok
      · rintro ⟨qs, hqs, -⟩
        exact hnone qs hqs

theorem mdns_query_law_demo :
    QueryLaw (headerBytes 7 1 0) (mdnsDescribe announcingAgent 0) ↔
      NamesPlain (headerBytes 7 1 0) (mdnsDescribe announcingAgent 0) :=
  mdns_query_law (headerBytes 7 1 0) (mdnsDescribe_named announcingAgent 0)

/-- A query of one question, whose name is one label: the service's name with its dots. -/
def dottedQuery : Bytes :=
  [0, 0, 0, 0, 0, 1, 0, 0, 0, 0, 0, 0] ++ nameBytes [mdnsServiceName] ++ [0, 12, 0, 1]

theorem dottedQuery_query : IsQuery dottedQuery [⟨[mdnsServiceName], 12, 1⟩] := by
  refine ⟨by decide, by decide, by decide, by decide, ?_⟩
  have hsize : dottedQuery[12]? = some 21 := by decide
  have hname : NameAt dottedQuery 12 0 [mdnsServiceName] 35 :=
    .label hsize (by decide) (by decide) (by decide) (.root (by decide))
  exact .cons hname (by decide) (by decide) (by decide) .nil

/-- **One label is taken for three.** -/
theorem dotted_label_taken : ¬QueryLaw dottedQuery (mdnsDescribe announcingAgent 0) := by
  rintro ⟨-, -, hlaw⟩
  have hnamed := mdnsDescribe_named announcingAgent 0
  have hmarked : ∃ query, mdnsParseQuery dottedQuery (mdnsDescribe announcingAgent 0) = .ok query ∧
      query.wants &&& MdnsWant.service.bit ≠ 0 := by
    rcases parseQuery_spec dottedQuery (mdnsDescribe announcingAgent 0) with ⟨qs, id, hqs, hparse⟩ | ⟨-, hnone⟩
    · obtain rfl := hqs.unique dottedQuery_query
      refine ⟨_, hparse, (asked_iff hnamed .service _ _).2 (Or.inr ?_)⟩
      refine ⟨_, List.mem_singleton_self _, by decide, ?_⟩
      change ReadsAs [mdnsServiceName] serviceLabels
      decide
    · exact absurd dottedQuery_query (hnone _)
  obtain ⟨qs, hqs, q, hq, -, hsame⟩ := (hlaw .service).1 hmarked
  obtain rfl := hqs.unique dottedQuery_query
  rw [List.mem_singleton.1 hq] at hsame
  change SameLabels [mdnsServiceName] serviceLabels at hsame
  exact absurd hsame (by decide)

end V9xRemote
