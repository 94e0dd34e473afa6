import ReorgSync.Proofs.Codec.Values
import ReorgSync.Proofs.Filter.Fingerprint
import ReorgSync.Rpc.Client

namespace ReorgSync

/-! A log query is answered by the node, from a filter object. What the node is asked for
is what the filter selects, as long as the filter's last topic position names values: a node
takes a position that admits any value to ask for a topic nevertheless. -/

/-! ## Filter objects as a node reads them -/

namespace Node

/-- Whether a node takes a value for a wanted one: any value if nothing is named, and
otherwise the text that is named, or one of them. The case of hexadecimal letters does not
count. -/
def admits (wanted : Json) (value : String) : Bool :=
  match wanted with
  | .null => true
  | .string text => Text.sameFolded text value
  | .array texts => texts.any fun
      | .string text => Text.sameFolded text value
      | _ => false
  | _ => false

/-- Compare topics position by position. Every position needs a topic of the log, also one
where nothing is named. -/
def admitsTopics : (wanted : List Json) → (topics : List String) → Bool
  | [], _ => true
  | _ :: _, [] => false
  | values :: rest, topic :: topics => admits values topic && admitsTopics rest topics

def height? : Json → Option Nat
  | .string text => (Quantity.parse text).toOption
  | _ => none

/-- Whether a log lies in the block that a filter object names, or between its heights. -/
def reaches (filter : Json) (log : Log) : Bool :=
  match filter.field "blockHash", height? (filter.field "fromBlock"),
    height? (filter.field "toBlock") with
  | .string hash, _, _ => hash == log.blockHash
  | _, some first, some last => decide (first ≤ log.blockNumber ∧ log.blockNumber ≤ last)
  | _, _, _ => false

/-- Whether a node answers a query for logs with this log among others. -/
def accepts (filter : Json) (log : Log) : Bool :=
  reaches filter log && admits (filter.field "address") log.address &&
    match filter.field "topics" with
    | .null => true
    | .array wanted => admitsTopics wanted log.topics
    | _ => false

end Node

namespace LogSelector

/-- Whether a log lies in the selected blocks. -/
def Covers (log : Log) : LogSelector → Prop
  | .range first last => first ≤ log.blockNumber ∧ log.blockNumber ≤ last
  | .blockHash hash => hash = log.blockHash

/-- The selected heights are quantities. -/
def InRange : LogSelector → Prop
  | .range first last => first < Quantity.limit ∧ last < Quantity.limit
  | .blockHash _ => True

end LogSelector

namespace Filter

/-! ## Positions at the end -/

/-- The filter ends in a topic position that admits any value. -/
def EndsOpen (filter : Filter) : Prop :=
  filter.topics.getLast? = some []

instance (filter : Filter) : Decidable filter.EndsOpen :=
  inferInstanceAs (Decidable (_ = _))

/-- Topics that match reach up to the last position that names values. -/
theorem length_le_of_topicsMatch {accepted : List (List String)} {topics : List String}
    (selected : topicsMatch accepted topics = true) (names : accepted.getLast? ≠ some []) :
    accepted.length ≤ topics.length := by
  induction accepted generalizing topics with
  | nil => exact Nat.zero_le _
  | cons values rest induction =>
      cases topics with
      | nil =>
          rw [topicsMatch_no_topics, List.all_eq_true] at selected
          have isLast := List.getLast?_eq_some_getLast (List.cons_ne_nil values rest)
          have isEmpty := selected _ (List.getLast_mem (List.cons_ne_nil values rest))
          rw [isLast, List.isEmpty_iff.mp isEmpty] at names
          exact absurd rfl names
      | cons topic topics =>
          rw [topicsMatch_cons, Bool.and_eq_true] at selected
          cases rest with
          | nil => simp
          | cons next others =>
              rw [List.getLast?_cons_cons] at names
              exact Nat.succ_le_succ (induction selected.2 names)

end Filter

namespace Rpc

/-! ## Encoding and reading -/

theorem admits_alternatives (values : List String) (value : String) :
    Node.admits (alternatives values) value = Filter.admits values value := by
  match values with
  | [] => rfl
  | [single] => simp [alternatives, Node.admits, Filter.admits, Filter.accepts]
  | first :: second :: rest =>
      simp [alternatives, Json.strings, Node.admits, Filter.admits, Filter.accepts, List.any_map,
        Function.comp_def]

/-- A node wants what is wanted of each topic, and a topic for each position. -/
theorem admitsTopics_alternatives (accepted : List (List String)) (topics : List String) :
    Node.admitsTopics (accepted.map alternatives) topics =
      (Filter.topicsMatch accepted topics && decide (accepted.length ≤ topics.length)) := by
  induction accepted generalizing topics with
  | nil => simp [Node.admitsTopics, Filter.topicsMatch_nil]
  | cons values rest induction =>
      cases topics with
      | nil => simp [Node.admitsTopics]
      | cons topic topics =>
          rw [List.map_cons, Node.admitsTopics, admits_alternatives, induction,
            Filter.topicsMatch_cons, Bool.and_assoc]
          simp

section Fields

variable (query : LogQuery)

theorem field_address :
    (logFilter query).field "address" = alternatives query.filter.addresses := by
  rcases query with ⟨⟨addresses, topics⟩, selector⟩
  cases addresses <;> cases topics <;> cases selector <;> rfl

theorem field_topics :
    (logFilter query).field "topics" =
      if query.filter.topics.isEmpty then .null
      else .array (query.filter.topics.map alternatives) := by
  rcases query with ⟨⟨addresses, topics⟩, selector⟩
  cases addresses <;> cases topics <;> cases selector <;> rfl

/-- The fields that select blocks stand behind the others, under names of their own. -/
theorem field_blocks {name : String} (notAddress : name ≠ "address") (notTopics : name ≠ "topics") :
    (logFilter query).field name =
      match query.selector with
      | .range first last =>
          (Json.object [("fromBlock", .string (tagText (.number first))),
            ("toBlock", .string (tagText (.number last)))]).field name
      | .blockHash hash => (Json.object [("blockHash", .string hash)]).field name := by
  have otherThanAddress := beq_false_of_ne notAddress
  have otherThanTopics := beq_false_of_ne notTopics
  rcases query with ⟨⟨addresses, topics⟩, selector⟩
  cases addresses <;> cases topics <;> cases selector <;>
    simp [logFilter, Json.field, List.lookup_cons, otherThanAddress, otherThanTopics]

end Fields

/-- A node looks for logs in the selected blocks. -/
theorem reaches_logFilter {query : LogQuery} (inRange : query.selector.InRange) (log : Log) :
    Node.reaches (logFilter query) log = true ↔ query.selector.Covers log := by
  rcases query with ⟨filter, selector⟩
  rw [Node.reaches, field_blocks _ (by decide) (by decide), field_blocks _ (by decide) (by decide),
    field_blocks _ (by decide) (by decide)]
  cases selector with
  | range first last =>
      have readFirst := Quantity.parse_encode inRange.1
      have readLast := Quantity.parse_encode inRange.2
      simp [Json.field, List.lookup_cons, Node.height?, tagText, readFirst, readLast, Except.toOption,
        LogSelector.Covers]
  | blockHash hash => simp [Json.field, LogSelector.Covers]

theorem admitsTopics_logFilter (query : LogQuery) (log : Log) :
    (match (logFilter query).field "topics" with
      | .null => true
      | .array wanted => Node.admitsTopics wanted log.topics
      | _ => false) =
      (Filter.topicsMatch query.filter.topics log.topics &&
        decide (query.filter.topics.length ≤ log.topics.length)) := by
  rw [field_topics]
  cases isEmpty : query.filter.topics with
  | nil => simp [Filter.topicsMatch_nil]
  | cons values rest => exact admitsTopics_alternatives (values :: rest) log.topics

/-- A node answers with the logs that the filter selects in the selected blocks, among those
that have a topic for each position of the filter. -/
theorem accepts_logFilter {query : LogQuery} (inRange : query.selector.InRange) (log : Log) :
    Node.accepts (logFilter query) log = true ↔
      query.selector.Covers log ∧ query.filter.matchesLog log = true ∧
        query.filter.topics.length ≤ log.topics.length := by
  rw [Node.accepts, admitsTopics_logFilter, field_address, admits_alternatives,
    Filter.matchesLog_eq, Bool.and_eq_true, Bool.and_eq_true, reaches_logFilter inRange,
    Bool.and_eq_true, Bool.and_eq_true, decide_eq_true_iff, and_assoc, and_assoc]

/-- The positions that ask for a topic more than the filter does are those at its end. -/
theorem accepts_logFilter_of_not_endsOpen {query : LogQuery} (inRange : query.selector.InRange)
    (names : ¬ query.filter.EndsOpen) (log : Log) :
    Node.accepts (logFilter query) log = true ↔
      query.selector.Covers log ∧ query.filter.matchesLog log = true := by
  rw [accepts_logFilter inRange]
  constructor
  · exact fun accepted => ⟨accepted.1, accepted.2.1⟩
  · intro selected
    have matched := selected.2
    rw [Filter.matchesLog_eq, Bool.and_eq_true] at matched
    exact ⟨selected.1, selected.2, Filter.length_le_of_topicsMatch matched.2 names⟩

/-! ## Logs of a query -/

/-- A node answers a query with the logs in the selected blocks that the filter selects, but
only with those that have a topic for each position of the filter. Unless the filter ends in
a position that admits any value, those are all that it selects; and filters of this kind
under one key are answered alike. -/
theorem node_answers_selected {query : LogQuery} (inRange : query.selector.InRange) (log : Log) :
    (Node.accepts (logFilter query) log = true ↔
      query.selector.Covers log ∧ query.filter.matchesLog log = true ∧
        query.filter.topics.length ≤ log.topics.length) ∧
    (¬ query.filter.EndsOpen →
      (Node.accepts (logFilter query) log = true ↔
        query.selector.Covers log ∧ query.filter.matchesLog log = true) ∧
      ∀ (digest : List UInt8 → List UInt8) (other : Filter), ¬ other.EndsOpen →
        (digest query.filter.canonicalBytes = digest other.canonicalBytes →
          query.filter.canonicalBytes = other.canonicalBytes) →
        query.filter.fingerprintWith digest = other.fingerprintWith digest →
          Node.accepts (logFilter query) log =
            Node.accepts (logFilter { query with filter := other }) log) := by
  refine ⟨accepts_logFilter inRange log, fun names => ⟨?_, ?_⟩⟩
  · exact accepts_logFilter_of_not_endsOpen inRange names log
  · intro digest other otherNames apart sameKey
    have sameForm := (Filter.fingerprintWith_eq_iff apart).mp sameKey
    have sameLogs := Filter.normalized_eq_iff.mp sameForm log
    have otherQuery :=
      @accepts_logFilter_of_not_endsOpen { query with filter := other } inRange otherNames log
    rw [Bool.eq_iff_iff, otherQuery, accepts_logFilter_of_not_endsOpen inRange names, sameLogs]

/-- A range of one block, and two filters that name one topic in different case. -/
theorem node_answers_selected_for_two :
    let filter : Filter := ⟨["0xC0FFEE"], [[], ["0xSig"]]⟩
    let other : Filter := ⟨["0xc0ffee"], [[], ["0xsig"]]⟩
    let log : Log :=
      { address := "0xc0ffee", topics := ["0xfrom", "0xsig"], data := "0x", blockNumber := 7,
        blockHash := "0xa", transactionHash := "0xt", transactionIndex := 0 }
    (LogSelector.range 7 7).InRange ∧ ¬ filter.EndsOpen ∧
    Node.accepts (logFilter ⟨filter, .range 7 7⟩) log = true ∧
    Node.accepts (logFilter ⟨other, .range 7 7⟩) log = true := by
  intro filter other log
  have inRange : (LogSelector.range 7 7).InRange := ⟨by decide, by decide⟩
  have names : ¬ filter.EndsOpen := by decide
  have answered := @node_answers_selected ⟨filter, .range 7 7⟩ inRange log
  have accepted := answered.1.mpr ⟨⟨le_refl 7, le_refl 7⟩, by decide, by decide⟩
  have sameBytes : filter.canonicalBytes = other.canonicalBytes := by decide +kernel
  have sameKey : filter.fingerprint = other.fingerprint :=
    (Filter.fingerprintWith_eq_iff fun _ => sameBytes).mpr (by decide +kernel)
  refine ⟨inRange, names, accepted, ?_⟩
  rw [← (answered.2 names).2 Digest.sha256 other (by decide) (fun _ => sameBytes) sameKey]
  exact accepted

/-- A position at the end that admits any value hides logs that the filter selects, although
the filter's key is the key of the filter without that position. -/
theorem selected_log_missed_behind_open_end :
    let filter : Filter := ⟨[], [["0xsig"], []]⟩
    let shorter : Filter := ⟨[], [["0xsig"]]⟩
    let log : Log :=
      { address := "0xc0ffee", topics := ["0xsig"], data := "0x", blockNumber := 1,
        blockHash := "0xa", transactionHash := "0xt", transactionIndex := 0 }
    (LogSelector.blockHash "0xa").Covers log ∧ filter.matchesLog log = true ∧
      Node.accepts (logFilter ⟨filter, .blockHash "0xa"⟩) log = false ∧
    filter.fingerprint = shorter.fingerprint ∧
      Node.accepts (logFilter ⟨shorter, .blockHash "0xa"⟩) log = true := by
  intro filter shorter log
  have sameBytes : filter.canonicalBytes = shorter.canonicalBytes := by decide +kernel
  have sameKey : filter.fingerprint = shorter.fingerprint :=
    (Filter.fingerprintWith_eq_iff fun _ => sameBytes).mpr (by decide +kernel)
  exact ⟨rfl, by decide, by decide, sameKey, by decide⟩

end Rpc

end ReorgSync
