import ReorgSync.Codec.Values
import ReorgSync.Proofs.Codec.Fields
import ReorgSync.Proofs.Filter.Fingerprint
import ReorgSync.Proofs.Quantity

namespace ReorgSync

/-! Blocks, logs, events, identities, filters and settings are read back as they were, as
long as their numbers fit their words. -/

open Codec

/-! ## Quantities -/

namespace Quantity

theorem reads_toJson {value : Nat} (fits : value < limit) :
    Decoder.quantity.Reads (toJson value) value := by
  intro arrange arranges
  rw [toJson, arranges.string, Json.Draft.ofJson, Decoder.quantity]
  rw [parse_encode fits]

end Quantity

/-! ## Whole numbers -/

namespace Json

theorem fitsIn_natural {value : Nat} (fits : value < Word.size 64) (levels : Nat) :
    FitsIn levels (.natural value) := by
  have lowest : Word.lowest 64 ≤ value := Int.le_trans (by decide) (Int.natCast_nonneg value)
  rw [natural, FitsIn]
  exact ⟨lowest, Int.ofNat_lt.mpr fits⟩

theorem fitsIn_optional_natural {value? : Option Nat}
    (fits : ∀ value ∈ value?, value < Word.size 64) (levels : Nat) :
    FitsIn levels (.optional .natural value?) := by
  cases value? with
  | none => rw [optional, FitsIn]; trivial
  | some value => exact fitsIn_natural (fits value rfl) levels

end Json

/-! ## Blocks and logs -/

theorem Block.reads_encode {block : Block} (inRange : block.InRange) :
    Block.decoder.Reads block.encode block := by
  intro arrange arranges
  have number := Quantity.reads_toJson inRange.number arrange arranges
  have hash := Decoder.reads_string block.hash arrange arranges
  have parentHash := Decoder.reads_string block.parentHash arrange arranges
  have timestamp := Quantity.reads_toJson inRange.timestamp arrange arranges
  refine Fields.Reads.decoder_arranged arranges ?_
  exact Fields.reads_of Block.mk
    |>.and (.required "number" .quantity) _ _ number (by simp)
    |>.and (.required "hash" .string) _ _ hash (by simp [Field.required])
    |>.and (.required "parentHash" .string) _ _ parentHash (by simp [Field.required])
    |>.and (.withDefault "timestamp" 0 .quantity) _ _ timestamp
      (by simp [Field.required, Field.withDefault])

theorem Log.reads_encode {log : Log} (inRange : log.InRange) :
    Log.decoder.Reads log.encode log := by
  intro arrange arranges
  have text (value : String) := Decoder.reads_string value arrange arranges
  have topics := Decoder.reads_strings log.topics arrange arranges
  have blockNumber := Quantity.reads_toJson inRange.blockNumber arrange arranges
  have transactionIndex := Quantity.reads_toJson inRange.transactionIndex arrange arranges
  have logIndex := Quantity.reads_toJson inRange.logIndex arrange arranges
  refine Fields.Reads.decoder_arranged arranges ?_
  exact Fields.reads_of Log.mk
    |>.and (.required "address" .string) _ _ (text log.address) (by simp)
    |>.and (.required "topics" (.list .string)) _ _ topics (by simp [Field.required])
    |>.and (.required "data" .string) _ _ (text log.data) (by simp [Field.required])
    |>.and (.required "blockNumber" .quantity) _ _ blockNumber (by simp [Field.required])
    |>.and (.required "blockHash" .string) _ _ (text log.blockHash) (by simp [Field.required])
    |>.and (.required "transactionHash" .string) _ _ (text log.transactionHash)
      (by simp [Field.required])
    |>.and (.required "transactionIndex" .quantity) _ _ transactionIndex
      (by simp [Field.required])
    |>.and (.withDefault "logIndex" 0 .quantity) _ _ logIndex
      (by simp [Field.required, Field.withDefault])

theorem Block.fitsIn_encode (block : Block) (levels : Nat) :
    Json.FitsIn (levels + 1) block.encode := by
  simp [encode, Json.FitsIn, Quantity.toJson]

theorem Log.fitsIn_encode (log : Log) (levels : Nat) : Json.FitsIn (levels + 2) log.encode := by
  simp [encode, Json.FitsIn, Quantity.toJson, Json.strings]

/-- The text of a block is read back as that block. -/
theorem Block.ofText_print {block : Block} (inRange : block.InRange) :
    Block.decoder.ofText block.encode.print = .ok block :=
  (Block.reads_encode inRange).ofText_print (block.fitsIn_encode 126)

/-- The text of a log is read back as that log. -/
theorem Log.ofText_print {log : Log} (inRange : log.InRange) :
    Log.decoder.ofText log.encode.print = .ok log :=
  (Log.reads_encode inRange).ofText_print (log.fitsIn_encode 125)

/-! ## Events and identities -/

/-- All numbers of an event fit their words. -/
structure Event.Fits (event : Event) : Prop where
  added : ∀ log ∈ event.added, log.InRange
  removed : ∀ log ∈ event.removed, log.InRange
  truncateTo : ∀ length ∈ event.truncateTo, length < Word.size 64
  block : event.block.InRange

theorem Event.reads_encode {event : Event} (fits : event.Fits) :
    Event.decoder.Reads event.encode event := by
  intro arrange arranges
  have logs {logs : List Log} (inRange : ∀ log ∈ logs, log.InRange) :=
    Decoder.reads_list (fun log isLog => Log.reads_encode (inRange log isLog)) arrange arranges
  have truncateTo := Decoder.reads_optional_natural fits.truncateTo arrange arranges
  have block := Block.reads_encode fits.block arrange arranges
  refine Fields.Reads.decoder_arranged arranges ?_
  exact Fields.reads_of Event.mk
    |>.and (.required "added" (.list Log.decoder)) _ _ (logs fits.added) (by simp)
    |>.and (.required "removed" (.list Log.decoder)) _ _ (logs fits.removed)
      (by simp [Field.required])
    |>.and (.nullable "truncate_to" (.natural 64)) _ _ truncateTo
      (by simp [Field.required, Field.nullable])
    |>.and (.required "block" Block.decoder) _ _ block
      (by simp [Field.required, Field.nullable])

theorem Event.fitsIn_encode {event : Event} (fits : event.Fits) (levels : Nat) :
    Json.FitsIn (levels + 4) event.encode := by
  have logs (logs : List Log) : Json.FitsIn (levels + 3) (.array (logs.map Log.encode)) := by
    intro item isItem
    rcases List.mem_map.mp isItem with ⟨log, -, rfl⟩
    exact log.fitsIn_encode levels
  have truncateTo := Json.fitsIn_optional_natural fits.truncateTo (levels + 3)
  have block := event.block.fitsIn_encode (levels + 2)
  simp only [encode, Json.FitsIn, List.forall_mem_cons, List.not_mem_nil, false_implies,
    implies_true, and_true]
  exact ⟨logs event.added, logs event.removed, truncateTo, block⟩

theorem ChainIdentity.reads_encode {identity : ChainIdentity}
    (fits : identity.chainId < Word.size 64) :
    ChainIdentity.decoder.Reads identity.encode identity := by
  intro arrange arranges
  have chainId := Decoder.reads_natural fits arrange arranges
  have genesisHash := Decoder.reads_string identity.genesisHash arrange arranges
  refine Fields.Reads.decoder_arranged arranges ?_
  exact Fields.reads_of ChainIdentity.mk
    |>.and (.required "chain_id" (.natural 64)) _ _ chainId (by simp)
    |>.and (.required "genesis_hash" .string) _ _ genesisHash (by simp [Field.required])

theorem ChainIdentity.fitsIn_encode {identity : ChainIdentity}
    (fits : identity.chainId < Word.size 64) (levels : Nat) :
    Json.FitsIn (levels + 1) identity.encode := by
  have chainId := Json.fitsIn_natural fits levels
  simp [encode, Json.FitsIn, chainId]

/-! ## Filters and settings -/

theorem Filter.reads_encode (filter : Filter) : Filter.decoder.Reads filter.encode filter := by
  intro arrange arranges
  have addresses := Decoder.reads_strings filter.addresses arrange arranges
  have topics := Decoder.reads_list
    (fun values (_ : values ∈ filter.topics) => Decoder.reads_strings values) arrange arranges
  refine Fields.Reads.decoder_arranged arranges ?_
  exact Fields.reads_of Filter.mk
    |>.and (.withDefault "addresses" [] (.list .string)) _ _ addresses (by simp)
    |>.and (.withDefault "topics" [] (.list (.list .string))) _ _ topics
      (by simp [Field.withDefault])

/-- All numbers of the settings fit their words. -/
structure Config.InRange (config : Config) : Prop where
  maxBlockBacklog : config.maxBlockBacklog < Word.size 64
  batchSize : config.batchSize < Word.size 64
  pollInterval : config.pollInterval < Word.size 64
  startBlock : ∀ number ∈ config.startBlock, number < Word.size 64
  retryAttempts : config.retryAttempts < Word.size 32
  retryDelay : config.retryDelay < Word.size 64

theorem Config.reads_encode {config : Config} (inRange : config.InRange) :
    Config.decoder.Reads config.encode config := by
  intro arrange arranges
  have natural {bits value : Nat} (fits : value < Word.size bits) :=
    Decoder.reads_natural fits arrange arranges
  have startBlock := Decoder.reads_optional_natural inRange.startBlock arrange arranges
  have filter := config.filter.reads_encode arrange arranges
  refine Fields.Reads.decoder_arranged arranges ?_
  exact Fields.reads_of Config.mk
    |>.and (.withDefault "max_block_backlog" _ (.natural 64)) _ _
      (natural inRange.maxBlockBacklog) (by simp)
    |>.and (.withDefault "batch_size" _ (.natural 64)) _ _ (natural inRange.batchSize)
      (by simp [Field.withDefault])
    |>.and (.withDefault "poll_interval_ms" _ (.natural 64)) _ _ (natural inRange.pollInterval)
      (by simp [Field.withDefault])
    |>.and (.withDefault "start_block" _ (Decoder.natural 64).optional) _ _ startBlock
      (by simp [Field.withDefault])
    |>.and (.withDefault "live_retry_attempts" _ (.natural 32)) _ _
      (natural inRange.retryAttempts) (by simp [Field.withDefault])
    |>.and (.withDefault "live_retry_delay_ms" _ (.natural 64)) _ _ (natural inRange.retryDelay)
      (by simp [Field.withDefault])
    |>.and (.withDefault "filter" _ Filter.decoder) _ _ filter (by simp [Field.withDefault])

theorem Config.fitsIn_encode {config : Config} (inRange : config.InRange) (levels : Nat) :
    Json.FitsIn (levels + 4) config.encode := by
  have natural {value : Nat} (fits : value < Word.size 64) :=
    Json.fitsIn_natural fits (levels + 3)
  have smaller : Word.size 32 ≤ Word.size 64 := by decide
  have retryAttempts := natural (Nat.lt_of_lt_of_le inRange.retryAttempts smaller)
  have startBlock := Json.fitsIn_optional_natural inRange.startBlock (levels + 3)
  have filter := config.filter.fitsIn_encode levels
  simp only [encode, Json.FitsIn, List.forall_mem_cons, List.not_mem_nil, false_implies,
    implies_true, and_true]
  exact ⟨natural inRange.maxBlockBacklog, natural inRange.batchSize,
    natural inRange.pollInterval, startBlock, retryAttempts, natural inRange.retryDelay, filter⟩

end ReorgSync
