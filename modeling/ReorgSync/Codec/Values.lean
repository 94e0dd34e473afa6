import ReorgSync.Codec.Fields
import ReorgSync.Config
import ReorgSync.Node

/-! The JSON form of the domain's values. Heights, times and positions of
blocks and logs are quantities; the settings of a synchronisation are plain
numbers. Each `decoder` reads back what the `encode` beside it writes. -/

namespace ReorgSync

open Codec

def Quantity.toJson (value : Nat) : Json :=
  .string (Quantity.encode value)

namespace Block

def encode (block : Block) : Json :=
  .object [
    ("number", Quantity.toJson block.number),
    ("hash", .string block.hash),
    ("parentHash", .string block.parentHash),
    ("timestamp", Quantity.toJson block.timestamp)]

def decoder : Decoder Block :=
  Fields.of Block.mk
    |>.and (.required "number" .quantity)
    |>.and (.required "hash" .string)
    |>.and (.required "parentHash" .string)
    |>.and (.withDefault "timestamp" 0 .quantity)
    |>.decoder

/-- All numbers of a block are quantities. -/
structure InRange (block : Block) : Prop where
  number : block.number < Quantity.limit
  timestamp : block.timestamp < Quantity.limit

instance (block : Block) : Decidable block.InRange :=
  decidable_of_iff (block.number < Quantity.limit ∧ block.timestamp < Quantity.limit)
    ⟨fun fits => ⟨fits.1, fits.2⟩, fun inRange => ⟨inRange.number, inRange.timestamp⟩⟩

end Block

namespace Log

def encode (log : Log) : Json :=
  .object [
    ("address", .string log.address),
    ("topics", .strings log.topics),
    ("data", .string log.data),
    ("blockNumber", Quantity.toJson log.blockNumber),
    ("blockHash", .string log.blockHash),
    ("transactionHash", .string log.transactionHash),
    ("transactionIndex", Quantity.toJson log.transactionIndex),
    ("logIndex", Quantity.toJson log.logIndex)]

def decoder : Decoder Log :=
  Fields.of Log.mk
    |>.and (.required "address" .string)
    |>.and (.required "topics" (.list .string))
    |>.and (.required "data" .string)
    |>.and (.required "blockNumber" .quantity)
    |>.and (.required "blockHash" .string)
    |>.and (.required "transactionHash" .string)
    |>.and (.required "transactionIndex" .quantity)
    |>.and (.withDefault "logIndex" 0 .quantity)
    |>.decoder

/-- All numbers of a log are quantities. -/
structure InRange (log : Log) : Prop where
  blockNumber : log.blockNumber < Quantity.limit
  transactionIndex : log.transactionIndex < Quantity.limit
  logIndex : log.logIndex < Quantity.limit

instance (log : Log) : Decidable log.InRange :=
  decidable_of_iff (log.blockNumber < Quantity.limit ∧ log.transactionIndex < Quantity.limit ∧
      log.logIndex < Quantity.limit)
    ⟨fun fits => ⟨fits.1, fits.2.1, fits.2.2⟩,
      fun inRange => ⟨inRange.blockNumber, inRange.transactionIndex, inRange.logIndex⟩⟩

end Log

namespace Event

def encode (event : Event) : Json :=
  .object [
    ("added", .array (event.added.map Log.encode)),
    ("removed", .array (event.removed.map Log.encode)),
    ("truncate_to", .optional .natural event.truncateTo),
    ("block", event.block.encode)]

def decoder : Decoder Event :=
  Fields.of Event.mk
    |>.and (.required "added" (.list Log.decoder))
    |>.and (.required "removed" (.list Log.decoder))
    |>.and (.nullable "truncate_to" (.natural 64))
    |>.and (.required "block" Block.decoder)
    |>.decoder

end Event

namespace ChainIdentity

def encode (identity : ChainIdentity) : Json :=
  .object [
    ("chain_id", .natural identity.chainId),
    ("genesis_hash", .string identity.genesisHash)]

def decoder : Decoder ChainIdentity :=
  Fields.of ChainIdentity.mk
    |>.and (.required "chain_id" (.natural 64))
    |>.and (.required "genesis_hash" .string)
    |>.decoder

end ChainIdentity

namespace Filter

def encode (filter : Filter) : Json :=
  .object [
    ("addresses", .strings filter.addresses),
    ("topics", .array (filter.topics.map .strings))]

def decoder : Decoder Filter :=
  Fields.of Filter.mk
    |>.and (.withDefault "addresses" [] (.list .string))
    |>.and (.withDefault "topics" [] (.list (.list .string)))
    |>.decoder

end Filter

namespace Config

def encode (config : Config) : Json :=
  .object [
    ("max_block_backlog", .natural config.maxBlockBacklog),
    ("batch_size", .natural config.batchSize),
    ("poll_interval_ms", .natural config.pollInterval),
    ("start_block", .optional .natural config.startBlock),
    ("live_retry_attempts", .natural config.retryAttempts),
    ("live_retry_delay_ms", .natural config.retryDelay),
    ("filter", config.filter.encode)]

def decoder : Decoder Config :=
  let initial : Config := {}
  Fields.of Config.mk
    |>.and (.withDefault "max_block_backlog" initial.maxBlockBacklog (.natural 64))
    |>.and (.withDefault "batch_size" initial.batchSize (.natural 64))
    |>.and (.withDefault "poll_interval_ms" initial.pollInterval (.natural 64))
    |>.and (.withDefault "start_block" initial.startBlock (Decoder.natural 64).optional)
    |>.and (.withDefault "live_retry_attempts" initial.retryAttempts (.natural 32))
    |>.and (.withDefault "live_retry_delay_ms" initial.retryDelay (.natural 64))
    |>.and (.withDefault "filter" initial.filter Filter.decoder)
    |>.decoder

end Config

/-! ## Alternatives

A value that is one of several alternatives is written as the name of the
alternative, or as an object with that name as its only field. -/

namespace Codec

/-- The only field of an object, if it has exactly one that can be read. -/
def onlyField? : Json.Draft → Option (String × Json.Draft)
  | .object [(some name, draft)] true => some (name, draft)
  | _ => none

end Codec

namespace Phase

def encode (phase : Phase) : Json :=
  .string phase.name

def ofName? (name : String) : Option Phase :=
  all.find? fun phase => phase.name == name

def decoder : Decoder Phase := fun draft =>
  let name? :=
    match draft, onlyField? draft with
    | .string name, _ => some name
    | _, some (name, .null) => some name
    | _, _ => none
  match name?.bind ofName? with
  | some phase => .ok phase
  | none => .error .malformed

end Phase

namespace LogSelector

def encode : LogSelector → Json
  | .range first last =>
      .object [("Range", .object [("from", .natural first), ("to", .natural last)])]
  | .blockHash hash => .object [("BlockHash", .string hash)]

def rangeDecoder : Decoder LogSelector :=
  Fields.of LogSelector.range
    |>.and (.required "from" (.natural 64))
    |>.and (.required "to" (.natural 64))
    |>.decoder

/-- Reads a selector out of a value that was parsed before. A range is an object
here, never an array. -/
def decoder : Decoder LogSelector := fun draft =>
  match onlyField? draft with
  | some ("Range", .object fields complete) => rangeDecoder (.object fields complete)
  | some ("BlockHash", hash) => (Decoder.string hash).map .blockHash
  | _ => .error .malformed

/-- Reads a selector out of a text. A range may also list its two ends in an
array, and its problems are met before whatever stands behind it. -/
def textDecoder : Decoder LogSelector
  | .object ((some name, draft) :: rest) complete => do
      let selector ←
        match name with
        | "Range" => rangeDecoder draft
        | "BlockHash" => (Decoder.string draft).map .blockHash
        | _ => throw .malformed
      if rest.isEmpty ∧ complete then return selector else throw .malformed
  | _ => .error .malformed

end LogSelector

end ReorgSync
