import ReorgSync.Proofs.Rpc.LogFilter
import ReorgSync.Proofs.Store.Table

namespace ReorgSync

/-! Nothing is lost between a value and its JSON: it is decoded as it was out of the value
that is written, out of the value that is kept in memory and out of the text. So a store
reads what it wrote. -/

open Codec

/-! ## Selectors -/

namespace LogSelector

theorem reads_encode {selector : LogSelector} (inRange : selector.InRange) :
    LogSelector.decoder.Reads selector.encode selector ∧
      LogSelector.textDecoder.Reads selector.encode selector := by
  -- An object with a single field has one order only, so its field is where it was written.
  have alone {arrange : Json → Json} (arranges : Json.Rearranges arrange) (name : String)
      (held : Json) :
      arrange (.object [(name, held)]) = .object [(name, arrange held)] := by
    rcases arranges.object [(name, held)] (List.nodup_singleton _) with ⟨arranged, same, perm⟩
    rw [same, List.perm_singleton.mp perm]
  cases selector with
  | range first last =>
      have ends {arrange : Json → Json} (arranges : Json.Rearranges arrange) :
          rangeDecoder (.ofJson (arrange (.object
            [("from", .natural first), ("to", .natural last)]))) = .ok (.range first last) := by
        have firstRead := Decoder.reads_natural inRange.1 arrange arranges
        have lastRead := Decoder.reads_natural inRange.2 arrange arranges
        refine Fields.Reads.decoder_arranged arranges ?_
        exact Fields.reads_of LogSelector.range
          |>.and (.required "from" (.natural 64)) _ _ firstRead (by simp)
          |>.and (.required "to" (.natural 64)) _ _ lastRead (by simp [Field.required])
      constructor
      · intro arrange arranges
        rcases arranges.object [("from", .natural first), ("to", .natural last)] (by simp) with
          ⟨arranged, same, -⟩
        have read := ends arranges
        rw [same] at read
        rw [encode, alone arranges, same]
        exact read
      · intro arrange arranges
        have read := ends arranges
        rw [encode, alone arranges]
        change (do
          let selector ← rangeDecoder (.ofJson (arrange _))
          _) = _
        rw [read]
        rfl
  | blockHash hash =>
      constructor
      · intro arrange arranges
        rw [encode, alone arranges, arranges.string]
        rfl
      · intro arrange arranges
        rw [encode, alone arranges, arranges.string]
        rfl

theorem fitsIn_encode {selector : LogSelector} (inRange : selector.InRange) (levels : Nat) :
    Json.FitsIn (levels + 2) selector.encode := by
  cases selector with
  | range first last =>
      have firstFits := Json.fitsIn_natural inRange.1 levels
      have lastFits := Json.fitsIn_natural inRange.2 levels
      simp [encode, Json.FitsIn, firstFits, lastFits]
  | blockHash hash => simp [encode, Json.FitsIn]

end LogSelector

/-! ## Values and texts -/

/-- What is written is read as the value that it was written for: as it is, as it is kept in
memory, which is also how its text is parsed, and straight from its text. -/
structure Json.Preserves (written : Json) (decoder textDecoder : Decoder α) (value : α) :
    Prop where
  direct : decoder.ofJson written = .ok value
  inMemory : decoder.ofJson written.sorted = .ok value
  parsed : Json.parse? written.print = some written.sorted
  text : textDecoder.ofText written.print = .ok value

theorem Json.preserves_of_reads {written : Json} {decoder textDecoder : Decoder α} {value : α}
    (reads : decoder.Reads written value) (textReads : textDecoder.Reads written value)
    (fits : Json.FitsIn Json.maxDepth written) :
    written.Preserves decoder textDecoder value where
  direct := reads.ofJson
  inMemory := reads.ofJson_sorted
  parsed := Json.parse?_print fits
  text := textReads.ofText_print fits

/-! ## Stores -/

namespace TableStore

/-- After an event, the tables answer with its logs and its block. -/
theorem Shows.reads_applied {table : TableStore} {memory : MemoryStore} {key : String}
    (shown : table.Shows memory)
    (opened : memory.entries.lookup key = some (memory.entry key))
    (inRange : (memory.entry key).InRange)
    (small : (memory.entry key).logs.length < columnLimit) {event : Event}
    (added : event.InRange) {entry : Entry}
    (applied : (memory.entry key).apply event = .ok entry)
    (stillSmall : entry.logs.length < columnLimit) :
    ∃ after, LogStore.apply table key event = .ok after ∧
      LogStore.logs after key = .ok entry.logs ∧
      LogStore.lastBlock after key = .ok (some event.block) ∧
      ∀ index < Word.size 64, LogStore.log? after key index = .ok entry.logs[index]? := by
  rcases shown.apply_ok opened small added (Entry.applyFew_eq_ok.mpr ⟨applied, stillSmall⟩) with
    ⟨after, isAfter, shows⟩
  have isEntry : (memory.setEntry key entry).entry key = entry :=
    MemoryStore.entry_setEntry memory key entry
  have afterInRange : ((memory.setEntry key entry).entry key).InRange := by
    rw [isEntry]
    exact inRange.apply added applied
  have afterSmall : ((memory.setEntry key entry).entry key).logs.length < columnLimit := by
    rwa [isEntry]
  have ends : entry.lastBlock = some event.block :=
    congrArg Ledger.lastBlock (Entry.ledger_apply applied)
  refine ⟨after, isAfter, ?_, ?_, fun index fits => ?_⟩
  · rw [shows.readLogs afterInRange.logs afterSmall]
    change EntryStore.logs ((memory.setEntry key entry).entry key) = _
    rw [isEntry]
    rfl
  · rw [shows.lastBlock afterInRange.lastBlock, ← ends]
    change EntryStore.lastBlock ((memory.setEntry key entry).entry key) = _
    rw [isEntry]
    rfl
  · rw [shows.log? afterInRange.logs afterSmall fits]
    change EntryStore.log? ((memory.setEntry key entry).entry key) index = _
    rw [isEntry]
    rfl

end TableStore

/-- Blocks, logs, events, identities, filters, settings and selectors are decoded as they were
encoded, whatever their texts and lists are and whatever numbers fit their words. And tables
answer with the logs and the block of an event that was applied to them. -/
theorem decoded_as_encoded :
    (∀ block : Block, block.InRange →
      block.encode.Preserves Block.decoder Block.decoder block) ∧
    (∀ log : Log, log.InRange → log.encode.Preserves Log.decoder Log.decoder log) ∧
    (∀ event : Event, event.Fits →
      event.encode.Preserves Event.decoder Event.decoder event) ∧
    (∀ identity : ChainIdentity, identity.chainId < Word.size 64 →
      identity.encode.Preserves ChainIdentity.decoder ChainIdentity.decoder identity) ∧
    (∀ filter : Filter, filter.encode.Preserves Filter.decoder Filter.decoder filter) ∧
    (∀ config : Config, config.InRange →
      config.encode.Preserves Config.decoder Config.decoder config) ∧
    (∀ selector : LogSelector, selector.InRange →
      selector.encode.Preserves LogSelector.decoder LogSelector.textDecoder selector) ∧
    (∀ (table : TableStore) (memory : MemoryStore) (key : String), table.Shows memory →
      memory.entries.lookup key = some (memory.entry key) → (memory.entry key).InRange →
      (memory.entry key).logs.length < TableStore.columnLimit →
      ∀ (event : Event) (entry : Entry), event.InRange →
        (memory.entry key).apply event = .ok entry →
        entry.logs.length < TableStore.columnLimit →
        ∃ after, LogStore.apply table key event = .ok after ∧
          LogStore.logs after key = .ok entry.logs ∧
          LogStore.lastBlock after key = .ok (some event.block) ∧
          ∀ index < Word.size 64, LogStore.log? after key index = .ok entry.logs[index]?) := by
  refine ⟨?block, ?log, ?event, ?identity, ?filter, ?config, ?selector, ?store⟩
  case block =>
    intro block inRange
    have reads := Block.reads_encode inRange
    exact Json.preserves_of_reads reads reads (block.fitsIn_encode 126)
  case log =>
    intro log inRange
    have reads := Log.reads_encode inRange
    exact Json.preserves_of_reads reads reads (log.fitsIn_encode 125)
  case event =>
    intro event fits
    have reads := Event.reads_encode fits
    exact Json.preserves_of_reads reads reads (Event.fitsIn_encode fits 123)
  case identity =>
    intro identity fits
    have reads := ChainIdentity.reads_encode fits
    exact Json.preserves_of_reads reads reads (ChainIdentity.fitsIn_encode fits 126)
  case filter =>
    intro filter
    have reads := filter.reads_encode
    exact Json.preserves_of_reads reads reads (filter.fitsIn_encode 124)
  case config =>
    intro config inRange
    have reads := Config.reads_encode inRange
    exact Json.preserves_of_reads reads reads (Config.fitsIn_encode inRange 123)
  case selector =>
    intro selector inRange
    have reads := LogSelector.reads_encode inRange
    exact Json.preserves_of_reads reads.1 reads.2 (LogSelector.fitsIn_encode inRange 125)
  case store =>
    intro table memory key shown opened inRange small event entry added applied stillSmall
    exact shown.reads_applied opened inRange small added applied stillSmall

/-- The largest numbers, texts with characters of all kinds, logs inside an event, and that
event in tables whose entry was just opened. -/
theorem decoded_as_encoded_at_limits :
    let largest := Word.size 64 - 1
    let log : Log := ⟨"\"Ä\\", ["", "🦀\n"], "0x", largest, "é", "0x1", largest, largest⟩
    let event : Event := ⟨[log, log], [log], some 0, ⟨largest, "ß", "\x00", largest⟩⟩
    let config : Config :=
      { startBlock := some largest
        retryAttempts := Word.size 32 - 1
        filter.topics := [[], ["ä"]] }
    let table : TableStore := { entries := [{ fingerprint := "key", filterText := "" }] }
    log.encode.Preserves Log.decoder Log.decoder log ∧
      event.encode.Preserves Event.decoder Event.decoder event ∧
      event.block.encode.Preserves Block.decoder Block.decoder event.block ∧
      (ChainIdentity.mk largest "0x0").encode.Preserves ChainIdentity.decoder
        ChainIdentity.decoder ⟨largest, "0x0"⟩ ∧
      config.encode.Preserves Config.decoder Config.decoder config ∧
      (LogSelector.range 0 largest).encode.Preserves LogSelector.decoder
        LogSelector.textDecoder (.range 0 largest) ∧
      ∃ after, LogStore.apply table "key" event = .ok after ∧
        LogStore.logs after "key" = .ok [log, log] ∧
        LogStore.lastBlock after "key" = .ok (some event.block) ∧
        ∀ index < Word.size 64, LogStore.log? after "key" index = .ok [log, log][index]? := by
  intro largest log event config table
  rcases decoded_as_encoded with
    ⟨ofBlock, ofLog, ofEvent, ofIdentity, -, ofConfig, ofSelector, ofStore⟩
  have inRange : log.InRange := ⟨by decide, by decide, by decide⟩
  have blockInRange : event.block.InRange := ⟨by decide, by decide⟩
  have logs : ∀ other ∈ [log, log], other.InRange := by simp [inRange]
  have fits : event.Fits :=
    ⟨logs, fun other isLog => logs other (List.mem_cons_of_mem _ isLog), by decide, blockInRange⟩
  have configInRange : config.InRange :=
    ⟨by decide, by decide, by decide, by decide, by decide, by decide⟩
  have shown : table.Shows ⟨[("key", {})]⟩ := by
    refine ⟨rfl, .cons ⟨rfl, rfl, rfl, rfl⟩ .nil, by decide, fun key => ?_⟩
    rw [MemoryStore.entry, List.lookup_cons]
    split <;> rfl
  refine ⟨ofLog log inRange, ofEvent event fits, ofBlock _ blockInRange,
    ofIdentity _ (by decide), ofConfig config configInRange, ofSelector _ ⟨by decide, by decide⟩,
    ?_⟩
  exact ofStore table _ "key" shown rfl Entry.inRange_empty (by decide) event
    ⟨[log, log], some event.block, none⟩ ⟨logs, blockInRange⟩ rfl (by decide)

end ReorgSync
