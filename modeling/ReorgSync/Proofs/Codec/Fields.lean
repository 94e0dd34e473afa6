import Mathlib.Data.List.Nodup
import ReorgSync.Codec.Fields
import ReorgSync.Proofs.Json.Sorted

namespace ReorgSync.Codec

/-! A record that is written as an object of all its fields is read back as that record, in
whatever order the fields stand. -/

/-- What a decoder reads in the text of a value is what it reads in the value. -/
theorem Decoder.ofText_print (decoder : Decoder α) {value : Json}
    (fits : Json.FitsIn Json.maxDepth value) :
    decoder.ofText value.print = decoder (.ofJson value) := by
  rw [Decoder.ofText, Json.Draft.parse_print fits]
  dsimp only
  cases decoder (.ofJson value) <;> rfl

theorem Decoder.list_ofJson {decoder : Decoder α} {encode : α → Json} {values : List α}
    (reads : ∀ value ∈ values, decoder (.ofJson (encode value)) = .ok value) :
    decoder.list (.ofJson (.array (values.map encode))) = .ok values := by
  have read : decoder.items (Json.Draft.ofItems (values.map encode)) = .ok values := by
    induction values with
    | nil => rfl
    | cons value rest induction =>
        have first := reads value List.mem_cons_self
        have others := induction fun other isOther => reads other (List.mem_cons_of_mem _ isOther)
        rw [List.map_cons, Json.Draft.ofItems, Decoder.items, first, others]
        rfl
  rw [Json.Draft.ofJson, Decoder.list, read]
  rfl

/-- The decoder reads this value out of what is written, whatever the order of the fields. -/
def Decoder.Reads (decoder : Decoder α) (written : Json) (value : α) : Prop :=
  ∀ arrange, Json.Rearranges arrange → decoder (.ofJson (arrange written)) = .ok value

namespace Decoder

theorem Reads.ofJson {decoder : Decoder α} {written : Json} {value : α}
    (reads : decoder.Reads written value) : decoder.ofJson written = .ok value :=
  reads id Json.rearranges_id

theorem Reads.ofJson_sorted {decoder : Decoder α} {written : Json} {value : α}
    (reads : decoder.Reads written value) : decoder.ofJson written.sorted = .ok value :=
  reads Json.sorted Json.rearranges_sorted

theorem Reads.ofText_print {decoder : Decoder α} {written : Json} {value : α}
    (reads : decoder.Reads written value) (fits : Json.FitsIn Json.maxDepth written) :
    decoder.ofText written.print = .ok value := by
  rw [Decoder.ofText_print decoder fits]
  exact reads.ofJson

theorem reads_string (text : String) : Decoder.string.Reads (.string text) text := by
  intro arrange arranges
  rw [arranges.string]
  rfl

theorem reads_natural {bits value : Nat} (fits : value < Word.size bits) :
    (Decoder.natural bits).Reads (.natural value) value := by
  intro arrange arranges
  have inRange : (0 : Int) ≤ value ∧ (value : Int) ≤ Word.size bits - 1 := by omega
  rw [Json.natural, arranges.integer, Json.Draft.ofJson, Decoder.natural, Decoder.integer,
    if_pos inRange]
  rfl

theorem reads_optional_natural {bits : Nat} {value? : Option Nat}
    (fits : ∀ value ∈ value?, value < Word.size bits) :
    (Decoder.natural bits).optional.Reads (.optional .natural value?) value? := by
  intro arrange arranges
  cases value? with
  | none =>
      rw [Json.optional, arranges.null]
      rfl
  | some value =>
      have read := reads_natural (fits value rfl) arrange arranges
      rw [Json.optional, Json.natural, arranges.integer, Json.Draft.ofJson] at *
      rw [Decoder.optional, read]
      · rfl
      · nofun

theorem reads_list {decoder : Decoder α} {encode : α → Json} {values : List α}
    (reads : ∀ value ∈ values, decoder.Reads (encode value) value) :
    decoder.list.Reads (.array (values.map encode)) values := by
  intro arrange arranges
  rw [arranges.array, List.map_map]
  exact list_ofJson fun value isValue => reads value isValue arrange arranges

theorem reads_strings (texts : List String) :
    Decoder.string.list.Reads (.strings texts) texts :=
  reads_list fun text _ => reads_string text

end Decoder

namespace Fields

/-- The drafts of a record, one for each field in order: every check passes, and the record
is made of them wherever they are found by their names. -/
structure Reads (fields : Fields α) (drafts : List (String × Json.Draft)) (value : α) : Prop where
  names : fields.checks.map Prod.fst = drafts.map Prod.fst
  distinct : (drafts.map Prod.fst).Nodup
  checked : ∀ draft ∈ drafts, ∃ check,
    fields.checks.lookup draft.1 = some check ∧ check draft.2 = .ok ()
  made : ∀ named, (∀ draft ∈ drafts, named.lookup draft.1 = some draft.2) →
    fields.ofObject named = .ok value

theorem reads_of (value : α) : (Fields.of value).Reads [] value where
  names := rfl
  distinct := List.nodup_nil
  checked := nofun
  made _ _ := rfl

/-- One field more. -/
theorem Reads.and {fields : Fields (α → β)} {drafts : List (String × Json.Draft)} {make : α → β}
    (reads : fields.Reads drafts make) (field : Field α) (json : Json) (value : α)
    (read : field.decoder (.ofJson json) = .ok value) (isNew : field.name ∉ drafts.map Prod.fst) :
    (fields.and field).Reads (drafts ++ [(field.name, .ofJson json)]) (make value) where
  names := by
    change (fields.checks ++ [(field.name, field.check)]).map Prod.fst = _
    rw [List.map_append, List.map_append, reads.names]
    rfl
  distinct := by
    rw [List.map_append, List.nodup_append]
    refine ⟨reads.distinct, List.nodup_singleton _, ?_⟩
    rintro name isOld other isOther rfl
    rw [List.mem_singleton.mp isOther] at isOld
    exact isNew isOld
  checked held isHeld := by
    change ∃ check, (fields.checks ++ [(field.name, field.check)]).lookup held.1 = some check ∧ _
    rw [List.lookup_append]
    rcases List.mem_append.mp isHeld with isOld | isLast
    · rcases reads.checked held isOld with ⟨check, found, passes⟩
      exact ⟨check, by rw [found, Option.some_or], passes⟩
    · rw [List.mem_singleton.mp isLast]
      -- A check of the same name in front would be the one that is found.
      have unknown : fields.checks.lookup field.name = none := by
        rw [List.lookup_eq_none_iff]
        intro check isCheck
        have known : check.1 ∈ drafts.map Prod.fst := reads.names ▸ List.mem_map_of_mem isCheck
        simpa using fun same : field.name = check.1 => isNew (same ▸ known)
      refine ⟨field.check, by simp [unknown], ?_⟩
      rw [Field.check, read]
      rfl
  made named found := by
    have known := found _ (List.mem_append_right _ (List.mem_singleton_self _))
    have others := reads.made named fun draft isDraft =>
      found draft (List.mem_append_left _ isDraft)
    have last (absent : Option α) (fault : Fault) :
        field.read absent fault named = .ok value := by
      unfold Field.read
      rw [known]
      exact read
    change (do
      let make ← fields.ofObject named
      return make (← field.read field.absent? (.missingField field.name) named)) = _
    rw [others, last]
    rfl

/-- A draft with all fields in order passes, and each of them is found by its name. -/
theorem collect_eq {checks : List (String × (Json.Draft → Except Fault Unit))}
    {drafts found : List (String × Json.Draft)} (distinct : (drafts.map Prod.fst).Nodup)
    (apart : ∀ draft ∈ drafts, found.lookup draft.1 = none)
    (checked : ∀ draft ∈ drafts, ∃ check,
      checks.lookup draft.1 = some check ∧ check draft.2 = .ok ()) :
    collect checks (drafts.map fun draft => (some draft.1, draft.2)) found =
      .ok (drafts.reverse ++ found) := by
  -- What was read is found so far, so that list grows while the drafts get fewer.
  induction drafts generalizing found with
  | nil => rfl
  | cons draft rest induction =>
      rcases checked draft List.mem_cons_self with ⟨check, isCheck, passes⟩
      have isNew := apart draft List.mem_cons_self
      rw [List.map_cons, List.nodup_cons] at distinct
      have later := @induction (draft :: found) distinct.2
        (fun other isOther => by
          have differs : (other.1 == draft.1) = false := by
            simpa using fun same : other.1 = draft.1 =>
              distinct.1 (same ▸ List.mem_map_of_mem isOther)
          rw [List.lookup_cons, differs]
          exact apart other (List.mem_cons_of_mem _ isOther))
        (fun other isOther => checked other (List.mem_cons_of_mem _ isOther))
      rw [List.map_cons, collect, isCheck, isNew, List.reverse_cons, List.append_assoc,
        List.singleton_append]
      change (do
        check draft.2
        collect checks _ (draft :: found)) = _
      rw [passes]
      exact later

theorem lookup_reverse {drafts : List (String × Json.Draft)}
    (distinct : (drafts.map Prod.fst).Nodup) {draft : String × Json.Draft}
    (isDraft : draft ∈ drafts) : drafts.reverse.lookup draft.1 = some draft.2 := by
  rcases List.append_of_mem isDraft with ⟨front, back, rfl⟩
  rw [List.map_append, List.map_cons, List.nodup_append, List.nodup_cons] at distinct
  refine List.lookup_eq_some_iff.mpr ⟨back.reverse, front.reverse, by simp, ?_⟩
  intro other isOther
  simpa using fun same : draft.1 = other.1 =>
    distinct.2.1.1 (same ▸ List.mem_map_of_mem (List.mem_reverse.mp isOther))

/-- The record of an object with all its fields. -/
theorem Reads.decoder_object {fields : Fields α} {drafts written : List (String × Json.Draft)}
    {value : α} (reads : fields.Reads drafts value) (isWritten : written.Perm drafts) :
    fields.decoder (.object (written.map fun draft => (some draft.1, draft.2)) true) =
      .ok value := by
  have distinct := (isWritten.map Prod.fst).nodup_iff.mpr reads.distinct
  have collected := @collect_eq _ _ [] distinct (fun _ _ => rfl)
    fun draft isDraft => reads.checked draft (isWritten.mem_iff.mp isDraft)
  have made := reads.made written.reverse fun draft isDraft =>
    lookup_reverse distinct (isWritten.mem_iff.mpr isDraft)
  rw [Fields.decoder, collected, List.append_nil]
  exact made

/-- The record of an object whose fields, and the fields of its fields, were put into another
order. -/
theorem Reads.decoder_arranged {fields : Fields α} {arrange : Json → Json}
    (arranges : Json.Rearranges arrange) {written : List (String × Json)} {value : α}
    (reads : fields.Reads (written.map fun field => (field.1, .ofJson (arrange field.2))) value) :
    fields.decoder (.ofJson (arrange (.object written))) = .ok value := by
  have distinct : (written.map Prod.fst).Nodup := by
    have names := reads.distinct
    rwa [List.map_map] at names
  rcases arranges.object written distinct with ⟨arranged, isArranged, perm⟩
  have isWritten := perm.map fun field => (field.1, Json.Draft.ofJson field.2)
  rw [List.map_map] at isWritten
  have read := reads.decoder_object isWritten
  rw [isArranged, Json.Draft.ofJson, Json.Draft.ofFields_eq]
  rwa [List.map_map] at read

end Fields

end ReorgSync.Codec
