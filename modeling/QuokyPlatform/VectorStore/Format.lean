import QuokyPlatform.Foundations.Base64
import QuokyPlatform.Foundations.PlainObject
import QuokyPlatform.Foundations.Text

/-! # The file of a vector collection

One JSON file holds the records of a collection in the order they were last written. A vector is
kept in single precision: in memory by the bits of its numbers, on file as their little-endian
bytes in base64. An entry the store cannot use is skipped when a file is read. -/

namespace QuokyPlatform.VectorStore

set_option autoImplicit false
set_option maxHeartbeats 250000

/-! ## Vectors -/

/-- The exponent bits of an infinity and of a `NaN` are all set. -/
def isFinite (bits : UInt32) : Bool := bits.toNat / 8388608 % 256 != 255

def maxEmbeddingDimensions : ℕ := 8192

def isEmbeddingVector (vector : List UInt32) : Bool :=
  1 ≤ vector.length && vector.length ≤ maxEmbeddingDimensions && vector.all isFinite

def littleEndian (bits : UInt32) : List UInt8 :=
  [UInt8.ofNat bits.toNat, UInt8.ofNat (bits.toNat / 256), UInt8.ofNat (bits.toNat / 65536),
    UInt8.ofNat (bits.toNat / 16777216)]

def encodeVector (vector : List UInt32) : String :=
  String.ofList (Base64.encode (vector.flatMap littleEndian))

/-- `readFloatLE` at every fourth byte. -/
def readFloats : List UInt8 → List UInt32
  | a :: b :: c :: d :: rest =>
    UInt32.ofNat (a.toNat + b.toNat * 256 + c.toNat * 65536 + d.toNat * 16777216) ::
      readFloats rest
  | _ => []

def decodeVector (encoded : String) : Option (List UInt32) :=
  let bytes := Base64.decode encoded.toList
  if bytes.length = 0 ∨ bytes.length % 4 ≠ 0 then none
  else
    let vector := readFloats bytes
    if isEmbeddingVector vector then some vector else none

theorem readFloats_littleEndian (bits : UInt32) (rest : List UInt8) :
    readFloats (littleEndian bits ++ rest) = bits :: readFloats rest := by
  have hbits := bits.toNat_lt
  simp only [littleEndian, List.cons_append, List.nil_append, readFloats, UInt8.toNat_ofNat']
  congr 1
  have hsum : bits.toNat % 2 ^ 8 + bits.toNat / 256 % 2 ^ 8 * 256 +
      bits.toNat / 65536 % 2 ^ 8 * 65536 + bits.toNat / 16777216 % 2 ^ 8 * 16777216 =
      bits.toNat := by
    omega
  rw [hsum, UInt32.ofNat_toNat]

theorem readFloats_flatMap : ∀ vector : List UInt32,
    readFloats (vector.flatMap littleEndian) = vector
  | [] => rfl
  | bits :: rest => by
    rw [List.flatMap_cons, readFloats_littleEndian, readFloats_flatMap rest]

theorem length_flatMap_littleEndian (vector : List UInt32) :
    (vector.flatMap littleEndian).length = 4 * vector.length := by
  induction vector with
  | nil => rfl
  | cons bits rest ih =>
    rw [List.flatMap_cons, List.length_append, ih, List.length_cons]
    simp only [littleEndian, List.length_cons, List.length_nil]
    omega

/-- A vector of the recall path comes back bit for bit. -/
theorem decodeVector_encodeVector {vector : List UInt32} (h : isEmbeddingVector vector = true) :
    decodeVector (encodeVector vector) = some vector := by
  have hpos : 1 ≤ vector.length := by
    simp only [isEmbeddingVector, Bool.and_eq_true, decide_eq_true_eq] at h
    exact h.1.1
  have hlength := length_flatMap_littleEndian vector
  simp only [decodeVector, encodeVector, String.toList_ofList, Base64.decode_encode]
  rw [if_neg (by omega), readFloats_flatMap, if_pos h]

/-! ## Entries -/

structure StoredRecord where
  vector : List UInt32
  metadata : Option Json

/-- The records of a collection, the oldest-written one first. -/
abbrev Records := PlainObject String StoredRecord

def maxRecordIdLength : ℕ := 200

def isValidId (id : String) : Bool := 1 ≤ utf16Length id && utf16Length id ≤ maxRecordIdLength

def isPlainMetadata : Json → Bool
  | .obj _ => true
  | _ => false

/-- A record that is read back when it is written. -/
structure Storable (entry : String × StoredRecord) : Prop where
  id : isValidId entry.1 = true
  vector : isEmbeddingVector entry.2.vector = true
  metadata : entry.2.metadata.all isPlainMetadata = true

def entryOf (entry : String × StoredRecord) : Json :=
  .obj ([("id", .str entry.1), ("v", .str (encodeVector entry.2.vector))] ++
    match entry.2.metadata with
    | none => []
    | some metadata => [("m", metadata)])

/-- One persisted entry; `none` when it is skipped. -/
def decodeEntry (entry : Json) : Option (String × StoredRecord) := do
  let id ← (entry.field "id").bind Json.text
  let v ← (entry.field "v").bind Json.text
  if !isValidId id then none
  else if !(entry.field "m").all isPlainMetadata then none
  else return (id, { vector := ← decodeVector v, metadata := entry.field "m" })

theorem decodeEntry_entryOf {entry : String × StoredRecord} (h : Storable entry) :
    decodeEntry (entryOf entry) = some entry := by
  obtain ⟨id, vector, metadata⟩ := entry
  have hid : isValidId id = true := h.id
  have hvector : isEmbeddingVector vector = true := h.vector
  have hmetadata : metadata.all isPlainMetadata = true := h.metadata
  cases metadata with
  | none => simp [entryOf, decodeEntry, Json.field, Json.text, hid, decodeVector_encodeVector hvector]
  | some value =>
    rw [Option.all_some] at hmetadata
    simp [entryOf, decodeEntry, Json.field, Json.text, hid, hmetadata,
      decodeVector_encodeVector hvector]

theorem storable_of_decodeEntry {entry : Json} {record : String × StoredRecord}
    (h : decodeEntry entry = some record) : Storable record := by
  unfold decodeEntry at h
  obtain ⟨id, -, h⟩ := Option.bind_eq_some_iff.mp h
  obtain ⟨v, -, h⟩ := Option.bind_eq_some_iff.mp h
  split at h
  · cases h
  · rename_i hid
    split at h
    · cases h
    · rename_i hmetadata
      obtain ⟨vector, hvector, h⟩ := Option.bind_eq_some_iff.mp h
      cases h
      refine ⟨by simpa using hid, ?_, by simpa using hmetadata⟩
      unfold decodeVector at hvector
      simp only at hvector
      split at hvector
      · cases hvector
      · split at hvector
        · rename_i hok
          cases hvector
          exact hok
        · cases hvector

/-! ## Collections -/

/-- What a file holds: a JSON value, or a text that is none. -/
inductive FileText
  | json (value : Json)
  | other

def storeFormatVersion : ℤ := 1

/-- `JSON.stringify({ version, records })`. -/
def fileOf (records : Records) : FileText :=
  .json (.obj [("version", .num storeFormatVersion), ("records", .arr (records.entries.map entryOf))])

def parseCollectionEntries : FileText → Option (List Json)
  | .other => none
  | .json value =>
    match value.field "version", value.field "records" with
    | some (.num version), some (.arr records) =>
      if version = storeFormatVersion then some records else none
    | _, _ => none

/-- Writing a record moves its id to the newest position. -/
def put (records : Records) (entry : String × StoredRecord) : Records :=
  (records.delete entry.1).set entry.1 entry.2

def readEntries (entries : List Json) : Records :=
  entries.foldl (fun records entry =>
    match decodeEntry entry with
    | none => records
    | some record => put records record) PlainObject.empty

theorem entries_put (records : Records) (entry : String × StoredRecord) :
    (put records entry).entries =
      (records.entries.filter fun other => other.1 ≠ entry.1) ++ [entry] := by
  have hnew : entry.1 ∉ (records.delete entry.1).keys := by
    simp [PlainObject.keys, PlainObject.delete]
  rw [put, PlainObject.entries_set_of_not_mem entry.2 hnew]
  rfl

theorem foldl_put_entries : ∀ (entries : List (String × StoredRecord)) (records : Records),
    ((records.entries ++ entries).map Prod.fst).Nodup →
      (entries.foldl put records).entries = records.entries ++ entries
  | [], records, _ => by simp
  | entry :: rest, records, h => by
    have hfilter : (records.entries.filter fun other => other.1 ≠ entry.1) = records.entries := by
      refine List.filter_eq_self.mpr fun other hother => ?_
      rw [List.map_append, List.nodup_append] at h
      have hne := h.2.2 other.1 (List.mem_map_of_mem hother) entry.1 (by simp)
      simpa using hne
    have hput : (put records entry).entries = records.entries ++ [entry] := by
      rw [entries_put, hfilter]
    rw [List.foldl_cons, foldl_put_entries rest]
    · rw [hput, List.append_assoc]
      rfl
    · rw [hput, List.append_assoc]
      exact h

theorem ext_entries {a b : Records} (h : a.entries = b.entries) : a = b := by
  cases a
  cases b
  cases h
  rfl

/-- What the store writes is what it reads. -/
theorem readEntries_fileOf {records : Records} (h : ∀ entry ∈ records.entries, Storable entry) :
    (parseCollectionEntries (fileOf records)).map readEntries = some records := by
  have hparse : parseCollectionEntries (fileOf records) = some (records.entries.map entryOf) := by
    simp [parseCollectionEntries, fileOf, Json.field]
  have hfold : ∀ (entries : List (String × StoredRecord)) (start : Records),
      (∀ entry ∈ entries, Storable entry) →
      (entries.map entryOf).foldl (fun records entry =>
        match decodeEntry entry with
        | none => records
        | some record => put records record) start = entries.foldl put start := by
    intro entries
    induction entries with
    | nil => exact fun start _ => rfl
    | cons entry rest ih =>
      intro start hall
      rw [List.map_cons, List.foldl_cons, List.foldl_cons,
        decodeEntry_entryOf (hall entry List.mem_cons_self)]
      exact ih _ fun other hother => hall other (List.mem_cons_of_mem entry hother)
  rw [hparse, Option.map_some, readEntries, hfold _ _ h]
  congr 1
  apply ext_entries
  rw [foldl_put_entries _ _ (by simpa [PlainObject.empty] using records.distinct)]
  rfl

end QuokyPlatform.VectorStore
