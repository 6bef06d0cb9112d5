import QueryEngine.Model.Serial

/-! # The types of a Parquet file's metadata (format.rs)

One structure for each struct and one inductive type for each union, with the table of its
serialiser: the number, the name and the type of every field, and the path that is reported when a
required one is missing. A double stands for its bits.
-/
namespace QueryEngine.ParquetParser
set_option autoImplicit false
set_option maxHeartbeats 250000

/-! ## Enumerations -/

/-- A newtype over the code, some of whose values have names. -/
structure Enumeration (name : String) (constants : List Int32) where
  code : Int32
  deriving DecidableEq

namespace Enumeration
variable {name : String} {constants : List Int32}

/-- `From<i32>`. -/
def fromI32 (i : Int32) : Enumeration name constants :=
  match constants.find? (· == i) with
  | some constant => ⟨constant⟩
  | none => ⟨i⟩

theorem fromI32_eq (i : Int32) : (fromI32 i : Enumeration name constants) = ⟨i⟩ := by
  unfold fromI32
  cases h : constants.find? (· == i) with
  | none => rfl
  | some constant =>
    have heq := List.find?_some h
    rw [beq_iff_eq] at heq
    rw [heq]

def serial : Serial (Enumeration name constants) :=
  .enumeration fromI32 code fun a => fromI32_eq a.code

end Enumeration

/-- `Type`. -/
abbrev ParquetType := Enumeration "Type" [0, 1, 2, 3, 4, 5, 6, 7]

abbrev ConvertedType := Enumeration "ConvertedType"
  [0, 1, 2, 3, 4, 5, 6, 7, 8, 9, 10, 11, 12, 13, 14, 15, 16, 17, 18, 19, 20, 21]

abbrev FieldRepetitionType := Enumeration "FieldRepetitionType" [0, 1, 2]

abbrev EdgeInterpolationAlgorithm := Enumeration "EdgeInterpolationAlgorithm" [0, 1, 2, 3, 4]

abbrev Encoding := Enumeration "Encoding" [0, 2, 3, 4, 5, 6, 7, 8, 9]

abbrev CompressionCodec := Enumeration "CompressionCodec" [0, 1, 2, 3, 4, 5, 6, 7]

abbrev PageType := Enumeration "PageType" [0, 1, 2, 3]

abbrev BoundaryOrder := Enumeration "BoundaryOrder" [0, 1, 2]

/-! ## Statistics -/

structure SizeStatistics where
  unencodedByteArrayDataBytes : Option Int64
  repetitionLevelHistogram : Option (List Int64)
  definitionLevelHistogram : Option (List Int64)

def SizeStatistics.serial : Serial SizeStatistics := .struct "SizeStatistics"
  (.optional 1 "unencoded_byte_array_data_bytes" .i64 <|
   .optional 2 "repetition_level_histogram" (.vec false .i64) <|
   .optional 3 "definition_level_histogram" (.vec false .i64) <|
   .nil)
  (fun s => (s.unencodedByteArrayDataBytes, s.repetitionLevelHistogram,
    s.definitionLevelHistogram, ()))
  (fun (f1, f2, f3, ()) => ⟨f1, f2, f3⟩)
  fun _ => rfl

structure BoundingBox where
  xmin : UInt64
  xmax : UInt64
  ymin : UInt64
  ymax : UInt64
  zmin : Option UInt64
  zmax : Option UInt64
  mmin : Option UInt64
  mmax : Option UInt64

def BoundingBox.serial : Serial BoundingBox := .struct "BoundingBox"
  (.required 1 "xmin" "BoundingBox.xmin" .double <|
   .required 2 "xmax" "BoundingBox.xmax" .double <|
   .required 3 "ymin" "BoundingBox.ymin" .double <|
   .required 4 "ymax" "BoundingBox.ymax" .double <|
   .optional 5 "zmin" .double <|
   .optional 6 "zmax" .double <|
   .optional 7 "mmin" .double <|
   .optional 8 "mmax" .double <|
   .nil)
  (fun s => (s.xmin, s.xmax, s.ymin, s.ymax, s.zmin, s.zmax, s.mmin, s.mmax, ()))
  (fun (f1, f2, f3, f4, f5, f6, f7, f8, ()) => ⟨f1, f2, f3, f4, f5, f6, f7, f8⟩)
  fun _ => rfl

structure GeospatialStatistics where
  bbox : Option BoundingBox
  geospatialTypes : Option (List Int32)

def GeospatialStatistics.serial : Serial GeospatialStatistics := .struct "GeospatialStatistics"
  (.optional 1 "bbox" BoundingBox.serial <|
   .optional 2 "geospatial_types" (.vec false .i32) <|
   .nil)
  (fun s => (s.bbox, s.geospatialTypes, ()))
  (fun (f1, f2, ()) => ⟨f1, f2⟩)
  fun _ => rfl

structure Statistics where
  max : Option (List UInt8)
  min : Option (List UInt8)
  nullCount : Option Int64
  distinctCount : Option Int64
  maxValue : Option (List UInt8)
  minValue : Option (List UInt8)
  isMaxValueExact : Option Bool
  isMinValueExact : Option Bool

def Statistics.serial : Serial Statistics := .struct "Statistics"
  (.optional 1 "max" .bytes <|
   .optional 2 "min" .bytes <|
   .optional 3 "null_count" .i64 <|
   .optional 4 "distinct_count" .i64 <|
   .optional 5 "max_value" .bytes <|
   .optional 6 "min_value" .bytes <|
   .optional 7 "is_max_value_exact" .bool <|
   .optional 8 "is_min_value_exact" .bool <|
   .nil)
  (fun s => (s.max, s.min, s.nullCount, s.distinctCount, s.maxValue, s.minValue,
    s.isMaxValueExact, s.isMinValueExact, ()))
  (fun (f1, f2, f3, f4, f5, f6, f7, f8, ()) => ⟨f1, f2, f3, f4, f5, f6, f7, f8⟩)
  fun _ => rfl

/-! ## Logical types -/

structure StringType where

def StringType.serial : Serial StringType := .marker "StringType" ⟨⟩ fun _ => rfl

structure UUIDType where

def UUIDType.serial : Serial UUIDType := .marker "UUIDType" ⟨⟩ fun _ => rfl

structure MapType where

def MapType.serial : Serial MapType := .marker "MapType" ⟨⟩ fun _ => rfl

structure ListType where

def ListType.serial : Serial ListType := .marker "ListType" ⟨⟩ fun _ => rfl

structure EnumType where

def EnumType.serial : Serial EnumType := .marker "EnumType" ⟨⟩ fun _ => rfl

structure DateType where

def DateType.serial : Serial DateType := .marker "DateType" ⟨⟩ fun _ => rfl

structure Float16Type where

def Float16Type.serial : Serial Float16Type := .marker "Float16Type" ⟨⟩ fun _ => rfl

structure NullType where

def NullType.serial : Serial NullType := .marker "NullType" ⟨⟩ fun _ => rfl

structure DecimalType where
  scale : Int32
  precision : Int32

def DecimalType.serial : Serial DecimalType := .struct "DecimalType"
  (.required 1 "scale" "DecimalType.scale" .i32 <|
   .required 2 "precision" "DecimalType.precision" .i32 <|
   .nil)
  (fun s => (s.scale, s.precision, ()))
  (fun (f1, f2, ()) => ⟨f1, f2⟩)
  fun _ => rfl

structure MilliSeconds where

def MilliSeconds.serial : Serial MilliSeconds := .marker "MilliSeconds" ⟨⟩ fun _ => rfl

structure MicroSeconds where

def MicroSeconds.serial : Serial MicroSeconds := .marker "MicroSeconds" ⟨⟩ fun _ => rfl

structure NanoSeconds where

def NanoSeconds.serial : Serial NanoSeconds := .marker "NanoSeconds" ⟨⟩ fun _ => rfl

inductive TimeUnit
  | MILLIS (f : MilliSeconds)
  | MICROS (f : MicroSeconds)
  | NANOS (f : NanoSeconds)

def TimeUnit.serial : Serial TimeUnit := .union "TimeUnit"
  (.cons 1 "MILLIS" MilliSeconds.serial .MILLIS (fun | .MILLIS f => some f | _ => none) <|
   .cons 2 "MICROS" MicroSeconds.serial .MICROS (fun | .MICROS f => some f | _ => none) <|
   .cons 3 "NANOS" NanoSeconds.serial .NANOS (fun | .NANOS f => some f | _ => none) <|
   .nil)
  fun u => by cases u <;> rfl

structure TimestampType where
  isAdjustedToUTC : Bool
  unit : TimeUnit

def TimestampType.serial : Serial TimestampType := .struct "TimestampType"
  (.required 1 "isAdjustedToUTC" "TimestampType.is_adjusted_to_u_t_c" .bool <|
   .required 2 "unit" "TimestampType.unit" TimeUnit.serial <|
   .nil)
  (fun s => (s.isAdjustedToUTC, s.unit, ()))
  (fun (f1, f2, ()) => ⟨f1, f2⟩)
  fun _ => rfl

structure TimeType where
  isAdjustedToUTC : Bool
  unit : TimeUnit

def TimeType.serial : Serial TimeType := .struct "TimeType"
  (.required 1 "isAdjustedToUTC" "TimeType.is_adjusted_to_u_t_c" .bool <|
   .required 2 "unit" "TimeType.unit" TimeUnit.serial <|
   .nil)
  (fun s => (s.isAdjustedToUTC, s.unit, ()))
  (fun (f1, f2, ()) => ⟨f1, f2⟩)
  fun _ => rfl

structure IntType where
  bitWidth : Int8
  isSigned : Bool

def IntType.serial : Serial IntType := .struct "IntType"
  (.required 1 "bitWidth" "IntType.bit_width" .i8 <|
   .required 2 "isSigned" "IntType.is_signed" .bool <|
   .nil)
  (fun s => (s.bitWidth, s.isSigned, ()))
  (fun (f1, f2, ()) => ⟨f1, f2⟩)
  fun _ => rfl

structure JsonType where

def JsonType.serial : Serial JsonType := .marker "JsonType" ⟨⟩ fun _ => rfl

structure BsonType where

def BsonType.serial : Serial BsonType := .marker "BsonType" ⟨⟩ fun _ => rfl

structure VariantType where
  specificationVersion : Option Int8

def VariantType.serial : Serial VariantType := .struct "VariantType"
  (.optional 1 "specification_version" .i8 <|
   .nil)
  (fun s => (s.specificationVersion, ()))
  (fun (f1, ()) => ⟨f1⟩)
  fun _ => rfl

structure GeometryType where
  crs : Option String

def GeometryType.serial : Serial GeometryType := .struct "GeometryType"
  (.optional 1 "crs" .string <|
   .nil)
  (fun s => (s.crs, ()))
  (fun (f1, ()) => ⟨f1⟩)
  fun _ => rfl

structure GeographyType where
  crs : Option String
  algorithm : Option EdgeInterpolationAlgorithm

def GeographyType.serial : Serial GeographyType := .struct "GeographyType"
  (.optional 1 "crs" .string <|
   .optional 2 "algorithm" Enumeration.serial <|
   .nil)
  (fun s => (s.crs, s.algorithm, ()))
  (fun (f1, f2, ()) => ⟨f1, f2⟩)
  fun _ => rfl

inductive LogicalType
  | STRING (f : StringType)
  | MAP (f : MapType)
  | LIST (f : ListType)
  | ENUM (f : EnumType)
  | DECIMAL (f : DecimalType)
  | DATE (f : DateType)
  | TIME (f : TimeType)
  | TIMESTAMP (f : TimestampType)
  | INTEGER (f : IntType)
  | UNKNOWN (f : NullType)
  | JSON (f : JsonType)
  | BSON (f : BsonType)
  | UUID (f : UUIDType)
  | FLOAT16 (f : Float16Type)
  | VARIANT (f : VariantType)
  | GEOMETRY (f : GeometryType)
  | GEOGRAPHY (f : GeographyType)

def LogicalType.serial : Serial LogicalType := .union "LogicalType"
  (.cons 1 "STRING" StringType.serial .STRING (fun | .STRING f => some f | _ => none) <|
   .cons 2 "MAP" MapType.serial .MAP (fun | .MAP f => some f | _ => none) <|
   .cons 3 "LIST" ListType.serial .LIST (fun | .LIST f => some f | _ => none) <|
   .cons 4 "ENUM" EnumType.serial .ENUM (fun | .ENUM f => some f | _ => none) <|
   .cons 5 "DECIMAL" DecimalType.serial .DECIMAL (fun | .DECIMAL f => some f | _ => none) <|
   .cons 6 "DATE" DateType.serial .DATE (fun | .DATE f => some f | _ => none) <|
   .cons 7 "TIME" TimeType.serial .TIME (fun | .TIME f => some f | _ => none) <|
   .cons 8 "TIMESTAMP" TimestampType.serial .TIMESTAMP (fun | .TIMESTAMP f => some f | _ => none) <|
   .cons 10 "INTEGER" IntType.serial .INTEGER (fun | .INTEGER f => some f | _ => none) <|
   .cons 11 "UNKNOWN" NullType.serial .UNKNOWN (fun | .UNKNOWN f => some f | _ => none) <|
   .cons 12 "JSON" JsonType.serial .JSON (fun | .JSON f => some f | _ => none) <|
   .cons 13 "BSON" BsonType.serial .BSON (fun | .BSON f => some f | _ => none) <|
   .cons 14 "UUID" UUIDType.serial .UUID (fun | .UUID f => some f | _ => none) <|
   .cons 15 "FLOAT16" Float16Type.serial .FLOAT16 (fun | .FLOAT16 f => some f | _ => none) <|
   .cons 16 "VARIANT" VariantType.serial .VARIANT (fun | .VARIANT f => some f | _ => none) <|
   .cons 17 "GEOMETRY" GeometryType.serial .GEOMETRY (fun | .GEOMETRY f => some f | _ => none) <|
   .cons 18 "GEOGRAPHY" GeographyType.serial .GEOGRAPHY
      (fun | .GEOGRAPHY f => some f | _ => none) <|
   .nil)
  fun u => by cases u <;> rfl

/-! ## The schema -/

structure SchemaElement where
  type_ : Option ParquetType
  typeLength : Option Int32
  repetitionType : Option FieldRepetitionType
  name : String
  numChildren : Option Int32
  convertedType : Option ConvertedType
  scale : Option Int32
  precision : Option Int32
  fieldId : Option Int32
  logicalType : Option LogicalType

def SchemaElement.serial : Serial SchemaElement := .struct "SchemaElement"
  (.optional 1 "type" Enumeration.serial <|
   .optional 2 "type_length" .i32 <|
   .optional 3 "repetition_type" Enumeration.serial <|
   .required 4 "name" "SchemaElement.name" .string <|
   .optional 5 "num_children" .i32 <|
   .optional 6 "converted_type" Enumeration.serial <|
   .optional 7 "scale" .i32 <|
   .optional 8 "precision" .i32 <|
   .optional 9 "field_id" .i32 <|
   .optional 10 "logicalType" LogicalType.serial <|
   .nil)
  (fun s => (s.type_, s.typeLength, s.repetitionType, s.name, s.numChildren, s.convertedType,
    s.scale, s.precision, s.fieldId, s.logicalType, ()))
  (fun (f1, f2, f3, f4, f5, f6, f7, f8, f9, f10, ()) => ⟨f1, f2, f3, f4, f5, f6, f7, f8, f9, f10⟩)
  fun _ => rfl

/-! ## Pages -/

structure DataPageHeader where
  numValues : Int32
  encoding : Encoding
  definitionLevelEncoding : Encoding
  repetitionLevelEncoding : Encoding
  statistics : Option Statistics

def DataPageHeader.serial : Serial DataPageHeader := .struct "DataPageHeader"
  (.required 1 "num_values" "DataPageHeader.num_values" .i32 <|
   .required 2 "encoding" "DataPageHeader.encoding" Enumeration.serial <|
   .required 3 "definition_level_encoding" "DataPageHeader.definition_level_encoding"
      Enumeration.serial <|
   .required 4 "repetition_level_encoding" "DataPageHeader.repetition_level_encoding"
      Enumeration.serial <|
   .optional 5 "statistics" Statistics.serial <|
   .nil)
  (fun s => (s.numValues, s.encoding, s.definitionLevelEncoding, s.repetitionLevelEncoding,
    s.statistics, ()))
  (fun (f1, f2, f3, f4, f5, ()) => ⟨f1, f2, f3, f4, f5⟩)
  fun _ => rfl

structure IndexPageHeader where

def IndexPageHeader.serial : Serial IndexPageHeader := .marker "IndexPageHeader" ⟨⟩ fun _ => rfl

structure DictionaryPageHeader where
  numValues : Int32
  encoding : Encoding
  isSorted : Option Bool

def DictionaryPageHeader.serial : Serial DictionaryPageHeader := .struct "DictionaryPageHeader"
  (.required 1 "num_values" "DictionaryPageHeader.num_values" .i32 <|
   .required 2 "encoding" "DictionaryPageHeader.encoding" Enumeration.serial <|
   .optional 3 "is_sorted" .bool <|
   .nil)
  (fun s => (s.numValues, s.encoding, s.isSorted, ()))
  (fun (f1, f2, f3, ()) => ⟨f1, f2, f3⟩)
  fun _ => rfl

structure DataPageHeaderV2 where
  numValues : Int32
  numNulls : Int32
  numRows : Int32
  encoding : Encoding
  definitionLevelsByteLength : Int32
  repetitionLevelsByteLength : Int32
  isCompressed : Option Bool
  statistics : Option Statistics

def DataPageHeaderV2.serial : Serial DataPageHeaderV2 := .struct "DataPageHeaderV2"
  (.required 1 "num_values" "DataPageHeaderV2.num_values" .i32 <|
   .required 2 "num_nulls" "DataPageHeaderV2.num_nulls" .i32 <|
   .required 3 "num_rows" "DataPageHeaderV2.num_rows" .i32 <|
   .required 4 "encoding" "DataPageHeaderV2.encoding" Enumeration.serial <|
   .required 5 "definition_levels_byte_length" "DataPageHeaderV2.definition_levels_byte_length"
      .i32 <|
   .required 6 "repetition_levels_byte_length" "DataPageHeaderV2.repetition_levels_byte_length"
      .i32 <|
   .optional 7 "is_compressed" .bool <|
   .optional 8 "statistics" Statistics.serial <|
   .nil)
  (fun s => (s.numValues, s.numNulls, s.numRows, s.encoding, s.definitionLevelsByteLength,
    s.repetitionLevelsByteLength, s.isCompressed, s.statistics, ()))
  (fun (f1, f2, f3, f4, f5, f6, f7, f8, ()) => ⟨f1, f2, f3, f4, f5, f6, f7, f8⟩)
  fun _ => rfl

structure PageHeader where
  type_ : PageType
  uncompressedPageSize : Int32
  compressedPageSize : Int32
  crc : Option Int32
  dataPageHeader : Option DataPageHeader
  indexPageHeader : Option IndexPageHeader
  dictionaryPageHeader : Option DictionaryPageHeader
  dataPageHeaderV2 : Option DataPageHeaderV2

def PageHeader.serial : Serial PageHeader := .struct "PageHeader"
  (.required 1 "type" "PageHeader.type_" Enumeration.serial <|
   .required 2 "uncompressed_page_size" "PageHeader.uncompressed_page_size" .i32 <|
   .required 3 "compressed_page_size" "PageHeader.compressed_page_size" .i32 <|
   .optional 4 "crc" .i32 <|
   .optional 5 "data_page_header" DataPageHeader.serial <|
   .optional 6 "index_page_header" IndexPageHeader.serial <|
   .optional 7 "dictionary_page_header" DictionaryPageHeader.serial <|
   .optional 8 "data_page_header_v2" DataPageHeaderV2.serial <|
   .nil)
  (fun s => (s.type_, s.uncompressedPageSize, s.compressedPageSize, s.crc, s.dataPageHeader,
    s.indexPageHeader, s.dictionaryPageHeader, s.dataPageHeaderV2, ()))
  (fun (f1, f2, f3, f4, f5, f6, f7, f8, ()) => ⟨f1, f2, f3, f4, f5, f6, f7, f8⟩)
  fun _ => rfl

/-! ## Bloom filters -/

structure SplitBlockAlgorithm where

def SplitBlockAlgorithm.serial : Serial SplitBlockAlgorithm :=
  .marker "SplitBlockAlgorithm" ⟨⟩ fun _ => rfl

inductive BloomFilterAlgorithm
  | BLOCK (f : SplitBlockAlgorithm)

def BloomFilterAlgorithm.serial : Serial BloomFilterAlgorithm := .union "BloomFilterAlgorithm"
  (.cons 1 "BLOCK" SplitBlockAlgorithm.serial .BLOCK (fun | .BLOCK f => some f) <|
   .nil)
  fun u => by cases u; rfl

structure XxHash where

def XxHash.serial : Serial XxHash := .marker "XxHash" ⟨⟩ fun _ => rfl

inductive BloomFilterHash
  | XXHASH (f : XxHash)

def BloomFilterHash.serial : Serial BloomFilterHash := .union "BloomFilterHash"
  (.cons 1 "XXHASH" XxHash.serial .XXHASH (fun | .XXHASH f => some f) <|
   .nil)
  fun u => by cases u; rfl

structure Uncompressed where

def Uncompressed.serial : Serial Uncompressed := .marker "Uncompressed" ⟨⟩ fun _ => rfl

inductive BloomFilterCompression
  | UNCOMPRESSED (f : Uncompressed)

def BloomFilterCompression.serial : Serial BloomFilterCompression := .union "BloomFilterCompression"
  (.cons 1 "UNCOMPRESSED" Uncompressed.serial .UNCOMPRESSED (fun | .UNCOMPRESSED f => some f) <|
   .nil)
  fun u => by cases u; rfl

structure BloomFilterHeader where
  numBytes : Int32
  algorithm : BloomFilterAlgorithm
  hash : BloomFilterHash
  compression : BloomFilterCompression

def BloomFilterHeader.serial : Serial BloomFilterHeader := .struct "BloomFilterHeader"
  (.required 1 "numBytes" "BloomFilterHeader.num_bytes" .i32 <|
   .required 2 "algorithm" "BloomFilterHeader.algorithm" BloomFilterAlgorithm.serial <|
   .required 3 "hash" "BloomFilterHeader.hash" BloomFilterHash.serial <|
   .required 4 "compression" "BloomFilterHeader.compression" BloomFilterCompression.serial <|
   .nil)
  (fun s => (s.numBytes, s.algorithm, s.hash, s.compression, ()))
  (fun (f1, f2, f3, f4, ()) => ⟨f1, f2, f3, f4⟩)
  fun _ => rfl

/-! ## Column chunks and row groups -/

structure KeyValue where
  key : String
  value : Option String

def KeyValue.serial : Serial KeyValue := .struct "KeyValue"
  (.required 1 "key" "KeyValue.key" .string <|
   .optional 2 "value" .string <|
   .nil)
  (fun s => (s.key, s.value, ()))
  (fun (f1, f2, ()) => ⟨f1, f2⟩)
  fun _ => rfl

structure SortingColumn where
  columnIdx : Int32
  descending : Bool
  nullsFirst : Bool

def SortingColumn.serial : Serial SortingColumn := .struct "SortingColumn"
  (.required 1 "column_idx" "SortingColumn.column_idx" .i32 <|
   .required 2 "descending" "SortingColumn.descending" .bool <|
   .required 3 "nulls_first" "SortingColumn.nulls_first" .bool <|
   .nil)
  (fun s => (s.columnIdx, s.descending, s.nullsFirst, ()))
  (fun (f1, f2, f3, ()) => ⟨f1, f2, f3⟩)
  fun _ => rfl

structure PageEncodingStats where
  pageType : PageType
  encoding : Encoding
  count : Int32

def PageEncodingStats.serial : Serial PageEncodingStats := .struct "PageEncodingStats"
  (.required 1 "page_type" "PageEncodingStats.page_type" Enumeration.serial <|
   .required 2 "encoding" "PageEncodingStats.encoding" Enumeration.serial <|
   .required 3 "count" "PageEncodingStats.count" .i32 <|
   .nil)
  (fun s => (s.pageType, s.encoding, s.count, ()))
  (fun (f1, f2, f3, ()) => ⟨f1, f2, f3⟩)
  fun _ => rfl

structure ColumnMetaData where
  type_ : ParquetType
  encodings : List Encoding
  pathInSchema : List String
  codec : CompressionCodec
  numValues : Int64
  totalUncompressedSize : Int64
  totalCompressedSize : Int64
  keyValueMetadata : Option (List KeyValue)
  dataPageOffset : Int64
  indexPageOffset : Option Int64
  dictionaryPageOffset : Option Int64
  statistics : Option Statistics
  encodingStats : Option (List PageEncodingStats)
  bloomFilterOffset : Option Int64
  bloomFilterLength : Option Int32
  sizeStatistics : Option SizeStatistics
  geospatialStatistics : Option GeospatialStatistics

def ColumnMetaData.serial : Serial ColumnMetaData := .struct "ColumnMetaData"
  (.required 1 "type" "ColumnMetaData.type_" Enumeration.serial <|
   .required 2 "encodings" "ColumnMetaData.encodings" (.vec false Enumeration.serial) <|
   .required 3 "path_in_schema" "ColumnMetaData.path_in_schema" (.vec false .string) <|
   .required 4 "codec" "ColumnMetaData.codec" Enumeration.serial <|
   .required 5 "num_values" "ColumnMetaData.num_values" .i64 <|
   .required 6 "total_uncompressed_size" "ColumnMetaData.total_uncompressed_size" .i64 <|
   .required 7 "total_compressed_size" "ColumnMetaData.total_compressed_size" .i64 <|
   .optional 8 "key_value_metadata" (.vec false KeyValue.serial) <|
   .required 9 "data_page_offset" "ColumnMetaData.data_page_offset" .i64 <|
   .optional 10 "index_page_offset" .i64 <|
   .optional 11 "dictionary_page_offset" .i64 <|
   .optional 12 "statistics" Statistics.serial <|
   .optional 13 "encoding_stats" (.vec false PageEncodingStats.serial) <|
   .optional 14 "bloom_filter_offset" .i64 <|
   .optional 15 "bloom_filter_length" .i32 <|
   .optional 16 "size_statistics" SizeStatistics.serial <|
   .optional 17 "geospatial_statistics" GeospatialStatistics.serial <|
   .nil)
  (fun s => (s.type_, s.encodings, s.pathInSchema, s.codec, s.numValues, s.totalUncompressedSize,
    s.totalCompressedSize, s.keyValueMetadata, s.dataPageOffset, s.indexPageOffset,
    s.dictionaryPageOffset, s.statistics, s.encodingStats, s.bloomFilterOffset,
    s.bloomFilterLength, s.sizeStatistics, s.geospatialStatistics, ()))
  (fun (f1, f2, f3, f4, f5, f6, f7, f8, f9, f10, f11, f12, f13, f14, f15, f16, f17, ()) => ⟨f1,
    f2, f3, f4, f5, f6, f7, f8, f9, f10, f11, f12, f13, f14, f15, f16, f17⟩)
  fun _ => rfl

structure EncryptionWithFooterKey where

def EncryptionWithFooterKey.serial : Serial EncryptionWithFooterKey :=
  .marker "EncryptionWithFooterKey" ⟨⟩ fun _ => rfl

structure EncryptionWithColumnKey where
  pathInSchema : List String
  keyMetadata : Option (List UInt8)

def EncryptionWithColumnKey.serial : Serial EncryptionWithColumnKey :=
  .struct "EncryptionWithColumnKey"
  (.required 1 "path_in_schema" "EncryptionWithColumnKey.path_in_schema" (.vec false .string) <|
   .optional 2 "key_metadata" .bytes <|
   .nil)
  (fun s => (s.pathInSchema, s.keyMetadata, ()))
  (fun (f1, f2, ()) => ⟨f1, f2⟩)
  fun _ => rfl

inductive ColumnCryptoMetaData
  | ENCRYPTIONWITHFOOTERKEY (f : EncryptionWithFooterKey)
  | ENCRYPTIONWITHCOLUMNKEY (f : EncryptionWithColumnKey)

def ColumnCryptoMetaData.serial : Serial ColumnCryptoMetaData := .union "ColumnCryptoMetaData"
  (.cons 1 "ENCRYPTION_WITH_FOOTER_KEY" EncryptionWithFooterKey.serial .ENCRYPTIONWITHFOOTERKEY
      (fun | .ENCRYPTIONWITHFOOTERKEY f => some f | _ => none) <|
   .cons 2 "ENCRYPTION_WITH_COLUMN_KEY" EncryptionWithColumnKey.serial .ENCRYPTIONWITHCOLUMNKEY
      (fun | .ENCRYPTIONWITHCOLUMNKEY f => some f | _ => none) <|
   .nil)
  fun u => by cases u <;> rfl

structure ColumnChunk where
  filePath : Option String
  fileOffset : Int64
  metaData : Option ColumnMetaData
  offsetIndexOffset : Option Int64
  offsetIndexLength : Option Int32
  columnIndexOffset : Option Int64
  columnIndexLength : Option Int32
  cryptoMetadata : Option ColumnCryptoMetaData
  encryptedColumnMetadata : Option (List UInt8)

def ColumnChunk.serial : Serial ColumnChunk := .struct "ColumnChunk"
  (.optional 1 "file_path" .string <|
   .required 2 "file_offset" "ColumnChunk.file_offset" .i64 <|
   .optional 3 "meta_data" ColumnMetaData.serial <|
   .optional 4 "offset_index_offset" .i64 <|
   .optional 5 "offset_index_length" .i32 <|
   .optional 6 "column_index_offset" .i64 <|
   .optional 7 "column_index_length" .i32 <|
   .optional 8 "crypto_metadata" ColumnCryptoMetaData.serial <|
   .optional 9 "encrypted_column_metadata" .bytes <|
   .nil)
  (fun s => (s.filePath, s.fileOffset, s.metaData, s.offsetIndexOffset, s.offsetIndexLength,
    s.columnIndexOffset, s.columnIndexLength, s.cryptoMetadata, s.encryptedColumnMetadata, ()))
  (fun (f1, f2, f3, f4, f5, f6, f7, f8, f9, ()) => ⟨f1, f2, f3, f4, f5, f6, f7, f8, f9⟩)
  fun _ => rfl

structure RowGroup where
  columns : List ColumnChunk
  totalByteSize : Int64
  numRows : Int64
  sortingColumns : Option (List SortingColumn)
  fileOffset : Option Int64
  totalCompressedSize : Option Int64
  ordinal : Option Int16

def RowGroup.serial : Serial RowGroup := .struct "RowGroup"
  (.required 1 "columns" "RowGroup.columns" (.vec false ColumnChunk.serial) <|
   .required 2 "total_byte_size" "RowGroup.total_byte_size" .i64 <|
   .required 3 "num_rows" "RowGroup.num_rows" .i64 <|
   .optional 4 "sorting_columns" (.vec false SortingColumn.serial) <|
   .optional 5 "file_offset" .i64 <|
   .optional 6 "total_compressed_size" .i64 <|
   .optional 7 "ordinal" .i16 <|
   .nil)
  (fun s => (s.columns, s.totalByteSize, s.numRows, s.sortingColumns, s.fileOffset,
    s.totalCompressedSize, s.ordinal, ()))
  (fun (f1, f2, f3, f4, f5, f6, f7, ()) => ⟨f1, f2, f3, f4, f5, f6, f7⟩)
  fun _ => rfl

structure TypeDefinedOrder where

def TypeDefinedOrder.serial : Serial TypeDefinedOrder := .marker "TypeDefinedOrder" ⟨⟩ fun _ => rfl

inductive ColumnOrder
  | TYPEORDER (f : TypeDefinedOrder)

def ColumnOrder.serial : Serial ColumnOrder := .union "ColumnOrder"
  (.cons 1 "TYPE_ORDER" TypeDefinedOrder.serial .TYPEORDER (fun | .TYPEORDER f => some f) <|
   .nil)
  fun u => by cases u; rfl

/-! ## Page indexes -/

structure PageLocation where
  offset : Int64
  compressedPageSize : Int32
  firstRowIndex : Int64

def PageLocation.serial : Serial PageLocation := .struct "PageLocation"
  (.required 1 "offset" "PageLocation.offset" .i64 <|
   .required 2 "compressed_page_size" "PageLocation.compressed_page_size" .i32 <|
   .required 3 "first_row_index" "PageLocation.first_row_index" .i64 <|
   .nil)
  (fun s => (s.offset, s.compressedPageSize, s.firstRowIndex, ()))
  (fun (f1, f2, f3, ()) => ⟨f1, f2, f3⟩)
  fun _ => rfl

structure OffsetIndex where
  pageLocations : List PageLocation
  unencodedByteArrayDataBytes : Option (List Int64)

def OffsetIndex.serial : Serial OffsetIndex := .struct "OffsetIndex"
  (.required 1 "page_locations" "OffsetIndex.page_locations" (.vec false PageLocation.serial) <|
   .optional 2 "unencoded_byte_array_data_bytes" (.vec false .i64) <|
   .nil)
  (fun s => (s.pageLocations, s.unencodedByteArrayDataBytes, ()))
  (fun (f1, f2, ()) => ⟨f1, f2⟩)
  fun _ => rfl

structure ColumnIndex where
  nullPages : List Bool
  minValues : List (List UInt8)
  maxValues : List (List UInt8)
  boundaryOrder : BoundaryOrder
  nullCounts : Option (List Int64)
  repetitionLevelHistograms : Option (List Int64)
  definitionLevelHistograms : Option (List Int64)

def ColumnIndex.serial : Serial ColumnIndex := .struct "ColumnIndex"
  (.required 1 "null_pages" "ColumnIndex.null_pages" (.vec false .bool) <|
   .required 2 "min_values" "ColumnIndex.min_values" (.vec false .bytes) <|
   .required 3 "max_values" "ColumnIndex.max_values" (.vec false .bytes) <|
   .required 4 "boundary_order" "ColumnIndex.boundary_order" Enumeration.serial <|
   .optional 5 "null_counts" (.vec false .i64) <|
   .optional 6 "repetition_level_histograms" (.vec false .i64) <|
   .optional 7 "definition_level_histograms" (.vec false .i64) <|
   .nil)
  (fun s => (s.nullPages, s.minValues, s.maxValues, s.boundaryOrder, s.nullCounts,
    s.repetitionLevelHistograms, s.definitionLevelHistograms, ()))
  (fun (f1, f2, f3, f4, f5, f6, f7, ()) => ⟨f1, f2, f3, f4, f5, f6, f7⟩)
  fun _ => rfl

/-! ## Files -/

structure AesGcmV1 where
  aadPrefix : Option (List UInt8)
  aadFileUnique : Option (List UInt8)
  supplyAadPrefix : Option Bool

def AesGcmV1.serial : Serial AesGcmV1 := .struct "AesGcmV1"
  (.optional 1 "aad_prefix" .bytes <|
   .optional 2 "aad_file_unique" .bytes <|
   .optional 3 "supply_aad_prefix" .bool <|
   .nil)
  (fun s => (s.aadPrefix, s.aadFileUnique, s.supplyAadPrefix, ()))
  (fun (f1, f2, f3, ()) => ⟨f1, f2, f3⟩)
  fun _ => rfl

structure AesGcmCtrV1 where
  aadPrefix : Option (List UInt8)
  aadFileUnique : Option (List UInt8)
  supplyAadPrefix : Option Bool

def AesGcmCtrV1.serial : Serial AesGcmCtrV1 := .struct "AesGcmCtrV1"
  (.optional 1 "aad_prefix" .bytes <|
   .optional 2 "aad_file_unique" .bytes <|
   .optional 3 "supply_aad_prefix" .bool <|
   .nil)
  (fun s => (s.aadPrefix, s.aadFileUnique, s.supplyAadPrefix, ()))
  (fun (f1, f2, f3, ()) => ⟨f1, f2, f3⟩)
  fun _ => rfl

inductive EncryptionAlgorithm
  | AESGCMV1 (f : AesGcmV1)
  | AESGCMCTRV1 (f : AesGcmCtrV1)

def EncryptionAlgorithm.serial : Serial EncryptionAlgorithm := .union "EncryptionAlgorithm"
  (.cons 1 "AES_GCM_V1" AesGcmV1.serial .AESGCMV1 (fun | .AESGCMV1 f => some f | _ => none) <|
   .cons 2 "AES_GCM_CTR_V1" AesGcmCtrV1.serial .AESGCMCTRV1
      (fun | .AESGCMCTRV1 f => some f | _ => none) <|
   .nil)
  fun u => by cases u <;> rfl

structure FileMetaData where
  version : Int32
  schema : List SchemaElement
  numRows : Int64
  rowGroups : List RowGroup
  keyValueMetadata : Option (List KeyValue)
  createdBy : Option String
  columnOrders : Option (List ColumnOrder)
  encryptionAlgorithm : Option EncryptionAlgorithm
  footerSigningKeyMetadata : Option (List UInt8)

def FileMetaData.serial : Serial FileMetaData := .struct "FileMetaData"
  (.required 1 "version" "FileMetaData.version" .i32 <|
   .required 2 "schema" "FileMetaData.schema" (.vec false SchemaElement.serial) <|
   .required 3 "num_rows" "FileMetaData.num_rows" .i64 <|
   .required 4 "row_groups" "FileMetaData.row_groups" (.vec false RowGroup.serial) <|
   .optional 5 "key_value_metadata" (.vec false KeyValue.serial) <|
   .optional 6 "created_by" .string <|
   .optional 7 "column_orders" (.vec true ColumnOrder.serial) <|
   .optional 8 "encryption_algorithm" EncryptionAlgorithm.serial <|
   .optional 9 "footer_signing_key_metadata" .bytes <|
   .nil)
  (fun s => (s.version, s.schema, s.numRows, s.rowGroups, s.keyValueMetadata, s.createdBy,
    s.columnOrders, s.encryptionAlgorithm, s.footerSigningKeyMetadata, ()))
  (fun (f1, f2, f3, f4, f5, f6, f7, f8, f9, ()) => ⟨f1, f2, f3, f4, f5, f6, f7, f8, f9⟩)
  fun _ => rfl

structure FileCryptoMetaData where
  encryptionAlgorithm : EncryptionAlgorithm
  keyMetadata : Option (List UInt8)

def FileCryptoMetaData.serial : Serial FileCryptoMetaData := .struct "FileCryptoMetaData"
  (.required 1 "encryption_algorithm" "FileCryptoMetaData.encryption_algorithm"
      EncryptionAlgorithm.serial <|
   .optional 2 "key_metadata" .bytes <|
   .nil)
  (fun s => (s.encryptionAlgorithm, s.keyMetadata, ()))
  (fun (f1, f2, ()) => ⟨f1, f2⟩)
  fun _ => rfl

end QueryEngine.ParquetParser
