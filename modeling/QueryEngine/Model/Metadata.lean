import QueryEngine.Model.ParquetFormat
import QueryEngine.Model.ParquetParser

/-! # Metadata through the generated readers (thrift.rs, file_metadata.rs)

A generated reader may panic as well as fail, and the functions that call one then do not return
either. Apart from that they do what they do with any decoder.
-/
namespace QueryEngine.ParquetParser
open Library.Thrift
set_option autoImplicit false
set_option maxHeartbeats 250000

/-- Ways not to return: a panic of this crate's arithmetic or of `bytes`, or of a generated
reader. -/
inductive Abort
  | panic (p : Panic)
  | reader (message : String)
  | fuel

/-- What `?` makes of the outcome of a generated reader. -/
def settle (display : Error → String) {α : Type} : Except Fault α → Except Abort (Result α)
  | .ok a => .ok (.ok a)
  | .error (.error e) => .ok (.error (display e))
  | .error (.panic message) => .error (.reader message)
  | .error .fuel => .error .fuel

section Metadata
variable {t : Target} (lib : BytesCrate t) (p : Protocol) (rt : Runtime) (display : Error → String)

/-- `T::read_from_in_protocol` over a cursor, with the position of the cursor. -/
def Serial.readFromCursor {α : Type} (serial : Serial α) (bs : List UInt8) :
    Except Abort (Result (α × ℕ)) :=
  settle display ((fun out => (out.1, p.position out.2)) <$>
    serial.readFromInProtocol p.i rt (p.openAt bs))

/-- `read_thrift_metadata::<T>`. -/
def Serial.readThriftMetadata {α : Type} (serial : Serial α) (data : Bytes t) :
    Except Abort (Result (α × Bytes t)) := do
  let decoded ← serial.readFromCursor p rt display data.elems
  (ParquetParser.readThriftMetadata lib (fun _ => decoded) data).mapError .panic

/-- `read_file_metadata`. -/
def FileMetaData.readFileMetadata (data : Bytes t) : Except Abort (Result FileMetaData) := do
  let block ← (metaBytes lib data).mapError .panic
  let result ← FileMetaData.serial.readThriftMetadata lib p rt display block
  return result.map Prod.fst

end Metadata

end QueryEngine.ParquetParser
