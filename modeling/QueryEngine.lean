import QueryEngine.Proof.Evaluator.Footprint
import QueryEngine.Proof.Evaluator.Selection
import QueryEngine.Proof.Columnar.Storage
import QueryEngine.Proof.Columnar.Window
import QueryEngine.Proof.Physical.Failures
import QueryEngine.Proof.Physical.Knowledge
import QueryEngine.Proof.Physical.PullContract
import QueryEngine.Proof.Physical.PullCount
import QueryEngine.Proof.Physical.Restating
import QueryEngine.Proof.Physical.ScanSchema
import QueryEngine.Proof.Printer.Trees
import QueryEngine.Proof.Format.Files
import QueryEngine.Proof.Lesson1
import QueryEngine.Proof.ParquetParser
import QueryEngine.Proof.Schema
