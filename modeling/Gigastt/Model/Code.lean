import Gigastt.Base
import Gigastt.Lib.Files
import Gigastt.Lib.Steps

/-!
# The model downloads of `model/mod.rs`

A download takes one file operation, or one thing that comes over the network, in a step,
so that another process or a crash can come between any two of them. `std::fs::read` and
`write_all` move their bytes in pieces. A tokio `File` queues its last write past the return of
`write_all`; here a piece is written in the step that writes it, which may come at any later time.
-/

namespace Gigastt.Model

open Files

def MODEL_FILES : List String :=
  ["v3_e2e_rnnt_encoder.onnx", "v3_e2e_rnnt_decoder.onnx", "v3_e2e_rnnt_joint.onnx",
    "v3_e2e_rnnt_vocab.txt"]

def MODEL_CHECKSUMS : List (String × Option String) :=
  [("v3_e2e_rnnt_encoder.onnx",
      some "cd60b3764a832e8560ae6d3ad0b10adc1a42ffae412b9476f25620aae4f4a508"),
    ("v3_e2e_rnnt_decoder.onnx",
      some "7b0a16d67fd2cb37061decc93c69e364a9ab27afee3c57495d55b1c974cf7231"),
    ("v3_e2e_rnnt_joint.onnx",
      some "602ff7017a93311aad34df1437c8d7f49911353c13d6eae7a6ee7b041339465c"),
    ("v3_e2e_rnnt_vocab.txt",
      some "39abae20e692998290c574e606f11a9edef2902a1995463fcff63d1490cf22b7")]

/-- `Path::join` with a file name. -/
def join (dir filename : String) : String :=
  (if dir = "" ∨ dir.back = '/' then dir else dir ++ "/") ++ filename

def partial_path (final_path : String) : String := final_path ++ ".partial"

def model_files_exist (fs : Dir String) (dir : String) : Bool :=
  MODEL_FILES.all fun f => (fs.entry (join dir f)).isSome

/-! ## One download -/

/-- The arguments of `stream_to_partial_then_finalize`. -/
structure Download where
  final_dest : String
  expected_sha256 : Option String
  label : String
deriving DecidableEq, Repr

/-- `response.bytes_stream()`: chunks, and `none` for a stream error. -/
abbrev Stream := List (Option (List UInt8))

/-- How far a download has come. -/
inductive Phase where
  | checking
  | removing
  | requesting
  | creating (stream : Stream)
  -- In the chunk loop. `chunk` is what `write_all` still has to write.
  | streaming (file : Handle) (chunk : List UInt8) (stream : Stream)
  -- In `finalize_download`, from `sha256_file` on.
  | opening (expected : String)
  | reading (expected : String) (inode : Nat) (data : List UInt8)
  | removing_corrupt (expected actual : String)
  -- Before the rename.
  | publishing
  | returned (result : Except Fault Unit)
deriving DecidableEq

def Phase.fail (contexts : List String) : Phase := .returned (.error (.err contexts))

/-- What a step meets. -/
inductive Meets where
  | ok
  | fails
  -- An HTTP status that is no success.
  | refused (status : String)
  | response (stream : Stream)
  -- The next `n` bytes of a read or a write.
  | piece (n : Nat)
deriving DecidableEq, Repr

/-- `stream_to_partial_then_finalize`, with SHA-256 as a parameter. -/
def Download.step (sha256 : List UInt8 → String) (d : Download) (fs : Dir String) :
    Phase → Meets → Option (Dir String × Phase)
  | .checking, .ok =>
    some (fs, if (fs.entry (partial_path d.final_dest)).isSome then .removing else .requesting)
  | .removing, .ok => some (fs.remove (partial_path d.final_dest), .requesting)
  -- The result of the removal is dropped.
  | .removing, .fails => some (fs, .requesting)
  | .requesting, .fails => some (fs, .fail ["HTTP request failed"])
  | .requesting, .refused status =>
    some (fs, .fail [s!"Download failed for {d.label}: HTTP {status}"])
  | .requesting, .response stream => some (fs, .creating stream)
  | .creating _, .fails => some (fs, .fail ["Failed to create partial model file"])
  | .creating stream, .ok =>
    let (fs, file) := fs.create (partial_path d.final_dest)
    some (fs, .streaming file [] stream)
  | .streaming file [] (some chunk :: stream), .ok => some (fs, .streaming file chunk stream)
  | .streaming _ [] (none :: _), .ok => some (fs, .fail ["Download stream error"])
  -- `file.flush()`
  | .streaming _ [] [], .fails => some (fs, .fail [])
  | .streaming _ [] [], .ok => some (fs, d.expected_sha256.elim .publishing .opening)
  | .streaming _ (_ :: _) _, .fails => some (fs, .fail ["Failed to write chunk"])
  | .streaming file (b :: chunk) stream, .piece (n + 1) =>
    let (fs, file) := fs.write file (b :: chunk.take n)
    some (fs, .streaming file (chunk.drop n) stream)
  | .opening expected, .ok =>
    some (fs, match fs.entry (partial_path d.final_dest) with
      | some inode => .reading expected inode []
      | none => .fail [s!"Failed to read file for verification: {partial_path d.final_dest}"])
  | .opening _, .fails | .reading .., .fails =>
    some (fs, .fail [s!"Failed to read file for verification: {partial_path d.final_dest}"])
  | .reading expected inode data, .piece (n + 1) =>
    if data.length < (fs.bytes inode).length then
      some (fs, .reading expected inode
        (data ++ ((fs.bytes inode).drop data.length).take (n + 1)))
    else none
  -- The end of the file.
  | .reading expected inode data, .ok =>
    if data.length < (fs.bytes inode).length then none
    else
      some (fs, if sha256 data = expected then .publishing
        else .removing_corrupt expected (sha256 data))
  | .removing_corrupt expected actual, meets =>
    let fail :=
      Phase.fail [s!"SHA-256 mismatch for {d.label}: expected {expected}, got {actual}"]
    match meets with
    | .ok => some (fs.remove (partial_path d.final_dest), fail)
    | .fails => some (fs, fail)
    | _ => none
  | .publishing, meets =>
    let fail := Phase.fail
      [s!"Failed to rename {partial_path d.final_dest} -> {d.final_dest}"]
    match meets with
    | .ok =>
      match fs.rename (partial_path d.final_dest) d.final_dest with
      | some fs => some (fs, .returned (.ok ()))
      | none => some (fs, fail)
    | .fails => some (fs, fail)
    | _ => none
  | _, _ => none

def download_file (checksums : List (String × Option String)) (filename dir : String) : Download :=
  { final_dest := join dir filename
    expected_sha256 := (checksums.find? fun entry => entry.1 = filename).bind (·.2)
    label := filename }

/-- What happens to a process. -/
inductive Event where
  | start
  | crash
  | step (meets : Meets)
deriving DecidableEq, Repr

/-! ## All of them -/

/-- How far `ensure_model` has come. `rest` are the files after the one it downloads. -/
inductive Ensure where
  | probing
  | making_dir
  | downloading (file : String) (rest : List String) (phase : Phase)
  | returned (result : Except Fault Unit)
deriving DecidableEq

/-- The head of the loop over the files. -/
def Ensure.next : List String → Ensure
  | [] => .returned (.ok ())
  | file :: rest => .downloading file rest .checking

/-- `download_file(file, dir).await?` -/
def Ensure.await (file : String) (rest : List String) : Phase → Ensure
  | .returned (.ok ()) => .next rest
  | .returned (.error e) => .returned (.error e)
  | phase => .downloading file rest phase

/-- `ensure_model`. In the source, `checksums` are `MODEL_CHECKSUMS`. -/
def Ensure.step (sha256 : List UInt8 → String) (checksums : List (String × Option String))
    (dir : String) (fs : Dir String) : Ensure → Meets → Option (Dir String × Ensure)
  | .probing, .ok =>
    some (fs, if model_files_exist fs dir then .returned (.ok ()) else .making_dir)
  | .making_dir, .ok => some (fs, .next MODEL_FILES)
  | .making_dir, .fails =>
    some (fs, .returned (.error (.err ["Failed to create model directory"])))
  | .downloading file rest phase, meets =>
    ((download_file checksums file dir).step sha256 fs phase meets).map fun (fs, phase) =>
      (fs, .await file rest phase)
  | _, _ => none

end Gigastt.Model
