import Gigastt.Model.Ensure
import Gigastt.Quantize.Code

/-!
# What a command does in the model directory

The commands of `main.rs` and the two functions of `ffi.rs` that work on it, up to the engine
that they load. As in a download, each step is one file operation.
-/

namespace Gigastt.Model

open Files Quantize

def ENCODER : String := "v3_e2e_rnnt_encoder.onnx"
def DECODER : String := "v3_e2e_rnnt_decoder.onnx"
def JOINER : String := "v3_e2e_rnnt_joint.onnx"
def VOCAB : String := "v3_e2e_rnnt_vocab.txt"
def INT8_ENCODER : String := "v3_e2e_rnnt_encoder_int8.onnx"
def SPEAKER_MODEL_FILE : String := "wespeaker_resnet34.onnx"
def SPEAKER_MODEL_SHA256 : String :=
  "3955447b0499dc9e0a4541a895df08b03c69098eba4e56c02b5603e9f7f4fcbb"

variable {F R : Type}

/-- What a build takes from its crates and its features, and the hashes that it expects. In the
source, these are `MODEL_CHECKSUMS` and `SPEAKER_MODEL_SHA256`. -/
structure Build (F R : Type) where
  sha256 : List UInt8 → String
  checksums : List (String × Option String)
  speaker_sha256 : String
  -- `ModelProto::decode` and `encode`
  decode : List UInt8 → Option (Decoded F R)
  encode : ModelProto F R → Option (List UInt8)
  overflow_checks : Bool
  diarization : Bool

/-! ## The INT8 encoder -/

/-- What `quantize_model` makes of the bytes that it reads. -/
def Build.quantize [F32Weights F] [Inhabited R] (b : Build F R) (model_bytes : List UInt8) :
    Except PassError (List UInt8) :=
  match b.decode model_bytes with
  | none => .error (.err "Failed to decode ONNX protobuf".toList)
  | some model => do
    let model ← quantize_model b.overflow_checks model
    match b.encode model with
    | some output_bytes => .ok output_bytes
    | none => .error (.err "Failed to encode quantized model".toList)

/-- How far `quantize_model` has come with its files. -/
inductive Job where
  -- `std::fs::read`
  | opening
  | reading (inode : Nat) (data : List UInt8)
  -- `std::fs::write`
  | creating (output_bytes : List UInt8)
  | writing (file : Handle) (left : List UInt8)
  | publishing
  | returned (result : Except PassError Unit)
deriving DecidableEq

def Job.fail (message : String) : Job := .returned (.error (.err message.toList))

def Job.step [F32Weights F] [Inhabited R] (b : Build F R) (input output : String)
    (fs : Dir String) : Job → Meets → Option (Dir String × Job)
  | .opening, .ok =>
    some (fs, match fs.entry input with
      | some inode => .reading inode []
      | none => .fail "Failed to read ONNX model")
  | .opening, .fails | .reading .., .fails => some (fs, .fail "Failed to read ONNX model")
  | .reading inode data, .piece (n + 1) =>
    if data.length < (fs.bytes inode).length then
      some (fs, .reading inode (data ++ ((fs.bytes inode).drop data.length).take (n + 1)))
    else none
  | .reading inode data, .ok =>
    if data.length < (fs.bytes inode).length then none
    else
      some (fs, match b.quantize data with
        | .ok output_bytes => .creating output_bytes
        | .error e => .returned (.error e))
  | .creating _, .fails | .writing _ (_ :: _), .fails =>
    some (fs, .fail "Failed to write quantized model")
  | .creating output_bytes, .ok =>
    let (fs, file) := fs.create (partial_path output)
    some (fs, .writing file output_bytes)
  | .writing file (byte :: left), .piece (n + 1) =>
    let (fs, file) := fs.write file (byte :: left.take n)
    some (fs, .writing file (left.drop n))
  | .writing _ [], .ok => some (fs, .publishing)
  | .publishing, .ok =>
    match fs.rename (partial_path output) output with
    | some fs => some (fs, .returned (.ok ()))
    | none => some (fs, .fail "Failed to finalize quantized model")
  | .publishing, .fails => some (fs, .fail "Failed to finalize quantized model")
  | _, _ => none

/-! ## The engine -/

/-- The bytes that an engine is made of. A triplet has its encoder first. -/
structure Loaded where
  int8 : Bool
  triplets : List (List (List UInt8)) := []
  vocab : List UInt8 := []
  speaker_encoder : Option (List UInt8) := none
deriving DecidableEq

/-- How far `load_with_pool_size` has come. Its threads only read the files here, so their order
does not matter. What they make of their own, `optimized_cache` with `encoder_optimized.onnx` in
it, is left out: nothing else reads it. -/
inductive Load where
  -- Before `load_inner`.
  | finding_encoder
  | probing
  -- In `load_sessions`, with `left` triplets to load.
  | choosing (engine : Loaded) (left : Nat)
  | opening (engine : Loaded) (left : Nat) (read : List (List UInt8)) (paths : List String)
  | vocabulary (engine : Loaded)
  | finding_speaker (engine : Loaded)
  | opening_speaker (engine : Loaded)
  | returned (result : Option Loaded)
deriving DecidableEq

def encoder_path (fs : Dir String) (dir : String) : String :=
  if (fs.entry (join dir INT8_ENCODER)).isSome then join dir INT8_ENCODER else join dir ENCODER

def Load.next (engine : Loaded) : Nat → Load
  | 0 => .vocabulary engine
  | left + 1 => .choosing engine (left + 1)

/-- `Engine::load_with_pool_size`. An error is `none`. -/
def Load.step (diarization : Bool) (dir : String) (pool_size : Nat) (fs : Dir String) :
    Load → Meets → Option Load
  | .finding_encoder, .ok =>
    some (if (fs.entry (join dir ENCODER)).isSome then .probing else .returned none)
  | .probing, .ok => some (.next { int8 := (fs.entry (join dir INT8_ENCODER)).isSome } pool_size)
  | .choosing engine left, .ok =>
    some (.opening engine left [] [encoder_path fs dir, join dir DECODER, join dir JOINER])
  | .opening engine left read (path :: paths), .ok =>
    some (match fs.entry path with
      | some inode => .opening engine left (read ++ [fs.bytes inode]) paths
      | none => .returned none)
  | .opening _ _ _ (_ :: _), .fails => some (.returned none)
  | .opening engine left read [], .ok =>
    some (.next { engine with triplets := engine.triplets ++ [read] } (left - 1))
  | .vocabulary engine, .ok =>
    some (match fs.entry (join dir VOCAB) with
      | some inode =>
        let engine := { engine with vocab := fs.bytes inode }
        if diarization then .finding_speaker engine else .returned (some engine)
      | none => .returned none)
  | .vocabulary _, .fails => some (.returned none)
  | .finding_speaker engine, .ok =>
    some (if (fs.entry (join dir SPEAKER_MODEL_FILE)).isSome then .opening_speaker engine
      else .returned (some engine))
  | .opening_speaker engine, .ok =>
    some (.returned (some { engine with
      speaker_encoder := (fs.entry (join dir SPEAKER_MODEL_FILE)).map fs.bytes }))
  -- The engine goes without a speaker encoder that does not load.
  | .opening_speaker engine, .fails => some (.returned (some engine))
  | _, _ => none

/-! ## Commands -/

/-- `Serve` is past `ensure_bind_allowed`. Without the diarization feature, a `Download` has
no `skip_diarization`, and its value here means nothing. -/
inductive Command where
  | serve (skip_quantize : Bool) (pool_size : Nat)
  | download (skip_diarization skip_quantize : Bool)
  | quantize (force : Bool)
  | transcribe
  | gigastt_quantize_model (force : Bool)
  | gigastt_engine_new_with_pool_size (pool_size : Nat)
deriving DecidableEq, Repr

inductive Failure where
  | model (e : Fault)
  | quantize (e : PassError)
  | load
deriving DecidableEq

/-- How far a command has come. -/
inductive Stage where
  | ensuring (ensure : Ensure)
  -- In `ensure_speaker_model`.
  | finding_speaker
  | making_dir
  | downloading (phase : Phase)
  -- The INT8 encoder, and in `ensure_int8_encoder` the other one.
  | finding_int8
  | finding_fp32
  | quantizing (job : Job)
  | loading (load : Load)
  | returned (result : Except Failure (Option Loaded))
deriving DecidableEq

def speaker_download (speaker_sha256 dir : String) : Download where
  final_dest := join dir SPEAKER_MODEL_FILE
  expected_sha256 := some speaker_sha256
  label := SPEAKER_MODEL_FILE

namespace Command

def pool_size : Command → Nat
  | .serve _ pool_size | .gigastt_engine_new_with_pool_size pool_size => pool_size
  | _ => 1

/-- The command goes on to an engine. -/
def loads : Command → Bool
  | .serve .. | .transcribe | .gigastt_engine_new_with_pool_size _ => true
  | _ => false

/-- Where a command begins. -/
def first : Command → Stage
  | .gigastt_quantize_model force => if force then .quantizing .opening else .finding_int8
  | .gigastt_engine_new_with_pool_size _ => .loading .finding_encoder
  | _ => .ensuring .probing

/-- After `ensure_model`. -/
def after_models (diarization : Bool) : Command → Stage
  | .download skip_diarization _ =>
    if diarization && !skip_diarization then .finding_speaker else .finding_int8
  | .transcribe | .gigastt_engine_new_with_pool_size _ => .loading .finding_encoder
  | _ => .finding_int8

/-- After `ensure_int8_encoder` or `quantize_model`. -/
def after_int8 (c : Command) : Stage := if c.loads then .loading .finding_encoder else .returned (.ok none)

/-- Once it is known whether there is an INT8 encoder. -/
def found_int8 (c : Command) (found : Bool) : Stage :=
  match c with
  | .serve skip _ | .download _ skip =>
    if found then c.after_int8 else if skip then c.after_int8 else .finding_fp32
  | .quantize force => if found && !force then c.after_int8 else .quantizing .opening
  | _ => if found then c.after_int8 else .quantizing .opening

def await_models (diarization : Bool) (c : Command) : Ensure → Stage
  | .returned (.ok ()) => c.after_models diarization
  | .returned (.error e) => .returned (.error (.model e))
  | ensure => .ensuring ensure

def await_speaker : Phase → Stage
  | .returned (.ok ()) => .finding_int8
  | .returned (.error e) => .returned (.error (.model e))
  | phase => .downloading phase

def await_int8 (c : Command) : Job → Stage
  | .returned (.ok ()) => c.after_int8
  | .returned (.error e) => .returned (.error (.quantize e))
  | job => .quantizing job

def await_engine : Load → Stage
  | .returned (some engine) => .returned (.ok (some engine))
  | .returned none => .returned (.error .load)
  | load => .loading load

variable [F32Weights F] [Inhabited R]

def step (b : Build F R) (dir : String) (c : Command) (fs : Dir String) :
    Stage → Meets → Option (Dir String × Stage)
  | .ensuring ensure, meets =>
    (ensure.step b.sha256 b.checksums dir fs meets).map fun (fs, ensure) =>
      (fs, c.await_models b.diarization ensure)
  | .finding_speaker, .ok =>
    some (fs, if (fs.entry (join dir SPEAKER_MODEL_FILE)).isSome then .finding_int8 else .making_dir)
  | .making_dir, .ok => some (fs, .downloading .checking)
  | .making_dir, .fails =>
    some (fs, .returned (.error (.model (.err ["Failed to create model directory"]))))
  | .downloading phase, meets =>
    ((speaker_download b.speaker_sha256 dir).step b.sha256 fs phase meets).map fun (fs, phase) =>
      (fs, await_speaker phase)
  | .finding_int8, .ok => some (fs, c.found_int8 (fs.entry (join dir INT8_ENCODER)).isSome)
  | .finding_fp32, .ok =>
    some (fs, if (fs.entry (join dir ENCODER)).isSome then .quantizing .opening
      else .returned (.error (.quantize (.err
        ("Cannot quantize: FP32 encoder not found at " ++ join dir ENCODER).toList))))
  | .quantizing job, meets =>
    (job.step b (join dir ENCODER) (join dir INT8_ENCODER) fs meets).map fun (fs, job) =>
      (fs, c.await_int8 job)
  | .loading load, meets =>
    (load.step b.diarization dir c.pool_size fs meets).map fun load => (fs, await_engine load)
  | _, _ => none

end Command

/-! ## One command after the other -/

/-- A model directory, and the command that works on it, if any. -/
structure Machine where
  fs : Dir String
  process : Option (Command × Stage)

inductive Turn where
  | start (c : Command)
  | crash
  | step (meets : Meets)

def Machine.empty : Machine := { fs := .empty, process := none }

def Machine.step [F32Weights F] [Inhabited R] (b : Build F R) (dir : String) (s : Machine) :
    Turn → Option Machine
  | .start c =>
    match s.process with
    | none | some (_, .returned _) => some { s with process := some (c, c.first) }
    | _ => none
  | .crash => some { s with process := none }
  | .step meets =>
    s.process.bind fun (c, stage) =>
      (c.step b dir s.fs stage meets).map fun (fs, stage) => { fs, process := some (c, stage) }

end Gigastt.Model
