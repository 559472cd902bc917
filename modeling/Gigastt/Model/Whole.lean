import Gigastt.Model.Job

/-!
# No command meets a file that is not whole

Commands on one directory, one after the other, each of which may stop at any step.
-/

namespace Gigastt.Model

open Files Steps Quantize

variable {F R : Type} [F32Weights F] [Inhabited R]

/-! ## What a file is to be -/

section

omit [F32Weights F] [Inhabited R]

/-- The bytes have the hash that is listed for the file. -/
def Build.Checked (b : Build F R) (f : String) (data : List UInt8) : Prop :=
  (download_file b.checksums f "").expected_sha256 = some (b.sha256 data)

/-- There is a hash for each model file. -/
def Build.Lists (b : Build F R) : Prop :=
  ∀ f ∈ MODEL_FILES, (download_file b.checksums f "").expected_sha256.isSome

theorem Build.Lists.inDir {b : Build F R} (h : b.Lists) (dir : String) :
    ∀ f ∈ MODEL_FILES, (download_file b.checksums f dir).expected_sha256.isSome := h

/-- The build expects the hashes that the source has. -/
structure Build.Released (b : Build F R) : Prop where
  checksums : b.checksums = MODEL_CHECKSUMS
  speaker_sha256 : b.speaker_sha256 = SPEAKER_MODEL_SHA256

theorem Build.Released.lists {b : Build F R} (h : b.Released) : b.Lists := by
  unfold Build.Lists
  rw [h.checksums]
  exact checksums_listed ""

end

/-- The bytes are what the pass makes of an encoder with the listed hash. -/
abbrev Build.Int8Encoder (b : Build F R) (data : List UInt8) : Prop :=
  b.Derived (b.Checked ENCODER) data

/-- Each file that has its final name is all of what it is to be. -/
structure Whole (b : Build F R) (dir : String) (fs : Dir String) : Prop where
  models : ∀ f ∈ MODEL_FILES, ∀ i, fs.entry (join dir f) = some i → b.Checked f (fs.bytes i)
  int8 : ∀ i, fs.entry (join dir INT8_ENCODER) = some i → b.Int8Encoder (fs.bytes i)
  speaker : ∀ i, fs.entry (join dir SPEAKER_MODEL_FILE) = some i →
    b.sha256 (fs.bytes i) = b.speaker_sha256

/-- The three files of a triplet, with the encoder that the flag says. -/
def Build.Triplet (b : Build F R) (int8 : Bool) (triplet : List (List UInt8)) : Prop :=
  ∃ encoder decoder joiner, triplet = [encoder, decoder, joiner] ∧
    (bif int8 then b.Int8Encoder encoder else b.Checked ENCODER encoder) ∧
    b.Checked DECODER decoder ∧ b.Checked JOINER joiner

/-- The engine is made of whole files, and has the INT8 encoder where it must. -/
structure Loaded.Trusted (b : Build F R) (c : Command) (engine : Loaded) : Prop where
  pool_size : engine.triplets.length = c.pool_size
  triplets : ∀ triplet ∈ engine.triplets, b.Triplet engine.int8 triplet
  vocab : b.Checked VOCAB engine.vocab
  speaker_encoder : ∀ data ∈ engine.speaker_encoder, b.sha256 data = b.speaker_sha256
  int8 : ∀ pool_size, c = .serve false pool_size → engine.int8 = true

/-! ## What a load knows -/

/-- What is loaded so far, with `left` triplets to go. -/
structure Loaded.Part (b : Build F R) (dir : String) (c : Command) (fs : Dir String)
    (engine : Loaded) (left : Nat) : Prop where
  int8 : engine.int8 = (fs.entry (join dir INT8_ENCODER)).isSome
  count : engine.triplets.length + left = c.pool_size
  triplets : ∀ triplet ∈ engine.triplets, b.Triplet engine.int8 triplet
  speaker_encoder : engine.speaker_encoder = none

/-- The files of a triplet that are read, and those that are not. -/
def Opened (fs : Dir String) (dir : String) (read : List (List UInt8)) (paths : List String) : Prop :=
  ∃ opened, opened ++ paths = [encoder_path fs dir, join dir DECODER, join dir JOINER] ∧
    List.Forall₂ (fun path data => ∃ i, fs.entry path = some i ∧ fs.bytes i = data) opened read

def Load.Knows (b : Build F R) (dir : String) (c : Command) (fs : Dir String) : Load → Prop
  | .finding_encoder | .probing | .returned none => True
  | .choosing engine left => 0 < left ∧ engine.Part b dir c fs left
  | .opening engine left read paths =>
    0 < left ∧ engine.Part b dir c fs left ∧ Opened fs dir read paths
  | .vocabulary engine => engine.Part b dir c fs 0
  | .finding_speaker engine | .opening_speaker engine =>
    engine.Part b dir c fs 0 ∧ b.Checked VOCAB engine.vocab
  | .returned (some engine) => engine.Trusted b c

variable {b : Build F R} {dir : String} {c : Command} {fs fs' : Dir String}

/-- A triplet is made of what was under the three names. -/
theorem Opened.triplet {read : List (List UInt8)} {int8 : Bool} (h : Opened fs dir read [])
    (hw : Whole b dir fs) (hint8 : int8 = (fs.entry (join dir INT8_ENCODER)).isSome) :
    b.Triplet int8 read := by
  obtain ⟨opened, hpaths, hread⟩ := h
  rw [List.append_nil] at hpaths
  subst hpaths
  match read, hread with
  | [encoder, decoder, joiner],
      .cons ⟨i, hi, hencoder⟩ (.cons ⟨j, hj, hdecoder⟩ (.cons ⟨k, hk, hjoiner⟩ .nil)) =>
    refine ⟨encoder, decoder, joiner, rfl, ?_, ?_, ?_⟩
    · subst hencoder
      unfold encoder_path at hi
      rw [← hint8] at hi
      cases int8
      · exact hw.models ENCODER (by decide) i hi
      · exact hw.int8 i hi
    · subst hdecoder
      exact hw.models DECODER (by decide) j hj
    · subst hjoiner
      exact hw.models JOINER (by decide) k hk

omit [F32Weights F] [Inhabited R] in
theorem Opened.start (fs : Dir String) (dir : String) :
    Opened fs dir [] [encoder_path fs dir, join dir DECODER, join dir JOINER] := ⟨[], rfl, .nil⟩

omit [F32Weights F] [Inhabited R] in
theorem Opened.next {read : List (List UInt8)} {path : String} {paths : List String} {i : Nat}
    (h : Opened fs dir read (path :: paths)) (hi : fs.entry path = some i) :
    Opened fs dir (read ++ [fs.bytes i]) paths := by
  obtain ⟨opened, hpaths, hread⟩ := h
  exact ⟨opened ++ [path], by rw [List.append_assoc]; exact hpaths,
    List.rel_append hread (.cons ⟨i, hi, rfl⟩ .nil)⟩

theorem Loaded.Part.knows_next {engine : Loaded} {left : Nat} (h : engine.Part b dir c fs left) :
    (Load.next engine left).Knows b dir c fs := by
  cases left with
  | zero => exact h
  | succ left => exact ⟨Nat.succ_pos left, h⟩

/-- An engine is trusted once it has its vocabulary. -/
theorem Loaded.Part.trusted {engine : Loaded} (h : engine.Part b dir c fs 0)
    (hvocab : b.Checked VOCAB engine.vocab)
    (hserve : ∀ n, c = .serve false n → (fs.entry (join dir INT8_ENCODER)).isSome) :
    engine.Trusted b c := by
  refine ⟨h.count, h.triplets, hvocab, fun data hdata => ?_, fun n hc => h.int8.trans (hserve n hc)⟩
  rw [h.speaker_encoder] at hdata
  simp at hdata

theorem load_step {load load' : Load} {meets : Meets} (hw : Whole b dir fs)
    (hserve : ∀ n, c = .serve false n → (fs.entry (join dir INT8_ENCODER)).isSome)
    (h : load.step b.diarization dir c.pool_size fs meets = some load')
    (hk : load.Knows b dir c fs) : load'.Knows b dir c fs := by
  unfold Load.step at h
  split at h
  · cases h
    split
    · trivial
    · trivial
  · cases h
    exact Loaded.Part.knows_next ⟨rfl, Nat.zero_add _, nofun, rfl⟩
  · cases h
    exact ⟨hk.1, hk.2, .start fs dir⟩
  · cases h
    split
    · rename_i hi
      exact ⟨hk.1, hk.2.1, hk.2.2.next hi⟩
    · trivial
  · cases h
    trivial
  · rename_i engine left read
    cases h
    obtain ⟨hleft, hpart, hopened⟩ := hk
    refine Loaded.Part.knows_next ⟨hpart.int8, ?_, ?_, hpart.speaker_encoder⟩
    · have hcount := hpart.count
      show (engine.triplets ++ [read]).length + (left - 1) = c.pool_size
      rw [List.length_append, List.length_singleton]
      omega
    · intro triplet ht
      rcases List.mem_append.mp ht with ht | ht
      · exact hpart.triplets triplet ht
      · rw [List.mem_singleton.mp ht]
        exact hopened.triplet hw hpart.int8
  · rename_i engine
    cases h
    split
    · rename_i i hi
      have hvocab := hw.models VOCAB (by decide) i hi
      have hpart : Loaded.Part b dir c fs { engine with vocab := fs.bytes i } 0 :=
        ⟨hk.int8, hk.count, hk.triplets, hk.speaker_encoder⟩
      split
      · exact ⟨hpart, hvocab⟩
      · exact hpart.trusted hvocab hserve
    · trivial
  · cases h
    trivial
  · cases h
    split
    · exact hk
    · exact hk.1.trusted hk.2 hserve
  · cases h
    have htrusted := hk.1.trusted hk.2 hserve
    refine ⟨htrusted.pool_size, htrusted.triplets, htrusted.vocab, fun data hdata => ?_, htrusted.int8⟩
    obtain ⟨i, hi, rfl⟩ := Option.mem_map.mp hdata
    exact hw.speaker i hi
  · cases h
    exact hk.1.trusted hk.2 hserve
  · simp at h

/-! ## What a command knows -/

def Stage.ensure : Stage → Option Ensure
  | .ensuring ensure => some ensure
  | _ => none

/-- The `ensure_model` of the command, on its directory. -/
def Machine.host (s : Machine) : Host := { fs := s.fs, process := s.process.bind (·.2.ensure) }

def Stage.Knows (b : Build F R) (dir : String) (c : Command) (fs : Dir String) : Stage → Prop
  | .downloading phase =>
    (speaker_download b.speaker_sha256 dir).Holds fs phase ∧
      (speaker_download b.speaker_sha256 dir).Stands b.sha256 b.speaker_sha256 fs phase
  | .quantizing job => job.Knows b (b.Checked ENCODER) (join dir ENCODER) (join dir INT8_ENCODER) fs
  | .loading load =>
    (∀ n, c = .serve false n → (fs.entry (join dir INT8_ENCODER)).isSome) ∧ load.Knows b dir c fs
  | .returned (.ok (some engine)) => engine.Trusted b c
  | _ => True

structure Machine.Inv (b : Build F R) (dir : String) (s : Machine) : Prop where
  host : s.host.Inv b.checksums dir b.sha256
  int8 : ∀ i, s.fs.entry (join dir INT8_ENCODER) = some i → b.Int8Encoder (s.fs.bytes i)
  speaker : (speaker_download b.speaker_sha256 dir).Verified b.sha256 b.speaker_sha256 s.fs
  knows : ∀ c stage, s.process = some (c, stage) → stage.Knows b dir c s.fs

theorem Machine.Inv.whole {s : Machine} (h : s.Inv b dir) : Whole b dir s.fs :=
  ⟨h.host.genuine, h.int8, h.speaker⟩

omit [F32Weights F] [Inhabited R] in
theorem Download.Verified.keeps {d : Download} {sha256 : List UInt8 → String} {expected : String}
    (h : d.Verified sha256 expected fs) (hkeeps : fs.Keeps fs' d.final_dest) :
    d.Verified sha256 expected fs' := (hkeeps.iff fun data => sha256 data = expected).mpr h

theorem machine_empty : Machine.empty.Inv b dir := by
  refine ⟨inv_empty, ?_, ?_, ?_⟩
  · intro i hi
    simp [Machine.empty, Dir.empty] at hi
  · intro i hi
    simp [Machine.empty, Dir.empty] at hi
  · simp [Machine.empty]

/-! ## Names -/

/-- The names that a command gives to files, but for the partial ones. -/
def FILES : List String := MODEL_FILES ++ [INT8_ENCODER, SPEAKER_MODEL_FILE]

omit [F32Weights F] [Inhabited R] in
theorem join_ne_staging {f : String} (hf : f ∈ FILES) (f' : String) :
    join dir f ≠ partial_path (join dir f') := by
  intro h
  have hend : ∀ f ∈ FILES, ¬ ".partial".toList <:+ f.toList := by decide
  have hf' : f = f' ++ ".partial" := (String.append_right_inj _).mp (h.trans String.append_assoc)
  exact hend f hf ⟨f'.toList, by rw [hf', String.toList_append]⟩

theorem join_ne {f f' : String} (h : f ≠ f') : join dir f ≠ join dir f' := fun hj => h (join_inj hj)

/-! ## Steps that are none of `ensure_model` -/

/-- The files of `ensure_model` are as they were. -/
structure Untouched (dir : String) (fs fs' : Dir String) : Prop where
  sound : fs.Sound → fs'.Sound
  kept : ∀ f ∈ MODEL_FILES, fs.Keeps fs' (join dir f)
  staged : ∀ f ∈ MODEL_FILES,
    fs'.entry (partial_path (join dir f)) = fs.entry (partial_path (join dir f))

theorem Untouched.refl (dir : String) (fs : Dir String) : Untouched dir fs fs :=
  ⟨id, fun _ _ => .refl _ _, fun _ _ => rfl⟩

theorem Untouched.host {checksums : List (String × Option String)} {sha256 : List UInt8 → String}
    {process : Option Ensure} (h : Untouched dir fs fs')
    (hinv : Host.Inv checksums dir sha256 { fs, process }) :
    Host.Inv checksums dir sha256 { fs := fs', process := none } := by
  refine ⟨h.sound hinv.sound, fun f hf => ?_, fun hlast f hf => ?_, nofun⟩
  · exact ((h.kept f hf).iff fun data =>
      (download_file checksums f dir).expected_sha256 = some (sha256 data)).mpr (hinv.genuine f hf)
  · have hkept := (h.kept last_file (by decide)).1
    obtain ⟨hentry, hgone⟩ := hinv.complete (fun hnone => hlast (hkept.trans hnone)) f hf
    unfold Published
    rw [(h.kept f hf).1, h.staged f hf]
    exact ⟨hentry, hgone⟩

/-- Work under one other name leaves the files of the rest alone. -/
theorem keeps_other {own f : String} (hf : f ∈ FILES) (hne : f ≠ own)
    (hframe : ∀ n, n ≠ partial_path (join dir own) → n ≠ join dir own → fs.Keeps fs' n) :
    fs.Keeps fs' (join dir f) := hframe _ (join_ne_staging hf own) (join_ne hne)

theorem untouched_of_frame {own : String} (hown : own ∈ FILES) (hnot : own ∉ MODEL_FILES)
    (hsound : fs.Sound → fs'.Sound)
    (hframe : ∀ n, n ≠ partial_path (join dir own) → n ≠ join dir own → fs.Keeps fs' n) :
    Untouched dir fs fs' := by
  have hne : ∀ f ∈ MODEL_FILES, f ≠ own := by
    rintro f hf rfl
    exact hnot hf
  refine ⟨hsound, fun f hf => ?_, fun f hf => ?_⟩
  · exact keeps_other (List.mem_append_left _ hf) (hne f hf) hframe
  · refine (hframe _ (fun h => join_ne (hne f hf) (partial_path_inj h)) ?_).1
    exact (join_ne_staging hown f).symm

/-- `ensure_model` leaves the other files alone. -/
theorem ensure_keeps {sha256 : List UInt8 → String} {checksums : List (String × Option String)}
    {ensure ensure' : Ensure} {meets : Meets} (hs : fs.Sound)
    (hk : ensure.Knows checksums dir sha256 fs)
    (h : ensure.step sha256 checksums dir fs meets = some (fs', ensure')) {f : String}
    (hf : f ∈ FILES) (hnot : f ∉ MODEL_FILES) : fs.Keeps fs' (join dir f) := by
  unfold Ensure.step at h
  split at h
  · cases h; exact .refl _ _
  · cases h; exact .refl _ _
  · cases h; exact .refl _ _
  · rename_i file rest phase
    obtain ⟨⟨fs', phase'⟩, hdownload, h⟩ := Option.map_eq_some_iff.mp h
    cases h
    obtain ⟨before, hfiles, -⟩ := (show Downloading .. from hk).before
    have hmem := mem_of_eq hfiles
    refine keeps_other hf (fun h => hnot (h ▸ hmem)) fun n hn hn' => ?_
    exact (trans_of_step hdownload).frame hs hk.holds hn hn'
  · simp at h

/-! ## Steps of a command -/

theorem Machine.Inv.move {c' : Command} {stage stage' : Stage}
    (hinv : Machine.Inv b dir { fs, process := some (c', stage) }) (hensure : stage'.ensure = none)
    (hk : stage'.Knows b dir c' fs) : Machine.Inv b dir { fs, process := some (c', stage') } := by
  refine ⟨?_, hinv.int8, hinv.speaker, fun _ _ hp => ?_⟩
  · simp only [Machine.host, Option.bind_some, hensure]
    exact (Untouched.refl dir fs).host hinv.host
  · cases hp
    exact hk

/-- A command begins its next part, or returns. -/
theorem after_models_knows (diarization : Bool) :
    (c.after_models diarization).ensure = none ∧ (c.after_models diarization).Knows b dir c fs := by
  cases c with
  | download skip_diarization skip_quantize =>
    simp only [Command.after_models]
    split
    · exact ⟨rfl, trivial⟩
    · exact ⟨rfl, trivial⟩
  | serve skip_quantize pool_size => exact ⟨rfl, trivial⟩
  | quantize force => exact ⟨rfl, trivial⟩
  | transcribe => exact ⟨rfl, nofun, trivial⟩
  | gigastt_quantize_model force => exact ⟨rfl, trivial⟩
  | gigastt_engine_new_with_pool_size pool_size => exact ⟨rfl, nofun, trivial⟩

theorem after_int8_knows
    (h : ∀ n, c = .serve false n → (fs.entry (join dir INT8_ENCODER)).isSome) :
    c.after_int8.ensure = none ∧ c.after_int8.Knows b dir c fs := by
  unfold Command.after_int8
  split
  · exact ⟨rfl, h, trivial⟩
  · exact ⟨rfl, trivial⟩

theorem found_int8_knows :
    (c.found_int8 (fs.entry (join dir INT8_ENCODER)).isSome).ensure = none ∧
      (c.found_int8 (fs.entry (join dir INT8_ENCODER)).isSome).Knows b dir c fs := by
  by_cases hfound : (fs.entry (join dir INT8_ENCODER)).isSome
  · have hafter := after_int8_knows (b := b) (c := c) fun _ _ => hfound
    rw [hfound]
    cases c with
    | quantize force =>
      cases force
      · exact hafter
      · exact ⟨rfl, trivial⟩
    | _ => exact hafter
  · rw [Bool.not_eq_true] at hfound
    rw [hfound]
    cases c with
    | serve skip_quantize pool_size =>
      cases skip_quantize
      · exact ⟨rfl, trivial⟩
      · exact after_int8_knows (c := .serve true pool_size) nofun
    | download skip_diarization skip_quantize =>
      cases skip_quantize
      · exact ⟨rfl, trivial⟩
      · exact after_int8_knows (c := .download skip_diarization true) nofun
    | _ => exact ⟨rfl, trivial⟩

theorem step_ensuring {ensure ensure' : Ensure} {meets : Meets} (hlists : b.Lists)
    (h : ensure.step b.sha256 b.checksums dir fs meets = some (fs', ensure'))
    (hinv : Machine.Inv b dir { fs, process := some (c, .ensuring ensure) }) :
    Machine.Inv b dir { fs := fs', process := some (c, c.await_models b.diarization ensure') } := by
  have hhost : Host.Inv b.checksums dir b.sha256 { fs, process := some ensure } := hinv.host
  have hstep : Host.step b.sha256 b.checksums dir { fs, process := some ensure } (.step meets) =
      some { fs := fs', process := some ensure' } := by
    simp only [Host.step, Option.bind_some, h, Option.map_some]
  have hhost' := inv_step (hlists.inDir dir) hstep hhost
  have hkeeps : ∀ f ∈ FILES, f ∉ MODEL_FILES → fs.Keeps fs' (join dir f) := fun f hf hnot =>
    ensure_keeps hhost.sound (hhost.knows _ rfl) h hf hnot
  have hensuring : Machine.Inv b dir { fs := fs', process := some (c, .ensuring ensure') } := by
    refine ⟨hhost', ?_, ?_, fun _ _ hp => by cases hp; trivial⟩
    · exact ((hkeeps INT8_ENCODER (by decide) (by decide)).iff _).mpr hinv.int8
    · exact hinv.speaker.keeps (hkeeps SPEAKER_MODEL_FILE (by decide) (by decide))
  unfold Command.await_models
  split
  · exact (after_models_knows b.diarization).elim hensuring.move
  · exact hensuring.move rfl trivial
  · exact hensuring

theorem step_downloading {phase phase' : Phase} {meets : Meets}
    (h : (speaker_download b.speaker_sha256 dir).step b.sha256 fs phase meets = some (fs', phase'))
    (hinv : Machine.Inv b dir { fs, process := some (c, .downloading phase) }) :
    Machine.Inv b dir { fs := fs', process := some (c, Command.await_speaker phase') } := by
  have htrans := trans_of_step h
  have hs : fs.Sound := hinv.host.sound
  obtain ⟨hholds, hstands⟩ : (speaker_download b.speaker_sha256 dir).Holds fs phase ∧ _ := hinv.knows _ _ rfl
  have hframe : ∀ n, n ≠ partial_path (join dir SPEAKER_MODEL_FILE) →
      n ≠ join dir SPEAKER_MODEL_FILE → fs.Keeps fs' n := fun n hn hn' =>
    htrans.frame hs hholds hn hn'
  have hdownloading : Machine.Inv b dir { fs := fs', process := some (c, .downloading phase') } := by
    refine ⟨(untouched_of_frame (by decide) (by decide) htrans.sound hframe).host hinv.host, ?_, ?_,
      fun _ _ hp => ?_⟩
    · exact ((keeps_other (by decide) (by decide) hframe).iff _).mpr hinv.int8
    · rcases htrans.outcome hs hholds hstands with ⟨-, hkeeps⟩ | ⟨-, -, i, hi, hsha⟩
      · exact hinv.speaker.keeps hkeeps
      · intro j hj
        obtain rfl := Option.some.inj (hi.symm.trans hj)
        exact hsha
    · cases hp
      exact ⟨htrans.holds hholds, htrans.stands rfl hstands⟩
  unfold Command.await_speaker
  split
  · exact hdownloading.move rfl trivial
  · exact hdownloading.move rfl trivial
  · exact hdownloading

theorem step_quantizing {job job' : Job} {meets : Meets}
    (h : job.step b (join dir ENCODER) (join dir INT8_ENCODER) fs meets = some (fs', job'))
    (hinv : Machine.Inv b dir { fs, process := some (c, .quantizing job) }) :
    Machine.Inv b dir { fs := fs', process := some (c, c.await_int8 job') } := by
  have htrans := job_trans_of_step h
  have hs : fs.Sound := hinv.host.sound
  have hk : job.Knows b (b.Checked ENCODER) (join dir ENCODER) (join dir INT8_ENCODER) fs :=
    hinv.knows _ _ rfl
  have hgiven := hinv.whole.models ENCODER (by decide)
  have hframe : ∀ n, n ≠ partial_path (join dir INT8_ENCODER) → n ≠ join dir INT8_ENCODER →
      fs.Keeps fs' n := fun n hn hn' => htrans.frame hs hk hn hn'
  have hquantizing : Machine.Inv b dir { fs := fs', process := some (c, .quantizing job') } := by
    refine ⟨(untouched_of_frame (by decide) (by decide) htrans.sound hframe).host hinv.host,
      htrans.derived hs hk hinv.int8, ?_, fun _ _ hp => ?_⟩
    · exact hinv.speaker.keeps (keeps_other (by decide) (by decide) hframe)
    · cases hp
      exact htrans.knows hgiven hk
  unfold Command.await_int8
  split
  · rcases htrans.outcome hs hk with ⟨hbusy, -⟩ | ⟨-, -, i, hi, -⟩
    · exact absurd rfl hbusy
    · exact (after_int8_knows fun _ _ => Option.isSome_of_mem hi).elim hquantizing.move
  · exact hquantizing.move rfl trivial
  · exact hquantizing

theorem step_loading {load load' : Load} {meets : Meets}
    (h : load.step b.diarization dir c.pool_size fs meets = some load')
    (hinv : Machine.Inv b dir { fs, process := some (c, .loading load) }) :
    Machine.Inv b dir { fs, process := some (c, Command.await_engine load') } := by
  obtain ⟨hserve, hk⟩ : (∀ n, c = .serve false n → _) ∧ load.Knows b dir c fs := hinv.knows _ _ rfl
  have hk' := load_step hinv.whole hserve h hk
  unfold Command.await_engine
  split
  · exact hinv.move rfl hk'
  · exact hinv.move rfl trivial
  · exact hinv.move rfl ⟨hserve, hk'⟩

theorem command_step {stage stage' : Stage} {meets : Meets} (hlists : b.Lists)
    (h : c.step b dir fs stage meets = some (fs', stage'))
    (hinv : Machine.Inv b dir { fs, process := some (c, stage) }) :
    Machine.Inv b dir { fs := fs', process := some (c, stage') } := by
  unfold Command.step at h
  split at h
  · obtain ⟨⟨fs', ensure'⟩, hstep, h⟩ := Option.map_eq_some_iff.mp h
    cases h
    exact step_ensuring hlists hstep hinv
  · cases h
    split
    · exact hinv.move rfl trivial
    · exact hinv.move rfl trivial
  · cases h
    exact hinv.move rfl ⟨trivial, trivial⟩
  · cases h
    exact hinv.move rfl trivial
  · obtain ⟨⟨fs', phase'⟩, hstep, h⟩ := Option.map_eq_some_iff.mp h
    cases h
    exact step_downloading hstep hinv
  · cases h
    exact found_int8_knows.elim hinv.move
  · cases h
    split
    · exact hinv.move rfl trivial
    · exact hinv.move rfl trivial
  · obtain ⟨⟨fs', job'⟩, hstep, h⟩ := Option.map_eq_some_iff.mp h
    cases h
    exact step_quantizing hstep hinv
  · obtain ⟨load', hstep, h⟩ := Option.map_eq_some_iff.mp h
    cases h
    exact step_loading hstep hinv
  · simp at h

/-! ## Any number of commands, stopped anywhere -/

theorem first_knows : c.first.Knows b dir c fs := by
  cases c with
  | gigastt_quantize_model force =>
    cases force
    · trivial
    · trivial
  | gigastt_engine_new_with_pool_size pool_size => exact ⟨nofun, trivial⟩
  | _ => trivial

omit [F32Weights F] [Inhabited R] in
theorem first_ensure {ensure : Ensure} (h : c.first.ensure = some ensure) : ensure = .probing := by
  cases c with
  | gigastt_quantize_model force =>
    cases force
    · simp [Command.first, Stage.ensure] at h
    · simp [Command.first, Stage.ensure] at h
  | gigastt_engine_new_with_pool_size pool_size => simp [Command.first, Stage.ensure] at h
  | _ => exact (Option.some.inj h).symm

theorem machine_step {s s' : Machine} {a : Turn} (hlists : b.Lists)
    (h : s.step b dir a = some s') (hinv : s.Inv b dir) : s'.Inv b dir := by
  have hidle := (Untouched.refl dir s.fs).host hinv.host
  cases a with
  | start c =>
    have hstart : Machine.Inv b dir { s with process := some (c, c.first) } := by
      refine ⟨⟨hidle.sound, hidle.genuine, hidle.complete, fun ensure hp => ?_⟩, hinv.int8,
        hinv.speaker, fun _ _ hp => ?_⟩
      · rw [first_ensure hp]
        trivial
      · cases hp
        exact first_knows
    simp only [Machine.step] at h
    split at h
    · cases h; exact hstart
    · cases h; exact hstart
    · simp at h
  | crash =>
    cases h
    exact ⟨hidle, hinv.int8, hinv.speaker, nofun⟩
  | step meets =>
    obtain ⟨⟨c, stage⟩, hp, h⟩ := Option.bind_eq_some_iff.mp h
    obtain ⟨⟨fs', stage'⟩, hstep, rfl⟩ := Option.map_eq_some_iff.mp h
    obtain ⟨fs, process⟩ := s
    obtain rfl : process = some (c, stage) := hp
    exact command_step hlists hstep hinv

/-! ## Files stay -/

section

omit [F32Weights F] [Inhabited R]

/-- A download takes no name away but its partial one. -/
theorem Download.Trans.stays {d : Download} {sha256 : List UInt8 → String} {phase phase' : Phase}
    {meets : Meets} (h : d.Trans sha256 fs phase meets fs' phase') {n : String}
    (hn : n ≠ partial_path d.final_dest) (hsome : (fs.entry n).isSome) : (fs'.entry n).isSome := by
  cases h with
  | drop_stale => rwa [remove_of_ne _ hn]
  | drop_corrupt => rwa [remove_of_ne _ hn]
  | create stream => rwa [create_of_ne _ hn]
  | write file byte chunk stream k => exact hsome
  | publish h => exact rename_stays h (partial_path_ne _) hn hsome
  | _ => exact hsome

theorem ensure_stays {sha256 : List UInt8 → String} {checksums : List (String × Option String)}
    {ensure ensure' : Ensure} {meets : Meets}
    (h : ensure.step sha256 checksums dir fs meets = some (fs', ensure')) {f : String}
    (hf : f ∈ FILES) (hsome : (fs.entry (join dir f)).isSome) : (fs'.entry (join dir f)).isSome := by
  unfold Ensure.step at h
  split at h
  · cases h; exact hsome
  · cases h; exact hsome
  · cases h; exact hsome
  · obtain ⟨⟨fs', phase'⟩, hdownload, h⟩ := Option.map_eq_some_iff.mp h
    cases h
    exact (trans_of_step hdownload).stays (join_ne_staging hf _) hsome
  · simp at h

end

theorem Job.Trans.stays {input output : String} {job job' : Job} {meets : Meets}
    (h : job.Trans b input output fs meets fs' job') {n : String}
    (hn : n ≠ partial_path output) (hsome : (fs.entry n).isSome) : (fs'.entry n).isSome := by
  cases h with
  | create output_bytes => rwa [create_of_ne _ hn]
  | write file byte left k => exact hsome
  | publish h => exact rename_stays h (partial_path_ne _) hn hsome
  | _ => exact hsome

theorem command_stays {stage stage' : Stage} {meets : Meets}
    (h : c.step b dir fs stage meets = some (fs', stage')) {f : String} (hf : f ∈ FILES)
    (hsome : (fs.entry (join dir f)).isSome) : (fs'.entry (join dir f)).isSome := by
  unfold Command.step at h
  split at h
  · obtain ⟨⟨fs', ensure'⟩, hstep, h⟩ := Option.map_eq_some_iff.mp h
    cases h
    exact ensure_stays hstep hf hsome
  · cases h; exact hsome
  · cases h; exact hsome
  · cases h; exact hsome
  · obtain ⟨⟨fs', phase'⟩, hstep, h⟩ := Option.map_eq_some_iff.mp h
    cases h
    exact (trans_of_step hstep).stays (join_ne_staging hf _) hsome
  · cases h; exact hsome
  · cases h; exact hsome
  · obtain ⟨⟨fs', job'⟩, hstep, h⟩ := Option.map_eq_some_iff.mp h
    cases h
    exact (job_trans_of_step hstep).stays (join_ne_staging hf _) hsome
  · obtain ⟨load', -, h⟩ := Option.map_eq_some_iff.mp h
    cases h
    exact hsome
  · simp at h

theorem machine_stays {s s' : Machine} {a : Turn} (h : s.step b dir a = some s') {f : String}
    (hf : f ∈ FILES) (hsome : (s.fs.entry (join dir f)).isSome) :
    (s'.fs.entry (join dir f)).isSome := by
  cases a with
  | start c =>
    simp only [Machine.step] at h
    split at h
    · cases h; exact hsome
    · cases h; exact hsome
    · simp at h
  | crash =>
    cases h
    exact hsome
  | step meets =>
    obtain ⟨⟨c, stage⟩, -, h⟩ := Option.bind_eq_some_iff.mp h
    obtain ⟨⟨fs', stage'⟩, hstep, rfl⟩ := Option.map_eq_some_iff.mp h
    exact command_stays hstep hf hsome

/-- In each state that commands stopped anywhere lead to, what has a final name is whole, an
engine that was loaded is made of such files, and whatever follows, no final name goes away. -/
theorem commands_keep_files_whole {s : Machine} {as : List Turn} (hlists : b.Lists)
    (hrun : run (Machine.step b dir) .empty as = some s) :
    Whole b dir s.fs ∧
    (∀ c engine, s.process = some (c, .returned (.ok (some engine))) → engine.Trusted b c) ∧
    ∀ as' t, run (Machine.step b dir) s as' = some t → ∀ f ∈ FILES,
      (s.fs.entry (join dir f)).isSome → (t.fs.entry (join dir f)).isSome := by
  have hinv := inv_of_run (Machine.Inv b dir) (fun _ _ _ => machine_step hlists) hrun machine_empty
  refine ⟨hinv.whole, fun c engine hp => hinv.knows c _ hp, fun as' t hrun' f hf hsome => ?_⟩
  exact inv_of_run (fun s => (s.fs.entry (join dir f)).isSome = true)
    (fun _ _ _ h => machine_stays h hf) hrun' hsome

/-- A command in which no step fails. -/
def smoothly (c : Command) (meets : List Meets) : List Turn := .start c :: meets.map .step

/-- The steps of a download of `abc`, and those of a quantization. -/
def downloading : List Meets := [.ok, .response [some abc], .ok, .ok, .piece 3, .ok, .ok, .piece 3, .ok, .ok]

def quantizing : List Meets := [.ok, .piece 3, .ok, .ok, .piece 3, .ok, .ok]

/-- Everything is downloaded, and a `serve` with two triplets is up. -/
def provisioned : List Turn :=
  smoothly (.download false true) ([.ok, .ok] ++ (List.replicate 4 downloading).flatten ++
      [.ok, .ok] ++ downloading ++ [.ok]) ++
    smoothly (.serve false 2) ([.ok, .ok, .ok] ++ quantizing ++ List.replicate 15 .ok)

/-- A new INT8 encoder is under way when the machine stops. -/
def torn_quantize : List Turn :=
  smoothly (.quantize true) [.ok, .ok, .ok, .piece 3, .ok, .ok, .piece 1] ++ [.crash]

def Machine.engine (s : Machine) : Option Loaded :=
  match s.process with
  | some (_, .returned (.ok engine)) => engine
  | _ => none

theorem small_build_lists : small_build.Lists := by
  unfold Build.Lists
  decide

theorem commands_keep_files_whole_provisioned :
    ∃ s c engine t, run (Machine.step small_build "models") .empty provisioned = some s ∧
      s.process = some (c, .returned (.ok (some engine))) ∧
      engine.Trusted small_build c ∧ Whole small_build "models" s.fs ∧
      run (Machine.step small_build "models") s torn_quantize = some t ∧
      ∀ f ∈ FILES, (s.fs.entry (join "models" f)).isSome ∧ (t.fs.entry (join "models" f)).isSome := by
  have hall : (run (Machine.step small_build "models") .empty provisioned).any fun s =>
      s.engine.isSome && (run (Machine.step small_build "models") s torn_quantize).isSome &&
        FILES.all fun f => (s.fs.entry (join "models" f)).isSome := by
    decide +kernel
  obtain ⟨s, hrun, hs⟩ := (Option.any_eq_true _ _).mp hall
  simp only [Bool.and_eq_true, Option.isSome_iff_exists, List.all_eq_true] at hs
  obtain ⟨⟨⟨engine, hengine⟩, t, ht⟩, hfiles⟩ := hs
  obtain ⟨c, hs⟩ : ∃ c, s.process = some (c, .returned (.ok (some engine))) := by
    unfold Machine.engine at hengine
    split at hengine
    · rename_i c _ hprocess
      exact ⟨c, hengine ▸ hprocess⟩
    · cases hengine
  obtain ⟨hwhole, htrusted, hstays⟩ := commands_keep_files_whole small_build_lists hrun
  refine ⟨s, c, engine, t, hrun, hs, htrusted _ _ hs, hwhole, ht, fun f hf => ?_⟩
  have hsome := Option.isSome_iff_exists.mpr (hfiles f hf)
  exact ⟨hsome, hstays torn_quantize t ht f hf hsome⟩

end Gigastt.Model
