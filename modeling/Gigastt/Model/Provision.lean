import Gigastt.Model.Whole

/-!
# A command in which nothing fails does all that it is for

It ends, with the files that it is to provide in place and with its engine loaded, whatever
commands stopped in the directory before.
-/

namespace Gigastt.Model

open Files Steps Quantize

variable {F R : Type} [F32Weights F] [Inhabited R]

/-! ## What a command is for -/

namespace Command

/-- The command sees to the INT8 encoder. -/
def quantizes : Command → Bool
  | .serve skip _ | .download _ skip => !skip
  | .quantize _ | .gigastt_quantize_model _ => true
  | _ => false

/-- The command sees to the speaker model. -/
def diarizes (diarization : Bool) : Command → Bool
  | .download skip _ => diarization && !skip
  | _ => false

end Command

def Present (dir : String) (fs : Dir String) (f : String) : Prop := (fs.entry (join dir f)).isSome

/-- What the command needs for the INT8 encoder and its engine. -/
structure Command.Sited (diarization : Bool) (dir : String) (c : Command) (fs : Dir String) :
    Prop where
  models : ∀ f ∈ MODEL_FILES, Present dir fs f
  speaker : c.diarizes diarization → Present dir fs SPEAKER_MODEL_FILE

/-- All that the command is to provide is there. -/
structure Command.Provided (diarization : Bool) (dir : String) (c : Command) (fs : Dir String) :
    Prop extends c.Sited diarization dir fs where
  int8 : c.quantizes → Present dir fs INT8_ENCODER

variable {b : Build F R} {dir : String} {c : Command} {fs fs' : Dir String} {meets : Meets}

omit [F32Weights F] [Inhabited R] in
theorem Command.Sited.stays {diarization : Bool} (h : c.Sited diarization dir fs)
    (hstays : ∀ f ∈ FILES, Present dir fs f → Present dir fs' f) : c.Sited diarization dir fs' :=
  ⟨fun f hf => hstays f (List.mem_append_left _ hf) (h.models f hf),
    fun hc => hstays _ (by decide) (h.speaker hc)⟩

/-! ## A job on track -/

def Job.OnTrack (dir : String) (fs : Dir String) : Job → Prop
  | .opening => Present dir fs ENCODER
  | .returned _ => False
  | _ => True

/-- What is left to do: the phase, and what goes in pieces. -/
def Job.left (fs : Dir String) : Job → Nat × Nat
  | .opening => (5, 0)
  | .reading inode data => (4, (fs.bytes inode).length - data.length)
  | .creating _ => (3, 0)
  | .writing _ left => (2, left.length)
  | .publishing => (1, 0)
  | .returned _ => (0, 0)

theorem Job.Trans.onTrack {job job' : Job}
    (h : job.Trans b (join dir ENCODER) (join dir INT8_ENCODER) fs meets fs' job')
    (hpass : ∀ data, b.Checked ENCODER data → ∃ output_bytes, b.quantize data = .ok output_bytes)
    (hgiven : ∀ i, fs.entry (join dir ENCODER) = some i → b.Checked ENCODER (fs.bytes i))
    (hk : job.Knows b (b.Checked ENCODER) (join dir ENCODER) (join dir INT8_ENCODER) fs)
    (hmeets : meets.is_failure = false) (ht : job.OnTrack dir fs) :
    (job' = .returned (.ok ()) ∨ job'.OnTrack dir fs') ∧
      Prod.Lex (· < ·) (· < ·) (job'.left fs') (job.left fs) := by
  cases h with
  | open_input h => exact ⟨.inr trivial, .left _ _ (by decide)⟩
  | missing e h =>
    rw [OnTrack, Present, h] at ht
    simp at ht
  | read inode data n hlt =>
    refine ⟨.inr trivial, .right _ ?_⟩
    simp only [List.length_append, List.length_take, List.length_drop]
    omega
  | pass inode data hlen hok => exact ⟨.inr trivial, .left _ _ (by decide)⟩
  | reject inode data hlen herr =>
    obtain ⟨hentry, hread⟩ := hk
    obtain ⟨output_bytes, hok⟩ := hpass _ (hgiven inode hentry)
    rw [hread.eq_of_length_le hlen, hok] at herr
    simp at herr
  | create output_bytes => exact ⟨.inr trivial, .left _ _ (by decide)⟩
  | write file byte left n =>
    refine ⟨.inr trivial, .right _ ?_⟩
    simp only [List.length_drop, List.length_cons]
    omega
  | close file => exact ⟨.inr trivial, .left _ _ (by decide)⟩
  | publish h => exact ⟨.inl rfl, .left _ _ (by decide)⟩
  | vanished e h =>
    obtain ⟨i, hi, -⟩ := hk
    rw [h] at hi
    simp at hi
  | fail e h =>
    rw [hmeets] at h
    simp at h

/-- A job on track is not stuck. -/
theorem Job.OnTrack.can {job : Job} (ht : job.OnTrack dir fs) (b : Build F R) (input output : String) :
    ∃ meets next, meets.is_failure = false ∧ job.step b input output fs meets = some next := by
  cases job with
  | opening => exact ⟨.ok, _, rfl, rfl⟩
  | reading inode data =>
    by_cases hlt : data.length < (fs.bytes inode).length
    · exact ⟨.piece 1, _, rfl, if_pos hlt⟩
    · exact ⟨.ok, _, rfl, if_neg hlt⟩
  | creating output_bytes => exact ⟨.ok, _, rfl, rfl⟩
  | writing file left =>
    cases left with
    | nil => exact ⟨.ok, _, rfl, rfl⟩
    | cons byte left => exact ⟨.piece 1, _, rfl, rfl⟩
  | publishing =>
    cases hrename : fs.rename (partial_path output) output with
    | none => exact ⟨.ok, _, rfl, by simp only [step, hrename]; rfl⟩
    | some fs' => exact ⟨.ok, _, rfl, by simp only [step, hrename]; rfl⟩
  | returned result => exact ht.elim

/-! ## A load on track -/

def Load.OnTrack (fs : Dir String) : Load → Prop
  | .opening _ _ _ paths => ∀ path ∈ paths, (fs.entry path).isSome
  | .returned _ => False
  | _ => True

/-- Five steps for each triplet, and up to five for the rest. -/
def Load.left (pool_size : Nat) : Load → Nat
  | .finding_encoder => 5 * pool_size + 5
  | .probing => 5 * pool_size + 4
  | .choosing _ left => 5 * left + 3
  | .opening _ left _ paths => 5 * (left - 1) + 4 + paths.length
  | .vocabulary _ => 3
  | .finding_speaker _ => 2
  | .opening_speaker _ => 1
  | .returned _ => 0

omit [F32Weights F] [Inhabited R] in
theorem Load.next_onTrack (engine : Loaded) (left n : Nat) :
    (Load.next engine left).OnTrack fs ∧ (Load.next engine left).left n < 5 * left + 4 := by
  cases left with
  | zero => exact ⟨trivial, by simp [Load.next, Load.left]⟩
  | succ left => exact ⟨trivial, by simp [Load.next, Load.left]⟩

omit [F32Weights F] [Inhabited R] in
theorem encoder_path_present (h : ∀ f ∈ MODEL_FILES, Present dir fs f) :
    (fs.entry (encoder_path fs dir)).isSome := by
  unfold encoder_path
  split
  · assumption
  · exact h ENCODER (by decide)

theorem load_onTrack {load load' : Load} (hmodels : ∀ f ∈ MODEL_FILES, Present dir fs f)
    (hk : load.Knows b dir c fs) (hmeets : meets.is_failure = false) (ht : load.OnTrack fs)
    (h : load.step b.diarization dir c.pool_size fs meets = some load') :
    ((∃ engine, load' = .returned (some engine)) ∨ load'.OnTrack fs) ∧
      load'.left c.pool_size < load.left c.pool_size := by
  unfold Load.step at h
  split at h
  · cases h
    have hencoder : (fs.entry (join dir ENCODER)).isSome := hmodels ENCODER (by decide)
    rw [if_pos hencoder]
    exact ⟨.inr trivial, Nat.lt_succ_self _⟩
  · cases h
    exact (Load.next_onTrack ..).imp_left .inr
  · rename_i engine left
    cases h
    have hleft : 0 < left := hk.1
    refine ⟨.inr ?_, ?_⟩
    · intro path hpath
      simp only [List.mem_cons, List.not_mem_nil, or_false] at hpath
      rcases hpath with rfl | rfl | rfl
      · exact encoder_path_present hmodels
      · exact hmodels DECODER (by decide)
      · exact hmodels JOINER (by decide)
    · simp only [Load.left, List.length_cons, List.length_nil]
      omega
  · cases h
    obtain ⟨hpath, hpaths⟩ := List.forall_mem_cons.mp ht
    split
    · refine ⟨.inr hpaths, ?_⟩
      simp only [Load.left, List.length_cons]
      omega
    · rename_i hnone
      rw [hnone] at hpath
      simp at hpath
  · simp [Meets.is_failure] at hmeets
  · cases h
    exact (Load.next_onTrack ..).imp_left .inr
  · cases h
    split
    · split
      · exact ⟨.inr trivial, by simp [Load.left]⟩
      · exact ⟨.inl ⟨_, rfl⟩, by simp [Load.left]⟩
    · rename_i hnone
      have hvocab : (fs.entry (join dir VOCAB)).isSome := hmodels VOCAB (by decide)
      rw [hnone] at hvocab
      simp at hvocab
  · simp [Meets.is_failure] at hmeets
  · cases h
    split
    · exact ⟨.inr trivial, by simp [Load.left]⟩
    · exact ⟨.inl ⟨_, rfl⟩, by simp [Load.left]⟩
  · cases h
    exact ⟨.inl ⟨_, rfl⟩, by simp [Load.left]⟩
  · simp [Meets.is_failure] at hmeets
  · simp at h

omit [F32Weights F] [Inhabited R] in
theorem Load.OnTrack.can {load : Load} (ht : load.OnTrack fs) (diarization : Bool) (dir : String)
    (n : Nat) : ∃ load', load.step diarization dir n fs .ok = some load' := by
  cases load with
  | opening engine left read paths =>
    cases paths with
    | nil => exact ⟨_, rfl⟩
    | cons path paths => exact ⟨_, rfl⟩
  | returned result => exact ht.elim
  | _ => exact ⟨_, rfl⟩

/-! ## A command on track -/

section

variable (b dir)

def Stage.OnTrack (content : String → List UInt8) (c : Command) (fs : Dir String) : Stage → Prop
  | .ensuring ensure =>
    ensure ≠ .returned (.ok ()) ∧ ensure.OnTrack b.checksums dir content fs
  | .finding_speaker | .making_dir => ∀ f ∈ MODEL_FILES, Present dir fs f
  | .downloading phase =>
    (∀ f ∈ MODEL_FILES, Present dir fs f) ∧
      (speaker_download b.speaker_sha256 dir).OnTrack (content SPEAKER_MODEL_FILE) fs phase
  | .finding_int8 | .finding_fp32 => c.Sited b.diarization dir fs
  | .quantizing job => c.Sited b.diarization dir fs ∧ job.OnTrack dir fs
  | .loading load => c.Provided b.diarization dir fs ∧ c.loads ∧ load.OnTrack fs
  | .returned result =>
    c.Provided b.diarization dir fs ∧ ∃ loaded, result = .ok loaded ∧ loaded.isSome = c.loads

end

/-- The part of the command that is at work. -/
def Stage.rank : Stage → Nat
  | .ensuring _ => 5
  | .finding_speaker | .making_dir | .downloading _ => 4
  | .finding_int8 | .finding_fp32 => 3
  | .quantizing _ => 2
  | .loading _ => 1
  | .returned _ => 0

/-- What is left of it. -/
def Stage.size (c : Command) (fs : Dir String) : Stage → Nat × Nat
  | .ensuring ensure => Host.left { fs, process := some ensure }
  | .finding_speaker => (11, 0)
  | .making_dir => (10, 0)
  | .downloading phase => (phase.rank, phase.size fs)
  | .finding_int8 => (1, 0)
  | .quantizing job => job.left fs
  | .loading load => (load.left c.pool_size, 0)
  | .finding_fp32 | .returned _ => (0, 0)

def Stage.left (c : Command) (fs : Dir String) (stage : Stage) : Nat × Nat × Nat :=
  (stage.rank, stage.size c fs)

/-- Nothing fails in the step, and a download that it starts delivers its file. -/
def Machine.Undisturbed (content : String → List UInt8) (s : Machine) : Turn → Prop
  | .start _ | .crash => False
  | .step meets =>
    match s.process with
    | some (_, .ensuring ensure) =>
      Host.Undisturbed content { fs := s.fs, process := some ensure } (.step meets)
    | some (_, .downloading phase) => phase.Undisturbed (content SPEAKER_MODEL_FILE) meets
    | _ => meets.is_failure = false

/-- Less is left. -/
abbrev Less : Nat × Nat × Nat → Nat × Nat × Nat → Prop :=
  Prod.Lex (· < ·) (Prod.Lex (· < ·) (· < ·))

variable {content : String → List UInt8}

section

omit [F32Weights F] [Inhabited R]

/-- The next part of a command, with its models in place. -/
theorem after_models_onTrack (hmodels : ∀ f ∈ MODEL_FILES, Present dir fs f) :
    (c.after_models b.diarization).OnTrack b dir content c fs ∧
      (c.after_models b.diarization).rank < 5 := by
  have hsited : c.diarizes b.diarization = false → c.Sited b.diarization dir fs := fun h =>
    ⟨hmodels, fun hd => by simp [h] at hd⟩
  have hprovided : c.diarizes b.diarization = false → c.quantizes = false →
      c.Provided b.diarization dir fs := fun h hq => ⟨hsited h, fun hint8 => by simp [hq] at hint8⟩
  cases c with
  | download skip_diarization skip_quantize =>
    simp only [Command.after_models]
    split
    · exact ⟨hmodels, by simp [Stage.rank]⟩
    · rename_i hd
      exact ⟨hsited (by simpa [Command.diarizes] using hd), by simp [Stage.rank]⟩
  | transcribe =>
    exact ⟨⟨hprovided rfl rfl, rfl, trivial⟩, by simp [Command.after_models, Stage.rank]⟩
  | gigastt_engine_new_with_pool_size pool_size =>
    exact ⟨⟨hprovided rfl rfl, rfl, trivial⟩, by simp [Command.after_models, Stage.rank]⟩
  | _ => exact ⟨hsited rfl, by simp [Command.after_models, Stage.rank]⟩

theorem after_int8_onTrack (h : c.Provided b.diarization dir fs) :
    c.after_int8.OnTrack b dir content c fs ∧ c.after_int8.rank < 2 := by
  unfold Command.after_int8
  split
  · rename_i hloads
    exact ⟨⟨h, hloads, trivial⟩, by simp [Stage.rank]⟩
  · rename_i hloads
    exact ⟨⟨h, none, rfl, by simpa using hloads⟩, by simp [Stage.rank]⟩

theorem found_int8_onTrack (h : c.Sited b.diarization dir fs) :
    (c.found_int8 (fs.entry (join dir INT8_ENCODER)).isSome).OnTrack b dir content c fs ∧
      Less ((c.found_int8 (fs.entry (join dir INT8_ENCODER)).isSome).left c fs) (3, 1, 0) := by
  have hafter : (c.quantizes → Present dir fs INT8_ENCODER) →
      c.after_int8.OnTrack b dir content c fs ∧ Less (c.after_int8.left c fs) (3, 1, 0) := by
    intro hint8
    exact (after_int8_onTrack ⟨h, hint8⟩).imp_right fun hlt => .left _ _ (Nat.lt_succ_of_lt hlt)
  have hjob : (Stage.quantizing .opening).OnTrack b dir content c fs ∧
      Less ((Stage.quantizing .opening).left c fs) (3, 1, 0) :=
    ⟨⟨h, h.models ENCODER (by decide)⟩, .left _ _ (Nat.lt_succ_self 2)⟩
  have hfp32 : Stage.finding_fp32.OnTrack b dir content c fs ∧
      Less (Stage.finding_fp32.left c fs) (3, 1, 0) := ⟨h, .right _ (.left _ _ Nat.zero_lt_one)⟩
  cases hfound : (fs.entry (join dir INT8_ENCODER)).isSome with
  | true =>
    cases c with
    | quantize force =>
      cases force
      · exact hafter fun _ => hfound
      · exact hjob
    | _ => exact hafter fun _ => hfound
  | false =>
    cases c with
    | serve skip_quantize pool_size =>
      cases skip_quantize
      · exact hfp32
      · exact hafter nofun
    | download skip_diarization skip_quantize =>
      cases skip_quantize
      · exact hfp32
      · exact hafter nofun
    | _ => exact hjob

end

/-! ## Steps of a command on track -/

/-! What is on track has not returned, so the command waits for it. -/

section

omit [F32Weights F] [Inhabited R]

theorem Download.OnTrack.await_speaker {d : Download} {data : List UInt8} {phase : Phase}
    (h : d.OnTrack data fs phase) : Command.await_speaker phase = .downloading phase := by
  cases phase with
  | returned result => exact h.elim
  | _ => rfl

theorem Job.OnTrack.await {job : Job} (h : job.OnTrack dir fs) : c.await_int8 job = .quantizing job := by
  cases job with
  | returned result => exact h.elim
  | _ => rfl

theorem Load.OnTrack.await {load : Load} (h : load.OnTrack fs) :
    Command.await_engine load = .loading load := by
  cases load with
  | returned result => exact h.elim
  | _ => rfl

end

omit [F32Weights F] [Inhabited R] in
theorem track_ensuring {ensure ensure' : Ensure} (hlists : b.Lists)
    (hcontent : ∀ f ∈ MODEL_FILES,
      (download_file b.checksums f dir).expected_sha256 = some (b.sha256 (content f)))
    (h : ensure.step b.sha256 b.checksums dir fs meets = some (fs', ensure'))
    (hinv : Host.Inv b.checksums dir b.sha256 { fs, process := some ensure })
    (hmeets : Host.Undisturbed content { fs, process := some ensure } (.step meets))
    (ht : ensure.OnTrack b.checksums dir content fs) :
    (c.await_models b.diarization ensure').OnTrack b dir content c fs' ∧
      Less ((c.await_models b.diarization ensure').left c fs') ((Stage.ensuring ensure).left c fs) := by
  have hstep : Host.step b.sha256 b.checksums dir { fs, process := some ensure } (.step meets) =
      some { fs := fs', process := some ensure' } := by
    simp only [Host.step, Option.bind_some, h, Option.map_some]
  obtain ⟨_, hp, ht', hless⟩ := track_step hcontent hinv rfl ht hmeets hstep
  cases hp
  have hknows := (inv_step (hlists.inDir dir) hstep hinv).knows ensure' rfl
  unfold Command.await_models
  split
  · have hmodels : ∀ f ∈ MODEL_FILES, Present dir fs' f := fun f hf =>
      Option.isSome_iff_exists.mpr (hknows f hf).1
    exact (after_models_onTrack hmodels).imp_right fun hrank => .left _ _ hrank
  · simp [Ensure.OnTrack] at ht'
  · rename_i hbusy _
    exact ⟨⟨hbusy, ht'⟩, .right _ hless⟩

theorem track_downloading {phase phase' : Phase} (hs : fs.Sound)
    (hcontent : b.sha256 (content SPEAKER_MODEL_FILE) = b.speaker_sha256)
    (h : (speaker_download b.speaker_sha256 dir).step b.sha256 fs phase meets = some (fs', phase'))
    (hstays : ∀ f ∈ FILES, Present dir fs f → Present dir fs' f)
    (hk : (Stage.downloading phase).Knows b dir c fs)
    (hmeets : phase.Undisturbed (content SPEAKER_MODEL_FILE) meets)
    (ht : (Stage.downloading phase).OnTrack b dir content c fs) :
    (Command.await_speaker phase').OnTrack b dir content c fs' ∧
      Less ((Command.await_speaker phase').left c fs') ((Stage.downloading phase).left c fs) := by
  obtain ⟨hmodels, ht⟩ := ht
  obtain ⟨hholds, hstands⟩ := hk
  have htrans := trans_of_step h
  have hmodels' : ∀ f ∈ MODEL_FILES, Present dir fs' f := fun f hf =>
    hstays f (List.mem_append_left _ hf) (hmodels f hf)
  have hexp : (speaker_download b.speaker_sha256 dir).expected_sha256 =
      some (b.sha256 (content SPEAKER_MODEL_FILE)) := congrArg some hcontent.symm
  rw [← hcontent] at hstands
  rcases htrans.onTrack hmeets hexp hstands ht with rfl | ⟨ht', hless⟩
  · rcases htrans.outcome hs hholds hstands with ⟨hbusy, -⟩ | ⟨-, -, i, hi, -⟩
    · exact absurd rfl hbusy
    · exact ⟨⟨hmodels', fun _ => Option.isSome_of_mem hi⟩, .left _ _ (Nat.lt_succ_self 3)⟩
  · rw [ht'.await_speaker]
    refine ⟨⟨hmodels', ht'⟩, .right _ ?_⟩
    rcases hless with hlt | ⟨heq, hlt⟩
    · exact .left _ _ hlt
    · rw [Stage.size, Stage.size, heq]
      exact .right _ hlt

theorem track_quantizing {job job' : Job}
    (hpass : ∀ data, b.Checked ENCODER data → ∃ output_bytes, b.quantize data = .ok output_bytes)
    (h : job.step b (join dir ENCODER) (join dir INT8_ENCODER) fs meets = some (fs', job'))
    (hstays : ∀ f ∈ FILES, Present dir fs f → Present dir fs' f)
    (hinv : Machine.Inv b dir { fs, process := some (c, .quantizing job) })
    (hmeets : meets.is_failure = false) (ht : (Stage.quantizing job).OnTrack b dir content c fs) :
    (c.await_int8 job').OnTrack b dir content c fs' ∧
      Less ((c.await_int8 job').left c fs') ((Stage.quantizing job).left c fs) := by
  obtain ⟨hsited, ht⟩ := ht
  have htrans := job_trans_of_step h
  have hk := hinv.knows c _ rfl
  obtain ⟨ht', hless⟩ := htrans.onTrack hpass (hinv.whole.models ENCODER (by decide)) hk hmeets ht
  have hsited' := hsited.stays hstays
  rcases ht' with rfl | ht'
  · have hint8 : Present dir fs' INT8_ENCODER := by
      rcases htrans.outcome hinv.host.sound hk with ⟨hbusy, -⟩ | ⟨-, -, i, hi, -⟩
      · exact absurd rfl hbusy
      · exact Option.isSome_of_mem hi
    exact (after_int8_onTrack ⟨hsited', fun _ => hint8⟩).imp_right fun hrank => .left _ _ hrank
  · rw [ht'.await]
    exact ⟨⟨hsited', ht'⟩, .right _ hless⟩

theorem track_loading {load load' : Load}
    (h : load.step b.diarization dir c.pool_size fs meets = some load')
    (hk : (Stage.loading load).Knows b dir c fs) (hmeets : meets.is_failure = false)
    (ht : (Stage.loading load).OnTrack b dir content c fs) :
    (Command.await_engine load').OnTrack b dir content c fs ∧
      Less ((Command.await_engine load').left c fs) ((Stage.loading load).left c fs) := by
  obtain ⟨hprovided, hloads, ht⟩ := ht
  obtain ⟨ht', hless⟩ := load_onTrack hprovided.models hk.2 hmeets ht h
  rcases ht' with ⟨engine, rfl⟩ | ht'
  · exact ⟨⟨hprovided, _, rfl, hloads.symm⟩, .left _ _ Nat.zero_lt_one⟩
  · rw [ht'.await]
    exact ⟨⟨hprovided, hloads, ht'⟩, .right _ (.left _ _ hless)⟩

theorem command_track {stage stage' : Stage} (hlists : b.Lists)
    (hcontent : ∀ f ∈ MODEL_FILES,
      (download_file b.checksums f dir).expected_sha256 = some (b.sha256 (content f)))
    (hspeaker : b.sha256 (content SPEAKER_MODEL_FILE) = b.speaker_sha256)
    (hpass : ∀ data, b.Checked ENCODER data → ∃ output_bytes, b.quantize data = .ok output_bytes)
    (h : c.step b dir fs stage meets = some (fs', stage'))
    (hinv : Machine.Inv b dir { fs, process := some (c, stage) })
    (hmeets : Machine.Undisturbed content { fs, process := some (c, stage) } (.step meets))
    (ht : stage.OnTrack b dir content c fs) :
    stage'.OnTrack b dir content c fs' ∧ Less (stage'.left c fs') (stage.left c fs) := by
  have hstays : ∀ f ∈ FILES, Present dir fs f → Present dir fs' f := fun f hf =>
    command_stays h hf
  unfold Command.step at h
  split at h
  · obtain ⟨⟨fs', ensure'⟩, hstep, h⟩ := Option.map_eq_some_iff.mp h
    cases h
    exact track_ensuring hlists hcontent hstep hinv.host hmeets ht.2
  · cases h
    split
    · rename_i hfound
      exact ⟨⟨ht, fun _ => hfound⟩, .left _ _ (by simp [Stage.rank])⟩
    · exact ⟨ht, .right _ (.left _ _ (by decide))⟩
  · cases h
    exact ⟨⟨ht, trivial⟩, .right _ (.left _ _ (by decide))⟩
  · simp [Machine.Undisturbed, Meets.is_failure] at hmeets
  · obtain ⟨⟨fs', phase'⟩, hstep, h⟩ := Option.map_eq_some_iff.mp h
    cases h
    exact track_downloading hinv.host.sound hspeaker hstep hstays (hinv.knows c _ rfl) hmeets ht
  · cases h
    exact found_int8_onTrack ht
  · cases h
    have hfp32 : (fs.entry (join dir ENCODER)).isSome := ht.models ENCODER (by decide)
    rw [if_pos hfp32]
    exact ⟨⟨ht, hfp32⟩, .left _ _ (by simp [Stage.rank])⟩
  · obtain ⟨⟨fs', job'⟩, hstep, h⟩ := Option.map_eq_some_iff.mp h
    cases h
    exact track_quantizing hpass hstep hstays hinv hmeets ht
  · obtain ⟨load', hstep, h⟩ := Option.map_eq_some_iff.mp h
    cases h
    exact track_loading hstep (hinv.knows c _ rfl) hmeets ht
  · simp at h

/-- A command on track that has not returned can go on. -/
theorem command_can {stage : Stage} (ht : stage.OnTrack b dir content c fs) :
    (∃ loaded, stage = .returned (.ok loaded) ∧ c.Provided b.diarization dir fs ∧
      loaded.isSome = c.loads) ∨
    ∃ a s', Machine.Undisturbed content { fs, process := some (c, stage) } a ∧
      Machine.step b dir { fs, process := some (c, stage) } a = some s' := by
  have hstep : ∀ meets next, c.step b dir fs stage meets = some next →
      Machine.step b dir { fs, process := some (c, stage) } (.step meets) =
        some { fs := next.1, process := some (c, next.2) } := by
    intro meets next h
    simp only [Machine.step, Option.bind_some, h, Option.map_some]
  cases stage with
  | ensuring ensure =>
    obtain ⟨hbusy, ht⟩ := ht
    obtain ⟨a, s', hmeets, h⟩ : ∃ a s', Host.Undisturbed content { fs, process := some ensure } a ∧
        Host.step b.sha256 b.checksums dir { fs, process := some ensure } a = some s' :=
      (can_step rfl ht).resolve_left hbusy
    cases a with
    | start => exact hmeets.elim
    | crash => exact hmeets.elim
    | step meets =>
      simp only [Host.step, Option.bind_some] at h
      obtain ⟨next, h, -⟩ := Option.map_eq_some_iff.mp h
      exact .inr ⟨.step meets, _, hmeets, hstep meets (next.1, c.await_models b.diarization next.2) (by
        simp only [Command.step, h, Option.map_some])⟩
  | downloading phase =>
    obtain ⟨meets, next, hmeets, h⟩ := ht.2.can b.sha256
    exact .inr ⟨.step meets, _, hmeets, hstep meets (next.1, Command.await_speaker next.2) (by
      simp only [Command.step, h, Option.map_some])⟩
  | quantizing job =>
    obtain ⟨meets, next, hmeets, h⟩ := ht.2.can b (join dir ENCODER) (join dir INT8_ENCODER)
    exact .inr ⟨.step meets, _, hmeets, hstep meets (next.1, c.await_int8 next.2) (by
      simp only [Command.step, h, Option.map_some])⟩
  | loading load =>
    obtain ⟨load', h⟩ := ht.2.2.can b.diarization dir c.pool_size
    exact .inr ⟨.step .ok, _, rfl, hstep .ok (fs, Command.await_engine load') (by
      simp only [Command.step, h, Option.map_some])⟩
  | returned result =>
    obtain ⟨hprovided, loaded, rfl, hloads⟩ := ht
    exact .inl ⟨loaded, rfl, hprovided, hloads⟩
  | _ => exact .inr ⟨.step .ok, _, rfl, hstep .ok _ rfl⟩

/-- No command is at work. -/
def Machine.Idle (s : Machine) : Prop :=
  s.process = none ∨ ∃ c result, s.process = some (c, .returned result)

omit [F32Weights F] [Inhabited R] in
/-- Of the two functions of `ffi.rs`, neither downloads the models. -/
theorem first_onTrack (h : c.first = .ensuring .probing ∨ ∀ f ∈ MODEL_FILES, Present dir fs f) :
    c.first.OnTrack b dir content c fs := by
  rcases h with h | hmodels
  · rw [h]
    exact ⟨nofun, trivial⟩
  cases c with
  | gigastt_quantize_model force =>
    cases force
    · exact ⟨hmodels, nofun⟩
    · exact ⟨⟨hmodels, nofun⟩, hmodels ENCODER (by decide)⟩
  | gigastt_engine_new_with_pool_size pool_size => exact ⟨⟨⟨hmodels, nofun⟩, nofun⟩, rfl, trivial⟩
  | _ => exact ⟨nofun, trivial⟩

/-- Whatever commands stopped in the directory before, a further one in which nothing fails
ends, with all that it is for in place. -/
theorem commands_provide {s : Machine} {as : List Turn} (hlists : b.Lists)
    (hrun : run (Machine.step b dir) .empty as = some s) (hidle : s.Idle)
    (hfirst : c.first = .ensuring .probing ∨ ∀ f ∈ MODEL_FILES, Present dir s.fs f)
    (hcontent : ∀ f ∈ MODEL_FILES,
      (download_file b.checksums f dir).expected_sha256 = some (b.sha256 (content f)))
    (hspeaker : b.sha256 (content SPEAKER_MODEL_FILE) = b.speaker_sha256)
    (hpass : ∀ data, b.Checked ENCODER data → ∃ output_bytes, b.quantize data = .ok output_bytes) :
    ∃ s', s.step b dir (.start c) = some s' ∧
      Inevitable (Machine.step b dir) (Machine.Undisturbed content)
        (fun t => Whole b dir t.fs ∧ c.Provided b.diarization dir t.fs ∧
          ∃ loaded, t.process = some (c, .returned (.ok loaded)) ∧ loaded.isSome = c.loads ∧
            ∀ engine ∈ loaded, engine.Trusted b c) s' := by
  have hinv := inv_of_run (Machine.Inv b dir) (fun _ _ _ => machine_step hlists) hrun machine_empty
  have hstart : s.step b dir (.start c) = some { s with process := some (c, c.first) } := by
    rcases hidle with hs | ⟨c', result, hs⟩
    · simp [Machine.step, hs]
    · simp [Machine.step, hs]
  refine ⟨_, hstart, ?_⟩
  refine inevitable_of_measure Less
    (wellFounded_lt.prod_lex (wellFounded_lt.prod_lex wellFounded_lt))
    (fun t => (t.process.elim (0, 0, 0) fun p => p.2.left c t.fs))
    (fun t => t.Inv b dir ∧ ∃ stage, t.process = some (c, stage) ∧ stage.OnTrack b dir content c t.fs)
    ?_ ?_ ⟨machine_step hlists hstart hinv, _, rfl, first_onTrack hfirst⟩
  · rintro ⟨fs, process⟩ ⟨hinv, stage, rfl, ht⟩
    refine (command_can ht).imp_left ?_
    rintro ⟨loaded, rfl, hprovided, hloads⟩
    refine ⟨hinv.whole, hprovided, loaded, rfl, hloads, ?_⟩
    rintro engine ⟨⟩
    exact hinv.knows c _ rfl
  · rintro ⟨fs, process⟩ a t' hmeets hstep ⟨hinv, stage, rfl, ht⟩
    have hinv' := machine_step hlists hstep hinv
    cases a with
    | start c => exact hmeets.elim
    | crash => exact hmeets.elim
    | step meets =>
      simp only [Machine.step, Option.bind_some] at hstep
      obtain ⟨⟨fs', stage'⟩, h, rfl⟩ := Option.map_eq_some_iff.mp hstep
      obtain ⟨ht', hless⟩ := command_track hlists hcontent hspeaker hpass h hinv hmeets ht
      exact .inr ⟨⟨hinv', stage', rfl, ht'⟩, hless⟩

/-- A `download` that stops in its first file, with one byte of it written. -/
def torn_download : List Turn :=
  smoothly (.download false false) [.ok, .ok, .ok, .response [some abc], .ok, .ok, .piece 1] ++ [.crash]

theorem commands_provide_torn :
    ∃ s s', run (Machine.step small_build "models") .empty torn_download = some s ∧
      s.step small_build "models" (.start (.serve false 2)) = some s' ∧
      Inevitable (Machine.step small_build "models") (Machine.Undisturbed fun _ => abc)
        (fun t => Whole small_build "models" t.fs ∧
          (Command.serve false 2).Provided true "models" t.fs ∧
          ∃ loaded, t.process = some (.serve false 2, .returned (.ok loaded)) ∧
            loaded.isSome = true ∧
            ∀ engine ∈ loaded, engine.Trusted small_build (.serve false 2)) s' := by
  have hrun : run (Machine.step small_build "models") .empty torn_download = some _ := rfl
  obtain ⟨s', hs'⟩ := @commands_provide _ _ _ _ _ _ (.serve false 2) (fun _ => abc) _ _
    small_build_lists hrun (.inl rfl) (.inl rfl) (by decide) rfl fun _ _ => ⟨abc, rfl⟩
  exact ⟨_, s', hrun, hs'⟩

end Gigastt.Model
