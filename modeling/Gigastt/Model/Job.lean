import Gigastt.Model.Commands

/-!
# What `quantize_model` leaves in the directory

The INT8 file comes whole or not at all, also when a job stops anywhere. Nothing checks what
is renamed, so this needs that no two jobs stage at the same time.
-/

namespace Gigastt.Model

open Files Steps Quantize

variable {F R : Type} [F32Weights F] [Inhabited R]

/-! ## The steps of a job -/

inductive Job.Trans (b : Build F R) (input output : String) (fs : Dir String) :
    Job → Meets → Dir String → Job → Prop where
  | open_input {inode} (h : fs.entry input = some inode) :
      Trans b input output fs .opening .ok fs (.reading inode [])
  | missing (e) (h : fs.entry input = none) :
      Trans b input output fs .opening .ok fs (.returned (.error e))
  | read (inode data n) (h : data.length < (fs.bytes inode).length) :
      Trans b input output fs (.reading inode data) (.piece (n + 1)) fs
        (.reading inode (data ++ ((fs.bytes inode).drop data.length).take (n + 1)))
  | pass {output_bytes} (inode data) (h : (fs.bytes inode).length ≤ data.length)
      (hpass : b.quantize data = .ok output_bytes) :
      Trans b input output fs (.reading inode data) .ok fs (.creating output_bytes)
  | reject {e} (inode data) (h : (fs.bytes inode).length ≤ data.length)
      (hpass : b.quantize data = .error e) :
      Trans b input output fs (.reading inode data) .ok fs (.returned (.error e))
  | create (output_bytes) :
      Trans b input output fs (.creating output_bytes) .ok (fs.create (partial_path output)).1
        (.writing (fs.create (partial_path output)).2 output_bytes)
  | write (file byte left n) :
      Trans b input output fs (.writing file (byte :: left)) (.piece (n + 1))
        (fs.write file (byte :: left.take n)).1
        (.writing (fs.write file (byte :: left.take n)).2 (left.drop n))
  | close (file) : Trans b input output fs (.writing file []) .ok fs .publishing
  | publish {fs'} (h : fs.rename (partial_path output) output = some fs') :
      Trans b input output fs .publishing .ok fs' (.returned (.ok ()))
  | vanished (e) (h : fs.entry (partial_path output) = none) :
      Trans b input output fs .publishing .ok fs (.returned (.error e))
  | fail {job meets} (e) (h : meets.is_failure) :
      Trans b input output fs job meets fs (.returned (.error e))

variable {b : Build F R} {input output : String} {fs fs' : Dir String} {job job' : Job}
  {meets : Meets}

theorem job_trans_of_step (h : job.step b input output fs meets = some (fs', job')) :
    job.Trans b input output fs meets fs' job' := by
  unfold Job.step at h
  split at h
  · cases h
    split
    · rename_i hentry
      exact .open_input hentry
    · rename_i hentry
      exact .missing _ hentry
  · cases h; exact .fail _ rfl
  · cases h; exact .fail _ rfl
  · split at h
    · rename_i hlt
      cases h
      exact .read _ _ _ hlt
    · simp at h
  · split at h
    · simp at h
    · rename_i hlen
      cases h
      split
      · rename_i hpass
        exact .pass _ _ (Nat.le_of_not_lt hlen) hpass
      · rename_i hpass
        exact .reject _ _ (Nat.le_of_not_lt hlen) hpass
  · cases h; exact .fail _ rfl
  · cases h; exact .fail _ rfl
  · cases h; exact .create _
  · cases h; exact .write ..
  · cases h; exact .close _
  · split at h
    · rename_i hrename
      cases h
      exact .publish hrename
    · rename_i hrename
      cases h
      refine .vanished _ ?_
      by_contra hsome
      obtain ⟨inode, hi⟩ := Option.ne_none_iff_exists'.mp hsome
      obtain ⟨_, hr⟩ := rename_isSome hi output
      rw [hr] at hrename
      simp at hrename
  · cases h; exact .fail _ rfl
  · simp at h

theorem Job.Trans.sound (h : job.Trans b input output fs meets fs' job') (hs : fs.Sound) :
    fs'.Sound := by
  cases h with
  | create output_bytes => exact hs.create _
  | write file byte left n => exact hs.write _ _
  | publish h => exact hs.rename (partial_path_ne _) h
  | _ => exact hs

/-! ## What a job knows -/

/-- What the pass makes of some input that is as it should be. -/
def Build.Derived (b : Build F R) (P : List UInt8 → Prop) (output_bytes : List UInt8) : Prop :=
  ∃ data, P data ∧ b.quantize data = .ok output_bytes

/-- The partial file is the start of what the pass made, and all of it before the rename. -/
def Job.Knows (b : Build F R) (P : List UInt8 → Prop) (input output : String) (fs : Dir String) :
    Job → Prop
  | .opening | .returned _ => True
  | .reading inode data => fs.entry input = some inode ∧ data <+: fs.bytes inode
  | .creating output_bytes => b.Derived P output_bytes
  | .writing file left =>
    fs.entry (partial_path output) = some file.inode ∧
      file.pos = (fs.bytes file.inode).length ∧ b.Derived P (fs.bytes file.inode ++ left)
  | .publishing =>
    ∃ inode, fs.entry (partial_path output) = some inode ∧ b.Derived P (fs.bytes inode)

def Job.creates : Job → Bool
  | .creating _ => true
  | _ => false

/-- Between the creation of the partial file and its rename. -/
def Job.stages : Job → Bool
  | .writing .. | .publishing => true
  | _ => false

variable {P : List UInt8 → Prop}

theorem Job.Trans.knows (h : job.Trans b input output fs meets fs' job')
    (hinput : ∀ i, fs.entry input = some i → P (fs.bytes i))
    (hk : job.Knows b P input output fs) : job'.Knows b P input output fs' := by
  cases h with
  | open_input h => exact ⟨h, List.nil_prefix⟩
  | read inode data n hlt =>
    obtain ⟨hentry, rest, hrest⟩ := hk
    refine ⟨hentry, ?_⟩
    rw [← hrest, List.drop_left]
    exact (List.prefix_append_right_inj _).mpr (List.take_prefix ..)
  | pass inode data hlen hpass =>
    obtain ⟨hentry, hread⟩ := hk
    rw [hread.eq_of_length_le hlen] at hpass
    exact ⟨_, hinput _ hentry, hpass⟩
  | create output_bytes =>
    refine ⟨create_self .., ?_, ?_⟩
    · rw [create_pos, create_bytes_self]
      rfl
    · rw [create_bytes_self]
      exact hk
  | write file byte left n =>
    obtain ⟨hentry, hpos, hderived⟩ := hk
    have hbytes := write_bytes_self fs file (byte :: left.take n)
    rw [hpos, overwrite_end] at hbytes
    refine ⟨hentry, ?_, ?_⟩
    · show file.pos + _ = ((fs.write file (byte :: left.take n)).1.bytes file.inode).length
      rw [hbytes, List.length_append, hpos]
    · show b.Derived P ((fs.write file (byte :: left.take n)).1.bytes file.inode ++ left.drop n)
      rw [hbytes, List.append_assoc, List.cons_append, List.take_append_drop]
      exact hderived
  | close file =>
    obtain ⟨hentry, -, hderived⟩ := hk
    rw [List.append_nil] at hderived
    exact ⟨_, hentry, hderived⟩
  | _ => trivial

/-- Names other than its own two keep their files. -/
theorem Job.Trans.frame (h : job.Trans b input output fs meets fs' job') (hs : fs.Sound)
    (hk : job.Knows b P input output fs) {n : String} (hn : n ≠ partial_path output)
    (hfinal : n ≠ output) : fs.Keeps fs' n := by
  cases h with
  | create output_bytes => exact keeps_create hs hn
  | write file byte left k => exact keeps_write hs _ hk.1 hn
  | publish h => exact keeps_rename h (partial_path_ne _) hn hfinal
  | _ => exact .refl _ _

/-- Until it returns `Ok`, the final name keeps its file. Then it has what the pass made. -/
theorem Job.Trans.outcome (h : job.Trans b input output fs meets fs' job') (hs : fs.Sound)
    (hk : job.Knows b P input output fs) :
    (job' ≠ .returned (.ok ()) ∧ fs.Keeps fs' output) ∨
    (job' = .returned (.ok ()) ∧ fs'.entry (partial_path output) = none ∧
      ∃ i, fs'.entry output = some i ∧ b.Derived P (fs'.bytes i)) := by
  have hne : output ≠ partial_path output := (partial_path_ne _).symm
  cases h with
  | create output_bytes => exact .inl ⟨nofun, keeps_create hs hne⟩
  | write file byte left n => exact .inl ⟨nofun, keeps_write hs _ hk.1 hne⟩
  | publish h =>
    obtain ⟨inode, hpartial, hfinal, hgone, hbytes, -⟩ := rename_eq_some h (partial_path_ne _)
    obtain ⟨i, hi, hderived⟩ := hk
    obtain rfl := Option.some.inj (hi.symm.trans hpartial)
    exact .inr ⟨rfl, hgone, i, hfinal, by rwa [hbytes]⟩
  | _ => exact .inl ⟨nofun, .refl _ _⟩

/-- What is under the final name is what the pass made of such an input. -/
theorem Job.Trans.derived (h : job.Trans b input output fs meets fs' job') (hs : fs.Sound)
    (hk : job.Knows b P input output fs)
    (houtput : ∀ i, fs.entry output = some i → b.Derived P (fs.bytes i)) :
    ∀ i, fs'.entry output = some i → b.Derived P (fs'.bytes i) := by
  rcases h.outcome hs hk with ⟨-, hkeeps⟩ | ⟨-, -, i, hentry, hderived⟩
  · exact (hkeeps.iff _).mpr houtput
  · intro j hj
    obtain rfl := Option.some.inj (hentry.symm.trans hj)
    exact hderived

/-! ## Jobs at the same time -/

section Fleet

variable {ι : Type} [DecidableEq ι]

/-- The directory, and the job of each process that has one. -/
structure Fleet (ι : Type) where
  fs : Dir String
  jobs : ι → Option Job

/-- A process starts a job, stops, or takes a step of its job. -/
def Fleet.step (b : Build F R) (input output : String) (s : Fleet ι) (a : ι × Event) :
    Option (Fleet ι) :=
  match a.2 with
  | .start =>
    match s.jobs a.1 with
    | none | some (.returned _) => some { s with jobs := Function.update s.jobs a.1 (some .opening) }
    | _ => none
  | .crash => some { s with jobs := Function.update s.jobs a.1 none }
  | .step meets =>
    (s.jobs a.1).bind fun job =>
      (job.step b input output s.fs meets).map fun (fs, job) =>
        { fs, jobs := Function.update s.jobs a.1 (some job) }

/-- The step creates the partial file while another job stages. -/
def Overlaps (s : Fleet ι) (a : ι × Event) : Prop :=
  a.2 = .step .ok ∧ (∃ output_bytes, s.jobs a.1 = some (.creating output_bytes)) ∧
    ∃ j job, s.jobs j = some job ∧ job.stages

theorem any_creates {o : Option Job} :
    o.any Job.creates ↔ ∃ output_bytes, o = some (.creating output_bytes) := by
  cases o with
  | none => simp
  | some job => cases job <;> simp [Job.creates]

instance [Fintype ι] (s : Fleet ι) (a : ι × Event) : Decidable (Overlaps s a) :=
  decidable_of_iff (a.2 = .step .ok ∧ (s.jobs a.1).any Job.creates ∧
      ∃ j, (s.jobs j).any Job.stages) (by
    rw [any_creates]
    simp only [Option.any_eq_true]
    rfl)

structure Fleet.Inv (b : Build F R) (P : List UInt8 → Prop) (input output : String)
    (s : Fleet ι) : Prop where
  sound : s.fs.Sound
  given : ∀ i, s.fs.entry input = some i → P (s.fs.bytes i)
  made : ∀ i, s.fs.entry output = some i → b.Derived P (s.fs.bytes i)
  knows : ∀ j job, s.jobs j = some job → job.Knows b P input output s.fs
  alone : ∀ j j' job job', s.jobs j = some job → s.jobs j' = some job' → job.stages →
    job'.stages → j = j'

/-- A job that does not stage knows only of the input. -/
theorem Job.Knows.keeps (hk : job.Knows b P input output fs) (hstages : job.stages = false)
    (hinput : fs.Keeps fs' input) : job.Knows b P input output fs' := by
  cases job with
  | reading inode data =>
    obtain ⟨hentry, hread⟩ := hk
    exact ⟨hinput.1.trans hentry, by rwa [hinput.2 inode hentry]⟩
  | creating output_bytes => exact hk
  | writing file left => simp [stages] at hstages
  | publishing => simp [stages] at hstages
  | _ => trivial

/-- Unless the job stages, or begins to, a step leaves the directory as it is. -/
theorem Job.Trans.quiet (h : job.Trans b input output fs meets fs' job') :
    job.stages ∨ (meets = .ok ∧ ∃ output_bytes, job = .creating output_bytes) ∨
      (fs' = fs ∧ job'.stages = false) := by
  cases h with
  | create output_bytes => exact .inr (.inl ⟨rfl, _, rfl⟩)
  | write file byte left n => exact .inl rfl
  | close file => exact .inl rfl
  | publish h => exact .inl rfl
  | _ => exact .inr (.inr ⟨rfl, rfl⟩)

/-- A job begins or ends without a step. -/
theorem Fleet.Inv.set {s : Fleet ι} {j : ι} {o : Option Job} (hinv : s.Inv b P input output)
    (ho : ∀ job, o = some job → job = .opening) :
    Fleet.Inv b P input output { s with jobs := Function.update s.jobs j o } := by
  refine ⟨hinv.sound, hinv.given, hinv.made, ?_, ?_⟩
  · intro k job hk
    rcases update_some_iff.mp hk with ⟨-, hnew⟩ | ⟨-, hold⟩
    · rw [ho job hnew]
      trivial
    · exact hinv.knows k job hold
  · intro k k' job job' hk hk' hs hs'
    rcases update_some_iff.mp hk with ⟨-, hnew⟩ | ⟨-, hold⟩
    · rw [ho job hnew] at hs
      simp [Job.stages] at hs
    · rcases update_some_iff.mp hk' with ⟨-, hnew⟩ | ⟨-, hold'⟩
      · rw [ho job' hnew] at hs'
        simp [Job.stages] at hs'
      · exact hinv.alone k k' job job' hold hold' hs hs'

theorem fleet_step {s s' : Fleet ι} {a : ι × Event} (hne : input ≠ output)
    (hstaged : input ≠ partial_path output) (hquiet : ¬ Overlaps s a)
    (h : s.step b input output a = some s') (hinv : s.Inv b P input output) :
    s'.Inv b P input output := by
  obtain ⟨j, e⟩ := a
  cases e with
  | start =>
    simp only [Fleet.step] at h
    split at h
    · cases h; exact hinv.set fun _ h => (Option.some.inj h).symm
    · cases h; exact hinv.set fun _ h => (Option.some.inj h).symm
    · simp at h
  | crash =>
    cases h
    exact hinv.set fun _ h => by simp at h
  | step meets =>
    obtain ⟨job, hj, h⟩ := Option.bind_eq_some_iff.mp h
    obtain ⟨⟨fs', job'⟩, hstep, rfl⟩ := Option.map_eq_some_iff.mp h
    have htrans := job_trans_of_step hstep
    have hk := hinv.knows j job hj
    have hinput := htrans.frame hinv.sound hk hstaged hne
    -- While another job stages, this one leaves the directory alone.
    have hothers : ∀ k job'', s.jobs k = some job'' → k ≠ j → job''.stages →
        fs' = s.fs ∧ job'.stages = false := by
      intro k job'' hk'' hkj hs''
      rcases htrans.quiet with hs | ⟨rfl, output_bytes, rfl⟩ | hsame
      · exact absurd (hinv.alone k j job'' job hk'' hj hs'' hs) hkj
      · exact absurd ⟨rfl, ⟨output_bytes, hj⟩, k, job'', hk'', hs''⟩ hquiet
      · exact hsame
    refine ⟨htrans.sound hinv.sound, (hinput.iff P).mpr hinv.given,
      htrans.derived hinv.sound hk hinv.made, ?_, ?_⟩
    · intro k job'' hk''
      rcases update_some_iff.mp hk'' with ⟨rfl, hnew⟩ | ⟨hkj, hold⟩
      · obtain rfl := Option.some.inj hnew
        exact htrans.knows hinv.given hk
      · by_cases hs : job''.stages
        · rw [(hothers k job'' hold hkj hs).1]
          exact hinv.knows k job'' hold
        · exact (hinv.knows k job'' hold).keeps (by simpa using hs) hinput
    · intro k k' i i' hi hi' hs hs'
      rcases update_some_iff.mp hi with ⟨rfl, hnew⟩ | ⟨hkj, hold⟩
      · rcases update_some_iff.mp hi' with ⟨rfl, -⟩ | ⟨hkj', hold'⟩
        · rfl
        · obtain rfl := Option.some.inj hnew
          rw [(hothers k' i' hold' hkj' hs').2] at hs
          simp at hs
      · rcases update_some_iff.mp hi' with ⟨rfl, hnew⟩ | ⟨hkj', hold'⟩
        · obtain rfl := Option.some.inj hnew
          rw [(hothers k i hold hkj hs).2] at hs'
          simp at hs'
        · exact hinv.alone k k' i i' hold hold' hs hs'

/-- Whatever the processes do, as long as no two of them stage at the same time, the INT8 file
is at each moment absent or all of what the pass made of the other one. -/
theorem int8_whole {s : Fleet ι} {as : List (ι × Event)} (hne : input ≠ output)
    (hstaged : input ≠ partial_path output) (hs : s.fs.Sound) (hidle : ∀ j, s.jobs j = none)
    (hgiven : ∀ i, s.fs.entry input = some i → P (s.fs.bytes i))
    (hmade : ∀ i, s.fs.entry output = some i → b.Derived P (s.fs.bytes i))
    (hquiet : EachStep (Fleet.step b input output) (fun s a => ¬ Overlaps s a) s as) :
    Throughout (Fleet.step b input output) (fun t =>
      ∀ i, t.fs.entry output = some i → b.Derived P (t.fs.bytes i)) s as := by
  refine throughout_of_eachStep (Fleet.Inv b P input output)
    (fun _ _ _ hq h hinv => fleet_step hne hstaged hq h hinv) (fun _ hinv => hinv.made) hquiet
    ⟨hs, hgiven, hmade, fun j job hj => ?_, fun j _ job _ hj => ?_⟩
  · rw [hidle j] at hj
    simp at hj
  · rw [hidle j] at hj
    simp at hj

end Fleet

/-! ## Two jobs on a small file -/

/-- Any model has an empty graph, which becomes `abc`, and so are all files that are downloaded. -/
def small_build : Build Int Unit where
  sha256 := digest
  checksums := small_checksums
  speaker_sha256 := digest abc
  decode _ := some ⟨{ graph := some { rest := () }, rest := () }, by simp⟩
  encode _ := some abc
  overflow_checks := true
  diarization := true

/-- A directory with one file. -/
def one_file (n : String) (data : List UInt8) : Dir String where
  entry m := if m = n then some 0 else none
  bytes _ := data
  fresh := 1

theorem one_file_sound (n : String) (data : List UInt8) : (one_file n data).Sound := by
  have hentry : ∀ m i, (one_file n data).entry m = some i → m = n ∧ i = 0 := by
    intro m i hi
    simp only [one_file] at hi
    split at hi
    · exact ⟨by assumption, (Option.some.inj hi).symm⟩
    · simp at hi
  refine ⟨fun m m' i hi hi' => ?_, fun m i hi => ?_⟩
  · rw [(hentry m i hi).1, (hentry m' i hi').1]
  · rw [(hentry m i hi).2]
    exact Nat.zero_lt_one

def idle_fleet : Fleet Bool := { fs := one_file "encoder.onnx" abc, jobs := fun _ => none }

/-- A job of one of the two, up to the creation of its partial file. -/
def passed_by (i : Bool) : List (Bool × Event) :=
  ([.start, .step .ok, .step (.piece 3), .step .ok] : List Event).map (i, ·)

def staged_by (i : Bool) : List (Bool × Event) :=
  ([.step .ok, .step (.piece 3), .step .ok] : List Event).map (i, ·)

/-- Both read and quantize at the same time, and stage one after the other. -/
def taking_turns : List (Bool × Event) :=
  passed_by true ++ passed_by false ++ staged_by false ++ [(false, .step .ok)] ++ staged_by true ++
    [(true, .step .ok)]

theorem int8_whole_taking_turns :
    (∃ t, run (Fleet.step small_build "encoder.onnx" "encoder_int8.onnx") idle_fleet taking_turns =
      some t ∧ (t.fs.entry "encoder_int8.onnx").isSome) ∧
    Throughout (Fleet.step small_build "encoder.onnx" "encoder_int8.onnx") (fun t =>
        ∀ i, t.fs.entry "encoder_int8.onnx" = some i → small_build.Derived (· = abc) (t.fs.bytes i))
      idle_fleet taking_turns := by
  refine ⟨⟨_, rfl, rfl⟩, int8_whole (by decide) (by decide) (one_file_sound ..) (fun _ => rfl)
    (fun _ _ => rfl) ?_ ?_⟩
  · intro i hi
    simp [idle_fleet, one_file] at hi
  · decide

/-- The second job empties the partial file that the first one is about to rename. -/
theorem empty_encoder_published :
    ∃ t, run (Fleet.step small_build "encoder.onnx" "encoder_int8.onnx") idle_fleet
        (passed_by true ++ passed_by false ++ staged_by false ++
          [(true, .step .ok), (false, .step .ok)]) = some t ∧
      ∃ i, t.fs.entry "encoder_int8.onnx" = some i ∧ t.fs.bytes i = [] := ⟨_, rfl, _, rfl, rfl⟩

end Gigastt.Model
