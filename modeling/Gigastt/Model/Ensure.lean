import Gigastt.Model.Alone
import Gigastt.Model.Race
import Mathlib.Order.RelClasses

/-!
# `ensure_model` recovers from every crash

Runs of `ensure_model` on one directory, one after the other, each of which may stop at any
step. The last of the four files is published last, and by a run that has published the
other three, so it stands for all of them.
-/

namespace Gigastt.Model

open Files Steps

/-- A directory, and the `ensure_model` that works on it, if any. -/
structure Host where
  fs : Dir String
  process : Option Ensure

def Host.empty : Host := { fs := .empty, process := none }

/-- No `ensure_model` is at work. -/
def Host.Idle (s : Host) : Prop := s.process = none ∨ ∃ result, s.process = some (.returned result)

def Host.step (sha256 : List UInt8 → String) (checksums : List (String × Option String))
    (dir : String) (s : Host) : Event → Option Host
  | .start =>
    match s.process with
    | none | some (.returned _) => some { s with process := some .probing }
    | _ => none
  | .crash => some { s with process := none }
  | .step meets =>
    s.process.bind fun process =>
      (process.step sha256 checksums dir s.fs meets).map fun (fs, process) =>
        { fs, process := some process }

variable {sha256 : List UInt8 → String} {checksums : List (String × Option String)} {dir : String}

/-! ## The names -/

theorem join_inj {f f' : String} (h : join dir f = join dir f') : f = f' :=
  (String.append_right_inj _).mp h

theorem partial_path_inj {p p' : String} (h : partial_path p = partial_path p') : p = p' :=
  (String.append_left_inj _).mp h

theorem join_ne_staged {f f' : String} (hf : f ∈ MODEL_FILES) (hf' : f' ∈ MODEL_FILES) :
    join dir f ≠ partial_path (join dir f') := by
  intro h
  have hne : ∀ f ∈ MODEL_FILES, ∀ f' ∈ MODEL_FILES, f ≠ f' ++ ".partial" := by decide
  refine hne f hf f' hf' ((String.append_right_inj _).mp (h.trans ?_))
  exact String.append_assoc

/-- The file that is downloaded last. -/
def last_file : String := "v3_e2e_rnnt_vocab.txt"

theorem last_file_eq {before rest : List String} {f : String}
    (h : MODEL_FILES = before ++ f :: rest) : f = last_file ↔ rest = [] := by
  have hnodup : MODEL_FILES.Nodup := by decide
  have hlast : MODEL_FILES.getLast? = some last_file := by decide
  rw [h] at hnodup hlast
  rw [List.getLast?_append_cons] at hlast
  constructor
  · rintro rfl
    rcases List.eq_nil_or_concat rest with rfl | ⟨rest, g, rfl⟩
    · rfl
    · -- The last file would be listed twice.
      rw [List.concat_eq_append, ← List.cons_append, List.getLast?_concat] at hlast
      obtain rfl := Option.some.inj hlast
      have hmem : last_file ∈ rest.concat last_file := by simp
      exact absurd hmem (List.nodup_cons.mp (List.nodup_append.mp hnodup).2.1).1
  · rintro rfl
    simpa using hlast

theorem mem_of_eq {before rest : List String} {f : String} (h : MODEL_FILES = before ++ f :: rest) :
    f ∈ MODEL_FILES := by
  rw [h]
  simp

/-! ## What holds in every state -/

section

variable (checksums dir)

/-- What is under the names of the model files has the expected hashes. -/
def Genuine (sha256 : List UInt8 → String) (fs : Dir String) : Prop :=
  ∀ f ∈ MODEL_FILES, ∀ inode, fs.entry (join dir f) = some inode →
    (download_file checksums f dir).expected_sha256 = some (sha256 (fs.bytes inode))

/-- The file is there, and no partial file of it. -/
def Published (fs : Dir String) (f : String) : Prop :=
  (∃ inode, fs.entry (join dir f) = some inode) ∧ fs.entry (partial_path (join dir f)) = none

/-- What a run knows while it downloads `file`: the files before it are there. -/
structure Downloading (sha256 : List UInt8 → String) (fs : Dir String) (file : String)
    (rest : List String) (phase : Phase) : Prop where
  before : ∃ before, MODEL_FILES = before ++ file :: rest ∧ ∀ f ∈ before, Published dir fs f
  absent : fs.entry (join dir last_file) = none
  holds : (download_file checksums file dir).Holds fs phase
  stands : ∀ e, (download_file checksums file dir).expected_sha256 = some e →
    (download_file checksums file dir).Stands sha256 e fs phase

/-- What a run knows. -/
def Ensure.Knows (sha256 : List UInt8 → String) (fs : Dir String) : Ensure → Prop
  | .making_dir => fs.entry (join dir last_file) = none
  | .downloading file rest phase => Downloading checksums dir sha256 fs file rest phase
  | .returned (.ok ()) => ∀ f ∈ MODEL_FILES, Published dir fs f
  | .probing | .returned (.error _) => True

structure Host.Inv (sha256 : List UInt8 → String) (s : Host) : Prop where
  sound : s.fs.Sound
  genuine : Genuine checksums dir sha256 s.fs
  complete : s.fs.entry (join dir last_file) ≠ none → ∀ f ∈ MODEL_FILES, Published dir s.fs f
  knows : ∀ process, s.process = some process → process.Knows checksums dir sha256 s.fs

end

theorem inv_empty : Host.empty.Inv checksums dir sha256 :=
  ⟨Dir.sound_empty, fun _ _ _ hi => by simp [Host.empty, Dir.empty] at hi,
    fun h => absurd rfl h, fun _ h => by simp [Host.empty] at h⟩

/-- The head of the loop knows that the files before are there. -/
theorem knows_next {fs : Dir String} {before rest : List String}
    (hfiles : MODEL_FILES = before ++ rest) (hbefore : ∀ f ∈ before, Published dir fs f)
    (habsent : rest ≠ [] → fs.entry (join dir last_file) = none) :
    (Ensure.next rest).Knows checksums dir sha256 fs := by
  cases rest with
  | nil =>
    rw [List.append_nil] at hfiles
    rw [← hfiles] at hbefore
    exact hbefore
  | cons f rest => exact ⟨⟨before, hfiles, hbefore⟩, habsent nofun, trivial, fun _ _ => trivial⟩

/-! ## The download of one file -/

section Download

variable {fs fs' : Dir String} {file : String} {rest : List String} {phase phase' : Phase}
  {meets : Meets}

/-- It keeps the others. -/
theorem other_file (h : (download_file checksums file dir).Trans sha256 fs phase meets fs' phase')
    (hs : fs.Sound) (hd : (download_file checksums file dir).Holds fs phase)
    (hfile : file ∈ MODEL_FILES) {f : String} (hf : f ∈ MODEL_FILES) (hne : f ≠ file) :
    fs'.entry (join dir f) = fs.entry (join dir f) ∧
      (∀ inode, fs.entry (join dir f) = some inode → fs'.bytes inode = fs.bytes inode) ∧
      fs'.entry (partial_path (join dir f)) = fs.entry (partial_path (join dir f)) := by
  have hjoin : join dir f ≠ join dir file := fun h => hne (join_inj h)
  obtain ⟨hentry, hbytes⟩ := h.frame hs hd (join_ne_staged hf hfile) hjoin
  have hpartial := h.frame hs hd (fun h => hjoin (partial_path_inj h)) (join_ne_staged hfile hf).symm
  exact ⟨hentry, hbytes, hpartial.1⟩

theorem genuine_step (h : (download_file checksums file dir).Trans sha256 fs phase meets fs' phase')
    (hs : fs.Sound) (hd : Downloading checksums dir sha256 fs file rest phase)
    {e : String} (he : (download_file checksums file dir).expected_sha256 = some e)
    (hg : Genuine checksums dir sha256 fs) : Genuine checksums dir sha256 fs' := by
  obtain ⟨before, hfiles, -⟩ := hd.before
  intro f hf inode hi
  by_cases hne : f = file
  · subst hne
    rcases h.outcome hs hd.holds (hd.stands e he) with
      ⟨-, hentry, hbytes⟩ | ⟨-, -, inode', hentry, hsha⟩
    · rw [show fs'.entry (join dir f) = fs.entry (join dir f) from hentry] at hi
      rw [hbytes inode hi]
      exact hg f hf inode hi
    · rw [show fs'.entry (join dir f) = some inode' from hentry] at hi
      cases hi
      rw [he, hsha]
  · obtain ⟨hentry, hbytes, -⟩ := other_file h hs hd.holds (mem_of_eq hfiles) hf hne
    rw [hentry] at hi
    rw [hbytes inode hi]
    exact hg f hf inode hi

theorem before_step (h : (download_file checksums file dir).Trans sha256 fs phase meets fs' phase')
    (hs : fs.Sound) (hd : (download_file checksums file dir).Holds fs phase)
    {before : List String} (hfiles : MODEL_FILES = before ++ file :: rest)
    (hbefore : ∀ f ∈ before, Published dir fs f) : ∀ f ∈ before, Published dir fs' f := by
  intro f hf
  have hne : f ≠ file := by
    have hnodup : MODEL_FILES.Nodup := by decide
    rw [hfiles] at hnodup
    exact (List.nodup_append.mp hnodup).2.2 f hf file List.mem_cons_self
  have hmem : f ∈ MODEL_FILES := hfiles ▸ List.mem_append_left _ hf
  obtain ⟨hentry, -, hpartial⟩ := other_file h hs hd (mem_of_eq hfiles) hmem hne
  unfold Published
  rw [hentry, hpartial]
  exact hbefore f hf

/-- Until the file is published, the last one stays away. -/
theorem downloading_step
    (h : (download_file checksums file dir).Trans sha256 fs phase meets fs' phase')
    (hs : fs.Sound) (hd : Downloading checksums dir sha256 fs file rest phase)
    {e : String} (he : (download_file checksums file dir).expected_sha256 = some e)
    (hbusy : phase' ≠ .returned (.ok ())) :
    Downloading checksums dir sha256 fs' file rest phase' := by
  obtain ⟨before, hfiles, hbefore⟩ := hd.before
  refine ⟨⟨before, hfiles, before_step h hs hd.holds hfiles hbefore⟩, ?_, h.holds hd.holds,
    fun e he => h.stands he (hd.stands e he)⟩
  by_cases hne : last_file = file
  · rcases h.outcome hs hd.holds (hd.stands e he) with ⟨-, hentry, -⟩ | ⟨hdone, -⟩
    · rw [hne, show fs'.entry (join dir file) = fs.entry (join dir file) from hentry, ← hne]
      exact hd.absent
    · exact absurd hdone hbusy
  · have hlast : last_file ∈ MODEL_FILES := by decide
    rw [(other_file h hs hd.holds (mem_of_eq hfiles) hlast hne).1]
    exact hd.absent

/-- Once it is published, the run goes on to the next file. -/
theorem published_step
    (h : (download_file checksums file dir).Trans sha256 fs phase meets fs' (.returned (.ok ())))
    (hs : fs.Sound) (hd : Downloading checksums dir sha256 fs file rest phase)
    {e : String} (he : (download_file checksums file dir).expected_sha256 = some e) :
    (Ensure.next rest).Knows checksums dir sha256 fs' ∧
      (rest = [] ∨ fs'.entry (join dir last_file) = none) := by
  obtain ⟨before, hfiles, hbefore⟩ := hd.before
  have hfile : Published dir fs' file := by
    rcases h.outcome hs hd.holds (hd.stands e he) with ⟨hbusy, -⟩ | ⟨-, hgone, inode, hentry, -⟩
    · exact absurd rfl hbusy
    · exact ⟨⟨inode, hentry⟩, hgone⟩
  have habsent : rest ≠ [] → fs'.entry (join dir last_file) = none := by
    intro hrest
    have hne : last_file ≠ file := fun h => hrest ((last_file_eq hfiles).mp h.symm)
    have hlast : last_file ∈ MODEL_FILES := by decide
    rw [(other_file h hs hd.holds (mem_of_eq hfiles) hlast hne).1]
    exact hd.absent
  have hfiles' : MODEL_FILES = (before ++ [file]) ++ rest := by simpa using hfiles
  refine ⟨knows_next hfiles' ?_ habsent, Classical.or_iff_not_imp_left.mpr habsent⟩
  intro f hf
  rcases List.mem_append.mp hf with hf | hf
  · exact before_step h hs hd.holds hfiles hbefore f hf
  · rw [List.mem_singleton.mp hf]
    exact hfile

end Download

/-! ## Any number of runs, stopped anywhere -/

theorem model_files_exist_iff {fs : Dir String} :
    model_files_exist fs dir = true ↔ ∀ f ∈ MODEL_FILES, ∃ inode, fs.entry (join dir f) = some inode := by
  simp only [model_files_exist, List.all_eq_true, Option.isSome_iff_exists]

/-- The files are there as soon as the last one is. -/
theorem Host.Inv.exist_iff {s : Host} (hinv : s.Inv checksums dir sha256) :
    model_files_exist s.fs dir = true ↔ s.fs.entry (join dir last_file) ≠ none := by
  rw [model_files_exist_iff]
  constructor
  · intro h
    obtain ⟨inode, hi⟩ := h last_file (by decide)
    simp [hi]
  · exact fun h f hf => (hinv.complete h f hf).1

theorem inv_await {s : Host} {fs' : Dir String} {file : String} {rest : List String}
    {phase phase' : Phase} {meets : Meets} {e : String}
    (hinv : s.Inv checksums dir sha256) (hs : s.process = some (.downloading file rest phase))
    (he : (download_file checksums file dir).expected_sha256 = some e)
    (h : (download_file checksums file dir).Trans sha256 s.fs phase meets fs' phase') :
    Host.Inv checksums dir sha256 { fs := fs', process := some (.await file rest phase') } := by
  have hd : Downloading checksums dir sha256 s.fs file rest phase := hinv.knows _ hs
  have hsound := h.sound hinv.sound
  have hgenuine := genuine_step h hinv.sound hd he hinv.genuine
  by_cases hdone : phase' = .returned (.ok ())
  · subst hdone
    obtain ⟨hknows, hlast⟩ := published_step h hinv.sound hd he
    refine ⟨hsound, hgenuine, fun habsent => ?_, fun _ hp => by cases hp; exact hknows⟩
    obtain rfl := hlast.resolve_right habsent
    exact hknows
  · have hd' := downloading_step h hinv.sound hd he hdone
    refine ⟨hsound, hgenuine, fun habsent => absurd hd'.absent habsent, fun _ hp => ?_⟩
    cases hp
    unfold Ensure.await
    split
    · exact absurd rfl hdone
    · trivial
    · exact hd'

theorem inv_step {s s' : Host} {a : Event}
    (hlisted : ∀ f ∈ MODEL_FILES, (download_file checksums f dir).expected_sha256.isSome)
    (h : s.step sha256 checksums dir a = some s') (hinv : s.Inv checksums dir sha256) :
    s'.Inv checksums dir sha256 := by
  cases a with
  | start =>
    simp only [Host.step] at h
    split at h
    · cases h
      exact ⟨hinv.sound, hinv.genuine, hinv.complete, fun _ hp => by cases hp; trivial⟩
    · cases h
      exact ⟨hinv.sound, hinv.genuine, hinv.complete, fun _ hp => by cases hp; trivial⟩
    · simp at h
  | crash =>
    cases h
    exact ⟨hinv.sound, hinv.genuine, hinv.complete, nofun⟩
  | step meets =>
    obtain ⟨process, hs, h⟩ := Option.bind_eq_some_iff.mp h
    obtain ⟨⟨fs', process'⟩, hstep, rfl⟩ := Option.map_eq_some_iff.mp h
    have hknows := hinv.knows _ hs
    unfold Ensure.step at hstep
    split at hstep
    · obtain ⟨rfl, rfl⟩ := Prod.mk.inj (Option.some.inj hstep)
      refine ⟨hinv.sound, hinv.genuine, hinv.complete, fun _ hp => ?_⟩
      obtain rfl := Option.some.inj hp
      by_cases hexist : model_files_exist s.fs dir
      · rw [if_pos hexist]
        exact hinv.complete (hinv.exist_iff.mp hexist)
      · rw [if_neg hexist]
        exact Classical.not_not.mp (mt hinv.exist_iff.mpr hexist)
    · cases hstep
      refine ⟨hinv.sound, hinv.genuine, hinv.complete, fun _ hp => ?_⟩
      cases hp
      exact knows_next (List.nil_append _).symm nofun fun _ => hknows
    · cases hstep
      exact ⟨hinv.sound, hinv.genuine, hinv.complete, fun _ hp => by cases hp; trivial⟩
    · obtain ⟨⟨fs', phase'⟩, hdownload, hstep⟩ := Option.map_eq_some_iff.mp hstep
      cases hstep
      obtain ⟨before, hfiles, -⟩ := (show Downloading .. from hknows).before
      obtain ⟨e, he⟩ := Option.isSome_iff_exists.mp (hlisted _ (mem_of_eq hfiles))
      exact inv_await hinv hs he (trans_of_step hdownload)
    · simp at hstep

/-! ## A run in which nothing fails -/

/-- Nothing fails in the step, and a download that it starts delivers its file. -/
def Host.Undisturbed (content : String → List UInt8) (s : Host) : Event → Prop
  | .start | .crash => False
  | .step meets =>
    match s.process with
    | some (.downloading file _ phase) => phase.Undisturbed (content file) meets
    | _ => meets.is_failure = false

section

variable (checksums dir)

def Ensure.OnTrack (content : String → List UInt8) (fs : Dir String) : Ensure → Prop
  | .probing | .making_dir => True
  | .downloading file _ phase =>
    (download_file checksums file dir).OnTrack (content file) fs phase
  | .returned result => result = .ok ()

/-- All four files are there, with the expected hashes. -/
def Installed (sha256 : List UInt8 → String) (fs : Dir String) : Prop :=
  ∀ f ∈ MODEL_FILES, ∃ inode, fs.entry (join dir f) = some inode ∧
    (download_file checksums f dir).expected_sha256 = some (sha256 (fs.bytes inode))

end

/-- The steps left: nine phases for each file, and the size of what goes in pieces. -/
def Host.left (s : Host) : Nat × Nat :=
  match s.process with
  | some .probing => (38, 0)
  | some .making_dir => (37, 0)
  | some (.downloading _ rest phase) => (9 * rest.length + phase.rank, phase.size s.fs)
  | some (.returned _) | none => (0, 0)

variable {content : String → List UInt8}

theorem rank_pos {d : Download} {fs : Dir String} {phase : Phase} {data : List UInt8}
    (h : d.OnTrack data fs phase) : 0 < phase.rank := by
  cases phase with
  | removing_corrupt e actual => exact h.elim
  | returned result => exact h.elim
  | _ => simp [Phase.rank]

theorem Host.Inv.installed {s : Host} (hinv : s.Inv checksums dir sha256)
    (h : model_files_exist s.fs dir = true) : Installed checksums dir sha256 s.fs := by
  intro f hf
  obtain ⟨inode, hi⟩ := model_files_exist_iff.mp h f hf
  exact ⟨inode, hi, hinv.genuine f hf inode hi⟩

/-- A run that is on track and has not returned can go on. -/
theorem can_step {s : Host} {process : Ensure} (hs : s.process = some process)
    (ht : process.OnTrack checksums dir content s.fs) :
    process = .returned (.ok ()) ∨
      ∃ a s', s.Undisturbed content a ∧ s.step sha256 checksums dir a = some s' := by
  cases process with
  | probing => exact .inr ⟨.step .ok, _, by simp [Host.Undisturbed, hs, Meets.is_failure], by
      simp [Host.step, hs, Ensure.step]; rfl⟩
  | making_dir => exact .inr ⟨.step .ok, _, by simp [Host.Undisturbed, hs, Meets.is_failure], by
      simp [Host.step, hs, Ensure.step]; rfl⟩
  | downloading file rest phase =>
    obtain ⟨meets, ⟨fs', phase'⟩, hmeets, hstep⟩ := ht.can sha256
    refine .inr ⟨.step meets, { fs := fs', process := some (.await file rest phase') }, ?_, ?_⟩
    · simpa [Host.Undisturbed, hs] using hmeets
    · simp [Host.step, hs, Ensure.step, hstep]
  | returned result => exact .inl (congrArg _ ht)

theorem await_onTrack {d : Download} {fs : Dir String} {phase : Phase} {data : List UInt8}
    (h : d.OnTrack data fs phase) (file : String) (rest : List String) :
    Ensure.await file rest phase = .downloading file rest phase := by
  cases phase with
  | returned result => exact h.elim
  | _ => rfl

theorem next_onTrack (fs : Dir String) (rest : List String) :
    (Ensure.next rest).OnTrack checksums dir content fs := by
  cases rest with
  | nil => rfl
  | cons f rest => trivial

theorem left_next {fs : Dir String} {rest : List String} {n m : Nat} (h : 9 * rest.length < n) :
    Prod.Lex (· < ·) (· < ·) (Host.left { fs, process := some (.next rest) }) (n, m) := by
  refine Prod.Lex.left _ _ ?_
  cases rest with
  | nil => exact h
  | cons f rest =>
    show 9 * rest.length + 9 < n
    rw [List.length_cons] at h
    omega

/-- A run that is on track stays on track, with less to do. -/
theorem track_step {s s' : Host} {process : Ensure} {a : Event}
    (hcontent : ∀ f ∈ MODEL_FILES,
      (download_file checksums f dir).expected_sha256 = some (sha256 (content f)))
    (hinv : s.Inv checksums dir sha256) (hs : s.process = some process)
    (ht : process.OnTrack checksums dir content s.fs) (hmeets : s.Undisturbed content a)
    (h : s.step sha256 checksums dir a = some s') :
    ∃ process', s'.process = some process' ∧ process'.OnTrack checksums dir content s'.fs ∧
      Prod.Lex (· < ·) (· < ·) s'.left s.left := by
  cases a with
  | start => exact hmeets.elim
  | crash => exact hmeets.elim
  | step meets =>
    simp only [Host.Undisturbed, hs] at hmeets
    simp only [Host.step, hs, Option.bind_some] at h
    obtain ⟨⟨fs', process'⟩, hstep, rfl⟩ := Option.map_eq_some_iff.mp h
    refine ⟨process', rfl, ?_⟩
    have hknows := hinv.knows _ hs
    unfold Ensure.step at hstep
    split at hstep
    · obtain ⟨rfl, rfl⟩ := Prod.mk.inj (Option.some.inj hstep)
      simp only [Host.left, hs]
      split
      · exact ⟨rfl, .left _ _ (by decide)⟩
      · exact ⟨trivial, .left _ _ (by decide)⟩
    · cases hstep
      refine ⟨next_onTrack _ _, ?_⟩
      simp only [Host.left, hs]
      exact .left _ _ (by decide)
    · simp [Meets.is_failure] at hmeets
    · rename_i meets file rest phase
      obtain ⟨⟨fs', phase'⟩, hdownload, hstep⟩ := Option.map_eq_some_iff.mp hstep
      cases hstep
      have hd : Downloading checksums dir sha256 s.fs file rest phase := hknows
      obtain ⟨before, hfiles, -⟩ := hd.before
      have he := hcontent file (mem_of_eq hfiles)
      have hpos := rank_pos ht
      rcases (trans_of_step hdownload).onTrack hmeets he (hd.stands _ he) ht with
        rfl | ⟨ht', hless⟩
      · refine ⟨next_onTrack _ _, ?_⟩
        rw [show s.left = (9 * rest.length + phase.rank, phase.size s.fs) by simp [Host.left, hs]]
        exact left_next (by omega)
      · rw [await_onTrack ht']
        refine ⟨ht', ?_⟩
        simp only [Host.left, hs]
        rcases hless with hlt | ⟨heq, hlt⟩
        · exact .left _ _ (by omega)
        · rw [heq]
          exact .right _ hlt
    · simp at hstep

/-- In each state that runs stopped anywhere lead to, the files are taken as present only if
they have the expected hashes, and a further run in which all downloads deliver their files
puts everything right. -/
theorem ensure_model_recovers {s : Host} {as : List Event}
    (hlisted : ∀ f ∈ MODEL_FILES, (download_file checksums f dir).expected_sha256.isSome)
    (hrun : run (Host.step sha256 checksums dir) .empty as = some s) :
    (model_files_exist s.fs dir = true → Installed checksums dir sha256 s.fs) ∧
    (s.Idle → ∀ content : String → List UInt8,
      (∀ f ∈ MODEL_FILES,
        (download_file checksums f dir).expected_sha256 = some (sha256 (content f))) →
      ∃ s', s.step sha256 checksums dir .start = some s' ∧
        Inevitable (Host.step sha256 checksums dir) (Host.Undisturbed content)
          (fun t => t.process = some (.returned (.ok ())) ∧ Installed checksums dir sha256 t.fs ∧
            ∀ f ∈ MODEL_FILES, t.fs.entry (partial_path (join dir f)) = none) s') := by
  have hinv := inv_of_run (Host.Inv checksums dir sha256) (fun _ _ _ h => inv_step hlisted h)
    hrun inv_empty
  refine ⟨hinv.installed, fun hidle content hcontent => ?_⟩
  have hstart : s.step sha256 checksums dir .start = some { s with process := some .probing } := by
    rcases hidle with hs | ⟨result, hs⟩
    · simp [Host.step, hs]
    · simp [Host.step, hs]
  refine ⟨_, hstart, ?_⟩
  refine inevitable_of_measure (Prod.Lex (· < ·) (· < ·)) (wellFounded_lt.prod_lex wellFounded_lt)
    Host.left (fun t => t.Inv checksums dir sha256 ∧ ∃ process, t.process = some process ∧
      process.OnTrack checksums dir content t.fs) ?_ ?_ ⟨inv_step hlisted hstart hinv, _, rfl, trivial⟩
  · rintro t ⟨hinv, process, ht, htrack⟩
    refine (can_step ht htrack).imp_left ?_
    rintro rfl
    have hpublished := hinv.knows _ ht
    exact ⟨ht, hinv.installed (model_files_exist_iff.mpr fun f hf => (hpublished f hf).1),
      fun f hf => (hpublished f hf).2⟩
  · rintro t a t' hmeets hstep ⟨hinv, process, ht, htrack⟩
    obtain ⟨process', ht', htrack', hless⟩ := track_step hcontent hinv ht htrack hmeets hstep
    exact .inr ⟨⟨inv_step hlisted hstep hinv, process', ht', htrack'⟩, hless⟩

def small_checksums : List (String × Option String) :=
  MODEL_FILES.map fun f => (f, some (digest abc))

/-- A crash in the first download, with one byte written. -/
def torn : List Event :=
  .start :: ([.ok, .ok, .ok, .response [some abc], .ok, .ok, .piece 1] : List Meets).map .step ++
    [.crash]

theorem ensure_model_recovers_torn :
    ∃ s s', run (Host.step digest small_checksums "models") .empty torn = some s ∧
      s.step digest small_checksums "models" .start = some s' ∧
      Inevitable (Host.step digest small_checksums "models") (Host.Undisturbed fun _ => abc)
        (fun t => t.process = some (.returned (.ok ())) ∧
          Installed small_checksums "models" digest t.fs ∧
          ∀ f ∈ MODEL_FILES, t.fs.entry (partial_path (join "models" f)) = none) s' := by
  have hrun : run (Host.step digest small_checksums "models") .empty torn = some _ := rfl
  obtain ⟨s', hs'⟩ :=
    (ensure_model_recovers (by decide) hrun).2 (.inl rfl) (fun _ => abc) (by decide)
  exact ⟨_, s', hrun, hs'⟩

/-- The source has a checksum for each of its files. -/
theorem checksums_listed (dir : String) :
    ∀ f ∈ MODEL_FILES, (download_file MODEL_CHECKSUMS f dir).expected_sha256.isSome := by
  show ∀ f ∈ MODEL_FILES, (download_file MODEL_CHECKSUMS f "").expected_sha256.isSome
  decide

end Gigastt.Model
