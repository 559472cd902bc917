import Gigastt.Model.Trans

/-!
# A download that nobody else disturbs

It touches its own two names only, and its last step puts a verified file under the final
one. When nothing fails it gets there.
-/

namespace Gigastt.Model

open Files

variable {sha256 : List UInt8 → String} {d : Download} {expected : String}
  {fs fs' : Dir String} {phase phase' : Phase} {meets : Meets}

/-! ## What it leaves alone -/

/-- The open file is the partial one. -/
def Download.Holds (d : Download) (fs : Dir String) : Phase → Prop
  | .streaming file _ _ => fs.entry (partial_path d.final_dest) = some file.inode
  | _ => True

theorem Download.Trans.holds (h : d.Trans sha256 fs phase meets fs' phase') (hd : d.Holds fs phase) :
    d.Holds fs' phase' := by
  cases h with
  | create stream => exact create_self ..
  | receive file chunk stream => exact hd
  | write file b chunk stream n => exact hd
  | _ => trivial

/-- A write to the partial file leaves what is under other names. -/
theorem write_bytes_of_name {file : Handle} (data : List UInt8) (hs : fs.Sound)
    (hd : fs.entry (partial_path d.final_dest) = some file.inode) {n : String} {inode : Nat}
    (hn : n ≠ partial_path d.final_dest) (hi : fs.entry n = some inode) :
    (fs.write file data).1.bytes inode = fs.bytes inode := by
  refine write_bytes_of_ne _ _ ?_
  rintro rfl
  exact hn (hs.injective _ _ _ hi hd)

/-- Names that are not its own keep their files. -/
theorem Download.Trans.frame (h : d.Trans sha256 fs phase meets fs' phase') (hs : fs.Sound)
    (hd : d.Holds fs phase) {n : String} (hn : n ≠ partial_path d.final_dest)
    (hfinal : n ≠ d.final_dest) :
    fs'.entry n = fs.entry n ∧ ∀ inode, fs.entry n = some inode → fs'.bytes inode = fs.bytes inode := by
  cases h with
  | drop_stale => exact ⟨remove_of_ne _ hn, fun _ _ => rfl⟩
  | drop_corrupt => exact ⟨remove_of_ne _ hn, fun _ _ => rfl⟩
  | create stream => exact ⟨create_of_ne _ hn, fun _ hi => create_bytes_of_ne hs hn hi⟩
  | write file b chunk stream n => exact ⟨rfl, fun _ hi => write_bytes_of_name _ hs hd hn hi⟩
  | publish h =>
    obtain ⟨-, -, -, -, hbytes, hrest⟩ := rename_eq_some h (partial_path_ne _)
    exact ⟨hrest n hn hfinal, fun _ _ => by rw [hbytes]⟩
  | _ => exact ⟨rfl, fun _ _ => rfl⟩

/-- Until it returns `Ok`, the final name keeps its file. Then it has a verified one. -/
theorem Download.Trans.outcome (h : d.Trans sha256 fs phase meets fs' phase') (hs : fs.Sound)
    (hd : d.Holds fs phase) (hstands : d.Stands sha256 expected fs phase) :
    (phase' ≠ .returned (.ok ()) ∧ fs'.entry d.final_dest = fs.entry d.final_dest ∧
      ∀ inode, fs.entry d.final_dest = some inode → fs'.bytes inode = fs.bytes inode) ∨
    (phase' = .returned (.ok ()) ∧ fs'.entry (partial_path d.final_dest) = none ∧
      ∃ inode, fs'.entry d.final_dest = some inode ∧ sha256 (fs'.bytes inode) = expected) := by
  have hne : d.final_dest ≠ partial_path d.final_dest := (partial_path_ne _).symm
  cases h with
  | drop_stale => exact .inl ⟨nofun, remove_of_ne _ hne, fun _ _ => rfl⟩
  | drop_corrupt => exact .inl ⟨nofun, remove_of_ne _ hne, fun _ _ => rfl⟩
  | create stream =>
    exact .inl ⟨nofun, create_of_ne _ hne, fun _ hi => create_bytes_of_ne hs hne hi⟩
  | write file b chunk stream n =>
    exact .inl ⟨nofun, rfl, fun _ hi => write_bytes_of_name _ hs hd hne hi⟩
  | publish h =>
    obtain ⟨inode, hpartial, hfinal, hgone, hbytes, -⟩ := rename_eq_some h (partial_path_ne _)
    refine .inr ⟨rfl, hgone, inode, hfinal, ?_⟩
    rw [hbytes]
    exact hstands inode hpartial
  | _ => exact .inl ⟨nofun, rfl, fun _ _ => rfl⟩

/-! ## What it does when nothing fails -/

/-- The stream is `content`, in some chunks. -/
def Delivered (content : List UInt8) (stream : Stream) : Prop :=
  ∃ chunks : List (List UInt8), stream = chunks.map some ∧ chunks.flatten = content

/-- What the download has of `content`, and what is still to come, make it up. -/
def Download.OnTrack (content : List UInt8) (d : Download) (fs : Dir String) : Phase → Prop
  | .checking | .removing | .requesting => True
  | .creating stream => Delivered content stream
  | .streaming file chunk stream =>
    fs.entry (partial_path d.final_dest) = some file.inode ∧
      file.pos = (fs.bytes file.inode).length ∧
      ∃ rest, Delivered rest stream ∧ fs.bytes file.inode ++ chunk ++ rest = content
  | .opening _ =>
    ∃ inode, fs.entry (partial_path d.final_dest) = some inode ∧ fs.bytes inode = content
  | .reading _ inode data =>
    fs.entry (partial_path d.final_dest) = some inode ∧ fs.bytes inode = content ∧
      data <+: content
  | .publishing => ∃ inode, fs.entry (partial_path d.final_dest) = some inode
  | .removing_corrupt .. | .returned _ => False

def Phase.rank : Phase → Nat
  | .checking => 9
  | .removing => 8
  | .requesting => 7
  | .creating _ => 6
  | .streaming .. => 5
  | .opening _ => 4
  | .reading .. => 3
  | .removing_corrupt .. => 2
  | .publishing => 1
  | .returned _ => 0

/-- What is left to do in the phase. -/
def Phase.size (fs : Dir String) : Phase → Nat
  | .streaming _ chunk stream => chunk.length + (stream.map fun c => (c.getD []).length + 1).sum
  | .reading _ inode data => (fs.bytes inode).length - data.length
  | _ => 0

variable {content : List UInt8}

/-- A step at which nothing fails. Only the removal of a stale file may. -/
def Phase.Undisturbed (content : List UInt8) (phase : Phase) (meets : Meets) : Prop :=
  (meets.is_failure → phase = .removing) ∧
    ∀ stream, meets = .response stream → Delivered content stream

theorem Delivered.cons {chunk : Option (List UInt8)} {stream : Stream}
    (h : Delivered content (chunk :: stream)) :
    ∃ c rest, chunk = some c ∧ Delivered rest stream ∧ c ++ rest = content := by
  obtain ⟨chunks, hstream, rfl⟩ := h
  cases chunks with
  | nil => simp at hstream
  | cons c chunks =>
    obtain ⟨rfl, rfl⟩ := List.cons.inj hstream
    exact ⟨c, chunks.flatten, rfl, ⟨chunks, rfl, rfl⟩, rfl⟩

theorem Delivered.nil (h : Delivered content []) : content = [] := by
  obtain ⟨chunks, hstream, rfl⟩ := h
  rw [List.map_eq_nil_iff.mp hstream.symm]
  rfl

/-- A chunk that the disk takes in part. -/
theorem Download.OnTrack.write {file : Handle} {b : UInt8} {chunk : List UInt8} {stream : Stream}
    (ht : d.OnTrack content fs (.streaming file (b :: chunk) stream)) (n : Nat) :
    d.OnTrack content (fs.write file (b :: chunk.take n)).1
      (.streaming (fs.write file (b :: chunk.take n)).2 (chunk.drop n) stream) := by
  obtain ⟨hentry, hpos, rest, hdelivered, hcontent⟩ := ht
  have hbytes := write_bytes_self fs file (b :: chunk.take n)
  rw [hpos, overwrite_end] at hbytes
  refine ⟨hentry, ?_, rest, hdelivered, ?_⟩
  · show file.pos + _ = ((fs.write file (b :: chunk.take n)).1.bytes file.inode).length
    rw [hbytes, List.length_append, hpos]
  · show (fs.write file (b :: chunk.take n)).1.bytes file.inode ++ _ ++ _ = _
    rw [hbytes, ← hcontent]
    simp

/-- A piece of the partial file that is read back. -/
theorem Download.OnTrack.read {e : String} {inode : Nat} {data : List UInt8}
    (ht : d.OnTrack content fs (.reading e inode data)) (n : Nat) :
    d.OnTrack content fs
      (.reading e inode (data ++ ((fs.bytes inode).drop data.length).take (n + 1))) := by
  obtain ⟨hentry, hcontent, rest, rfl⟩ := ht
  refine ⟨hentry, hcontent, ?_⟩
  rw [hcontent, List.drop_left]
  exact (List.prefix_append_right_inj _).mpr (List.take_prefix ..)

/-- A download on track stays on track, with less to do, until it returns `Ok`. -/
theorem Download.Trans.onTrack (h : d.Trans sha256 fs phase meets fs' phase')
    (hmeets : phase.Undisturbed content meets) (hexp : d.expected_sha256 = some (sha256 content))
    (hstands : d.Stands sha256 (sha256 content) fs phase) (ht : d.OnTrack content fs phase) :
    phase' = .returned (.ok ()) ∨ d.OnTrack content fs' phase' ∧
      (phase'.rank < phase.rank ∨ phase'.rank = phase.rank ∧ phase'.size fs' < phase.size fs) := by
  cases h with
  | find_stale h => exact .inr ⟨trivial, .inl (by decide)⟩
  | find_none h => exact .inr ⟨trivial, .inl (by decide)⟩
  | drop_stale => exact .inr ⟨trivial, .inl (by decide)⟩
  | keep_stale => exact .inr ⟨trivial, .inl (by decide)⟩
  | respond stream => exact .inr ⟨hmeets.2 stream rfl, .inl (by simp [Phase.rank])⟩
  | create stream =>
    refine .inr ⟨⟨create_self .., ?_, content, ht, ?_⟩, .inl (by simp [Phase.rank])⟩
    · rw [create_pos, create_bytes_self]
      rfl
    · rw [create_bytes_self]
      rfl
  | receive file chunk stream =>
    obtain ⟨hentry, hpos, _, hdelivered, hcontent⟩ := ht
    obtain ⟨_, rest, hc, hrest, rfl⟩ := hdelivered.cons
    cases hc
    refine .inr ⟨⟨hentry, hpos, rest, hrest, ?_⟩, .inr ⟨rfl, ?_⟩⟩
    · simpa using hcontent
    · simp only [Phase.size, List.map_cons, List.sum_cons, Option.getD_some, List.length_nil]
      omega
  | break_off file stream =>
    obtain ⟨-, -, rest, hdelivered, -⟩ := ht
    obtain ⟨c, _, hc, -⟩ := hdelivered.cons
    simp at hc
  | write file b chunk stream n =>
    refine .inr ⟨ht.write n, .inr ⟨rfl, ?_⟩⟩
    simp only [Phase.size, List.length_cons, List.length_drop]
    omega
  | flush file h =>
    obtain ⟨hentry, -, rest, hdelivered, hcontent⟩ := ht
    rw [hdelivered.nil] at hcontent
    refine .inr ⟨⟨_, hentry, by simpa using hcontent⟩, .inl (by simp [Phase.rank])⟩
  | flush_unchecked file h =>
    rw [h] at hexp
    simp at hexp
  | open_file e h =>
    obtain ⟨inode, hentry, hcontent⟩ := ht
    rw [h] at hentry
    cases hentry
    exact .inr ⟨⟨h, hcontent, List.nil_prefix⟩, .inl (by simp [Phase.rank])⟩
  | missing e contexts h =>
    obtain ⟨inode, hentry, -⟩ := ht
    rw [h] at hentry
    simp at hentry
  | read e inode data n hlt =>
    refine .inr ⟨ht.read n, .inr ⟨rfl, ?_⟩⟩
    simp only [Phase.size, List.length_append, List.length_take, List.length_drop]
    omega
  | verify inode data hlen => exact .inr ⟨⟨inode, ht.1⟩, .inl (by simp [Phase.rank])⟩
  | reject e inode data hlen hne =>
    obtain ⟨hentry, hcontent, hread⟩ := ht
    rw [hcontent] at hlen
    rw [hread.eq_of_length_le hlen] at hne
    exact absurd hstands.1.symm hne
  | drop_corrupt e actual contexts => exact ht.elim
  | publish h => exact .inl rfl
  | vanished contexts h =>
    obtain ⟨inode, hentry⟩ := ht
    rw [h] at hentry
    simp at hentry
  | fail contexts hphase h => exact absurd (hmeets.1 h) hphase

theorem undisturbed_ok : phase.Undisturbed content .ok := ⟨nofun, nofun⟩

theorem undisturbed_piece (n : Nat) : phase.Undisturbed content (.piece n) := ⟨nofun, nofun⟩

theorem undisturbed_response : phase.Undisturbed content (.response [some content]) :=
  ⟨nofun, fun _ h => by cases h; exact ⟨[content], rfl, List.flatten_singleton⟩⟩

/-- A download on track is not stuck. -/
theorem Download.OnTrack.can (ht : d.OnTrack content fs phase) (sha256 : List UInt8 → String) :
    ∃ meets next, phase.Undisturbed content meets ∧ d.step sha256 fs phase meets = some next := by
  cases phase with
  | checking => exact ⟨.ok, _, undisturbed_ok, rfl⟩
  | removing => exact ⟨.ok, _, undisturbed_ok, rfl⟩
  | requesting => exact ⟨.response [some content], _, undisturbed_response, rfl⟩
  | creating stream => exact ⟨.ok, _, undisturbed_ok, rfl⟩
  | streaming file chunk stream =>
    rcases chunk with _ | ⟨b, chunk⟩
    · rcases stream with _ | ⟨_ | c, stream⟩
      · exact ⟨.ok, _, undisturbed_ok, rfl⟩
      · exact ⟨.ok, _, undisturbed_ok, rfl⟩
      · exact ⟨.ok, _, undisturbed_ok, rfl⟩
    · exact ⟨.piece 1, _, undisturbed_piece 1, rfl⟩
  | opening e => exact ⟨.ok, _, undisturbed_ok, rfl⟩
  | reading e inode data =>
    by_cases hlt : data.length < (fs.bytes inode).length
    · exact ⟨.piece 1, _, undisturbed_piece 1, if_pos hlt⟩
    · exact ⟨.ok, _, undisturbed_ok, if_neg hlt⟩
  | removing_corrupt e actual => exact ht.elim
  | publishing =>
    obtain ⟨inode, hentry⟩ := ht
    obtain ⟨fs', hrename⟩ := rename_isSome hentry d.final_dest
    exact ⟨.ok, (fs', .returned (.ok ())), undisturbed_ok, by simp [Download.step, hrename]⟩
  | returned result => exact ht.elim

end Gigastt.Model
