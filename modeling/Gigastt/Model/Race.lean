import Gigastt.Model.Trans
import Mathlib.Data.Fintype.Basic

/-!
# Downloads of one file at the same time

All stage under the same partial name. What comes under the final name is verified as long as
no download touches the partial file while another one is between its read and its rename.
-/

namespace Gigastt.Model

open Files Steps

variable {ι : Type}

/-- The directory, and how far the download of each process has come that has one. -/
structure Race (ι : Type) where
  fs : Dir String
  downloads : ι → Option Phase

def Race.idle (fs : Dir String) : Race ι := { fs, downloads := fun _ => none }

/-- A process starts a download, stops, or takes a step of its download. -/
def Race.step [DecidableEq ι] (sha256 : List UInt8 → String) (d : Download) (s : Race ι)
    (a : ι × Event) : Option (Race ι) :=
  match a.2 with
  | .start =>
    match s.downloads a.1 with
    | none | some (.returned _) =>
      some { s with downloads := Function.update s.downloads a.1 (some .checking) }
    | _ => none
  | .crash => some { s with downloads := Function.update s.downloads a.1 none }
  | .step meets =>
    (s.downloads a.1).bind fun phase =>
      (d.step sha256 s.fs phase meets).map fun (fs, phase) =>
        { fs, downloads := Function.update s.downloads a.1 (some phase) }

/-- Between the start of the read and the rename. -/
def Phase.verifies : Phase → Bool
  | .reading .. | .publishing => true
  | _ => false

def Race.Verifying (s : Race ι) : Prop := ∃ j, (s.downloads j).any Phase.verifies

/-- The step creates or changes the partial file while a download verifies it, or changes a
file that has its final name. -/
def Interferes (d : Download) (s : Race ι) (a : ι × Event) : Prop :=
  match s.downloads a.1, a.2 with
  | some (.creating _), .step .ok => s.Verifying
  | some (.streaming file (b :: chunk) _), .step (.piece (n + 1)) =>
    (s.fs.write file (b :: chunk.take n)).1.bytes file.inode ≠ s.fs.bytes file.inode ∧
      (s.fs.entry d.final_dest = some file.inode ∨
        s.fs.entry (partial_path d.final_dest) = some file.inode ∧ s.Verifying)
  | _, _ => False

instance [Fintype ι] (s : Race ι) : Decidable s.Verifying := inferInstanceAs (Decidable (∃ _, _))

instance [Fintype ι] (d : Download) (s : Race ι) (a : ι × Event) : Decidable (Interferes d s a) := by
  unfold Interferes
  split <;> infer_instance

variable {sha256 : List UInt8 → String} {d : Download} {expected : String}

theorem Download.stands_of_not_verifies {fs fs' : Dir String} {phase : Phase}
    (hs : d.Stands sha256 expected fs phase) (h : phase.verifies = false) :
    d.Stands sha256 expected fs' phase := by
  cases phase with
  | opening e => exact hs
  | reading e inode data => simp [Phase.verifies] at h
  | publishing => simp [Phase.verifies] at h
  | _ => trivial

structure Race.Inv (sha256 : List UInt8 → String) (d : Download) (expected : String)
    (s : Race ι) : Prop where
  sound : s.fs.Sound
  verified : d.Verified sha256 expected s.fs
  stands : ∀ i phase, s.downloads i = some phase → d.Stands sha256 expected s.fs phase

theorem race_idle {fs : Dir String} (hfs : fs.Sound) (h : fs.entry d.final_dest = none) :
    (Race.idle fs : Race ι).Inv sha256 d expected :=
  ⟨hfs, fun inode hi => by simp [Race.idle, h] at hi, fun _ _ hi => by cases hi⟩

theorem update_some_iff {σ : Type} [DecidableEq ι] {f : ι → Option σ} {j k : ι} {o : Option σ}
    {x : σ} : Function.update f j o k = some x ↔ (k = j ∧ o = some x) ∨ (k ≠ j ∧ f k = some x) := by
  by_cases h : k = j
  · subst h
    rw [Function.update_self]
    simp
  · rw [Function.update_of_ne h]
    simp [h]

/-- A download begins or ends without a step. -/
theorem Race.Inv.set [DecidableEq ι] {s : Race ι} {i : ι} {o : Option Phase}
    (hinv : s.Inv sha256 d expected) (ho : ∀ phase, o = some phase → phase = .checking) :
    Race.Inv sha256 d expected { s with downloads := Function.update s.downloads i o } := by
  refine ⟨hinv.sound, hinv.verified, fun j phase hj => ?_⟩
  rcases update_some_iff.mp hj with ⟨-, hnew⟩ | ⟨-, hold⟩
  · rw [ho phase hnew]
    trivial
  · exact hinv.stands j phase hold

/-- What the step of one download leaves of a file that another one verifies. -/
theorem other_stands {s : Race ι} {i j : ι} {meets : Meets} {fs' : Dir String}
    {phase phase' other : Phase} (hquiet : ¬ Interferes d s (i, .step meets))
    (hinv : s.Inv sha256 d expected) (hphase : s.downloads i = some phase)
    (h : d.Trans sha256 s.fs phase meets fs' phase') (hother : s.downloads j = some other) :
    d.Stands sha256 expected fs' other := by
  have hj := hinv.stands j other hother
  by_cases hverifies : other.verifies = false
  · exact Download.stands_of_not_verifies hj hverifies
  replace hverifies : s.Verifying := ⟨j, by rw [hother]; simpa using hverifies⟩
  cases h with
  | drop_stale => exact hj.of_none (remove_self ..)
  | drop_corrupt => exact hj.of_none (remove_self ..)
  | create stream =>
    exact absurd (by simpa only [Interferes, hphase] using hverifies) hquiet
  | write file b chunk stream n =>
    refine hj.congr rfl fun k hk => ?_
    by_cases hsame : k = file.inode
    · -- Only a write that changes nothing may go to the partial file.
      subst hsame
      by_contra hchanged
      exact hquiet (by
        simp only [Interferes, hphase]
        exact ⟨hchanged, .inr ⟨hk, hverifies⟩⟩)
    · exact write_bytes_of_ne _ _ hsame
  | publish h =>
    obtain ⟨_, _, _, hgone, _⟩ := rename_eq_some h (partial_path_ne _)
    exact hj.of_none hgone
  | _ => exact hj

/-- What the step of one download leaves under the final name. -/
theorem final_verified {s : Race ι} {i : ι} {meets : Meets} {fs' : Dir String}
    {phase phase' : Phase} (hquiet : ¬ Interferes d s (i, .step meets))
    (hinv : s.Inv sha256 d expected) (hphase : s.downloads i = some phase)
    (h : d.Trans sha256 s.fs phase meets fs' phase') : d.Verified sha256 expected fs' := by
  have hne : d.final_dest ≠ partial_path d.final_dest := (partial_path_ne _).symm
  have hi := hinv.stands i phase hphase
  cases h with
  | drop_stale =>
    intro k hk
    rw [remove_of_ne _ hne] at hk
    exact hinv.verified k hk
  | drop_corrupt =>
    intro k hk
    rw [remove_of_ne _ hne] at hk
    exact hinv.verified k hk
  | create stream =>
    intro k hk
    rw [create_of_ne _ hne] at hk
    rw [create_bytes_of_ne hinv.sound hne hk]
    exact hinv.verified k hk
  | write file b chunk stream n =>
    intro k hk
    rw [write_entry] at hk
    by_cases hsame : k = file.inode
    · subst hsame
      by_cases hchanged : (s.fs.write file (b :: chunk.take n)).1.bytes file.inode =
          s.fs.bytes file.inode
      · rw [hchanged]
        exact hinv.verified _ hk
      · exact absurd (by simp only [Interferes, hphase]; exact ⟨hchanged, .inl hk⟩) hquiet
    · rw [write_bytes_of_ne _ _ hsame]
      exact hinv.verified k hk
  | publish h =>
    -- The hash was checked, and the partial file is still the one that was read.
    obtain ⟨inode, hpartial, hfinal, -, hbytes, -⟩ := rename_eq_some h (partial_path_ne _)
    intro k hk
    rw [hfinal] at hk
    cases hk
    rw [hbytes]
    exact hi _ hpartial
  | _ => exact hinv.verified

theorem race_step [DecidableEq ι] {s s' : Race ι} {a : ι × Event}
    (hexp : d.expected_sha256 = some expected) (hquiet : ¬ Interferes d s a)
    (h : s.step sha256 d a = some s') (hinv : s.Inv sha256 d expected) :
    s'.Inv sha256 d expected := by
  obtain ⟨i, e⟩ := a
  cases e with
  | start =>
    simp only [Race.step] at h
    split at h
    · cases h; exact hinv.set fun _ h => (Option.some.inj h).symm
    · cases h; exact hinv.set fun _ h => (Option.some.inj h).symm
    · simp at h
  | crash =>
    cases h
    exact hinv.set fun _ h => by cases h
  | step meets =>
    obtain ⟨phase, hphase, h⟩ := Option.bind_eq_some_iff.mp h
    obtain ⟨⟨fs', phase'⟩, hstep, rfl⟩ := Option.map_eq_some_iff.mp h
    have htrans := trans_of_step hstep
    refine ⟨htrans.sound hinv.sound, final_verified hquiet hinv hphase htrans, fun j other hj => ?_⟩
    rcases update_some_iff.mp hj with ⟨-, hnew⟩ | ⟨-, hold⟩
    · obtain rfl := Option.some.inj hnew
      exact htrans.stands hexp (hinv.stands i phase hphase)
    · exact other_stands hquiet hinv hphase htrans hold

/-- Without interference, no interleaving publishes a file that was not verified. -/
theorem published_verified [DecidableEq ι] {fs : Dir String}
    (hexp : d.expected_sha256 = some expected) (hfs : fs.Sound)
    (habsent : fs.entry d.final_dest = none) {as : List (ι × Event)}
    (hquiet : EachStep (Race.step sha256 d) (fun s a => ¬ Interferes d s a) (.idle fs) as) :
    Throughout (Race.step sha256 d) (fun s => d.Verified sha256 expected s.fs) (.idle fs) as :=
  throughout_of_eachStep (Race.Inv sha256 d expected)
    (fun _ _ _ hq h hinv => race_step hexp hq h hinv) (fun _ hinv => hinv.verified) hquiet
    (race_idle hfs habsent)

/-! ## Two downloads of a small file -/

def abc : List UInt8 := [97, 98, 99]

/-- SHA-256 of `abc` and of the empty file. -/
def digest (data : List UInt8) : String :=
  if data = abc then "ba7816bf8f01cfea414140de5dae2223b00361a396177a9cb410ff61f20015ad"
  else if data = [] then "e3b0c44298fc1c149afbf4c8996fb92427ae41e4649b934ca495991b7852b855"
  else ""

def vocab : Download :=
  { final_dest := "vocab.txt", expected_sha256 := some (digest abc), label := "vocab.txt" }

/-- Steps of one of the two. -/
def steps_of (i : Bool) (meets : List Meets) : List (Bool × Event) := meets.map fun m => (i, .step m)

/-- A download of `abc` by one of the two, from the request up to the end of the read. -/
def verified_by (i : Bool) : List (Bool × Event) :=
  steps_of i [.response [some abc], .ok, .ok, .piece 3, .ok, .ok, .piece 3, .ok]

/-- Both start, and the second one stops in the middle of its file. The first one removes that,
and publishes a file of its own. The second one then comes back. -/
def crossing : List (Bool × Event) :=
  [(true, .start), (false, .start)] ++ steps_of true [.ok, .response [some abc], .ok, .ok, .piece 1] ++
    steps_of false [.ok, .ok] ++ [(true, .crash)] ++ verified_by false ++ steps_of false [.ok] ++
    [(true, .start)] ++ steps_of true [.ok] ++ verified_by true ++ steps_of true [.ok]

theorem published_verified_crossing :
    (∃ t, run (Race.step digest vocab) (.idle .empty) crossing = some t ∧
      (t.fs.entry "vocab.txt").isSome) ∧
    Throughout (Race.step digest vocab) (fun s => vocab.Verified digest (digest abc) s.fs)
      (.idle .empty) crossing := by
  refine ⟨⟨_, rfl, rfl⟩, published_verified rfl Dir.sound_empty rfl ?_⟩
  decide

/-- The second download empties the file that the first one has verified, which then
publishes it. -/
theorem emptied_file_published :
    ∃ t, run (Race.step digest vocab) (.idle .empty)
        ([(false, .start), (true, .start)] ++ steps_of true [.ok] ++ steps_of false [.ok] ++
          verified_by false ++ steps_of true [.response [some abc], .ok] ++ steps_of false [.ok]) =
        some t ∧
      ¬ vocab.Verified digest (digest abc) t.fs := by
  refine ⟨_, rfl, fun h => ?_⟩
  exact absurd (h 0 rfl) (by decide)

end Gigastt.Model
