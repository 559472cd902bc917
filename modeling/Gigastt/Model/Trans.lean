import Gigastt.Model.Code

/-!
# What one step of a download can do

`Trans` lists the steps with their guards, and the proofs about downloads go by its cases.
-/

namespace Gigastt.Model

open Files

/-- What a step meets when it fails without having done anything. -/
def Meets.is_failure : Meets → Bool
  | .fails | .refused _ => true
  | _ => false

inductive Download.Trans (sha256 : List UInt8 → String) (d : Download) (fs : Dir String) :
    Phase → Meets → Dir String → Phase → Prop where
  | find_stale {inode} (h : fs.entry (partial_path d.final_dest) = some inode) :
      Trans sha256 d fs .checking .ok fs .removing
  | find_none (h : fs.entry (partial_path d.final_dest) = none) :
      Trans sha256 d fs .checking .ok fs .requesting
  | drop_stale : Trans sha256 d fs .removing .ok (fs.remove (partial_path d.final_dest)) .requesting
  | keep_stale : Trans sha256 d fs .removing .fails fs .requesting
  | respond (stream) : Trans sha256 d fs .requesting (.response stream) fs (.creating stream)
  | create (stream) :
      Trans sha256 d fs (.creating stream) .ok (fs.create (partial_path d.final_dest)).1
        (.streaming (fs.create (partial_path d.final_dest)).2 [] stream)
  | receive (file chunk stream) :
      Trans sha256 d fs (.streaming file [] (some chunk :: stream)) .ok fs
        (.streaming file chunk stream)
  | break_off (file stream) :
      Trans sha256 d fs (.streaming file [] (none :: stream)) .ok fs (.fail ["Download stream error"])
  | write (file b chunk stream n) :
      Trans sha256 d fs (.streaming file (b :: chunk) stream) (.piece (n + 1))
        (fs.write file (b :: chunk.take n)).1
        (.streaming (fs.write file (b :: chunk.take n)).2 (chunk.drop n) stream)
  | flush {expected} (file) (h : d.expected_sha256 = some expected) :
      Trans sha256 d fs (.streaming file [] []) .ok fs (.opening expected)
  | flush_unchecked (file) (h : d.expected_sha256 = none) :
      Trans sha256 d fs (.streaming file [] []) .ok fs .publishing
  | open_file {inode} (expected) (h : fs.entry (partial_path d.final_dest) = some inode) :
      Trans sha256 d fs (.opening expected) .ok fs (.reading expected inode [])
  | missing (expected contexts) (h : fs.entry (partial_path d.final_dest) = none) :
      Trans sha256 d fs (.opening expected) .ok fs (.fail contexts)
  | read (expected inode data n) (h : data.length < (fs.bytes inode).length) :
      Trans sha256 d fs (.reading expected inode data) (.piece (n + 1)) fs
        (.reading expected inode (data ++ ((fs.bytes inode).drop data.length).take (n + 1)))
  | verify (inode data) (h : (fs.bytes inode).length ≤ data.length) :
      Trans sha256 d fs (.reading (sha256 data) inode data) .ok fs .publishing
  | reject (expected inode data) (h : (fs.bytes inode).length ≤ data.length)
      (hne : sha256 data ≠ expected) :
      Trans sha256 d fs (.reading expected inode data) .ok fs
        (.removing_corrupt expected (sha256 data))
  | drop_corrupt (expected actual contexts) :
      Trans sha256 d fs (.removing_corrupt expected actual) .ok
        (fs.remove (partial_path d.final_dest)) (.fail contexts)
  | publish {fs'} (h : fs.rename (partial_path d.final_dest) d.final_dest = some fs') :
      Trans sha256 d fs .publishing .ok fs' (.returned (.ok ()))
  | vanished (contexts) (h : fs.entry (partial_path d.final_dest) = none) :
      Trans sha256 d fs .publishing .ok fs (.fail contexts)
  | fail {phase meets} (contexts) (hphase : phase ≠ .removing) (h : meets.is_failure) :
      Trans sha256 d fs phase meets fs (.fail contexts)

variable {sha256 : List UInt8 → String} {d : Download} {fs fs' : Dir String}
  {phase phase' : Phase} {meets : Meets}

theorem trans_of_step (h : d.step sha256 fs phase meets = some (fs', phase')) :
    d.Trans sha256 fs phase meets fs' phase' := by
  unfold Download.step at h
  split at h
  · cases h
    split
    · rename_i hp
      obtain ⟨inode, hp⟩ := Option.isSome_iff_exists.mp hp
      exact .find_stale hp
    · rename_i hp
      exact .find_none (by simpa using hp)
  · cases h; exact .drop_stale
  · cases h; exact .keep_stale
  · cases h; exact .fail _ nofun rfl
  · cases h; exact .fail _ nofun rfl
  · cases h; exact .respond _
  · cases h; exact .fail _ nofun rfl
  · cases h; exact .create _
  · cases h; exact .receive ..
  · cases h; exact .break_off ..
  · cases h; exact .fail _ nofun rfl
  · cases h
    cases hexp : d.expected_sha256 with
    | none => exact .flush_unchecked _ hexp
    | some expected => exact .flush _ hexp
  · cases h; exact .fail _ nofun rfl
  · cases h; exact .write ..
  · cases h
    split
    · rename_i hp
      exact .open_file _ hp
    · rename_i hp
      exact .missing _ _ hp
  · cases h; exact .fail _ nofun rfl
  · cases h; exact .fail _ nofun rfl
  · split at h
    · rename_i hlt
      cases h
      exact .read _ _ _ _ hlt
    · simp at h
  · split at h
    · simp at h
    · rename_i hlen
      cases h
      split
      · rename_i hsha
        subst hsha
        exact .verify _ _ (Nat.le_of_not_lt hlen)
      · rename_i hsha
        exact .reject _ _ _ (Nat.le_of_not_lt hlen) hsha
  · split at h
    · cases h; exact .drop_corrupt ..
    · cases h; exact .fail _ nofun rfl
    · simp at h
  · split at h
    · split at h
      · rename_i hrename
        cases h
        exact .publish hrename
      · rename_i hrename
        cases h
        refine .vanished _ ?_
        by_contra hsome
        obtain ⟨inode, hi⟩ := Option.ne_none_iff_exists'.mp hsome
        obtain ⟨_, hr⟩ := rename_isSome hi d.final_dest
        rw [hr] at hrename
        simp at hrename
    · cases h; exact .fail _ nofun rfl
    · simp at h
  · simp at h

/-! ## What the verification knows -/

theorem partial_path_ne (final_path : String) : partial_path final_path ≠ final_path := by
  intro h
  have hlen := congrArg String.length h
  simp only [partial_path, String.length_append] at hlen
  have hsuffix : ".partial".length = 8 := by decide
  omega

theorem Download.Trans.sound (h : d.Trans sha256 fs phase meets fs' phase') (hs : fs.Sound) :
    fs'.Sound := by
  cases h with
  | drop_stale => exact hs.remove _
  | drop_corrupt => exact hs.remove _
  | create stream => exact hs.create _
  | write file b chunk stream n => exact hs.write _ _
  | publish h => exact hs.rename (partial_path_ne _) h
  | _ => exact hs

/-- The file under the final name, if there is one, has the expected hash. -/
def Download.Verified (sha256 : List UInt8 → String) (d : Download) (expected : String)
    (fs : Dir String) : Prop :=
  ∀ inode, fs.entry d.final_dest = some inode → sha256 (fs.bytes inode) = expected

/-- A partial file that is being read starts with what was read. One that is about to be
renamed has the expected hash. -/
def Download.Stands (sha256 : List UInt8 → String) (d : Download) (expected : String)
    (fs : Dir String) : Phase → Prop
  | .opening e => e = expected
  | .reading e inode data =>
    e = expected ∧ ∀ i, fs.entry (partial_path d.final_dest) = some i →
      i = inode ∧ data <+: fs.bytes i
  | .publishing =>
    ∀ i, fs.entry (partial_path d.final_dest) = some i → sha256 (fs.bytes i) = expected
  | _ => True

variable {expected : String}

/-- A download keeps up what it knows itself. -/
theorem Download.Trans.stands (h : d.Trans sha256 fs phase meets fs' phase')
    (hexp : d.expected_sha256 = some expected) (hs : d.Stands sha256 expected fs phase) :
    d.Stands sha256 expected fs' phase' := by
  cases h with
  | flush file h => exact Option.some.inj (h.symm.trans hexp)
  | flush_unchecked file h =>
    rw [h] at hexp
    simp at hexp
  | open_file _ h =>
    refine ⟨hs, fun i hi => ?_⟩
    rw [h] at hi
    exact ⟨(Option.some.inj hi).symm, List.nil_prefix⟩
  | read e inode data n hlt =>
    refine ⟨hs.1, fun i hi => ?_⟩
    obtain ⟨rfl, rest, hrest⟩ := hs.2 i hi
    refine ⟨rfl, ?_⟩
    rw [← hrest, List.drop_left]
    exact List.prefix_append_right_inj _ |>.mpr (List.take_prefix ..)
  | verify inode data hlen =>
    intro i hi
    obtain ⟨rfl, hread⟩ := hs.2 i hi
    rw [← hread.eq_of_length_le hlen]
    exact hs.1
  | _ => trivial

/-- A name that is gone stands for nothing that could be wrong. -/
theorem Download.Stands.of_none (hs : d.Stands sha256 expected fs phase)
    (h : fs'.entry (partial_path d.final_dest) = none) : d.Stands sha256 expected fs' phase := by
  cases phase with
  | opening e => exact hs
  | reading e inode data => exact ⟨hs.1, fun i hi => by simp [h] at hi⟩
  | publishing => exact fun i hi => by simp [h] at hi
  | _ => trivial

/-- What is known depends on the partial file alone. -/
theorem Download.Stands.congr (hs : d.Stands sha256 expected fs phase)
    (hentry : fs'.entry (partial_path d.final_dest) = fs.entry (partial_path d.final_dest))
    (hbytes : ∀ i, fs.entry (partial_path d.final_dest) = some i → fs'.bytes i = fs.bytes i) :
    d.Stands sha256 expected fs' phase := by
  cases phase with
  | opening e => exact hs
  | reading e inode data =>
    refine ⟨hs.1, fun i hi => ?_⟩
    rw [hentry] at hi
    rw [hbytes i hi]
    exact hs.2 i hi
  | publishing =>
    intro i hi
    rw [hentry] at hi
    rw [hbytes i hi]
    exact hs i hi
  | _ => trivial

end Gigastt.Model
