import Gigastt.Audio.Source
import Gigastt.Lib.Loop

/-!
# `BytesMediaSource` against a cursor

The cursor has an exact position. The source follows it until a seek goes beyond `u64`: the
cursor refuses that one, the source wraps around.
-/

namespace Gigastt.Audio

/-! ## The cursor -/

structure Cursor where
  data : List UInt8
  pos : Nat

def Cursor.new (data : List UInt8) : Cursor := { data, pos := 0 }

def Cursor.read (c : Cursor) (buf : List UInt8) : (Nat × List UInt8) × Cursor :=
  let n := min buf.length (c.data.length - c.pos)
  ((n, (c.data.drop c.pos).take n ++ buf.drop n), { c with pos := c.pos + n })

/-- The position that a seek asks for. -/
def SeekFrom.target (len pos : Nat) : SeekFrom → Int
  | .Start n => n.toNat
  | .End off => len + off.toInt
  | .Current off => pos + off.toInt

def Cursor.target (c : Cursor) (pos : SeekFrom) : Int := pos.target c.data.length c.pos

def Cursor.seek (c : Cursor) (pos : SeekFrom) : Option Nat × Cursor :=
  if 0 ≤ c.target pos ∧ c.target pos < 2 ^ 64 then
    (some (c.target pos).toNat, { c with pos := (c.target pos).toNat })
  else (none, c)

def Cursor.step (c : Cursor) : Op → Output × Cursor
  | .read buf => (.read (c.read buf).1.1 (c.read buf).1.2, (c.read buf).2)
  | .seek pos => (.seek (c.seek pos).1, (c.seek pos).2)

def Cursor.run (c : Cursor) : List Op → List Output × Cursor
  | [] => ([], c)
  | op :: ops => ((c.step op).1 :: ((c.step op).2.run ops).1, ((c.step op).2.run ops).2)

/-! ## One operation -/

structure Tracks (s : BytesMediaSource) (c : Cursor) : Prop where
  data : c.data = s.data.val
  pos : c.pos = s.pos.toNat

theorem tracks_new (data : Bytes) : Tracks (.new data) (.new data.val) := ⟨rfl, rfl⟩

theorem len_toNat (data : Bytes) : (UInt64.ofNat data.val.length).toNat = data.val.length := by
  have hfits := data.fits
  rw [UInt64.toNat_ofNat', Nat.mod_eq_of_lt]
  omega

theorem read_tracks {s : BytesMediaSource} {c : Cursor} (h : Tracks s c) (buf : List UInt8) :
    ∃ s', s.read buf = .ok ((c.read buf).1, s') ∧ Tracks s' (c.read buf).2 := by
  obtain ⟨hdata, hpos⟩ := h
  have hfits := s.data.fits
  unfold BytesMediaSource.read Cursor.read
  dsimp only
  rw [hdata, hpos, Nat.min_comm]
  by_cases hend : s.pos ≥ UInt64.ofNat s.data.val.length
  · have hnone : s.data.val.length - s.pos.toNat = 0 := by
      have hle := UInt64.le_iff_toNat_le.mp hend
      rw [len_toNat] at hle
      omega
    rw [if_pos hend, hnone, Nat.zero_min]
    exact ⟨s, rfl, rfl, rfl⟩
  · have hlt : s.pos.toNat < s.data.val.length := by
      have hle := mt UInt64.le_iff_toNat_le.mpr hend
      rw [len_toNat] at hle
      omega
    rw [if_neg hend, usize_sub_of_le (Nat.le_of_lt hlt)]
    generalize hn : min (s.data.val.length - s.pos.toNat) buf.length = n
    have hin : s.pos.toNat + n ≤ s.data.val.length := by omega
    have hroom : n ≤ buf.length := by omega
    have hsize : (UInt64.ofNat n).toNat = n := by
      rw [UInt64.toNat_ofNat', Nat.mod_eq_of_lt]
      omega
    have hlen : ((s.data.val.drop s.pos.toNat).take n).length = n := by
      rw [List.length_take, List.length_drop]
      omega
    have hsum : s.pos.toNat + (UInt64.ofNat n).toNat < 2 ^ 64 := by omega
    refine ⟨{ s with pos := s.pos + UInt64.ofNat n }, ?_, rfl, ?_⟩
    · simp only [bind, Except.bind, hn]
      rw [usize_add_of_lt (by omega)]
      dsimp only
      rw [slice_of_le ⟨Nat.le_add_right _ _, hin⟩, ← List.take_drop]
      dsimp only
      rw [copy_to_of_length hlen hroom, u64_add_of_lt hsum]
      rfl
    · dsimp only
      rw [UInt64.toNat_add, hsize, Nat.mod_eq_of_lt (by omega)]

/-- The sums fit an `i128`, so the target is the exact one. -/
theorem seek_target {s : BytesMediaSource} {c : Cursor} (h : Tracks s c) (pos : SeekFrom) :
    s.seek pos =
      if c.target pos < 0 then .ok (.error (.InvalidInput "seek before start of buffer"), s)
      else .ok (.ok (.ofInt (c.target pos)), { s with pos := .ofInt (c.target pos) }) := by
  obtain ⟨hdata, hpos⟩ := h
  have hfits := s.data.fits
  have hposition := s.pos.toNat_lt
  unfold BytesMediaSource.seek Cursor.target SeekFrom.target
  rw [hdata, hpos]
  cases pos with
  | Start n => rfl
  | End off =>
    have hlow := off.le_toInt
    have hhigh := off.toInt_lt
    dsimp only
    rw [len_toNat, i128_add_of_bounds (by omega)]
    rfl
  | Current off =>
    have hlow := off.le_toInt
    have hhigh := off.toInt_lt
    dsimp only
    rw [i128_add_of_bounds (by omega)]
    rfl

theorem ofInt_toNat {n : Int} (h : 0 ≤ n ∧ n < 2 ^ 64) : (UInt64.ofInt n).toNat = n.toNat := by
  unfold UInt64.ofInt
  rw [Int.emod_eq_of_lt h.1 h.2, UInt64.toNat_ofNat', Nat.mod_eq_of_lt]
  omega

/-- In range, both move to the target or both refuse. -/
theorem seek_tracks {s : BytesMediaSource} {c : Cursor} (h : Tracks s c) {pos : SeekFrom}
    (hfar : c.target pos < 2 ^ 64) :
    ∃ result s', s.seek pos = .ok (result, s') ∧ sought result = .seek (c.seek pos).1 ∧
      Tracks s' (c.seek pos).2 := by
  rw [seek_target h pos]
  unfold Cursor.seek
  by_cases hneg : c.target pos < 0
  · rw [if_pos hneg, if_neg (by omega)]
    exact ⟨_, s, rfl, rfl, h⟩
  · have hin : 0 ≤ c.target pos ∧ c.target pos < 2 ^ 64 := ⟨by omega, hfar⟩
    have hpos := ofInt_toNat hin
    rw [if_neg hneg, if_pos hin]
    refine ⟨_, _, rfl, ?_, h.data, hpos.symm⟩
    dsimp only [sought]
    rw [hpos]

/-- Beyond `u64` the source moves to where the cursor refuses to go. -/
theorem seek_too_far {s : BytesMediaSource} {c : Cursor} (h : Tracks s c) {pos : SeekFrom}
    (hfar : ¬ c.target pos < 2 ^ 64) :
    ∃ result s', s.seek pos = .ok (result, s') ∧ sought result ≠ .seek (c.seek pos).1 := by
  rw [seek_target h pos]
  unfold Cursor.seek
  rw [if_neg (by omega), if_neg (by omega)]
  exact ⟨_, _, rfl, by simp [sought]⟩

/-! ## Runs -/

/-- No seek asks for a position beyond `u64`. -/
def InReach : Cursor → List Op → Prop
  | _, [] => True
  | c, op :: ops => (∀ pos, op = .seek pos → c.target pos < 2 ^ 64) ∧ InReach (c.step op).2 ops

theorem step_tracks {s : BytesMediaSource} {c : Cursor} (h : Tracks s c) {op : Op}
    (hreach : ∀ pos, op = .seek pos → c.target pos < 2 ^ 64) :
    ∃ s', s.step op = .ok ((c.step op).1, s') ∧ Tracks s' (c.step op).2 := by
  unfold BytesMediaSource.step Cursor.step
  cases op with
  | read buf =>
    obtain ⟨s', hread, htracks⟩ := read_tracks h buf
    dsimp only
    rw [hread]
    exact ⟨s', rfl, htracks⟩
  | seek pos =>
    obtain ⟨result, s', hseek, hresult, htracks⟩ := seek_tracks h (hreach pos rfl)
    dsimp only
    rw [hseek, ← hresult]
    exact ⟨s', rfl, htracks⟩

theorem step_differs {s : BytesMediaSource} {c : Cursor} (h : Tracks s c) {op : Op}
    (hfar : ¬ ∀ pos, op = .seek pos → c.target pos < 2 ^ 64) :
    ∃ output s', s.step op = .ok (output, s') ∧ output ≠ (c.step op).1 := by
  simp only [not_forall] at hfar
  obtain ⟨pos, rfl, hfar⟩ := hfar
  obtain ⟨result, s', hseek, hresult⟩ := seek_too_far h hfar
  unfold BytesMediaSource.step
  dsimp only
  rw [hseek]
  exact ⟨sought result, s', rfl, hresult⟩

theorem step_returns (s : BytesMediaSource) (op : Op) :
    ∃ output s', s.step op = .ok (output, s') := by
  have htracks : Tracks s { data := s.data.val, pos := s.pos.toNat } := ⟨rfl, rfl⟩
  by_cases hreach : ∀ pos, op = .seek pos →
      Cursor.target { data := s.data.val, pos := s.pos.toNat } pos < 2 ^ 64
  · obtain ⟨s', hstep, -⟩ := step_tracks htracks hreach
    exact ⟨_, s', hstep⟩
  · obtain ⟨output, s', hstep, -⟩ := step_differs htracks hreach
    exact ⟨output, s', hstep⟩

theorem run_cons {s s₁ s₂ : BytesMediaSource} {op : Op} {ops : List Op} {output : Output}
    {outputs : List Output} (hstep : s.step op = .ok (output, s₁))
    (hrun : s₁.run ops = .ok (outputs, s₂)) : s.run (op :: ops) = .ok (output :: outputs, s₂) := by
  unfold BytesMediaSource.run
  rw [hstep]
  dsimp only [bind, Except.bind]
  rw [hrun]
  rfl

/-- No operation panics, after any others. -/
theorem run_returns (s : BytesMediaSource) (ops : List Op) :
    ∃ outputs s', s.run ops = .ok (outputs, s') := by
  induction ops generalizing s with
  | nil => exact ⟨[], s, rfl⟩
  | cons op ops ih =>
    obtain ⟨output, s₁, hstep⟩ := step_returns s op
    obtain ⟨outputs, s₂, hrun⟩ := ih s₁
    exact ⟨output :: outputs, s₂, run_cons hstep hrun⟩

theorem run_agrees_iff {s : BytesMediaSource} {c : Cursor} (h : Tracks s c) (ops : List Op) :
    ∃ outputs s', s.run ops = .ok (outputs, s') ∧ (outputs = (c.run ops).1 ↔ InReach c ops) ∧
      (InReach c ops → Tracks s' (c.run ops).2) := by
  induction ops generalizing s c with
  | nil => exact ⟨[], s, rfl, ⟨fun _ => trivial, fun _ => rfl⟩, fun _ => h⟩
  | cons op ops ih =>
    by_cases hreach : ∀ pos, op = .seek pos → c.target pos < 2 ^ 64
    · obtain ⟨s₁, hstep, htracks⟩ := step_tracks h hreach
      obtain ⟨outputs, s₂, hrun, hiff, hend⟩ := ih htracks
      refine ⟨_, s₂, run_cons hstep hrun, ?_, fun hrest => hend hrest.2⟩
      unfold Cursor.run InReach
      rw [List.cons.injEq, hiff]
      exact ⟨fun hsame => ⟨hreach, hsame.2⟩, fun hrest => ⟨rfl, hrest.2⟩⟩
    · -- The outputs part here, whatever comes after.
      obtain ⟨output, s₁, hstep, hne⟩ := step_differs h hreach
      obtain ⟨outputs, s₂, hrun⟩ := run_returns s₁ ops
      refine ⟨_, s₂, run_cons hstep hrun, ?_, fun hrest => absurd hrest.1 hreach⟩
      unfold Cursor.run InReach
      rw [List.cons.injEq]
      exact ⟨fun hsame => absurd hsame.1 hne, fun hrest => absurd hrest.1 hreach⟩

/-- No run panics, and its results are the cursor's exactly where no seek goes beyond `u64`. -/
theorem media_source_agrees_iff (data : Bytes) (ops : List Op) :
    ∃ outputs s', (BytesMediaSource.new data).run ops = .ok (outputs, s') ∧
      (outputs = ((Cursor.new data.val).run ops).1 ↔ InReach (.new data.val) ops) ∧
      (InReach (.new data.val) ops → Tracks s' ((Cursor.new data.val).run ops).2) :=
  run_agrees_iff (tracks_new data) ops

/-- One step on from the last position is the first position. -/
theorem far_seek_wraps :
    ((BytesMediaSource.new ⟨[], by decide⟩).run
        [.seek (.Start 18446744073709551615), .seek (.Current 1)]).map Prod.fst =
      .ok [.seek (some 18446744073709551615), .seek (some 0)] ∧
    ((Cursor.new []).run [.seek (.Start 18446744073709551615), .seek (.Current 1)]).1 =
      [.seek (some 18446744073709551615), .seek none] := by
  decide

end Gigastt.Audio
