import F2b.Sources.Theorems.Watch

-- A log file that is rotated: whether all lines that are written to its path are returned.

open Transition (Steps Guarded)

namespace F2b.Files.Watch

variable {s s' s₀ : Watch} {e : Event} {es : List Event} {path : CString} {k : Nat} {file : File}
  {fd : Stream} {c : Call} {line : Option (UInt32 × CString)} {cfg : Config} {ls : List CString}

-- The call meets no rotated file before the one at this place.
def Clear (c : Call) (files : List File) (k : Nat) : Prop :=
  ∀ i < k, ∀ file ∈ files[i]?, Visits c files i → ¬Rotated c.fs file

-- What a call finds when it gets to the file: nothing is lost if it opens a rotated file while the new
-- one is still empty, and if it only takes whole lines from another one.
def Finds (s : Watch) (c : Call) (file : File) (fd : Stream) : Prop :=
  (Rotated c.fs file → Openable c.fs file.path ∧ s.data = []) ∧
  (¬Rotated c.fs file → (s.turned → fd.pos = 0) ∧ Fits c.fs (intSize c.bufsize) fd)

-- The file is rotated when all its lines are read, and what the calls find is as it should be.
def Keeps (k : Nat) (s : Watch) : Event → Prop
  | .write _ | .create _ => True
  | .remove | .truncate  => (CString.split (s.pending k)).1 = []
  | .next c              => Clear c s.cfg.files k ∧
    (Visits c s.cfg.files k → ∀ file ∈ s.cfg.files[k]?, ∀ fd ∈ file.fd, s.Finds c file fd)

-- All lines have been returned, and the node has not seen the new file yet.
def Waiting (s : Watch) (file : File) : Prop :=
  s.returned = s.done ∧ s.base = 0 ∧ ∃ fd, file.fd = some fd ∧ fd.eof = false ∧ fd.ino = file.st.ino

structure Watched (path : CString) (k : Nat) (s : Watch) : Prop where
  current : s.cfg.current = none ∨ s.cfg.current = some 0
  valid   : path ≠ [] ∧ path.length < PATH_MAX
  node    : ∃ file, s.cfg.files[k]? = some file ∧ file.path = path ∧
    if s.turned then s.Waiting file else s.InStep file

theorem Init.watched (h : Init path k s) : s.Watched path k := by
  have ⟨ho, hc, ht, file, hf, hp, hs⟩ := h.inStep
  have ho := ho file (List.mem_of_getElem? hf)
  exact ⟨hc, hp ▸ ⟨ho.path, ho.short⟩, file, hf, hp, by simpa [ht] using hs⟩

-- A file that has not been seen to be rotated, and of which nothing has been read, is read on.
theorem Waiting.inStep (h : s.Waiting file) (hs : s.Sees file.path c.fs) (hr : ¬Rotated c.fs file)
    (hp : ∀ fd ∈ file.fd, fd.pos = 0) : s.InStep file := by
  obtain ⟨hd, hb, fd, hf, he, hi⟩ := h
  cases hino : s.ino
  case none     =>
    have hs : c.fs.find file.path = none := by simpa [Sees, hino] using hs
    exact absurd (by simp [Rotated, fileRotated, Fs.stat, hs, hf]) hr
  case some ino =>
    have hs : Shows file.path ino s.data c.fs := by simpa [Sees, hino] using hs
    rw [hs.rotated_iff] at hr
    simp only [not_or, not_not, not_lt] at hr
    refine ⟨ino, [], 0, hino, by simpa using hd, ?_⟩
    exact {
      fd    := by rw [hf, ← hr.2.1, ← hi, ← he, ← hp fd hf]
      st    := hr.2
      start := hb ▸ Nat.zero_le _
      stop  := Nat.zero_le _
      lines := hb ▸ rfl
      plain := fun _ hl => absurd hl List.not_mem_nil }

theorem Waiting.turn (h : s.Waiting file) (hs : s.Sees file.path c.fs) (hd : s.data = [])
    {file' : File} (ho : opened c.fs file.path = some file') : s.InStep file' := by
  cases hino : s.ino
  case none     =>
    have hs : c.fs.find file.path = none := by simpa [Sees, hino] using hs
    simp [opened, Fs.stat, hs] at ho
  case some ino =>
    have hs : Shows file.path ino s.data c.fs := by simpa [Sees, hino] using hs
    have hb : s.base = s.data.length := by rw [h.2.1, hd]; rfl
    exact ⟨ino, [], s.data.length, hino, by simpa using h.1, hb ▸ opened_reading hs ho⟩

theorem poll_turned (hv : Visits c s.cfg.files k) : (s.poll k c line cfg).turned = false := by
  simp [poll, hv]

theorem returned_poll : s.returned <+: (s.poll k c line cfg).returned :=
  List.prefix_append ..

-- What a call does to a watched file that it gets to: it opens it again, or returns its next line, or
-- there is none.
theorem Watched.visit (h : s.Watched path k) (hs : s.Sees path c.fs) (hv : Visits c s.cfg.files k)
    (hk : s.Keeps k (.next c)) (hw : walk c.fs c.bufsize s.cfg.files = .ok (line, cfg.files)) :
    (∃ file, cfg.files[k]? = some file ∧ file.path = path ∧ (s.poll k c line cfg).InStep file) ∧
    (s.Counts k c → s.turned ∨ s.returned.length < (s.poll k c line cfg).returned.length ∨
      s.returned = s.written) := by
  obtain ⟨file, hf, rfl, hn⟩ := h.node
  have hk := hk.2 hv file hf
  cases ht : s.turned
  case false =>
    rw [ht] at hn
    have hr := hn.not_rotated hs
    have ⟨hf, hp, hn, hc⟩ := hn.poll hf hs hv (fun fd hfd => ((hk fd hfd).2 hr).2) hw
    exact ⟨⟨_, hf, hp, hn⟩, fun h => .inr ((hc h).imp_left fun h => by omega)⟩
  case true  =>
    rw [ht] at hn
    refine ⟨?_, fun _ => .inl rfl⟩
    obtain ⟨_, _, fd, hfd, _⟩ := id hn
    have hk := hk fd hfd
    by_cases hr : Rotated c.fs file
    case pos =>
      have ⟨ho, hd⟩ := hk.1 hr
      have ⟨file', ho⟩ := Option.isSome_iff_exists.mp ho
      have ⟨_, hp⟩ := opened_path ho h.valid.2
      have ⟨hy, hf⟩ := walk_turn hw hf hv ⟨hfd ▸ nofun, h.valid.1, h.valid.2⟩ hr
      exact ⟨file', by rw [hf, ho]; rfl, hp, (Waiting.turn hn hs hd ho).poll_of_none hy⟩
    case neg =>
      have ⟨hp, hfit⟩ := hk.2 hr
      have hn := Waiting.inStep hn hs hr fun _ h => Option.some.inj (hfd.symm.trans h) ▸ hp ht
      have ⟨hf, hp, hn, _⟩ := hn.poll hf hs hv (fun _ h => Option.some.inj (hfd.symm.trans h) ▸ hfit) hw
      exact ⟨_, hf, hp, hn⟩

theorem Watched.next (h : s.Watched path k) (hs : s.Sees path c.fs) (hk : s.Keeps k (.next c))
    (hn : Files.next c.fs c.bufsize c.reset s.cfg = .ok (line, cfg)) :
    (s.poll k c line cfg).Watched path k ∧
    (s.Counts k c → s.turned ∨ s.returned.length < (s.poll k c line cfg).returned.length ∨
      s.returned = s.written) := by
  have ⟨hw, hc⟩ := next_walk h.current hn
  by_cases hv : Visits c s.cfg.files k
  case pos =>
    have ⟨⟨file, hf, hp, hn⟩, hr⟩ := h.visit hs hv hk hw
    exact ⟨⟨hc, h.valid, file, hf, hp, by simpa [poll_turned hv] using hn⟩, hr⟩
  case neg =>
    refine ⟨⟨hc, h.valid, ?_⟩, fun hc => absurd hc.1 hv⟩
    obtain ⟨file, hf, hp, hn⟩ := h.node
    have ⟨hy, hf'⟩ := walk_before hw (k := k) fun h => absurd h hv
    refine ⟨file, ?_, hp, ?_⟩
    case refine_1 =>
      refine (hf'.resolve_right ?_).trans hf
      rintro ⟨_, i, hi, f, hf, hv, hr⟩
      exact hk.1 i hi f hf hv hr
    case refine_2 =>
      have ht : (s.poll k c line cfg).turned = s.turned := by simp [poll, hv]
      cases hts : s.turned
      case false =>
        rw [hts] at hn
        simpa [ht, hts] using InStep.poll_of_none hn hy
      case true  =>
        rw [hts] at hn
        simpa [ht, hts] using (show Waiting _ file from ⟨(poll_returned hy).trans hn.1, hn.2⟩)

theorem Watched.prefix_written (h : s.Watched path k) : s.returned <+: s.written := by
  obtain ⟨file, _, _, hn⟩ := h.node
  split at hn
  case isTrue  => rw [hn.1]; exact List.prefix_append ..
  case isFalse => exact hn.prefix_written

theorem Watched.base (h : s.Watched path k) : s.base ≤ s.data.length := by
  obtain ⟨file, _, _, hn⟩ := h.node
  split at hn
  case isTrue  => rw [hn.2.1]; exact Nat.zero_le _
  case isFalse => obtain ⟨_, _, _, _, _, hn⟩ := hn; exact hn.start

theorem Watched.returned_eq (h : s.Watched path k) (hp : (CString.split (s.pending k)).1 = []) :
    s.returned = s.written := by
  obtain ⟨file, hf, _, hn⟩ := h.node
  split at hn
  case isTrue ht  =>
    have hp : (CString.split s.data).1 = [] := by simpa [pending, ht] using hp
    rw [written, hn.1, hn.2.1, List.drop_zero, hp, List.append_nil]
  case isFalse ht => exact hn.returned_eq hf (Bool.eq_false_iff.mpr ht) hp

theorem Watched.rotate (h : s.Watched path k) (hp : (CString.split (s.pending k)).1 = []) (ino : Option Ino) :
    (s.rotate ino).Watched path k := by
  obtain ⟨file, hf, hp', hn⟩ := h.node
  refine ⟨h.current, h.valid, file, hf, hp', h.returned_eq hp, rfl, ?_⟩
  split at hn
  case isTrue  => exact hn.2.2
  case isFalse => obtain ⟨_, _, _, _, _, hn⟩ := hn; exact ⟨_, hn.fd, rfl, hn.st.1.symm⟩

theorem Watched.step (h : s.Watched path k) (hs : Guarded (Step path k) (Keeps k) s e s') :
    s'.Watched path k := by
  obtain ⟨hs, hk⟩ := hs
  obtain ⟨file, hf, hp, hn⟩ := id h.node
  cases hs
  case write         =>
    refine ⟨h.current, h.valid, file, hf, hp, ?_⟩
    split at hn
    case isTrue ht  => exact if_pos ht ▸ hn
    case isFalse ht => exact if_neg ht ▸ hn.write
  case remove        => exact h.rotate hk _
  case truncate      => exact h.rotate hk _
  case create ino hi =>
    refine ⟨h.current, h.valid, file, hf, hp, ?_⟩
    split at hn
    case isTrue ht  => exact if_pos ht ▸ hn
    case isFalse ht => obtain ⟨_, _, _, hi', _⟩ := hn; cases hi.symm.trans hi'
  case next hs hn    => exact (h.next hs hk hn).1

-- These lines are returned, or have been written and the calls up to the visit with this number are
-- enough to return them.
def Due (n : Nat) (ls : List CString) (s : Watch) : Prop :=
  ls <+: s.returned ∨
  ls <+: s.written ∧ s.visits + ls.length + s.turned.toNat ≤ n + s.returned.length

theorem returned_mono (hs : Step path k s e s') : s.returned <+: s'.returned := by
  cases hs
  case next => exact returned_poll
  all_goals exact List.prefix_refl _

-- A call brings the lines nearer that are written and not returned yet.
theorem Due.next {n : Nat} (hl : s.visits + ls.length + s.turned.toNat ≤ n + s.returned.length)
    (hc : s.Counts k c → s.turned ∨ s.returned.length < (s.poll k c line cfg).returned.length) :
    (s.poll k c line cfg).visits + ls.length + (s.poll k c line cfg).turned.toNat ≤
    n + (s.poll k c line cfg).returned.length := by
  have hr : s.returned <+: (s.poll k c line cfg).returned := returned_poll
  have hr := hr.length_le
  by_cases hv : Visits c s.cfg.files k
  case pos =>
    rw [poll_turned hv]
    by_cases hk : s.Counts k c
    case pos =>
      have hvis : (s.poll k c line cfg).visits = s.visits + 1 := if_pos hk
      rw [hvis, Bool.toNat_false]
      obtain ht | hr' := hc hk
      case inl => rw [ht, Bool.toNat_true] at hl; omega
      case inr => omega
    case neg =>
      have hvis : (s.poll k c line cfg).visits = s.visits := if_neg hk
      rw [hvis, Bool.toNat_false]
      omega
  case neg =>
    have hvis : (s.poll k c line cfg).visits = s.visits := if_neg fun h => hv h.1
    have ht : (s.poll k c line cfg).turned = s.turned := by simp [poll, hv]
    rw [hvis, ht]
    omega

theorem Due.step {n : Nat} (hd : s.Due n ls) (h : s.Watched path k)
    (hs : Guarded (Step path k) (Keeps k) s e s') : s'.Due n ls := by
  obtain hd | ⟨hw, hl⟩ := hd
  case inl => exact .inl (hd.trans (returned_mono hs.1))
  case inr =>
    by_cases hr : ls <+: s.returned
    case pos => exact .inl (hr.trans (returned_mono hs.1))
    case neg =>
      have hne : s.returned ≠ s.written := fun he => hr (he ▸ hw)
      obtain ⟨hs, hk⟩ := hs
      cases hs
      case write            => exact .inr ⟨hw.trans (written_write _ h.base), hl⟩
      case remove           => exact absurd (h.returned_eq hk) hne
      case truncate         => exact absurd (h.returned_eq hk) hne
      case create           => exact .inr ⟨hw, hl⟩
      case next hs hn       =>
        have hc := (h.next hs hk hn).2
        exact .inr ⟨hw, Due.next hl fun h => (hc h).imp_right (·.resolve_right hne)⟩

-- If a file is rotated only when all its lines are read, and what the calls find is as it should be,
-- then what has been returned is the first of the lines written, and further calls return the rest.
theorem lines_returned (hi : Init path k s₀) (r : Steps (Guarded (Step path k) (Keeps k)) s₀ es s) :
    s.returned <+: s.written ∧
    ∀ es' s', Steps (Guarded (Step path k) (Keeps k)) s es' s' →
      s.visits + (s.written.length - s.returned.length) < s'.visits → s.written <+: s'.returned := by
  have h : s.Watched path k := r.invariant (fun _ _ _ hs h => Watched.step h hs) hi.watched
  refine ⟨h.prefix_written, fun es' s' r' hv => ?_⟩
  have hle := h.prefix_written.length_le
  have hb := Bool.toNat_le s.turned
  have ⟨n, hn, hd⟩ : ∃ n ≤ s.visits + (s.written.length - s.returned.length) + 1, s.Due n s.written :=
    ⟨_, Nat.le_refl _, .inr ⟨List.prefix_refl _, by omega⟩⟩
  have ⟨h', hd⟩ : s'.Watched path k ∧ s'.Due n s.written :=
    r'.invariant (P := fun s' => s'.Watched path k ∧ s'.Due n s.written)
      (fun _ _ _ hs ⟨h, hd⟩ => ⟨h.step hs, hd.step h hs⟩) ⟨h, hd⟩
  obtain hd | ⟨hw, hl⟩ := hd
  case inl => exact hd
  case inr => exact List.prefix_of_prefix_length_le hw h'.prefix_written (by omega)

-- A call that finds nothing and leaves the source as it is can be made again and again.
theorem returned_eq_of_idle (hc : Files.next c.fs c.bufsize c.reset s.cfg = .ok (none, s.cfg))
    (r : Steps (Step path k) s es s') (hes : ∀ e ∈ es, e = .next c) : s'.returned = s.returned := by
  have r := r.guard (G := fun _ e => e = .next c) fun e he _ => hes e he
  refine And.right (r.invariant (P := fun s' => s'.cfg = s.cfg ∧ s'.returned = s.returned) ?_ ⟨rfl, rfl⟩)
  rintro t _ t' ⟨ht, rfl⟩ ⟨hcfg, hret⟩
  cases ht
  case next hs hn =>
    obtain ⟨rfl, rfl⟩ := Prod.mk.inj (Except.ok.inj ((hcfg ▸ hc).symm.trans hn))
    exact ⟨hcfg, by simpa [poll, yielded] using hret⟩

section Example

instance {files : List File} : Decidable (Clear c files k) :=
  inferInstanceAs (Decidable (∀ i < k, _))

instance : Decidable (s.Finds c file fd) :=
  inferInstanceAs (Decidable (_ ∧ _))

instance : (e : Event) → Decidable (s.Keeps k e)
  | .write _ | .create _ => .isTrue trivial
  | .remove | .truncate  => inferInstanceAs (Decidable (_ = _))
  | .next _              => inferInstanceAs (Decidable (_ ∧ _))

def repoll (data : String) : Call :=
  Files.poll (logs (some (2, data.toList)) none)

-- The file is replaced after its line is read, and polled before the next one is written.
theorem lines_returned_replaced :
    ∃ s s' : Watch, s.written = ["ab".toList, "cd".toList] ∧ s.written <+: s'.returned := by
  let es : List Event :=
    [.write "ab\n".toList, .next (Files.poll (text "ab\n")), .remove, .create ⟨0, 2⟩, .next (repoll ""),
      .write "cd\n".toList]
  have h : Runs "a".toList (Keeps 0) (started one ⟨0, 1⟩ []) es := by decide
  have h' : Runs "a".toList (Keeps 0) ((started one ⟨0, 1⟩ []).run es)
      [.next (repoll "cd\n"), .next (repoll "cd\n")] := by decide
  exact ⟨_, _, by decide, (lines_returned init_started (steps_run h)).2 _ _ (steps_run h') (by decide)⟩

-- A line that is unread when the file is replaced, and a line that is there when the new file is opened,
-- are not returned by any number of calls.
theorem not_lines_returned :
    ∃ s₀ : Watch, Init "a".toList 0 s₀ ∧
    (∃ s es c, Steps (Step "a".toList 0) s₀ es s ∧ "ab".toList ∈ s.written ∧
      ∀ es' s', (∀ e ∈ es', e = .next c) → Steps (Step "a".toList 0) s es' s' → "ab".toList ∉ s'.returned) ∧
    (∃ s es c, Steps (Step "a".toList 0) s₀ es s ∧ "cd".toList ∈ s.written ∧
      ∀ es' s', (∀ e ∈ es', e = .next c) → Steps (Step "a".toList 0) s es' s' →
        "cd".toList ∉ s'.returned) := by
  have h : Runs "a".toList (fun _ _ => True) (started one ⟨0, 1⟩ [])
      [.write "ab\n".toList, .remove, .create ⟨0, 2⟩, .next (repoll "")] := by decide
  have h' : Runs "a".toList (fun _ _ => True) (started one ⟨0, 1⟩ [])
      [.remove, .create ⟨0, 2⟩, .write "cd\n".toList, .next (repoll "cd\n")] := by decide
  refine ⟨_, init_started,
    ⟨_, _, repoll "", (steps_run h).mono fun _ _ _ => And.left, by decide, fun es' s' he r => ?_⟩,
    ⟨_, _, repoll "cd\n", (steps_run h').mono fun _ _ _ => And.left, by decide, fun es' s' he r => ?_⟩⟩
  case refine_1 => rw [returned_eq_of_idle rfl r he]; decide
  case refine_2 => rw [returned_eq_of_idle rfl r he]; decide

end Example

end F2b.Files.Watch
