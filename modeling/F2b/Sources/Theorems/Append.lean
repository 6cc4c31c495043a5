import F2b.Sources.Theorems.Watch
import F2b.Lib.Transition

-- A log file that is only appended to: whether the strings that are returned of it are its lines.

open Transition (Steps Guarded)

namespace F2b.Files.Watch

variable {s s' s₀ : Watch} {e : Event} {es : List Event} {path : CString} {k : Nat}

-- The file is only appended to, and each call that gets to it finds nothing unread, or a whole line that
-- fits the buffer.
def Appends (k : Nat) (s : Watch) : Event → Prop
  | .write _ => True
  | .next c  => Visits c s.cfg.files k →
    ∀ file ∈ s.cfg.files[k]?, ∀ fd ∈ file.fd, Fits c.fs (intSize c.bufsize) fd
  | _        => False

-- The node is in step, or it is gone since a file before it has been rotated.
def Appending (path : CString) (k : Nat) (s : Watch) : Prop :=
  (s.cfg.current = none ∨ s.cfg.current = some 0) ∧ s.base ≤ s.data.length ∧
  ((∃ file, s.cfg.files[k]? = some file ∧ file.path = path ∧ s.InStep file) ∨
    s.cfg.files[k]? = none ∧ s.returned <+: s.written)

theorem Appending.step (h : s.Appending path k) (hs : Guarded (Step path k) (Appends k) s e s') :
    s'.Appending path k := by
  obtain ⟨hs, hg⟩ := hs
  obtain ⟨hc, hb, hn'⟩ := h
  cases hs
  case write ino text hi =>
    refine ⟨hc, by simpa using Nat.le_add_right_of_le hb, hn'.imp ?_ ?_⟩
    case refine_1 => exact fun ⟨file, hf, hp, hn⟩ => ⟨file, hf, hp, hn.write⟩
    case refine_2 => exact fun ⟨hf, hr⟩ => ⟨hf, hr.trans (written_write text hb)⟩
  case remove            => exact hg.elim
  case create            => exact hg.elim
  case truncate          => exact hg.elim
  case next c line cfg hf hn =>
    have ⟨hw, hc⟩ := next_walk hc hn
    refine ⟨hc, hb, ?_⟩
    obtain ⟨file, hk, rfl, hs⟩ | ⟨hk, hr⟩ := hn'
    case inl =>
      by_cases hv : Visits c s.cfg.files k
      case pos =>
        have ⟨hk, hp, hs, _⟩ := hs.poll hk hf hv (hg hv file hk) hw
        exact .inl ⟨_, hk, hp, hs⟩
      case neg =>
        have ⟨hy, hk'⟩ := walk_before hw (k := k) fun h => absurd h hv
        obtain hk' | ⟨hk', _⟩ := hk'
        case inl => exact .inl ⟨file, hk'.trans hk, rfl, hs.poll_of_none hy⟩
        case inr => exact .inr ⟨hk', (poll_returned hy).symm ▸ hs.prefix_written⟩
    case inr =>
      have ⟨hy, hk'⟩ := walk_before hw (k := k) fun _ => hk
      exact .inr ⟨hk'.elim (·.trans hk) And.left, (poll_returned hy).symm ▸ hr⟩

theorem returned_prefix_written (hi : Init path k s₀)
    (r : Steps (Guarded (Step path k) (Appends k)) s₀ es s) :
    s.returned <+: s.written ∧
    ∀ (c : Call) file fd, s.Sees path c.fs → s.cfg.files[k]? = some file → file.fd = some fd →
      (Exact s.data fd (fileGetline c.fs c.bufsize file).1 (fileGetline c.fs c.bufsize file).2.fd ↔
        Fits c.fs (intSize c.bufsize) fd) := by
  have h₀ : s₀.Appending path k := by
    have ⟨_, hc, _, hn⟩ := hi.inStep
    obtain ⟨_, _, _, _, _, _, _, _, he⟩ := hi
    exact ⟨hc, by rw [he], .inl hn⟩
  have ⟨_, _, hn⟩ : s.Appending path k := r.invariant (fun _ _ _ hs h => h.step hs) h₀
  obtain ⟨file, hf, rfl, hn⟩ | ⟨hf, hr⟩ := hn
  case inl =>
    refine ⟨hn.prefix_written, fun c f fd hs hf' hfd => ?_⟩
    obtain rfl := Option.some.inj (hf.symm.trans hf')
    obtain ⟨ino, ls, pos, hi, _, hn⟩ := hn
    have hs : Shows file.path ino s.data c.fs := by simpa [Sees, hi] using hs
    obtain rfl := Option.some.inj (hn.fd.symm.trans hfd)
    have he : Exact (c.fs.inode ino).data .. ↔ Fits c.fs (intSize c.bufsize) _ := exact_iff_fits hfd rfl
    rwa [hs.data] at he
  case inr => exact ⟨hr, fun _ _ _ _ hf' => by cases hf.symm.trans hf'⟩

section Example

instance : (e : Event) → Decidable (s.Appends k e)
  | .write _ => .isTrue trivial
  | .next _  => inferInstanceAs (Decidable (_ → _))
  | .remove | .create _ | .truncate => .isFalse id

-- Lines that are written as a whole.
theorem returned_lines :
    ∃ s : Watch, s.returned = ["ab".toList, "cd".toList] ∧ s.returned <+: s.written := by
  have h : Runs "a".toList (Appends 0) (started one ⟨0, 1⟩ [])
      [.write "ab\ncd\n".toList, .next (Files.poll (text "ab\ncd\n")),
        .next (Files.poll (text "ab\ncd\n"))] := by decide
  exact ⟨_, by decide, (returned_prefix_written init_started (steps_run h)).1⟩

-- A poll that falls in the middle of a line makes two strings of it.
theorem returned_fragments :
    ∃ s₀ es s, Init "a".toList 0 s₀ ∧ (∀ e ∈ es, (∃ text, e = .write text) ∨ ∃ c, e = .next c) ∧
      Steps (Step "a".toList 0) s₀ es s ∧ ¬s.returned <+: s.written := by
  let es : List Event :=
    [.write "ab".toList, .next (Files.poll (text "ab")), .next (Files.poll (text "ab")),
      .write "cd\n".toList, .next (Files.poll (text "abcd\n"))]
  have h : Runs "a".toList (fun _ _ => True) (started one ⟨0, 1⟩ []) es := by decide
  refine ⟨_, es, _, init_started, ?_, (steps_run h).mono fun _ _ _ => And.left, by decide⟩
  simp [es]

end Example

end F2b.Files.Watch
