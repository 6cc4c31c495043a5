import F2b.Lib.Lines
import F2b.Sources.Theorems.Files

-- One node of the list of watched files: what a read takes from its file, and what a call of `next`
-- does with it.

namespace F2b.Files

variable {fs : Fs} {bufsize size k : Nat} {file : File} {files pre : List File} {fd : Stream} {c : Call}
  {cfg cfg' : Config} {line : Option (UInt32 × CString)} {l rest : CString}

def unread (fs : Fs) (fd : Stream) : CString :=
  (fs.inode fd.ino).data.drop fd.pos

-- The text is empty, or begins with a complete line that fits the buffer.
def Whole (size : Nat) (text : CString) : Prop :=
  text = [] ∨ ∃ l rest, text = l ++ '\n' :: rest ∧ '\n' ∉ l ∧ CString.nul ∉ l ∧ l.length + 1 < size

theorem whole_iff {text : CString} : Whole size text ↔ text = [] ∨ '\n' ∈ text ∧
    CString.nul ∉ text.takeWhile (· ≠ '\n') ∧ (text.takeWhile (· ≠ '\n')).length + 1 < size := by
  refine or_congr_right ⟨?_, fun ⟨hm, h0, hs⟩ => ?_⟩
  case refine_1 =>
    rintro ⟨l, rest, rfl, hn, h0, hs⟩
    have ht := CString.takeWhile_line rest hn
    exact ⟨by simp, ht.symm ▸ h0, ht.symm ▸ hs⟩
  case refine_2 =>
    have ⟨l, rest, he, hn⟩ := List.eq_append_cons_of_mem hm
    have ht : text.takeWhile (· ≠ '\n') = l := he ▸ CString.takeWhile_line rest hn
    exact ⟨l, rest, he, hn, ht ▸ h0, ht ▸ hs⟩

instance {text : CString} : Decidable (Whole size text) :=
  decidable_of_iff _ whole_iff.symm

-- A read takes nothing, or a whole line.
def Fits (fs : Fs) (size : Nat) (fd : Stream) : Prop :=
  size = 0 ∨ 1 < size ∧ ((fs.inode fd.ino).damaged ∨ Whole size (unread fs fd))

instance : Decidable (Fits fs size fd) :=
  inferInstanceAs (Decidable (_ ∨ _))

def Works (fs : Fs) (size : Nat) (fd : Stream) : Prop :=
  1 < size ∧ ¬(fs.inode fd.ino).damaged

theorem fgets_eq (he : fd.eof = false) (h : Works fs size fd) : fs.fgets size fd =
    match (CString.fgetsLoop size [] (size - 1) (unread fs fd)).head? with
    | none       => (none, { fd with eof := true })
    | some chunk =>
      (some (CString.ofBuffer chunk), { fd with
        pos := fd.pos + chunk.length
        eof := chunk.length < size - 1 && chunk.getLast? ≠ some '\n' }) := by
  have ⟨hs, hd⟩ := h
  have h0 : size ≠ 0 := by omega
  have h1 : size ≠ 1 := by omega
  simp only [Fs.fgets, h0, h1, he, hd, if_false, Bool.or_self, Bool.false_eq_true]
  rfl

theorem fgets_none (he : fd.eof = false)
    (h : size = 0 ∨ 1 < size ∧ ((fs.inode fd.ino).damaged ∨ unread fs fd = [])) :
    ∃ eof, fs.fgets size fd = (none, { fd with eof }) := by
  by_cases h0 : size = 0
  case pos => exact ⟨fd.eof, by rw [Fs.fgets, if_pos h0]⟩
  case neg =>
    obtain ⟨hs, h⟩ := h.resolve_left h0
    by_cases hd : (fs.inode fd.ino).damaged
    case pos => exact ⟨fd.eof, by simp [Fs.fgets, h0, Nat.ne_of_gt hs, hd]⟩
    case neg =>
      have hu := h.resolve_left hd
      exact ⟨true, by rw [fgets_eq he ⟨hs, hd⟩, hu]; rfl⟩

theorem fgets_line (he : fd.eof = false) (h : Works fs size fd) (hu : unread fs fd = l ++ '\n' :: rest)
    (hn : '\n' ∉ l) (hl : l.length + 1 < size) : fs.fgets size fd =
    (some (CString.ofBuffer (l ++ ['\n'])), { fd with pos := fd.pos + (l.length + 1) }) := by
  rw [fgets_eq he h, hu, CString.fgetsLoop_line hn (show l.length < size - 1 by omega)]
  simp [he]

theorem fgets_chunk (he : fd.eof = false) (h : Works fs size fd) (hu : unread fs fd ≠ [])
    (hn : '\n' ∉ (unread fs fd).take (size - 1)) : ∃ eof, fs.fgets size fd =
    (some (CString.ofBuffer ((unread fs fd).take (size - 1))),
      { fd with pos := fd.pos + ((unread fs fd).take (size - 1)).length, eof }) := by
  have hs : 0 < size - 1 := Nat.sub_pos_of_lt h.1
  rw [fgets_eq he h, CString.head?_fgetsLoop hn hs hu]
  exact ⟨_, rfl⟩

theorem fileGetline_of_fits (hf : file.fd = some fd) (he : fd.eof = false)
    (h : Fits fs (intSize bufsize) fd) :
    ((fileGetline fs bufsize file).1 = none ∧ (fileGetline fs bufsize file).2.fd = some fd ∧
      (Works fs (intSize bufsize) fd → unread fs fd = [])) ∨
    ∃ l rest, unread fs fd = l ++ '\n' :: rest ∧ '\n' ∉ l ∧ (fileGetline fs bufsize file).1 = some l ∧
      (fileGetline fs bufsize file).2.fd = some { fd with pos := fd.pos + (l.length + 1) } := by
  have hclear (eof : Bool) : clearerr { fd with eof } = fd := by rw [clearerr, ← he]
  by_cases hw : Works fs (intSize bufsize) fd ∧ unread fs fd ≠ []
  case pos =>
    obtain ⟨hw, hu⟩ := hw
    obtain h0 | ⟨_, hd | hu' | ⟨l, rest, hl, hn, h0, hs⟩⟩ := h
    case inl           => exact absurd h0 (by have := hw.1; omega)
    case inr.inl       => exact absurd hd hw.2
    case inr.inr.inl   => exact absurd hu' hu
    case inr.inr.inr   =>
      have hb : CString.ofBuffer (l ++ ['\n']) = l ++ ['\n'] := by
        apply CString.ofBuffer_eq_self
        simpa [h0] using by decide
      have ht : (l ++ ['\n']).takeWhile (· ≠ '\n') = l := CString.takeWhile_line [] hn
      refine .inr ⟨l, rest, hl, hn, ?_⟩
      rw [fileGetline_eq hf, fgets_line he hw hl hn hs, hb]
      exact ⟨congrArg some ht, rfl⟩
  case neg =>
    have hn : intSize bufsize = 0 ∨
        1 < intSize bufsize ∧ ((fs.inode fd.ino).damaged ∨ unread fs fd = []) := by
      obtain h0 | ⟨hs, _⟩ := h
      case inl => exact .inl h0
      case inr => exact .inr ⟨hs, by_contra fun hc => hw ⟨⟨hs, (not_or.mp hc).1⟩, (not_or.mp hc).2⟩⟩
    have ⟨eof, hr⟩ := fgets_none he hn
    refine .inl ?_
    rw [fileGetline_eq hf, hr]
    exact ⟨rfl, congrArg some (hclear eof), fun h => by_contra fun hu => hw ⟨h, hu⟩⟩

-- A string is what the stream has gone past, but for the newline.
def Exact (data : CString) (fd : Stream) (line : Option CString) (fd' : Option Stream) : Prop :=
  ∃ fd₁, fd' = some fd₁ ∧ (data.take fd₁.pos).drop fd.pos = (line.map (· ++ ['\n'])).getD []

theorem take_drop (n : Nat) :
    (unread fs fd).take n = ((fs.inode fd.ino).data.take (fd.pos + n)).drop fd.pos := by
  rw [List.drop_take, Nat.add_sub_cancel_left]
  rfl

theorem Exact.taken {text : CString} {eof : Bool} (hf : file.fd = some fd) (hp : text <+: unread fs fd)
    (hr : fs.fgets (intSize bufsize) fd =
      (some (CString.ofBuffer text), { fd with pos := fd.pos + text.length, eof }))
    (h : Exact (fs.inode fd.ino).data fd (fileGetline fs bufsize file).1 (fileGetline fs bufsize file).2.fd) :
    ∃ l, text = l ++ ['\n'] ∧ '\n' ∉ l ∧ CString.nul ∉ l := by
  obtain ⟨fd₁, hf', ht⟩ := h
  rw [fileGetline_eq hf, hr] at hf' ht
  obtain rfl := Option.some.inj hf'
  refine ⟨(CString.ofBuffer text).takeWhile (· ≠ '\n'), ?_, fun hn => ?_, fun h0 => ?_⟩
  case refine_1 =>
    have hp := List.prefix_iff_eq_take.mp hp
    calc text = (unread fs fd).take text.length := hp
      _ = _ := take_drop _
      _ = _ := ht
  case refine_2 => simpa using List.mem_takeWhile_imp hn
  case refine_3 =>
    have h0 := (List.takeWhile_sublist _).mem h0
    simpa using List.mem_takeWhile_imp h0

theorem Fits.exact (h : Fits fs (intSize bufsize) fd) (hf : file.fd = some fd) (he : fd.eof = false) :
    Exact (fs.inode fd.ino).data fd (fileGetline fs bufsize file).1 (fileGetline fs bufsize file).2.fd := by
  obtain ⟨hl, hf', _⟩ | ⟨l, rest, hu, _, hl, hf'⟩ := fileGetline_of_fits hf he h
  case inl => exact ⟨fd, hf', by simp [hl]⟩
  case inr =>
    refine ⟨_, hf', ?_⟩
    rw [hl, ← take_drop, hu, List.take_length_add_append]
    rfl

-- Without a newline in reach or with a NUL byte before it, the string is not what is taken.
theorem Exact.fits (hf : file.fd = some fd) (he : fd.eof = false)
    (h : Exact (fs.inode fd.ino).data fd (fileGetline fs bufsize file).1 (fileGetline fs bufsize file).2.fd) :
    Fits fs (intSize bufsize) fd := by
  refine or_iff_not_imp_left.mpr fun h0 => ?_
  by_cases h1 : intSize bufsize = 1
  case pos =>
    have hr : fs.fgets (intSize bufsize) fd = (some [], fd) := by simp [h1, Fs.fgets]
    have ⟨_, ht, _⟩ := h.taken hf (List.nil_prefix) hr
    simp at ht
  case neg =>
    refine ⟨by omega, or_iff_not_imp_left.mpr fun hd => or_iff_not_imp_left.mpr fun hu => ?_⟩
    have hw : Works fs (intSize bufsize) fd := ⟨by omega, hd⟩
    by_cases hn : '\n' ∈ (unread fs fd).take (intSize bufsize - 1)
    case pos =>
      obtain ⟨l, rest, hl, hn⟩ := List.eq_append_cons_of_mem hn
      have hs : l.length + 1 < intSize bufsize := by
        have := congrArg List.length hl
        simp only [List.length_take, List.length_append, List.length_cons] at this
        omega
      have hl : unread fs fd = l ++ '\n' :: (rest ++ (unread fs fd).drop (intSize bufsize - 1)) :=
        calc unread fs fd = _ := (List.take_append_drop (intSize bufsize - 1) _).symm
          _ = _ := by rw [hl, List.append_assoc, List.cons_append]
      have hp : l ++ ['\n'] <+: unread fs fd := ⟨_, by rw [hl, List.append_assoc]; rfl⟩
      have hr := fgets_line he hw hl hn hs
      have ⟨_, ht, _, h0⟩ := h.taken hf hp (hr.trans (by rw [List.length_append]; rfl))
      exact ⟨l, _, hl, hn, List.append_cancel_right ht ▸ h0, hs⟩
    case neg =>
      have ⟨eof, hr⟩ := fgets_chunk he hw hu hn
      have ⟨_, ht, _⟩ := h.taken hf (List.take_prefix ..) hr
      exact absurd (ht ▸ by simp) hn

theorem exact_iff_fits (hf : file.fd = some fd) (he : fd.eof = false) :
    Exact (fs.inode fd.ino).data fd (fileGetline fs bufsize file).1 (fileGetline fs bufsize file).2.fd ↔
    Fits fs (intSize bufsize) fd :=
  ⟨fun h => h.fits hf he, fun h => h.exact hf he⟩

def Visits (c : Call) (files : List File) (k : Nat) : Prop :=
  ∀ f ∈ files.take k, Idle c.fs c.bufsize f

-- The string of a call if it comes from the node at a place, which is the first one that is not idle.
def yielded (c : Call) (files : List File) (k : Nat) (line : Option (UInt32 × CString)) : Option CString :=
  if files.findIdx (¬Idle c.fs c.bufsize ·) = k then line.map (·.2) else none

instance : Decidable (Visits c files k) :=
  inferInstanceAs (Decidable (∀ f ∈ files.take k, Idle c.fs c.bufsize f))

section Walk

variable {files' post : List File}

theorem exists_of_map_ok {α β : Type} {f : α → β} {x : Except Fault α} {b : β} (h : x.map f = .ok b) :
    ∃ a, x = .ok a ∧ f a = b := by
  cases x
  case error => cases h
  case ok a  => exact ⟨a, rfl, Except.ok.inj h⟩

-- What the loop does at its first node: it ends there with a rotated file or with a line, or it goes on.
theorem walk_cases (h : walk fs bufsize (file :: files) = .ok (line, files')) :
    (Rotated fs file ∧ line = none ∧ ∃ f, files' = [f]) ∨
    (¬Idle fs bufsize file ∧ line.map (·.2) = (fileGetline fs bufsize file).1 ∧
      files' = visited fs bufsize file :: files) ∨
    (Idle fs bufsize file ∧ ∃ rest, walk fs bufsize files = .ok (line, rest) ∧
      files' = visited fs bufsize file :: rest) := by
  by_cases hr : Rotated fs file
  case pos =>
    rw [walk_rotated' hr] at h
    obtain ⟨_, _, he⟩ := exists_of_map_ok h
    obtain ⟨rfl, rfl⟩ := Prod.mk.inj he
    exact .inl ⟨hr, rfl, _, rfl⟩
  case neg =>
    rw [walk_not_rotated hr] at h
    cases hl : (fileGetline fs bufsize file).1
    case some l =>
      rw [hl] at h
      obtain ⟨rfl, rfl⟩ := Prod.mk.inj (Except.ok.inj h)
      have hi : ¬Idle fs bufsize file := fun h => by cases hl.symm.trans h.2
      exact .inr (.inl ⟨hi, rfl, rfl⟩)
    case none   =>
      rw [hl] at h
      obtain ⟨_, hw, he⟩ := exists_of_map_ok h
      obtain ⟨rfl, rfl⟩ := Prod.mk.inj he
      exact .inr (.inr ⟨⟨hr, hl⟩, _, hw, rfl⟩)

theorem walk_append (h : ∀ f ∈ pre, Idle fs bufsize f) : walk fs bufsize (pre ++ files) =
    (walk fs bufsize files).map fun r => (r.1, pre.map (visited fs bufsize) ++ r.2) := by
  induction pre
  case nil            => rw [List.nil_append]; cases walk fs bufsize files <;> rfl
  case cons f pre hi =>
    have ⟨⟨hr, hl⟩, h⟩ := List.forall_mem_cons.mp h
    rw [List.cons_append, walk_not_rotated hr, hl, hi h]
    cases walk fs bufsize files <;> rfl

theorem split_at (h : files[k]? = some file) :
    ∃ pre post, files = pre ++ file :: post ∧ pre.length = k ∧ files.take k = pre := by
  have ⟨hk, he⟩ := List.getElem?_eq_some_iff.mp h
  refine ⟨files.take k, files.drop (k + 1), ?_, List.length_take_of_le (Nat.le_of_lt hk), rfl⟩
  rw [← he, ← List.drop_eq_getElem_cons, List.take_append_drop]

theorem yielded_of_idle (h : ∀ f ∈ pre, Idle c.fs c.bufsize f) :
    yielded c (pre ++ file :: post) pre.length line =
    if Idle c.fs c.bufsize file then none else line.map (·.2) := by
  have hn : pre.findIdx (¬Idle c.fs c.bufsize ·) = pre.length :=
    List.findIdx_eq_length.mpr fun f hf => by simp [h f hf]
  rw [yielded, List.findIdx_append, hn, if_neg (Nat.lt_irrefl _), List.findIdx_cons]
  by_cases hi : Idle c.fs c.bufsize file <;> simp [hi]

theorem walk_turn (h : walk c.fs c.bufsize files = .ok (line, files')) (hf : files[k]? = some file)
    (hv : Visits c files k) (ho : file.Opened) (hr : Rotated c.fs file) :
    yielded c files k line = none ∧ files'[k]? = some ((opened c.fs file.path).getD .zero) := by
  obtain ⟨pre, post, rfl, rfl, ht⟩ := split_at hf
  have hv : ∀ f ∈ pre, Idle c.fs c.bufsize f := ht ▸ hv
  rw [walk_append hv, walk_rotated ho hr] at h
  obtain ⟨rfl, rfl⟩ := Prod.mk.inj (Except.ok.inj h)
  exact ⟨by simp [yielded], by simp⟩

theorem walk_read (h : walk c.fs c.bufsize files = .ok (line, files')) (hf : files[k]? = some file)
    (hv : Visits c files k) (hr : ¬Rotated c.fs file) :
    yielded c files k line = (fileGetline c.fs c.bufsize file).1 ∧
    files'[k]? = some (visited c.fs c.bufsize file) := by
  obtain ⟨pre, post, rfl, rfl, ht⟩ := split_at hf
  have hv : ∀ f ∈ pre, Idle c.fs c.bufsize f := ht ▸ hv
  rw [walk_append hv] at h
  obtain ⟨_, hw, he⟩ := exists_of_map_ok h
  obtain ⟨rfl, rfl⟩ := Prod.mk.inj he
  rw [yielded_of_idle hv]
  obtain ⟨hr', _⟩ | ⟨hi, hl, hf'⟩ | ⟨hi, rest, _, hf'⟩ := walk_cases hw
  case inl     => exact absurd hr' hr
  case inr.inl => exact ⟨(if_neg hi).trans hl, by simp [hf']⟩
  case inr.inr => exact ⟨(if_pos hi).trans hi.2.symm, by simp [hf']⟩

-- A node that the call does not get to stays as it is, unless one before it is rotated.
theorem walk_before (h : walk c.fs c.bufsize files = .ok (line, files'))
    (hv : Visits c files k → files[k]? = none) :
    yielded c files k line = none ∧
    (files'[k]? = files[k]? ∨
      files'[k]? = none ∧ ∃ i < k, ∃ f, files[i]? = some f ∧ Visits c files i ∧ Rotated c.fs f) := by
  induction files generalizing k line files'
  case nil             =>
    obtain ⟨rfl, rfl⟩ := Prod.mk.inj (Except.ok.inj h)
    exact ⟨by simp [yielded], .inl rfl⟩
  case cons g files hi =>
    cases k
    case zero   => exact absurd (hv nofun) nofun
    case succ k =>
      obtain ⟨hr, rfl, f, rfl⟩ | ⟨hg, _, rfl⟩ | ⟨hg, rest, hw, rfl⟩ := walk_cases h
      case inl     => exact ⟨by simp [yielded], .inr ⟨rfl, 0, Nat.succ_pos k, g, rfl, nofun, hr⟩⟩
      case inr.inl => exact ⟨by simp [yielded, List.findIdx_cons, hg], .inl rfl⟩
      case inr.inr =>
        obtain ⟨hy, hn⟩ := hi hw fun h => hv (List.forall_mem_cons.mpr ⟨hg, h⟩)
        refine ⟨by simpa [yielded, List.findIdx_cons, hg] using hy, hn.imp_right ?_⟩
        rintro ⟨hn, i, hk, f, hf, hv, hr⟩
        exact ⟨hn, i + 1, Nat.succ_lt_succ hk, f, hf, List.forall_mem_cons.mpr ⟨hg, hv⟩, hr⟩

end Walk

theorem next_walk {cfg' : Config} (hc : cfg.current = none ∨ cfg.current = some 0)
    (h : next c.fs c.bufsize c.reset cfg = .ok (line, cfg')) :
    walk c.fs c.bufsize cfg.files = .ok (line, cfg'.files) ∧
    (cfg'.current = none ∨ cfg'.current = some 0) := by
  have ⟨current, hc, he⟩ := next_eq hc c
  rw [he] at h
  obtain ⟨_, hw, he⟩ := exists_of_map_ok h
  obtain ⟨rfl, rfl⟩ := Prod.mk.inj he
  exact ⟨hw, hc⟩

end F2b.Files
