import F2b.Sources.Theorems.Node
import F2b.Lib.Transition

-- A log file that the source 'files' watches, with those who write and rotate it: what has been
-- written to its path since the start, and what the calls of `next` have returned of it.

namespace F2b.Files

structure Shows (path : CString) (ino : Ino) (data : CString) (fs : Fs) : Prop where
  find : fs.find path = some ino
  mode : (fs.inode ino).mode = .reg
  data : (fs.inode ino).data = data

-- `base` is where what is written since the start begins in the file that the path names, and `done`
-- has the lines of the files that have been there before. While `turned`, the source has not looked at
-- the path since a rotation. `visits` counts the calls that have got to the file and could read it.
structure Watch where
  cfg      : Config
  ino      : Option Ino
  data     : CString
  base     : Nat
  done     : List CString
  turned   : Bool
  returned : List CString
  visits   : Nat

inductive Event
  | write (text : CString)
  | remove
  | create (ino : Ino)
  | truncate
  | next (c : Call)

namespace Watch

def written (s : Watch) : List CString :=
  s.done ++ (CString.split (s.data.drop s.base)).1

-- What the source has not read of the file that the path names.
def pending (s : Watch) (k : Nat) : CString :=
  if s.turned then s.data else ((s.cfg.files[k]?.bind (·.fd)).elim [] fun fd => s.data.drop fd.pos)

def rotate (s : Watch) (ino : Option Ino) : Watch :=
  { s with ino, data := [], base := 0, done := s.written, turned := true }

def Sees (s : Watch) (path : CString) (fs : Fs) : Prop :=
  match s.ino with
  | none     => fs.find path = none
  | some ino => Shows path ino s.data fs

def Counts (s : Watch) (k : Nat) (c : Call) : Prop :=
  Visits c s.cfg.files k ∧ 1 < intSize c.bufsize ∧ ∀ ino ∈ s.ino, ¬(c.fs.inode ino).damaged

instance {s : Watch} {k : Nat} {c : Call} : Decidable (s.Counts k c) :=
  inferInstanceAs (Decidable (_ ∧ _))

def poll (s : Watch) (k : Nat) (c : Call) (line : Option (UInt32 × CString)) (cfg : Config) : Watch :=
  { s with
    cfg
    turned   := s.turned && ¬Visits c s.cfg.files k
    returned := s.returned ++ (yielded c s.cfg.files k line).toList
    visits   := if s.Counts k c then s.visits + 1 else s.visits }

-- A file that is created under the path may have any inode, the one before it among them.
inductive Step (path : CString) (k : Nat) : Watch → Event → Watch → Prop
  | write {s ino text} (h : s.ino = some ino) :
    Step path k s (.write text) { s with data := s.data ++ text }
  | remove {s ino} (h : s.ino = some ino) : Step path k s .remove (s.rotate none)
  | create {s ino} (h : s.ino = none) : Step path k s (.create ino) { s with ino := some ino }
  | truncate {s ino} (h : s.ino = some ino) : Step path k s .truncate (s.rotate (some ino))
  | next {s c line cfg} (h : s.Sees path c.fs)
    (hn : Files.next c.fs c.bufsize c.reset s.cfg = .ok (line, cfg)) :
    Step path k s (.next c) (s.poll k c line cfg)

def Init (path : CString) (k : Nat) (s : Watch) : Prop :=
  ∃ fs init ino file, start fs (create init) = .ok (true, s.cfg) ∧ Shows path ino s.data fs ∧
    s.cfg.files[k]? = some file ∧ file.path = path ∧
    s = { cfg := s.cfg, ino := some ino, data := s.data, base := s.data.length, done := [],
          turned := false, returned := [], visits := 0 }

end Watch

section Node

variable {fs : Fs} {c : Call} {cfg : Config} {file : File} {ino : Ino} {data path : CString}
  {bufsize base pos : Nat} {ls : List CString}

-- The node has the file open, and has read these lines of what is new in it.
structure Reading (ino : Ino) (data : CString) (base : Nat) (ls : List CString) (pos : Nat)
    (file : File) : Prop where
  fd    : file.fd = some ⟨ino, pos, false⟩
  st    : file.st.ino = ino ∧ file.st.size ≤ data.length
  start : base ≤ data.length
  stop  : pos ≤ data.length
  lines : data.drop base = CString.join ls (data.drop pos)
  plain : ∀ l ∈ ls, '\n' ∉ l

theorem shows_iff : Shows path ino data fs ↔
    fs.find path = some ino ∧ (fs.inode ino).mode = .reg ∧ (fs.inode ino).data = data :=
  ⟨fun ⟨hf, hm, hd⟩ => ⟨hf, hm, hd⟩, fun ⟨hf, hm, hd⟩ => ⟨hf, hm, hd⟩⟩

instance : Decidable (Shows path ino data fs) :=
  decidable_of_iff _ shows_iff.symm

instance {s : Watch} : Decidable (s.Sees path fs) :=
  match h : s.ino with
  | none   => decidable_of_iff (fs.find path = none) (by simp [Watch.Sees, h])
  | some i => decidable_of_iff (Shows path i s.data fs) (by simp [Watch.Sees, h])

theorem Shows.stat (h : Shows path ino data fs) : fs.stat path = some ⟨ino, data.length⟩ := by
  simp [Fs.stat, h.find, h.mode, h.data]

theorem Shows.rotated_iff (h : Shows file.path ino data fs) :
    Rotated fs file ↔ file.fd = none ∨ file.st.ino ≠ ino ∨ data.length < file.st.size := by
  simp only [Rotated, fileRotated, h.stat]
  split
  case isTrue hf  => simp [hf]
  case isFalse hf =>
    split
    case isTrue hr  => simpa [hf] using hr
    case isFalse hr => split <;> simpa [hf] using hr

theorem Shows.st (h : Shows file.path ino data fs) (hr : ¬Rotated fs file) :
    (fileRotated fs file).2.st = ⟨ino, data.length⟩ := by
  rw [h.rotated_iff] at hr
  simp only [not_or, not_not, not_lt] at hr
  obtain ⟨hf, hi, hl⟩ := hr
  simp only [fileRotated, h.stat, if_neg hf]
  rw [if_neg (by simp [hi, hl])]
  split
  case isTrue     => rfl
  case isFalse hs =>
    have he : file.st.size = data.length := Nat.le_antisymm hl (Nat.not_lt.mp hs)
    rw [← hi, ← he]

theorem visited_spec (fs : Fs) (bufsize : Nat) (h : file.fd ≠ none) :
    (visited fs bufsize file).fd = (fileGetline fs bufsize file).2.fd ∧
    (visited fs bufsize file).st = (fileRotated fs file).2.st ∧
    (visited fs bufsize file).path = file.path := by
  have ⟨fd, hf⟩ := Option.ne_none_iff_exists'.mp h
  have ⟨hf', hp⟩ := fileRotated_spec fs file
  rw [visited, fileGetline_eq hf, fileGetline_eq (hf'.trans hf)]
  exact ⟨rfl, rfl, hp⟩

theorem opened_reading {file' : File} (h : Shows path ino data fs) (ho : opened fs path = some file') :
    Reading ino data data.length [] data.length file' := by
  have ⟨st, hs, ho⟩ := Option.bind_eq_some_iff.mp ho
  obtain rfl := Option.some.inj (h.stat.symm.trans hs)
  simp only [h.mode, reduceCtorEq, if_false, if_true] at ho
  have ⟨fd, hfd, ho⟩ := Option.bind_eq_some_iff.mp ho
  have ⟨fd', hs', ho⟩ := Option.bind_eq_some_iff.mp ho
  obtain rfl := Option.some.inj ho
  have hfd : fd = ⟨ino, 0, false⟩ := by
    simp only [Fs.fopen, h.find, Option.bind_eq_bind, Option.bind_some] at hfd
    split at hfd
    case isTrue  => cases hfd
    case isFalse => exact (Option.some.inj hfd).symm
  have hfd' : fd' = ⟨ino, data.length, false⟩ := by
    simp only [Fs.fseekEnd, hfd, h.data] at hs'
    split at hs'
    case isTrue  => cases hs'
    case isFalse => exact (Option.some.inj hs').symm
  exact {
    fd    := congrArg some hfd'
    st    := ⟨rfl, Nat.le_refl _⟩
    start := Nat.le_refl _
    stop  := Nat.le_refl _
    lines := rfl
    plain := nofun }

namespace Reading

theorem split (h : Reading ino data base ls pos file) :
    (CString.split (data.drop base)).1 = ls ++ (CString.split (data.drop pos)).1 := by
  rw [h.lines, CString.split_lines _ h.plain]

theorem write (h : Reading ino data base ls pos file) (text : CString) :
    Reading ino (data ++ text) base ls pos file where
  fd    := h.fd
  st    := ⟨h.st.1, by simpa using Nat.le_add_right_of_le h.st.2⟩
  start := by simpa using Nat.le_add_right_of_le h.start
  stop  := by simpa using Nat.le_add_right_of_le h.stop
  lines := by
    rw [List.drop_append_of_le_length h.start, List.drop_append_of_le_length h.stop, h.lines]
    simp [CString.join]
  plain := h.plain

theorem not_rotated (h : Reading ino data base ls pos file) (hs : Shows file.path ino data fs) :
    ¬Rotated fs file := by
  rw [hs.rotated_iff, h.fd]
  simpa [h.st.1] using h.st.2

-- A call that gets to the node takes nothing from it, or the next line.
theorem visit (h : Reading ino data base ls pos file) (hs : Shows file.path ino data fs)
    (hf : Fits fs (intSize bufsize) ⟨ino, pos, false⟩) :
    ((fileGetline fs bufsize file).1 = none ∧ Reading ino data base ls pos (visited fs bufsize file) ∧
      (Works fs (intSize bufsize) ⟨ino, pos, false⟩ → data.drop pos = [])) ∨
    ∃ l, (fileGetline fs bufsize file).1 = some l ∧
      Reading ino data base (ls ++ [l]) (pos + (l.length + 1)) (visited fs bufsize file) := by
  have ⟨hfd, hst, _⟩ := visited_spec fs bufsize (h.fd ▸ nofun : file.fd ≠ none)
  have hst := hst.trans (hs.st (h.not_rotated hs))
  obtain ⟨hl, hf, hw⟩ | ⟨l, rest, hu, hn, hl, hf⟩ := fileGetline_of_fits h.fd rfl hf
  case inl =>
    refine .inl ⟨hl, ?_, fun hr => ?_⟩
    case refine_1 => exact { h with fd := hfd.trans hf, st := by simp [hst] }
    case refine_2 => exact hs.data ▸ hw hr
  case inr =>
    have hu : data.drop pos = l ++ '\n' :: rest := hs.data ▸ hu
    have hd : data.drop (pos + (l.length + 1)) = rest := by
      rw [← List.drop_drop, hu, ← List.drop_drop, List.drop_left]
      rfl
    refine .inr ⟨l, hl, ?_⟩
    exact {
      fd    := hfd.trans hf
      st    := by simp [hst]
      start := h.start
      stop  := by
        have := congrArg List.length hu
        simp only [List.length_drop, List.length_append, List.length_cons] at this
        omega
      lines := by rw [h.lines, hd, hu, CString.join_append, CString.join_cons, CString.join_nil]
      plain := List.forall_mem_append.mpr ⟨h.plain, by simpa using hn⟩ }

end Reading

theorem openAll_opened {cfg' : Config} {paths : List CString} (h : openAll fs cfg paths = .ok cfg')
    (hf : ∀ f ∈ cfg.files, opened fs f.path = some f) : ∀ f ∈ cfg'.files, opened fs f.path = some f := by
  induction paths generalizing cfg
  case nil              => obtain rfl := Except.ok.inj h; exact hf
  case cons path paths hi =>
    simp only [openAll, fileOpen, reduceCtorEq, false_and, if_false, Option.getD_some] at h
    cases ho : opened fs (CString.strlcpy path PATH_MAX)
    case none   => rw [ho] at h; exact hi h hf
    case some f =>
      obtain ⟨_, hp⟩ := opened_path ho (CString.length_strlcpy_lt path (by decide))
      rw [ho] at h
      exact hi h (List.forall_mem_cons.mpr ⟨hp.symm ▸ ho, hf⟩)

theorem start_opened {init : CString} (h : start fs (create init) = .ok (true, cfg)) :
    ∀ f ∈ cfg.files, opened fs f.path = some f := by
  simp only [start] at h
  split at h
  case h_1 => cases h
  case h_2 paths _ =>
    obtain ⟨_, ho, he⟩ := exists_of_map_ok h
    obtain ⟨_, rfl⟩ := Prod.mk.inj he
    exact openAll_opened ho fun _ hf => absurd hf List.not_mem_nil

end Node

namespace Watch

variable {s : Watch} {file : File} {path text : CString} {k : Nat} {c : Call} {cfg : Config}
  {line : Option (UInt32 × CString)}

theorem written_write (text : CString) (h : s.base ≤ s.data.length) :
    s.written <+: written { s with data := s.data ++ text } := by
  rw [written, written, List.drop_append_of_le_length h, CString.split_append, ← List.append_assoc]
  exact List.prefix_append ..

-- The node reads the file that the path names, and all that it has gone past has been returned.
def InStep (s : Watch) (file : File) : Prop :=
  ∃ ino ls pos, s.ino = some ino ∧ s.returned = s.done ++ ls ∧ Reading ino s.data s.base ls pos file

theorem InStep.prefix_written (h : s.InStep file) : s.returned <+: s.written := by
  obtain ⟨_, ls, pos, _, hr, h⟩ := h
  rw [hr, written, h.split, ← List.append_assoc]
  exact List.prefix_append ..

theorem InStep.write (h : s.InStep file) : InStep { s with data := s.data ++ text } file :=
  have ⟨ino, ls, pos, hi, hr, h⟩ := h
  ⟨ino, ls, pos, hi, hr, h.write text⟩

theorem poll_returned (h : yielded c s.cfg.files k line = none) :
    (s.poll k c line cfg).returned = s.returned := by
  simp [poll, h]

theorem InStep.poll_of_none (h : s.InStep file) (hy : yielded c s.cfg.files k line = none) :
    (s.poll k c line cfg).InStep file :=
  have ⟨ino, ls, pos, hi, hr, h⟩ := h
  ⟨ino, ls, pos, hi, (poll_returned hy).trans hr, h⟩

theorem InStep.returned_eq (h : s.InStep file) (hf : s.cfg.files[k]? = some file) (ht : s.turned = false)
    (hp : (CString.split (s.pending k)).1 = []) : s.returned = s.written := by
  obtain ⟨_, ls, pos, _, hr, h⟩ := h
  have hp : (CString.split (s.data.drop pos)).1 = [] := by simpa [pending, ht, hf, h.fd] using hp
  rw [hr, written, h.split, hp, List.append_nil]

theorem InStep.not_rotated (h : s.InStep file) (hs : s.Sees file.path c.fs) : ¬Rotated c.fs file :=
  have ⟨_, _, _, hi, _, h⟩ := h
  h.not_rotated (by simpa [Sees, hi] using hs)

theorem InStep.poll (h : s.InStep file) (hf : s.cfg.files[k]? = some file) (hs : s.Sees file.path c.fs)
    (hv : Visits c s.cfg.files k) (hfit : ∀ fd ∈ file.fd, Fits c.fs (intSize c.bufsize) fd)
    (hw : walk c.fs c.bufsize s.cfg.files = .ok (line, cfg.files)) :
    cfg.files[k]? = some (visited c.fs c.bufsize file) ∧
    (visited c.fs c.bufsize file).path = file.path ∧
    (s.poll k c line cfg).InStep (visited c.fs c.bufsize file) ∧
    (s.Counts k c → (s.poll k c line cfg).returned.length = s.returned.length + 1 ∨
      s.returned = s.written) := by
  obtain ⟨ino, ls, pos, hi, hr, h⟩ := h
  have hs : Shows file.path ino s.data c.fs := by simpa [Sees, hi] using hs
  have ⟨hy, hf⟩ := walk_read hw hf hv (h.not_rotated hs)
  have ⟨_, _, hp⟩ := visited_spec c.fs c.bufsize (h.fd ▸ nofun : file.fd ≠ none)
  refine ⟨hf, hp, ?_⟩
  obtain ⟨hl, hn, hd⟩ | ⟨l, hl, hn⟩ := h.visit hs (hfit _ h.fd)
  case inl =>
    refine ⟨⟨ino, ls, pos, hi, ?_, hn⟩, fun hc => .inr ?_⟩
    case refine_1 => simpa [Watch.poll, hy, hl] using hr
    case refine_2 =>
      have hd := hd ⟨hc.2.1, hc.2.2 ino hi⟩
      rw [hr, written, h.split, hd, CString.split, List.append_nil]
  case inr =>
    refine ⟨⟨ino, ls ++ [l], _, hi, ?_, hn⟩, fun _ => .inl ?_⟩
    case refine_1 => simp [Watch.poll, hy, hl, hr]
    case refine_2 => simp [Watch.poll, hy, hl]

theorem Init.inStep (h : Init path k s) :
    (∀ f ∈ s.cfg.files, f.Opened) ∧ (s.cfg.current = none ∨ s.cfg.current = some 0) ∧
    s.turned = false ∧ ∃ file, s.cfg.files[k]? = some file ∧ file.path = path ∧ s.InStep file := by
  obtain ⟨fs, init, ino, file, hs, hsh, hf, hp, he⟩ := h
  have hw : s.cfg.Watching := Started.watching ⟨fs, init, hs⟩
  have hm : file ∈ s.cfg.files := List.mem_of_getElem? hf
  refine ⟨hw.files, hw.current, by rw [he], file, hf, hp, ino, [], s.data.length, by rw [he], ?_, ?_⟩
  case refine_1 => rw [he]; rfl
  case refine_2 =>
    have hr := opened_reading (hp.symm ▸ hsh) (start_opened hs file hm)
    rwa [he]

end Watch

section Example

def one : Fs := logs (some (1, [])) none

namespace Watch

def started (fs : Fs) (ino : Ino) (data : CString) : Watch where
  cfg      := watching fs
  ino      := ino
  data     := data
  base     := data.length
  done     := []
  turned   := false
  returned := []
  visits   := 0

theorem init_started : Init "a".toList 0 (started one ⟨0, 1⟩ []) :=
  ⟨one, "*".toList, ⟨0, 1⟩, _, rfl, by decide, rfl, rfl, rfl⟩

def apply (s : Watch) : Event → Watch
  | .write text => { s with data := s.data ++ text }
  | .remove     => s.rotate none
  | .create ino => { s with ino := some ino }
  | .truncate   => s.rotate s.ino
  | .next c     =>
    match next c.fs c.bufsize c.reset s.cfg with
    | .ok (line, cfg) => s.poll 0 c line cfg
    | .error _        => s

def Applies (path : CString) (s : Watch) : Event → Prop
  | .create _ => s.ino = none
  | .next c   => s.Sees path c.fs ∧ (next c.fs c.bufsize c.reset s.cfg).isOk
  | _         => s.ino.isSome

theorem step_apply {path : CString} {s : Watch} {e : Event} (h : s.Applies path e) :
    Step path 0 s e (s.apply e) := by
  cases e
  case write    => have ⟨_, hi⟩ := Option.isSome_iff_exists.mp h; exact .write hi
  case remove   => have ⟨_, hi⟩ := Option.isSome_iff_exists.mp h; exact .remove hi
  case create   => exact .create h
  case truncate =>
    have ⟨_, hi⟩ := Option.isSome_iff_exists.mp h
    rw [apply, hi]
    exact .truncate hi
  case next c   =>
    have ⟨hs, hn⟩ := h
    simp only [apply]
    cases hr : next c.fs c.bufsize c.reset s.cfg
    case error => rw [hr] at hn; cases hn
    case ok r  => exact .next hs hr

def run (s : Watch) (es : List Event) : Watch :=
  es.foldl apply s

def Runs (path : CString) (G : Watch → Event → Prop) : Watch → List Event → Prop
  | _, []      => True
  | s, e :: es => (s.Applies path e ∧ G s e) ∧ Runs path G (s.apply e) es

instance {path : CString} {s : Watch} : (e : Event) → Decidable (s.Applies path e)
  | .create _ => inferInstanceAs (Decidable (s.ino = none))
  | .next _   => inferInstanceAs (Decidable (_ ∧ _))
  | .write _ | .remove | .truncate => inferInstanceAs (Decidable (s.ino.isSome = true))

instance decidableRuns {path : CString} {G : Watch → Event → Prop} [∀ s e, Decidable (G s e)] (s : Watch) :
    (es : List Event) → Decidable (Runs path G s es)
  | []      => .isTrue trivial
  | e :: es =>
    have := @decidableRuns path G _ (s.apply e) es
    inferInstanceAs (Decidable ((s.Applies path e ∧ G s e) ∧ Runs path G (s.apply e) es))

theorem steps_run {path : CString} {G : Watch → Event → Prop} {s : Watch} {es : List Event}
    (h : Runs path G s es) :
    Transition.Steps (Transition.Guarded (Step path 0) G) s es (s.run es) := by
  induction es generalizing s
  case nil          => exact .refl
  case cons e es hi => exact .step ⟨step_apply h.1.1, h.1.2⟩ (hi h.2)

def text (data : String) : Fs :=
  logs (some (1, data.toList)) none

end Watch

end Example

end F2b.Files
