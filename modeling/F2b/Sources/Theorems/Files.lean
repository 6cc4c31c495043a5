import F2b.Sources.Files
import F2b.Lib.Transition

-- The list of watched files over the calls of `next`, and what happens to the files between them.

namespace F2b.Files

structure File.Opened (file : File) : Prop where
  fd    : file.fd ≠ none
  path  : file.path ≠ []
  short : file.path.length < PATH_MAX

def Config.paths (cfg : Config) : List CString :=
  cfg.files.map (·.path)

-- One call of `next`: the file system it finds, and its arguments. The buffer has to have a size.
structure Call where
  fs      : Fs
  bufsize : Nat
  reset   : Bool
  pos     : 0 < bufsize

variable {fs : Fs} {bufsize : Nat} {file : File} {files : List File} {cfg cfg' cfg₀ : Config}

-- The file is not found under its path any more, or is found replaced or shrunk.
def Rotated (fs : Fs) (file : File) : Prop :=
  (fileRotated fs file).1 = true

def Idle (fs : Fs) (bufsize : Nat) (file : File) : Prop :=
  ¬Rotated fs file ∧ (fileGetline fs bufsize file).1 = none

def Openable (fs : Fs) (path : CString) : Prop :=
  (opened fs path).isSome

-- No file that a call gets to is rotated, except the last one of the list if it can be opened again.
def Intact (fs : Fs) (bufsize : Nat) (files : List File) : Prop :=
  ∀ pre file post, files = pre ++ file :: post → (∀ f ∈ pre, Idle fs bufsize f) → Rotated fs file →
    post = [] ∧ Openable fs file.path

-- The call ends, the paths are those of before, and when it has gone through the list, a file is open
-- for every path for which there is one to open.
def Kept (watched : List CString) (c : Call) (cfg : Config) : Prop :=
  ∃ line cfg', next c.fs c.bufsize c.reset cfg = .ok (line, cfg') ∧ cfg'.paths = watched ∧
    (line = none → ∀ path ∈ watched, Openable c.fs path →
      ∃ file ∈ cfg'.files, file.path = path ∧ file.fd ≠ none)

theorem intact_nil : Intact fs bufsize [] :=
  fun _ _ _ h => by simp at h

theorem intact_cons : Intact fs bufsize (file :: files) ↔
    (Rotated fs file → files = [] ∧ Openable fs file.path) ∧
    (Idle fs bufsize file → Intact fs bufsize files) := by
  constructor
  case mp =>
    refine fun h => ⟨fun hr => h [] file files rfl nofun hr, fun hi pre f post he hp hr => ?_⟩
    exact h (file :: pre) f post (he ▸ rfl) (List.forall_mem_cons.mpr ⟨hi, hp⟩) hr
  case mpr =>
    rintro ⟨hr, hi⟩ pre f post he hp hf
    cases pre
    case nil        => obtain ⟨rfl, rfl⟩ := List.cons.inj he; exact hr hf
    case cons g pre =>
      obtain ⟨rfl, rfl⟩ := List.cons.inj he
      have ⟨hg, hp⟩ := List.forall_mem_cons.mp hp
      exact hi hg pre f post rfl hp hf

instance : Decidable (Rotated fs file) :=
  inferInstanceAs (Decidable (_ = true))

instance : Decidable (Idle fs bufsize file) :=
  inferInstanceAs (Decidable (_ ∧ _))

instance {path : CString} : Decidable (Openable fs path) :=
  inferInstanceAs (Decidable (_ = true))

instance : (files : List File) → Decidable (Intact fs bufsize files)
  | []         => .isTrue intact_nil
  | _ :: files =>
    have : Decidable (Intact fs bufsize files) := instDecidableIntact files
    decidable_of_iff _ intact_cons.symm

theorem opened_spec {path : CString} (h : opened fs path = some file) :
    file.fd ≠ none ∧ path ≠ [] ∧ file.stag = fnv32aStr path FNV1_32A_INIT ∧
    file.path = CString.strlcpy path PATH_MAX := by
  have ⟨st, hs, h⟩ := Option.bind_eq_some_iff.mp h
  by_cases hm : (fs.inode st.ino).mode = .other
  case pos => simp [hm] at h
  case neg =>
    rw [if_neg hm] at h
    have ⟨_, _, h⟩ := Option.bind_eq_some_iff.mp h
    have ⟨_, _, h⟩ := Option.bind_eq_some_iff.mp h
    obtain rfl := Option.some.inj h
    refine ⟨nofun, ?_, rfl, rfl⟩
    rintro rfl
    simp [Fs.stat, Fs.find] at hs

theorem opened_path {path : CString} (h : opened fs path = some file) (hl : path.length < PATH_MAX) :
    file.Opened ∧ file.path = path := by
  have ⟨hf, hp, _, he⟩ := opened_spec h
  rw [CString.strlcpy_of_lt hl] at he
  exact ⟨⟨hf, by rwa [he], by rwa [he]⟩, he⟩

theorem fileRotated_spec (fs : Fs) (file : File) :
    (fileRotated fs file).2.fd = file.fd ∧ (fileRotated fs file).2.path = file.path := by
  simp only [fileRotated]
  split
  case isTrue  => exact ⟨rfl, rfl⟩
  case isFalse =>
    split
    case h_1 => exact ⟨rfl, rfl⟩
    case h_2 =>
      split
      case isTrue  => exact ⟨rfl, rfl⟩
      case isFalse => split <;> exact ⟨rfl, rfl⟩

theorem fileRotated_true (h : Rotated fs file) : fileRotated fs file = (true, file) := by
  simp only [Rotated, fileRotated] at h ⊢
  split at h
  case isTrue hf  => rw [if_pos hf]
  case isFalse hf =>
    rw [if_neg hf]
    split at h
    case h_1 => rfl
    case h_2 =>
      split at h
      case isTrue hr  => simp only [if_pos hr]
      case isFalse hr => split at h <;> cases h

theorem fileClose_spec (file : File) : (fileClose file).fd = none ∧ (fileClose file).path = file.path := by
  simp only [fileClose]
  split <;> simp [*]

theorem fileGetline_eq {fd : Stream} (h : file.fd = some fd) :
    fileGetline fs bufsize file =
    let (buf, fd) := fs.fgets (intSize bufsize) fd
    (buf.map (·.takeWhile (· ≠ '\n')),
      { file with
        lines := if buf.isSome then file.lines + 1 else file.lines
        fd    := some (if buf.isSome then fd else clearerr fd) }) := by
  simp only [fileGetline, h]
  rcases fs.fgets _ fd with ⟨_ | _, _⟩ <;> rfl

theorem fileGetline_spec (fs : Fs) (bufsize : Nat) (h : file.fd ≠ none) :
    (fileGetline fs bufsize file).2.fd ≠ none ∧ (fileGetline fs bufsize file).2.path = file.path := by
  have ⟨_, h⟩ := Option.ne_none_iff_exists'.mp h
  rw [fileGetline_eq h]
  exact ⟨nofun, rfl⟩

theorem fileGetline_fst {file' : File} (h : file'.fd = file.fd) :
    (fileGetline fs bufsize file').1 = (fileGetline fs bufsize file).1 := by
  cases hf : file.fd
  case none    => simp only [fileGetline, h, hf]
  case some fd => rw [fileGetline_eq hf, fileGetline_eq (h.trans hf)]

-- The node after `fileRotated` has found the file in its place, and after a line is taken from it.
def visited (fs : Fs) (bufsize : Nat) (file : File) : File :=
  (fileGetline fs bufsize (fileRotated fs file).2).2

theorem File.Opened.visited (ho : file.Opened) (fs : Fs) (bufsize : Nat) :
    (visited fs bufsize file).Opened ∧ (visited fs bufsize file).path = file.path := by
  have ⟨hf, hp⟩ := fileRotated_spec fs file
  have ⟨hf, hp'⟩ := fileGetline_spec fs bufsize (hf ▸ ho.fd)
  have hp : (Files.visited fs bufsize file).path = file.path := hp'.trans hp
  exact ⟨⟨hf, hp ▸ ho.path, hp ▸ ho.short⟩, hp⟩

theorem walk_rotated' (h : Rotated fs file) : walk fs bufsize (file :: files) =
    (fileOpen fs (fileClose file) none).map fun r => (none, [r.2]) := by
  simp only [walk, fileRotated_true h, if_true, (fileClose_spec file).1]
  cases fileOpen fs (fileClose file) none <;> rfl

theorem walk_rotated (ho : file.Opened) (h : Rotated fs file) :
    walk fs bufsize (file :: files) = .ok (none, [(opened fs file.path).getD .zero]) := by
  simp only [walk_rotated' h, fileOpen, (fileClose_spec file).2, ho.path, Option.getD_none,
    CString.strlcpy_of_lt ho.short]
  cases opened fs file.path <;> rfl

theorem fd_ne_none (h : ¬Rotated fs file) : file.fd ≠ none := by
  intro hf
  exact h (by simp only [Rotated, fileRotated, if_pos hf])

theorem walk_not_rotated (h : ¬Rotated fs file) :
    walk fs bufsize (file :: files) =
    match (fileGetline fs bufsize file).1 with
    | some line => .ok (some ((visited fs bufsize file).stag, line), visited fs bufsize file :: files)
    | none      => (walk fs bufsize files).map fun r => (r.1, visited fs bufsize file :: r.2) := by
  have ⟨f, hf⟩ : ∃ f, fileRotated fs file = (false, f) :=
    ⟨_, Prod.ext (Bool.eq_false_iff.mpr h) rfl⟩
  have hfd : f.fd = file.fd := congrArg (·.2.fd) hf ▸ (fileRotated_spec fs file).1
  have hn : f.fd ≠ none := hfd ▸ fd_ne_none h
  have ⟨line, g, hg⟩ : ∃ line g, fileGetline fs bufsize f = (line, g) := ⟨_, _, rfl⟩
  rw [← fileGetline_fst hfd]
  simp only [walk, visited, hf, hg, Bool.false_eq_true, if_false, hn]
  cases line
  case some => rfl
  case none => cases walk fs bufsize files <;> rfl

-- The loop ends, and keeps the paths if it meets no rotated file that it should not.
theorem walk_spec (fs : Fs) (bufsize : Nat) (ho : ∀ f ∈ files, f.Opened) :
    ∃ line files', walk fs bufsize files = .ok (line, files') ∧
      (files'.map (·.path) = files.map (·.path) ↔ Intact fs bufsize files) ∧
      (Intact fs bufsize files → ∀ f ∈ files', f.Opened) := by
  induction files
  case nil             => exact ⟨none, [], rfl, by simp [intact_nil]⟩
  case cons file files hi =>
    have ⟨ho, hs⟩ := List.forall_mem_cons.mp ho
    have ⟨hv, hp⟩ := ho.visited fs bufsize
    rw [intact_cons]
    by_cases hr : Rotated fs file
    case pos =>
      refine ⟨_, _, walk_rotated ho hr, ?_⟩
      have hn : ¬Idle fs bufsize file := fun h => h.1 hr
      simp only [hr, hn, true_imp_iff, false_imp_iff, and_true, Openable]
      cases hf : opened fs file.path
      case none   => simp [File.zero, Ne.symm ho.path]
      case some f =>
        have ⟨hf, hp⟩ := opened_path hf ho.short
        simp [hp, hf]
    case neg =>
      rw [walk_not_rotated hr]
      cases hl : (fileGetline fs bufsize file).1
      case none      =>
        have ⟨line, files', hw, hk, hf⟩ := hi hs
        have h : Idle fs bufsize file := ⟨hr, hl⟩
        refine ⟨line, visited fs bufsize file :: files', by simp only [hw]; rfl, ?_⟩
        simp only [hr, h, hp, false_imp_iff, true_imp_iff, true_and, List.map_cons, List.cons.injEq, hk]
        exact fun hi => List.forall_mem_cons.mpr ⟨hv, hf hi⟩
      case some line =>
        have h : ¬Idle fs bufsize file := fun h => by cases hl.symm.trans h.2
        refine ⟨_, _, rfl, ?_⟩
        simp only [hr, h, hp, false_imp_iff, true_imp_iff, true_and, List.map_cons]
        exact List.forall_mem_cons.mpr ⟨hv, hs⟩

-- The source between two calls of `next` that have met no rotated file that they should not.
structure Config.Watching (cfg : Config) : Prop where
  files   : ∀ f ∈ cfg.files, f.Opened
  current : cfg.current = none ∨ cfg.current = some 0

theorem openAll_spec (fs : Fs) (paths : List CString) (hf : ∀ f ∈ cfg.files, f.Opened)
    (hc : cfg.current = none) : ∃ cfg', openAll fs cfg paths = .ok cfg' ∧ cfg'.Watching := by
  induction paths generalizing cfg
  case nil              => exact ⟨cfg, rfl, hf, .inl hc⟩
  case cons path paths hi =>
    simp only [openAll, fileOpen, reduceCtorEq, false_and, if_false, Option.getD_some]
    cases ho : opened fs (CString.strlcpy path PATH_MAX)
    case none   => exact hi hf hc
    case some f =>
      have ⟨ho, _⟩ := opened_path ho (CString.length_strlcpy_lt path (by decide))
      exact hi (List.forall_mem_cons.mpr ⟨ho, hf⟩) (hc.symm ▸ rfl : cfg.current.map (· + 1) = none)

-- What `start` leaves, whatever `glob` finds and can be opened.
def Started (cfg : Config) : Prop :=
  ∃ fs init, start fs (create init) = .ok (true, cfg)

theorem Started.watching (h : Started cfg) : cfg.Watching := by
  obtain ⟨fs, init, h⟩ := h
  simp only [start] at h
  split at h
  case h_1 => cases h
  case h_2 paths _ =>
    have ⟨cfg', ho, hw⟩ : ∃ cfg', openAll fs (create init) paths = .ok cfg' ∧ cfg'.Watching :=
      openAll_spec fs paths nofun rfl
    rw [ho] at h
    obtain ⟨_, rfl⟩ := Prod.mk.inj (Except.ok.inj h)
    exact hw

theorem next_eq (hw : cfg.current = none ∨ cfg.current = some 0) (c : Call) :
    ∃ current, (current = none ∨ current = some 0) ∧
      next c.fs c.bufsize c.reset cfg =
      (walk c.fs c.bufsize cfg.files).map fun r => (r.1, { cfg with files := r.2, current }) := by
  have hb : c.bufsize ≠ 0 := Nat.ne_of_gt c.pos
  have ⟨current, he, hc, hd⟩ : ∃ current,
      (if c.reset ∨ cfg.current = none then (if cfg.files = [] then none else some 0)
        else cfg.current) = current ∧
      (current = none ∨ current = some 0) ∧ current.elim [] cfg.files.drop = cfg.files := by
    refine ⟨_, rfl, ?_⟩
    obtain hc | hc := hw <;> cases hf : cfg.files <;> cases c.reset <;> simp [hc]
  have ht : cfg.files.take (current.getD 0) = [] := by obtain rfl | rfl := hc <;> simp
  refine ⟨current, hc, ?_⟩
  simp only [next, hb, he, hd, ht, List.nil_append]
  cases walk c.fs c.bufsize cfg.files <;> rfl

-- A call in a watching state is kept exactly if no file is in its way.
theorem Config.Watching.kept_iff_intact (hw : cfg.Watching) (c : Call) :
    Kept cfg.paths c cfg ↔ Intact c.fs c.bufsize cfg.files := by
  have ⟨current, _, he⟩ := next_eq hw.current c
  have ⟨line, files, hr, hk, ho⟩ := walk_spec c.fs c.bufsize hw.files
  rw [hr] at he
  constructor
  case mp =>
    rintro ⟨_, cfg', hn, hp, _⟩
    obtain ⟨_, rfl⟩ := Prod.mk.inj (Except.ok.inj (he.symm.trans hn))
    exact hk.mp hp
  case mpr =>
    intro hi
    refine ⟨_, _, he, hk.mpr hi, fun _ path hp _ => ?_⟩
    have hp : path ∈ files.map (·.path) := hk.mpr hi ▸ hp
    have ⟨f, hf, hfp⟩ := List.mem_map.mp hp
    exact ⟨f, hf, hfp, (ho hi f hf).fd⟩

section Run

def Step (cfg : Config) (c : Call) (cfg' : Config) : Prop :=
  ∃ line, next c.fs c.bufsize c.reset cfg = .ok (line, cfg')

theorem Config.Watching.step {c : Call} (hw : cfg.Watching) (hs : Step cfg c cfg')
    (hi : Intact c.fs c.bufsize cfg.files) : cfg'.Watching ∧ cfg'.paths = cfg.paths := by
  have ⟨_, hs⟩ := hs
  have ⟨current, hc, he⟩ := next_eq hw.current c
  have ⟨line, files, hr, hk, ho⟩ := walk_spec c.fs c.bufsize hw.files
  rw [hr] at he
  obtain ⟨_, rfl⟩ := Prod.mk.inj (Except.ok.inj (he.symm.trans hs))
  exact ⟨⟨ho hi, hc⟩, hk.mpr hi⟩

-- After any calls that meet no rotated file except the last one of the list, and that one only when it
-- can be opened again, this is what the next call needs to keep all the paths that `start` has found.
theorem paths_kept_iff {calls : List Call} (hs : Started cfg₀)
    (e : Transition.Steps (Transition.Guarded Step fun cfg c => Intact c.fs c.bufsize cfg.files)
      cfg₀ calls cfg) (c : Call) :
    Kept cfg₀.paths c cfg ↔ Intact c.fs c.bufsize cfg.files := by
  have ⟨hw, hp⟩ : cfg.Watching ∧ cfg.paths = cfg₀.paths := by
    refine e.invariant (P := fun cfg => cfg.Watching ∧ cfg.paths = cfg₀.paths) ?_ ⟨hs.watching, rfl⟩
    intro cfg c cfg' h ⟨hw, hp⟩
    have ⟨hw', hp'⟩ := hw.step h.1 h.2
    exact ⟨hw', hp'.trans hp⟩
  rw [← hp, hw.kept_iff_intact c]

end Run

section Example

def plain (data : CString) : Inode where
  mode    := .reg
  data    := data
  locked  := false
  unseek  := false
  damaged := false

def logs (a b : Option (Nat × CString)) : Fs where
  inode ino := plain (((a.toList ++ b.toList).lookup ino.ino).getD [])
  lookup path :=
    if path = "a".toList then a.map (⟨0, ·.1⟩) else if path = "b".toList then b.map (⟨0, ·.1⟩) else none
  glob _ := some (if b.isSome then ["a".toList, "b".toList] else ["a".toList])

def poll (fs : Fs) : Call where
  fs      := fs
  bufsize := 64
  reset   := true
  pos     := by decide

def watching (fs : Fs) : Config :=
  match start fs (create "*".toList) with
  | .ok (_, cfg) => cfg
  | .error _     => create []

def polled (c : Call) (cfg : Config) : Config :=
  match next c.fs c.bufsize c.reset cfg with
  | .ok (_, cfg) => cfg
  | .error _     => cfg

def two : Fs := logs (some (1, [])) (some (2, []))

-- The second file gets a line, and afterwards the first one, which is the last of the list, is replaced.
def appended : Fs := logs (some (1, [])) (some (2, "x\n".toList))
def replaced : Fs := logs (some (3, "y\n".toList)) (some (2, "x\n".toList))

theorem kept_replaced :
    (watching two).paths = ["b".toList, "a".toList] ∧
    Kept (watching two).paths (poll replaced)
      (polled (poll replaced) (polled (poll appended) (watching two))) := by
  have h₁ : Step (watching two) (poll appended) (polled (poll appended) (watching two)) :=
    ⟨some (fnv32aStr "b".toList FNV1_32A_INIT, "x".toList), rfl⟩
  have h₂ : Step (polled (poll appended) (watching two)) (poll replaced)
      (polled (poll replaced) (polled (poll appended) (watching two))) := ⟨none, rfl⟩
  refine ⟨rfl, ?_⟩
  refine (paths_kept_iff ⟨two, "*".toList, rfl⟩ (.step ⟨h₁, ?_⟩ (.step ⟨h₂, ?_⟩ .refl)) (poll replaced)).mpr ?_
  all_goals decide

-- When the second one is replaced, the first one is dropped. When it is missing for one call, its path is forgotten
-- too, and the next call fails.
theorem not_kept_two :
    Started (watching two) ∧
    ¬Kept (watching two).paths (poll (logs (some (1, [])) (some (3, [])))) (watching two) ∧
    Step (watching two) (poll (logs (some (1, [])) none))
      (polled (poll (logs (some (1, [])) none)) (watching two)) ∧
    ¬Kept (watching two).paths (poll two)
      (polled (poll (logs (some (1, [])) none)) (watching two)) := by
  refine ⟨⟨two, "*".toList, rfl⟩, fun h => ?_, ⟨none, rfl⟩, fun ⟨_, _, h, _⟩ => ?_⟩
  case refine_1 =>
    obtain ⟨_, _, h, hp, _⟩ := h
    obtain ⟨_, rfl⟩ := Prod.mk.inj (Except.ok.inj h)
    revert hp
    decide
  case refine_2 => cases h

end Example

end F2b.Files
