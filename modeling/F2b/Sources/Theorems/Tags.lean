import F2b.Sources.Theorems.Node

-- The tags of the watched files, which are hashes of their paths.

namespace F2b

section Hash

-- The last byte of the text is the hash of what stands before it.
def EndsInHash (s : CString) : Prop :=
  ∃ t c, s = t ++ [c] ∧ fnv32aStr t FNV1_32A_INIT = c.toNat.toUInt32

theorem mix_eq_mul (h : UInt32) :
    h + ((h <<< 1) + (h <<< 4) + (h <<< 7) + (h <<< 8) + (h <<< 24)) = h * 16777619 := by
  apply UInt32.toNat_inj.mp
  simp only [UInt32.toNat_add, UInt32.toNat_shiftLeft, UInt32.toNat_mul, Nat.shiftLeft_eq, Nat.mod_add_mod,
    Nat.add_mod_mod, UInt32.reduceToNat, Nat.reduceMod]
  congr 1
  omega

-- The factor has an inverse, so that nothing but 0 becomes 0.
theorem mul_prime_eq_zero_iff (h : UInt32) : h * 16777619 = 0 ↔ h = 0 := by
  constructor
  case mp  =>
    intro hz
    have hi : (16777619 : UInt32) * 899433627 = 1 := by decide
    calc
      h = h * (16777619 * 899433627) := by rw [hi, UInt32.mul_one]
      _ = h * 16777619 * 899433627   := (UInt32.mul_assoc ..).symm
      _ = 0                          := by rw [hz, UInt32.zero_mul]
  case mpr =>
    intro h
    rw [h, UInt32.zero_mul]

theorem fnv32aStr_concat (t : CString) (c : Char) (hval : UInt32) :
    fnv32aStr (t ++ [c]) hval = (fnv32aStr t hval ^^^ c.toNat.toUInt32) * 16777619 := by
  rw [← mix_eq_mul]
  exact List.foldl_concat ..

theorem fnv32aStr_eq_zero_iff (s : CString) : fnv32aStr s FNV1_32A_INIT = 0 ↔ EndsInHash s := by
  obtain rfl | ⟨t, c, rfl⟩ := List.eq_nil_or_concat s
  case inl => simp [EndsInHash, fnv32aStr, FNV1_32A_INIT]
  case inr =>
    rw [List.concat_eq_append, fnv32aStr_concat, mul_prime_eq_zero_iff, UInt32.xor_eq_zero_iff]
    constructor
    case mp  => exact fun h => ⟨t, c, rfl, h⟩
    case mpr =>
      rintro ⟨t', c', he, h⟩
      obtain ⟨rfl, hc⟩ := List.append_inj' he rfl
      obtain rfl := List.singleton_inj.mp hc
      exact h

end Hash

namespace Files

variable {fs : Fs} {bufsize : Nat} {file : File} {files files' : List File} {cfg cfg' : Config}
variable {line : Option (UInt32 × CString)}

-- A node with an open file has the hash of its path as its tag.
def File.Tagged (file : File) : Prop :=
  file.fd ≠ none → file.stag = fnv32aStr file.path FNV1_32A_INIT

-- A file of the list is where the line is taken from, and gives it the tag.
def Taken (fs : Fs) (bufsize : Nat) (files : List File) (line : UInt32 × CString) : Prop :=
  ∃ before file, file ∈ files ∧ before.path = file.path ∧
    fileGetline fs bufsize before = (some line.2, file) ∧ line.1 = fnv32aStr file.path FNV1_32A_INIT

theorem tagged_zero : File.zero.Tagged :=
  fun h => absurd rfl h

theorem tagged_opened {path : CString} (h : opened fs path = some file) (hl : path.length < PATH_MAX) :
    file.Tagged := by
  have ⟨_, _, hs, hp⟩ := opened_spec h
  intro _
  rw [hs, hp, CString.strlcpy_of_lt hl]

theorem tagged_fileOpen {path : Option CString} {ok : Bool} {file' : File}
    (h : fileOpen fs file path = .ok (ok, file')) : file'.Tagged := by
  rw [fileOpen] at h
  split at h
  case isTrue  => cases h
  case isFalse =>
    simp only at h
    split at h
    case h_1 =>
      obtain ⟨_, rfl⟩ := Prod.mk.inj (Except.ok.inj h)
      exact tagged_zero
    case h_2 ho =>
      obtain ⟨_, rfl⟩ := Prod.mk.inj (Except.ok.inj h)
      exact tagged_opened ho (CString.length_strlcpy_lt _ (by decide))

theorem visited_eq (fs : Fs) (bufsize : Nat) (file : File) :
    ∃ st lines fd, visited fs bufsize file = { file with st, lines, fd } := by
  have ⟨st, hs⟩ : ∃ st, (fileRotated fs file).2 = { file with st } := by
    rw [fileRotated]
    split
    case isTrue  => exact ⟨_, rfl⟩
    case isFalse =>
      split
      case h_1 => exact ⟨_, rfl⟩
      case h_2 => split_ifs <;> exact ⟨_, rfl⟩
  cases hf : file.fd
  case none    => exact ⟨st, file.lines, none, by simp [visited, hs, fileGetline, hf]⟩
  case some fd =>
    have hf : (fileRotated fs file).2.fd = some fd := hs ▸ hf
    exact ⟨st, _, _, by rw [visited, fileGetline_eq hf, hs]⟩

theorem File.Tagged.visited (h : file.Tagged) (hr : ¬Rotated fs file) (bufsize : Nat) (files : List File) :
    (visited fs bufsize file).Tagged ∧ ∀ l, (fileGetline fs bufsize file).1 = some l →
      Taken fs bufsize (Files.visited fs bufsize file :: files) ((Files.visited fs bufsize file).stag, l) := by
  have ⟨_, _, _, he⟩ := visited_eq fs bufsize file
  have hs : file.stag = fnv32aStr file.path FNV1_32A_INIT := h (fd_ne_none hr)
  have ⟨hf, hp⟩ := fileRotated_spec fs file
  refine ⟨fun _ => he ▸ hs, fun l hl => ⟨(fileRotated fs file).2, _, List.mem_cons_self, ?_, ?_, he ▸ hs⟩⟩
  case refine_1 => rw [hp, he]
  case refine_2 => exact Prod.ext ((fileGetline_fst hf).trans hl) rfl

theorem Taken.cons {l : UInt32 × CString} (h : Taken fs bufsize files l) : Taken fs bufsize (file :: files) l :=
  have ⟨before, f, hm, h⟩ := h
  ⟨before, f, List.mem_cons_of_mem _ hm, h⟩

theorem walk_tagged (ht : ∀ f ∈ files, f.Tagged) (h : walk fs bufsize files = .ok (line, files')) :
    (∀ f ∈ files', f.Tagged) ∧ ∀ l ∈ line, Taken fs bufsize files' l := by
  induction files generalizing files'
  case nil =>
    obtain ⟨rfl, rfl⟩ := Prod.mk.inj (Except.ok.inj h)
    exact ⟨ht, by simp⟩
  case cons file files hi =>
    have ⟨hf, ht⟩ := List.forall_mem_cons.mp ht
    by_cases hr : Rotated fs file
    case pos =>
      rw [walk_rotated' hr] at h
      obtain ⟨_, ho, he⟩ := exists_of_map_ok h
      obtain ⟨rfl, rfl⟩ := Prod.mk.inj he
      exact ⟨by simpa using tagged_fileOpen ho, by simp⟩
    case neg =>
      have ⟨hv, hl⟩ := hf.visited hr bufsize files
      rw [walk_not_rotated hr] at h
      cases hg : (fileGetline fs bufsize file).1
      case some l =>
        rw [hg] at h
        obtain ⟨rfl, rfl⟩ := Prod.mk.inj (Except.ok.inj h)
        exact ⟨List.forall_mem_cons.mpr ⟨hv, ht⟩, by simpa using hl l hg⟩
      case none   =>
        rw [hg] at h
        obtain ⟨_, hw, he⟩ := exists_of_map_ok h
        obtain ⟨rfl, rfl⟩ := Prod.mk.inj he
        have ⟨ht, hl⟩ := hi ht hw
        exact ⟨List.forall_mem_cons.mpr ⟨hv, ht⟩, fun l hm => (hl l hm).cons⟩

theorem openAll_tagged (ht : ∀ f ∈ cfg.files, f.Tagged) {paths : List CString}
    (h : openAll fs cfg paths = .ok cfg') : ∀ f ∈ cfg'.files, f.Tagged := by
  induction paths generalizing cfg
  case nil              => exact Except.ok.inj h ▸ ht
  case cons path paths hi =>
    rw [openAll] at h
    cases ho : fileOpen fs .zero (some path)
    case error => rw [ho] at h; cases h
    case ok r  =>
      obtain ⟨ok, file⟩ := r
      rw [ho] at h
      cases ok
      case false => exact hi ht h
      case true  => exact hi (List.forall_mem_cons.mpr ⟨tagged_fileOpen ho, ht⟩) h

theorem Started.tagged (h : Started cfg) : ∀ f ∈ cfg.files, f.Tagged := by
  obtain ⟨fs, init, h⟩ := h
  rw [start] at h
  split at h
  case h_1 => cases h
  case h_2 =>
    obtain ⟨_, ho, he⟩ := exists_of_map_ok h
    obtain ⟨_, rfl⟩ := Prod.mk.inj he
    exact openAll_tagged (by simp [create]) ho

theorem Taken.append {l : UInt32 × CString} (pre : List File) (h : Taken fs bufsize files l) :
    Taken fs bufsize (pre ++ files) l :=
  have ⟨before, f, hm, h⟩ := h
  ⟨before, f, List.mem_append_right _ hm, h⟩

theorem mem_of_mem_rest {current : Option Nat} (h : file ∈ current.elim [] files.drop) : file ∈ files := by
  cases current
  case none   => cases h
  case some k => exact List.mem_of_mem_drop h

theorem next_tagged {reset : Bool} (ht : ∀ f ∈ cfg.files, f.Tagged)
    (h : next fs bufsize reset cfg = .ok (line, cfg')) :
    (∀ f ∈ cfg'.files, f.Tagged) ∧ ∀ l ∈ line, Taken fs bufsize cfg'.files l := by
  by_cases hb : bufsize = 0
  case pos => rw [next, if_pos hb] at h; cases h
  case neg =>
    obtain ⟨current, hn⟩ : ∃ current : Option Nat, next fs bufsize reset cfg =
        (walk fs bufsize (current.elim [] cfg.files.drop)).map fun r =>
          (r.1, { cfg with files := cfg.files.take (current.getD 0) ++ r.2, current }) := by
      refine ⟨if reset ∨ cfg.current = none then (if cfg.files = [] then none else some 0) else cfg.current, ?_⟩
      simp only [next, hb, if_false]
      generalize walk fs bufsize _ = r
      cases r <;> rfl
    rw [hn] at h
    obtain ⟨_, hw, he⟩ := exists_of_map_ok h
    obtain ⟨rfl, rfl⟩ := Prod.mk.inj he
    obtain ⟨ht', hl⟩ := walk_tagged (fun f hf => ht f (mem_of_mem_rest hf)) hw
    refine ⟨fun f hf => ?_, fun l hm => (hl l hm).append _⟩
    obtain hf | hf := List.mem_append.mp hf
    case inl => exact ht f (List.mem_of_mem_take hf)
    case inr => exact ht' f hf

-- Whatever has been read before, a line is handed over with the hash of the path that it is read from.
theorem taken_of_next {cfg₀ : Config} {calls : List Call} {c : Call} {l : UInt32 × CString} (hs : Started cfg₀)
    (e : Transition.Steps Step cfg₀ calls cfg) (h : next c.fs c.bufsize c.reset cfg = .ok (some l, cfg')) :
    Taken c.fs c.bufsize cfg'.files l := by
  have ht : ∀ f ∈ cfg.files, f.Tagged := by
    refine e.invariant (P := fun cfg => ∀ f ∈ cfg.files, f.Tagged) ?_ hs.tagged
    intro _ _ _ ⟨_, hn⟩ ht
    exact (next_tagged ht hn).1
  exact (next_tagged ht h).2 l rfl

end Files
end F2b
