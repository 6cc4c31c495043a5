import F2b.Objects.Statefile

namespace F2b

variable {inet : Inet}

namespace Ipaddr.Valid

variable {addr : CString}

theorem chars (h : Valid inet addr) : ∀ c ∈ addr, c ∈ "0123456789abcdefABCDEF.:".toList :=
  have ⟨_, h⟩ := Option.isSome_iff_exists.mp h
  inet.chars h

theorem ne_nil (h : Valid inet addr) : addr ≠ [] :=
  have ⟨_, h⟩ := Option.isSome_iff_exists.mp h
  inet.nonempty h

theorem not_isspace (h : Valid inet addr) : ∀ c ∈ addr, ¬CString.isspace c := by
  intro c hc
  have : "0123456789abcdefABCDEF.:".toList.all (!CString.isspace ·) := by decide
  simpa using List.all_eq_true.mp this c (h.chars c hc)

theorem not_mem (h : Valid inet addr) {c : Char}
    (hc : c ∉ "0123456789abcdefABCDEF.:".toList := by decide) : c ∉ addr :=
  fun hm => hc (h.chars c hm)

end Ipaddr.Valid

-- What the state file keeps of a banned host.
structure Ban where
  text      : CString
  bannedAt  : Int
  releaseAt : Int
  deriving DecidableEq

def Ipaddr.toBan (a : Ipaddr) : Ban :=
  ⟨a.text, a.bannedAt, a.releaseAt⟩

-- The times that `%u` reads back as `%lu` prints them.
def Fits (t : Int) : Prop :=
  0 ≤ t ∧ t < 2 ^ 32

instance (t : Int) : Decidable (Fits t) :=
  inferInstanceAs (Decidable (_ ∧ _))

def stored (t : Int) : Int :=
  t % 2 ^ 32

theorem stored_eq_iff {t : Int} : stored t = t ↔ Fits t := by
  simp only [stored, Fits]
  omega

theorem fits_stored (t : Int) : Fits (stored t) := by
  simp only [stored, Fits]
  omega

theorem printLu_eq (t : Int) :
    ∃ n : Nat, n < 2 ^ 64 ∧ CString.printLu t = CString.ofNat n ∧ (n : Int) = t % 2 ^ 64 :=
  ⟨(t % 2 ^ 64).toNat, by omega, rfl, by omega⟩

namespace Ban

-- The bans that a state file can hold.
structure Storable (inet : Inet) (b : Ban) : Prop where
  valid     : Ipaddr.Valid inet b.text
  bannedAt  : Fits b.bannedAt
  releaseAt : Fits b.releaseAt

def stored (b : Ban) : Ban :=
  ⟨b.text, F2b.stored b.bannedAt, F2b.stored b.releaseAt⟩

theorem stored_eq_iff {b : Ban} : b.stored = b ↔ Fits b.bannedAt ∧ Fits b.releaseAt := by
  rw [← F2b.stored_eq_iff, ← F2b.stored_eq_iff]
  obtain ⟨_, _, _⟩ := b
  simp [stored]

def line (b : Ban) : CString :=
  b.text ++ '\t' :: (CString.printLu b.bannedAt ++ '\t' :: CString.printLu b.releaseAt)

theorem entry_eq (a : Ipaddr) : Statefile.entry a = a.toBan.line ++ ['\n'] := by
  simp [Statefile.entry, line, Ipaddr.toBan]

section Line

variable {b : Ban} (h : Ipaddr.Valid inet b.text)

include h

theorem not_mem_line {c : Char} (hd : ¬CString.isdigit c) (ht : c ≠ '\t')
    (hv : c ∉ "0123456789abcdefABCDEF.:".toList) : c ∉ b.line := by
  have hd : ∀ n, c ∉ CString.ofNat n := fun n hm => hd (CString.isdigit_of_mem_ofNat hm)
  simp [line, CString.printLu, h.not_mem hv, ht, hd]

theorem length_line : b.line.length + 1 < 256 := by
  have ⟨n, _, hn, _⟩ := printLu_eq b.bannedAt
  have ⟨m, _, hm, _⟩ := printLu_eq b.releaseAt
  have hl := h.length_lt
  have : (CString.ofNat n).length ≤ 20 := CString.length_ofNat_le (by decide) (by omega)
  have : (CString.ofNat m).length ≤ 20 := CString.length_ofNat_le (by decide) (by omega)
  simp only [line, hn, hm, List.length_append, List.length_cons, IPADDR_MAX] at *
  omega

theorem skip_line (s : CString) :
    (b.text ++ s).dropWhile CString.isspace = b.text ++ s ∧ (b.text ++ s).head? ≠ some '#' := by
  cases ht : b.text
  case nil       => exact absurd ht h.ne_nil
  case cons c cs =>
    have hc : ¬CString.isspace c := h.not_isspace c (ht ▸ List.mem_cons_self)
    have hh : c ≠ '#' := by
      rintro rfl
      exact h.not_mem (by decide) (ht ▸ List.mem_cons_self)
    simp [hc, hh]

theorem parse_text (s : CString) :
    ∃ a, Ipaddr.create inet b.text = some a ∧
    Statefile.parse inet (b.text ++ '\t' :: s) =
    (CString.scanU ('\t' :: s)).bind fun (bannedAt, s) => (CString.scanU s).bind fun (releaseAt, _) =>
      some { a with banned := true, bannedAt, releaseAt } := by
  have ⟨a, ha⟩ := h.exists_create
  have ⟨hd, hc⟩ := skip_line h ('\t' :: s)
  have hs : CString.scanStr IPADDR_MAX (b.text ++ '\t' :: s) = some (b.text, '\t' :: s) :=
    CString.scanStr_word h.ne_nil (by decide) h.not_isspace (Nat.le_of_lt h.length_lt)
  refine ⟨a, ha, ?_⟩
  simp only [Statefile.parse, hd, if_neg hc, hs, ha, Option.bind_eq_bind, Option.bind_some]

theorem parse_line (s : CString) (hs : ∀ c ∈ s.head?, ¬CString.isdigit c) :
    ∃ a, Ipaddr.create inet b.text = some a ∧ Statefile.parse inet (b.line ++ s) =
    some { a with
      banned    := true
      bannedAt  := b.stored.bannedAt
      releaseAt := b.stored.releaseAt } := by
  have ⟨n, hn, hb, hn'⟩ := printLu_eq b.bannedAt
  have ⟨m, hm, hr, hm'⟩ := printLu_eq b.releaseAt
  have ⟨a, ha, hp⟩ := parse_text h (CString.ofNat n ++ '\t' :: (CString.ofNat m ++ s))
  have h₁ (s : CString) : CString.scanU ('\t' :: (CString.ofNat n ++ '\t' :: s)) =
      some (n % 2 ^ 32, '\t' :: s) := CString.scanU_ofNat hn (by decide) (by simp; decide)
  have h₂ : CString.scanU ('\t' :: (CString.ofNat m ++ s)) = some (m % 2 ^ 32, s) :=
    CString.scanU_ofNat hm (by decide) hs
  have hn : ((n % 2 ^ 32 : Nat) : Int) = F2b.stored b.bannedAt := by
    simp only [F2b.stored]
    omega
  have hm : ((m % 2 ^ 32 : Nat) : Int) = F2b.stored b.releaseAt := by
    simp only [F2b.stored]
    omega
  refine ⟨a, ha, ?_⟩
  simp only [line, hb, hr, List.append_assoc, List.cons_append, hp, h₁, h₂, Option.bind_some, hn, hm,
    stored]

end Line
end Ban

namespace Statefile

theorem scanU_lt {s rest : CString} {n : Nat} (h : CString.scanU s = some (n, rest)) :
    n < 2 ^ 32 := by
  simp only [CString.scanU] at h
  split at h
  case isTrue  => cases h
  case isFalse =>
    obtain ⟨rfl, _⟩ := Prod.mk.inj (Option.some.inj h)
    exact Nat.mod_lt _ (by decide)

theorem parse_eq {buf : CString} {a : Ipaddr} (h : parse inet buf = some a) :
    ∃ addr new, ∃ bannedAt releaseAt : Nat, Ipaddr.create inet addr = some new ∧
    bannedAt < 2 ^ 32 ∧ releaseAt < 2 ^ 32 ∧ a = { new with banned := true, bannedAt, releaseAt } := by
  simp only [parse] at h
  split at h
  case isTrue  => cases h
  case isFalse =>
    simp only [Option.bind_eq_bind, Option.bind_eq_some_iff] at h
    obtain ⟨⟨addr, _⟩, _, ⟨_, _⟩, hb, ⟨_, _⟩, hr, new, hn, he⟩ := h
    exact ⟨addr, new, _, _, hn, scanU_lt hb, scanU_lt hr, (Option.some.inj he).symm⟩

-- Whatever the file holds, the records that come from it are bans that it can hold.
theorem storable_of_parse {buf : CString} {a : Ipaddr} (h : parse inet buf = some a) :
    a.banned ∧ a.toBan.Storable inet := by
  obtain ⟨addr, new, n, m, hn, hb, hr, rfl⟩ := parse_eq h
  have hv : Ipaddr.Valid inet new.text := Ipaddr.text_create hn ▸ Ipaddr.valid_of_create hn
  refine ⟨rfl, hv, ?_, ?_⟩ <;> simp only [Fits, Ipaddr.toBan] <;> omega

theorem exists_parse_of_mem_load {sf : Statefile} {disk : Disk} {a : Ipaddr} (h : a ∈ sf.load inet disk) :
    ∃ buf, parse inet buf = some a := by
  simp only [load] at h
  cases hd : disk sf.path
  case none   => simp [hd] at h
  case some t =>
    simp only [hd, Option.elim_some, loadText, List.mem_reverse, List.mem_filterMap] at h
    have ⟨_, _, hp⟩ := h
    exact ⟨_, hp⟩

theorem storable_of_mem_load {sf : Statefile} {disk : Disk} {a : Ipaddr} (h : a ∈ sf.load inet disk) :
    a.banned ∧ a.toBan.Storable inet :=
  have ⟨_, hp⟩ := exists_parse_of_mem_load h
  storable_of_parse hp

def title : CString :=
  "# address\tbanned_at\trelease_at".toList

theorem print_eq (list : List Ipaddr) :
    print list =
    (title :: ((list.filter (·.banned)).map Ipaddr.toBan).map Ban.line).flatMap (· ++ ['\n']) := by
  have he : entry = fun a => a.toBan.line ++ ['\n'] := funext Ban.entry_eq
  have hh : header = title ++ ['\n'] := rfl
  simp [print, hh, he, List.flatMap_map]

theorem filterMap_parse {bs : List Ban} (h : ∀ b ∈ bs, Ipaddr.Valid inet b.text) :
    ((bs.map (·.line ++ ['\n'])).filterMap (parse inet)).map Ipaddr.toBan = bs.map Ban.stored ∧
    ∀ a ∈ (bs.map (·.line ++ ['\n'])).filterMap (parse inet), a.banned := by
  induction bs
  case nil          => simp
  case cons b bs hi =>
    have ⟨hb, h⟩ := List.forall_mem_cons.mp h
    have ⟨hi₁, hi₂⟩ := hi h
    have ⟨a, ha, hp⟩ := Ban.parse_line hb ['\n'] (by rintro _ ⟨⟩; decide)
    simp only [List.map_cons, List.filterMap_cons, hp, hi₁, List.forall_mem_cons]
    exact ⟨by simp [Ipaddr.toBan, Ipaddr.text_create ha, Ban.stored], trivial, hi₂⟩

-- The bans that come back from the beginning of a file: those of its lines, last first, and what the
-- cut line makes.
theorem loadText_lines {bs : List Ban} (tail : CString) (h : ∀ b ∈ bs, Ipaddr.Valid inet b.text)
    (ht : '\n' ∉ tail ∧ CString.nul ∉ tail ∧ tail.length + 1 < 256) :
    (loadText inet ((title :: bs.map Ban.line).flatMap (· ++ ['\n']) ++ tail)).map Ipaddr.toBan =
      (parse inet tail).toList.map Ipaddr.toBan ++ (bs.map Ban.stored).reverse := by
  have hl : ∀ l ∈ title :: bs.map Ban.line, '\n' ∉ l ∧ CString.nul ∉ l ∧ l.length + 1 < 256 := by
    refine List.forall_mem_cons.mpr ⟨by decide, ?_⟩
    simp only [List.forall_mem_map]
    intro b hb
    have hb := h b hb
    exact ⟨Ban.not_mem_line hb (by decide) (by decide) (by decide),
      Ban.not_mem_line hb (by decide) (by decide) (by decide), Ban.length_line hb⟩
  have hh : parse inet (title ++ ['\n']) = none := rfl
  have ht' : (([tail].filter (· ≠ [])).filterMap (parse inet)).reverse = (parse inet tail).toList := by
    by_cases hn : tail = []
    case pos => subst hn; rfl
    case neg => cases hq : parse inet tail <;> simp [hn, hq]
  have hp := (filterMap_parse h).1
  rw [loadText, CString.fgets_lines_append hl ht, List.filterMap_append, List.map_cons,
    List.filterMap_cons, hh, List.reverse_append, ht', List.map_append, List.map_reverse, List.map_map, ← hp]
  rfl

theorem loadText_print {list : List Ipaddr} (h : ∀ a ∈ list, a.banned → Ipaddr.Valid inet a.text) :
    (loadText inet (print list)).map Ipaddr.toBan =
      (((list.filter (·.banned)).map Ipaddr.toBan).map Ban.stored).reverse := by
  have hv : ∀ b ∈ (list.filter (·.banned)).map Ipaddr.toBan, Ipaddr.Valid inet b.text := by
    simp only [List.forall_mem_map, List.mem_filter]
    exact fun a ⟨ha, hb⟩ => h a ha hb
  have := loadText_lines [] hv (by decide)
  rwa [List.append_nil, ← print_eq] at this

end Statefile
end F2b
