import F2b.Objects.Theorems.Statefile

-- What a load gives after a save.

namespace F2b

-- The system has kept what was printed, but for the last byte perhaps, which is a newline.
def SaveFate.Whole (fate : SaveFate) (text : CString) : Prop :=
  text.length ≤ (fate.keep text).length + 1

instance (fate : SaveFate) (text : CString) : Decidable (fate.Whole text) :=
  inferInstanceAs (Decidable (_ ≤ _))

variable {inet : Inet}

namespace Statefile

theorem parse_word {w : CString} (hs : ∀ c ∈ w, ¬CString.isspace c) (hl : w.length < IPADDR_MAX) :
    parse inet w = none := by
  have hd : w.dropWhile CString.isspace = w := by
    cases w
    case nil      => rfl
    case cons c w => simp [hs c List.mem_cons_self]
  have ht : w.takeWhile (!CString.isspace ·) = w := by
    apply List.takeWhile_eq_self_iff.mpr
    simpa using hs
  have hu : CString.scanU [] = none := rfl
  by_cases hw : w = []
  case pos => subst hw; rfl
  case neg =>
    simp only [parse, CString.scanStr, hd, ht, List.take_of_length_le (Nat.le_of_lt hl), hw, if_false]
    simp [hu]

end Statefile

namespace Ban

variable {b : Ban} {tail q : CString}

-- Of a line that is cut off in its times, a part of the second one is left at most.
theorem parse_cut {n m : Nat} {s : CString} (h : Ipaddr.Valid inet b.text) (hn : n < 2 ^ 64) (hm : m < 2 ^ 64)
    (hs : CString.ofNat n ++ '\t' :: CString.ofNat m = s ++ q) (hq : q ≠ []) :
    ∀ a ∈ Statefile.parse inet (b.text ++ '\t' :: s), ∃ v < m, a.releaseAt = (v % 2 ^ 32 : Nat) := by
  intro a ha
  have hu : CString.scanU [] = none := rfl
  obtain ⟨a', _, hp⟩ := parse_text h s
  rw [hp] at ha
  obtain ⟨t, rfl, ht⟩ | ⟨t, ht, _⟩ := List.append_eq_append_iff.mp hs
  case inr =>
    -- Only a part of the first time is left.
    obtain hc | ⟨_, hc, _⟩ := CString.scanU_cut ht hn (show CString.isspace '\t' by decide)
    all_goals simp [hc, hu] at ha
  case inl =>
    have hn := CString.scanU_ofNat hn (b := '\t') (s := t) (by decide)
    cases t
    case nil      =>
      rw [hn (by simp)] at ha
      simp [hu] at ha
    case cons c t =>
      simp only [List.cons_append, List.cons.injEq] at ht
      obtain ⟨rfl, ht⟩ := ht
      rw [hn (by simp; decide)] at ha
      obtain hc | ⟨v, hc, hv⟩ := CString.scanU_cut ht hm (show CString.isspace '\t' by decide)
      case inl => simp [hc] at ha
      case inr =>
        obtain rfl : _ = a := by simpa [hc] using ha
        exact ⟨v, hv hq, rfl⟩

theorem toBan_ne_of_parse (h : b.Storable inet) (hl : b.line = tail ++ q) (hq : q ≠ []) :
    ∀ a ∈ Statefile.parse inet tail, a.toBan ≠ b := by
  have ⟨n, hn, hb, _⟩ := printLu_eq b.bannedAt
  have ⟨m, hm, hr, hm'⟩ := printLu_eq b.releaseAt
  rw [line, hb, hr] at hl
  intro a ha he
  obtain ⟨s, rfl, hs⟩ | ⟨s, ht, _⟩ := List.append_eq_append_iff.mp hl
  case inr =>
    have hw : ∀ c ∈ tail, ¬CString.isspace c := fun c hc =>
      h.valid.not_isspace c (ht ▸ List.mem_append_left _ hc)
    have hl : tail.length < IPADDR_MAX := by
      have := h.valid.length_lt
      simp only [ht, List.length_append] at this
      omega
    simp [Statefile.parse_word hw hl] at ha
  case inl =>
    cases s
    case nil      => simp [Statefile.parse_word h.valid.not_isspace h.valid.length_lt] at ha
    case cons c s =>
      simp only [List.cons_append, List.cons.injEq] at hs
      obtain ⟨rfl, hs⟩ := hs
      obtain ⟨v, hv, hva⟩ := parse_cut h.valid hn hm hs hq a ha
      have hr : a.releaseAt = b.releaseAt := congrArg Ban.releaseAt he
      obtain ⟨_, _⟩ := h.releaseAt
      omega

end Ban

namespace Statefile

-- The file that a save has left comes back as the bans of the list: each of them once.
structure Restores (list loaded : List Ipaddr) : Prop where
  bans   : (loaded.map Ipaddr.toBan).Perm ((list.filter (·.banned)).map Ipaddr.toBan)
  banned : ∀ a ∈ loaded, a.banned

-- No line of the file is taken for a ban.
def Blank (inet : Inet) (file : Option CString) : Prop :=
  ∀ text ∈ file, ∀ buf ∈ CString.fgets 256 text, parse inet buf = none

-- A save of the list reaches the file as a whole, and its times fit what a load reads.
def Restorable (inet : Inet) (list : List Ipaddr) (fate : SaveFate) (file : Option CString) : Prop :=
  if list = [] then Blank inet file
  else (∀ a ∈ list, a.banned → Fits a.bannedAt ∧ Fits a.releaseAt ∧ fate.Whole (print list))

variable {sf sf' : Statefile} {list : List Ipaddr} {fate : SaveFate} {disk disk' : Disk}

theorem load_eq_nil_iff : sf.load inet disk = [] ↔ Blank inet (disk sf.path) := by
  cases hd : disk sf.path <;> simp [load, loadText, Blank, hd]

theorem save_ok (h : sf.save list fate disk = (true, sf', disk')) :
    sf'.path = sf.path ∧
    ((list = [] ∧ disk' = disk) ∨
      (list ≠ [] ∧ disk' sf.path = some (fate.keep (print list)))) := by
  simp only [save] at h
  split at h
  case isTrue hl =>
    obtain ⟨_, rfl, rfl⟩ : true = true ∧ sf = sf' ∧ disk = disk' := by simpa using h
    exact ⟨rfl, .inl ⟨hl, rfl⟩⟩
  case isFalse hl =>
    split at h
    case isTrue => simp at h
    case isFalse =>
      split at h
      case isTrue => simp at h
      case isFalse =>
        simp only [Prod.mk.injEq, true_and] at h
        obtain ⟨rfl, rfl⟩ := h
        exact ⟨rfl, .inr ⟨hl, by simp⟩⟩

def text (bs : List Ban) : CString :=
  (title :: bs.map Ban.line).flatMap (· ++ ['\n'])

theorem length_text (bs : List Ban) :
    (text bs).length = title.length + 1 + (bs.map (·.line.length + 1)).sum := by
  simp only [text, List.length_flatMap, List.map_cons, List.map_map, List.sum_cons, List.length_append,
    List.length_singleton, Function.comp_def]

theorem text_append (bs₁ bs₂ : List Ban) :
    text (bs₁ ++ bs₂) = text bs₁ ++ bs₂.flatMap (·.line ++ ['\n']) := by
  simp [text, List.flatMap_map]

-- What is kept of the text ends in its first line, or in the line of a ban, if it is not all.
theorem take_text (bs : List Ban) (n : Nat) :
    (text bs).take n = text bs ∨ (text bs).take n <+: title ∨
    ∃ bs₁ b bs₂ tail q, bs = bs₁ ++ b :: bs₂ ∧ b.line = tail ++ q ∧
      (text bs).take n = text bs₁ ++ tail := by
  obtain h | ⟨pre, l, post, tail, he, ⟨q, hq⟩, ht⟩ :=
    CString.take_lines (title :: bs.map Ban.line) n
  case inl => exact .inl (List.take_of_length_le h)
  case inr =>
    cases pre
    case nil          =>
      obtain ⟨rfl, _⟩ := List.cons.inj he
      exact .inr (.inl ⟨q, by rw [text, ht]; exact hq⟩)
    case cons t pre =>
      simp only [List.cons_append, List.cons.injEq] at he
      obtain ⟨rfl, he⟩ := he
      obtain ⟨bs₁, rest, rfl, rfl, hr⟩ := List.map_eq_append_iff.mp he
      obtain ⟨b, bs₂, rfl, rfl, _⟩ := List.map_eq_cons_iff.mp hr
      exact .inr (.inr ⟨bs₁, b, bs₂, tail, q, rfl, hq.symm, ht⟩)

theorem loadText_title {tail : CString} (h : tail <+: title) : loadText inet tail = [] := by
  have hm {c : Char} (hc : c ∉ title) : c ∉ tail := fun ht => hc (h.subset ht)
  have hl : tail.length + 1 < 256 := Nat.lt_of_le_of_lt (Nat.succ_le_succ h.length_le) (by decide)
  have hf := @CString.fgets_lines_append 256 [] tail (by simp) ⟨hm (by decide), hm (by decide), hl⟩
  rw [List.flatMap_nil, List.nil_append, List.map_nil, List.nil_append] at hf
  rw [loadText, hf]
  cases tail
  case nil      => rfl
  case cons c t =>
    obtain ⟨q, hq⟩ := h
    obtain ⟨rfl, _⟩ := List.cons.inj hq
    rfl

variable {bs : List Ban}

theorem loadText_text (h : ∀ b ∈ bs, Ipaddr.Valid inet b.text) :
    (loadText inet (text bs)).map Ipaddr.toBan = (bs.map Ban.stored).reverse := by
  have := loadText_lines [] h (by decide)
  rwa [List.append_nil] at this

theorem loadText_tail {b : Ban} {tail q : CString} (h : ∀ b ∈ bs, Ipaddr.Valid inet b.text)
    (hb : Ipaddr.Valid inet b.text) (hl : b.line = tail ++ q) :
    (loadText inet (text bs ++ tail)).map Ipaddr.toBan =
      (parse inet tail).toList.map Ipaddr.toBan ++ (bs.map Ban.stored).reverse := by
  have hm {c : Char} (hc : c ∉ b.line) : c ∉ tail := fun ht => hc (hl ▸ List.mem_append_left _ ht)
  apply loadText_lines _ h
  refine ⟨hm (Ban.not_mem_line hb (by decide) (by decide) (by decide)),
    hm (Ban.not_mem_line hb (by decide) (by decide) (by decide)), ?_⟩
  have := Ban.length_line hb
  simp only [hl, List.length_append] at this
  omega

theorem map_stored_perm_iff :
    ((bs.map Ban.stored).reverse).Perm bs ↔ ∀ b ∈ bs, Fits b.bannedAt ∧ Fits b.releaseAt := by
  constructor
  case mp =>
    intro hp b hb
    have ⟨_, _, he⟩ := List.mem_map.mp (List.mem_reverse.mp (hp.mem_iff.mpr hb))
    exact he ▸ ⟨fits_stored _, fits_stored _⟩
  case mpr =>
    intro h
    rw [List.map_congr_left fun b hb => Ban.stored_eq_iff.mpr (h b hb), List.map_id']
    exact List.reverse_perm bs

theorem fits_of_perm {tail : CString} {bs' : List Ban}
    (hp : ((parse inet tail).toList.map Ipaddr.toBan ++ (bs.map Ban.stored).reverse).Perm bs') :
    ∀ x ∈ bs', Fits x.bannedAt ∧ Fits x.releaseAt := by
  intro x hx
  obtain hx | hx := List.mem_append.mp (hp.mem_iff.mpr hx)
  case inl =>
    have ⟨a, ha, he⟩ := List.mem_map.mp hx
    have hs := (storable_of_parse (Option.mem_toList.mp ha)).2
    exact he ▸ ⟨hs.bannedAt, hs.releaseAt⟩
  case inr =>
    have ⟨_, _, he⟩ := List.mem_map.mp (List.mem_reverse.mp hx)
    exact he ▸ ⟨fits_stored _, fits_stored _⟩

-- A cut in the line of a ban loses this ban, and those after it.
theorem cut_perm_iff {b : Ban} {bs₂ : List Ban} {tail q : CString}
    (h : ∀ x ∈ bs ++ b :: bs₂, Ipaddr.Valid inet x.text) (hl : b.line = tail ++ q) :
    ((loadText inet (text bs ++ tail)).map Ipaddr.toBan).Perm (bs ++ b :: bs₂) ↔
    bs₂ = [] ∧ q = [] ∧ ∀ x ∈ bs ++ b :: bs₂, Fits x.bannedAt ∧ Fits x.releaseAt := by
  have ⟨hv, hv'⟩ := List.forall_mem_append.mp h
  have hb : Ipaddr.Valid inet b.text := hv' b List.mem_cons_self
  rw [loadText_tail hv hb hl]
  constructor
  case mp =>
    intro hp
    have hf := fits_of_perm hp
    have hs := map_stored_perm_iff.mpr (List.forall_mem_append.mp hf).1
    -- The ban of the cut line is the only one that is left.
    have hp := (List.perm_append_left_iff bs).mp <|
      ((hs.symm.append_right _).trans List.perm_append_comm).trans hp
    have hfb := hf b (by simp)
    cases ha : parse inet tail
    case none   => simp [ha] at hp
    case some a =>
      obtain ⟨rfl, rfl⟩ : a.toBan = b ∧ [] = bs₂ := by simpa [ha] using hp
      refine ⟨rfl, ?_, hf⟩
      by_contra hq
      exact Ban.toBan_ne_of_parse ⟨hb, hfb.1, hfb.2⟩ hl hq a ha rfl
  case mpr =>
    rintro ⟨rfl, rfl, hf⟩
    have ⟨a, ha, hp⟩ := Ban.parse_line hb [] (by simp)
    have he : Ban.mk a.text b.stored.bannedAt b.stored.releaseAt = b.stored := by
      rw [Ipaddr.text_create ha]
      rfl
    have hs := map_stored_perm_iff.mpr (List.forall_mem_append.mp hf).1
    rw [List.append_nil] at hp hl
    rw [← hl, hp, Option.toList_some, List.map_singleton, Ipaddr.toBan, he,
      Ban.stored_eq_iff.mpr (hf b (by simp))]
    exact List.perm_append_comm.trans (hs.append_right _)

-- A load gives back the bans if and only if their times fit, and all but the last newline is kept.
theorem loadText_perm_iff (h : ∀ b ∈ bs, Ipaddr.Valid inet b.text) (n : Nat) :
    ((loadText inet ((text bs).take n)).map Ipaddr.toBan).Perm bs ↔
    ∀ b ∈ bs, Fits b.bannedAt ∧ Fits b.releaseAt ∧ (text bs).length ≤ ((text bs).take n).length + 1 := by
  obtain hk | hk | ⟨bs₁, b, bs₂, tail, q, rfl, hl, hk⟩ := take_text bs n
  case inl     => rw [hk, loadText_text h, map_stored_perm_iff]; simp
  case inr.inl =>
    have := hk.length_le
    cases bs
    case nil       => simp [loadText_title hk]
    case cons b bs =>
      simp only [loadText_title hk, List.map_nil, List.nil_perm, reduceCtorEq, false_iff]
      intro hw
      have := (hw b List.mem_cons_self).2.2
      simp only [length_text, List.map_cons, List.sum_cons] at this
      omega
  case inr.inr =>
    have hw : (text (bs₁ ++ b :: bs₂)).length ≤ (text bs₁ ++ tail).length + 1 ↔ bs₂ = [] ∧ q = [] := by
      rw [text_append, List.flatMap_cons, hl, ← List.length_eq_zero_iff, ← List.length_eq_zero_iff]
      simp only [List.length_append, List.length_flatMap, List.length_singleton]
      cases bs₂
      case nil  => simp only [List.map_nil, List.sum_nil, List.length_nil, true_and]; omega
      case cons => simp only [List.map_cons, List.sum_cons, List.length_cons]; omega
    simp only [hk, hw, cut_perm_iff h hl]
    constructor
    case mp  => exact fun ⟨hn, hq, hf⟩ x hx => ⟨(hf x hx).1, (hf x hx).2, hn, hq⟩
    case mpr =>
      intro hf
      have ⟨_, _, hn, hq⟩ := hf b (by simp)
      exact ⟨hn, hq, fun x hx => ⟨(hf x hx).1, (hf x hx).2.1⟩⟩

-- After a save that has succeeded, a load gives exactly the bans of the list if and only if they fit
-- the file and reach it, or there was nothing in the file if the list is empty.
theorem restored_iff (hv : ∀ a ∈ list, Ipaddr.Valid inet a.text)
    (hs : sf.save list fate disk = (true, sf', disk')) :
    Restores list (sf'.load inet disk') ↔ Restorable inet list fate (disk sf.path) := by
  have ⟨hp, hd⟩ := save_ok hs
  have hr (l : List Ipaddr) : Restores l (sf'.load inet disk') ↔
      ((sf'.load inet disk').map Ipaddr.toBan).Perm ((l.filter (·.banned)).map Ipaddr.toBan) :=
    ⟨(·.bans), fun h => ⟨h, fun _ ha => (storable_of_mem_load ha).1⟩⟩
  rw [hr, Restorable]
  obtain ⟨rfl, rfl⟩ | ⟨hl, hd⟩ := hd
  case inl =>
    rw [if_pos rfl, ← hp, ← load_eq_nil_iff]
    simp
  case inr =>
    let bs := (list.filter (·.banned)).map Ipaddr.toBan
    have hb : ∀ b ∈ bs, Ipaddr.Valid inet b.text := by
      intro b hb
      have ⟨a, ha, he⟩ := List.mem_map.mp hb
      exact he ▸ hv a (List.mem_filter.mp ha).1
    have ht : print list = text bs := print_eq list
    have ⟨n, hk⟩ : ∃ n, fate.keep (text bs) = (text bs).take n := by
      rw [SaveFate.keep]
      cases fate.written
      case none   => exact ⟨(text bs).length, List.take_length.symm⟩
      case some n => exact ⟨n, rfl⟩
    have hi := loadText_perm_iff hb n
    rw [if_neg hl, load, hp, hd, Option.elim_some, ht, hk, hi]
    simp only [bs, List.forall_mem_map, List.mem_filter, and_imp, SaveFate.Whole, hk]
    rfl

section Example

def sshFile : Statefile :=
  ⟨"ssh.state".toList, true⟩

def oldDisk : Disk :=
  Function.update (fun _ => none) "ssh.state".toList (some "192.0.2.7\t1000\t4600\n".toList)

def hosts (bannedAt releaseAt : Int) : List Ipaddr :=
  (Ipaddr.create .quad "198.51.100.1".toList).toList.map ({ · with banned := true, bannedAt, releaseAt }) ++
    (Ipaddr.create .quad "192.0.2.7".toList).toList

theorem restored_hosts :
    (∀ a ∈ hosts 2000 5600, Ipaddr.Valid .quad a.text) ∧
    ∃ disk, sshFile.save (hosts 2000 5600) .complete oldDisk = (true, ⟨"ssh.state".toList, false⟩, disk) ∧
    (Restores (hosts 2000 5600) (load .quad ⟨"ssh.state".toList, false⟩ disk) ↔
      Restorable .quad (hosts 2000 5600) .complete (oldDisk sshFile.path)) := by
  have hv : ∀ a ∈ hosts 2000 5600, Ipaddr.Valid .quad a.text := by decide
  exact ⟨hv, _, rfl, restored_iff hv rfl⟩

-- The save of an empty list leaves the ban in the file, and a release time of more than 32 bits is cut
-- off: the one of a long ban that has been extended as far as it can be.
theorem not_restored :
    (sshFile.save [] .complete oldDisk).1 = true ∧
    ¬Restores [] ((sshFile.save [] .complete oldDisk).2.1.load .quad (sshFile.save [] .complete oldDisk).2.2) ∧
    (sshFile.save (hosts 1700000000 5994967294) .complete oldDisk).1 = true ∧
    ¬Restores (hosts 1700000000 5994967294)
      ((sshFile.save (hosts 1700000000 5994967294) .complete oldDisk).2.1.load .quad
        (sshFile.save (hosts 1700000000 5994967294) .complete oldDisk).2.2) := by
  refine ⟨rfl, fun h => ?_, rfl, fun h => ?_⟩
  case refine_1 => exact absurd h.bans (by decide)
  case refine_2 => exact absurd h.bans (by decide)

end Example
end Statefile
end F2b
