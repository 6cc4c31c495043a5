import F2b.Objects.ParamBuffer
import F2b.Objects.Theorems.Params

-- The positions of its buffer that `f2b_config_param_create` reads and writes.

namespace F2b.Config

open CString

def Holds (b : Buffer) (pre s : CString) : Prop :=
  nul ∉ s ∧ ∃ tail, b.bytes = pre ++ s ++ nul :: tail

section Holds

variable {b : Buffer} {pre s pat : CString}

theorem Holds.drop (h : Holds b pre s) : ∃ tail, b.bytes.drop pre.length = s ++ nul :: tail := by
  have ⟨_, tail, hb⟩ := h
  exact ⟨tail, by rw [hb, List.append_assoc, List.drop_left]⟩

theorem Holds.mem (h : Holds b pre s) {n : Nat} (hn : n ≤ pre.length) : nul ∈ b.bytes.drop n := by
  have ⟨_, tail, hb⟩ := h
  rw [hb, List.append_assoc, List.drop_append_of_le_length hn]
  simp

theorem Holds.ofBuffer_drop (h : Holds b pre s) {n : Nat} (hn : n ≤ (pre ++ s).length) :
    ofBuffer (b.bytes.drop n) = ofBuffer ((pre ++ s).drop n) := by
  have ⟨_, tail, hb⟩ := h
  rw [hb, List.drop_append_of_le_length hn, ofBuffer_append_nul]

theorem Holds.length_lt (h : Holds b pre s) : pre.length + s.length < b.bytes.length := by
  have ⟨_, tail, hb⟩ := h
  rw [hb]
  simp only [List.length_append, List.length_cons]
  omega

theorem Holds.write (h : Holds b pre s) {t : CString} (ht : t <+: s) {p : Int}
    (hp : p = (pre.length + t.length : Nat)) :
    Holds (b.write p nul) pre t := by
  have ⟨h0, tail, hb⟩ := h
  obtain ⟨w, rfl⟩ := ht
  refine ⟨fun hm => h0 (List.mem_append_left _ hm), ?_⟩
  have ⟨x, y, hx⟩ : ∃ x y, w ++ nul :: tail = x :: y := by
    cases w
    case nil      => exact ⟨_, _, rfl⟩
    case cons c w => exact ⟨_, _, rfl⟩
  have hs : pre ++ (t ++ w) ++ nul :: tail = (pre ++ t) ++ x :: y := by rw [← hx]; simp
  refine ⟨y, ?_⟩
  rw [Buffer.write_bytes hp, hb, hs, ← List.length_append, List.set_append_right _ _ (Nat.le_refl _), Nat.sub_self,
    List.set_cons_zero]

theorem Holds.write_nil (h : Holds b pre []) : Holds (b.write (pre.length + 1) nul) pre [] := by
  have ⟨h0, tail, hb⟩ := h
  refine ⟨h0, tail.set 0 nul, ?_⟩
  rw [Buffer.write_bytes (show (pre.length : Int) + 1 = (pre.length + 1 : Nat) from rfl), hb, List.append_nil,
    List.set_append_right _ _ (Nat.le_succ _), show pre.length + 1 - pre.length = 1 by omega]
  rfl

theorem cut_eq (hn : pat ≠ []) (s : CString) : cut pat s = (strstr pat s).elim s s.take := by
  induction s
  case nil         => simp [cut, strstr, hn]
  case cons c s hi =>
    rw [cut, strstr]
    split
    case isTrue  => rfl
    case isFalse => rw [hi]; cases strstr pat s <;> rfl

theorem Holds.cutAt (h : Holds b pre s) (hp : nul ∉ pat) (hn : pat ≠ []) (hr : b.InRange) :
    Holds (Config.cutAt pre.length b pat) pre (cut pat s) ∧ (Config.cutAt pre.length b pat).InRange ∧
    (Config.cutAt pre.length b pat).bytes.length = b.bytes.length := by
  have ⟨tail, hd⟩ := h.drop
  have hi : Inside pre.length (b.bytes.drop pre.length) (findStr pat (b.bytes.drop pre.length) pre.length).2 :=
    findStr_inside hp (h.mem (Nat.le_refl _)) _
  have hl := h.length_lt
  have hr' : (b.scan (findStr pat) pre.length).2.InRange := hr.scan rfl (by omega) hi
  have hs : b.scan (findStr pat) pre.length =
      ((strstr pat s).map fun i : Nat => (pre.length : Int) + i, (b.scan (findStr pat) pre.length).2) := by
    refine Prod.ext ?_ rfl
    rw [Buffer.scan, Int.toNat_natCast, hd]
    exact findStr_eq hp hn h.1 tail pre.length
  rw [Config.cutAt, hs, cut_eq hn]
  cases hf : strstr pat s
  case none   => exact ⟨h, hr', rfl⟩
  case some i =>
    have hlt := length_le_of_strstr hf
    have ht : s.take i <+: s := List.take_prefix ..
    refine ⟨Holds.write (b := (b.scan (findStr pat) pre.length).2) h ht ?_, ?_, by simp⟩
    case refine_1 => simp [hlt]
    case refine_2 => exact Buffer.inRange_write_iff.mpr ⟨hr', by simp; omega, by simp; omega⟩

theorem Holds.cuts (h : Holds b pre s) (hr : b.InRange) {pats : List CString}
    (hp : ∀ pat ∈ pats, nul ∉ pat ∧ pat ≠ []) :
    Holds (pats.foldl (Config.cutAt pre.length) b) pre (pats.foldl (fun s pat => cut pat s) s) ∧
    (pats.foldl (Config.cutAt pre.length) b).InRange ∧
    (pats.foldl (Config.cutAt pre.length) b).bytes.length = b.bytes.length := by
  induction pats generalizing b s
  case nil            => exact ⟨h, hr, rfl⟩
  case cons pat ps hi =>
    have ⟨hc, hp⟩ := List.forall_mem_cons.mp hp
    have ⟨h₁, h₂, h₃⟩ := h.cutAt hc.1 hc.2 hr
    have ⟨h₁, h₂, h₄⟩ := hi h₁ h₂ hp
    exact ⟨h₁, h₂, h₄.trans h₃⟩

theorem Holds.scan_text (h : Holds b pre s) (hr : b.InRange) :
    ∃ b₁, b.scan text pre.length = (s, b₁) ∧ b₁.bytes = b.bytes ∧ b₁.InRange := by
  have ⟨tail, hd⟩ := h.drop
  have hl := h.length_lt
  have hi : Inside pre.length (b.bytes.drop pre.length) (text (b.bytes.drop pre.length) pre.length).2 :=
    text_inside (h.mem (Nat.le_refl _)) _
  refine ⟨(b.scan text pre.length).2, Prod.ext ?_ rfl, rfl, hr.scan rfl (by omega) hi⟩
  rw [Buffer.scan, Int.toNat_natCast, text_eq, hd, ofBuffer_append_nul, ofBuffer_eq_self h.1]

theorem Holds.of_bytes {b₁ : Buffer} (h : Holds b pre s) (hb : b₁.bytes = b.bytes) : Holds b₁ pre s := by
  rwa [Holds, hb]

-- The last write is out of range only for an empty value right before the end of the buffer.
theorem Holds.stripValue (h : Holds b pre s) (hr : b.InRange) :
    Holds (Config.stripValue b pre.length) pre (stripSpaces s) ∧
    (Config.stripValue b pre.length).bytes.length = b.bytes.length ∧
    ((Config.stripValue b pre.length).InRange ↔ s ≠ [] ∨ pre.length + 1 < b.bytes.length) := by
  have hl := h.length_lt
  obtain ⟨b₁, hs, hb, hr⟩ := h.scan_text hr
  have hk := h.of_bytes hb
  rw [Config.stripValue, hs]
  cases s
  case nil      =>
    have hq : (b₁.back isspace pre.length pre.length) = (↑pre.length, b₁) := by simp [Buffer.back, Buffer.backLoop]
    simp only [List.length_nil, Nat.cast_zero, Int.add_zero, gt_iff_lt, Int.lt_irrefl, if_false, hq]
    refine ⟨hk.write_nil, by rw [Buffer.length_write, hb], ?_⟩
    rw [Buffer.inRange_write_iff, hb]
    simp only [hr, ne_eq, not_true_eq_false, false_or, true_and]
    omega
  case cons c s =>
    obtain ⟨tail, ht⟩ := hk.2
    have hu : b₁.bytes = (pre ++ [c]) ++ s ++ (nul :: tail) := by rw [ht]; simp
    have hq := Buffer.back_eq isspace pre.length (pre.length + (c :: s).length - 1) hu
      (by simp) (by simp only [List.length_cons, List.length_append, List.length_nil]; omega)
    have hp : (pre.length : Int) + (c :: s).length > pre.length := by rw [List.length_cons]; omega
    have hlen : (pre ++ [c]).length + (s.rdropWhile isspace).length = pre.length + (stripSpaces (c :: s)).length := by
      simp only [stripSpaces, List.length_append, List.length_cons, List.length_nil]
      omega
    have hle : (stripSpaces (c :: s)).length ≤ (c :: s).length := (stripSpaces_prefix_self _).length_le
    have hrb : (b₁.back isspace pre.length (pre.length + (c :: s).length - 1)).2.InRange :=
      hr.back isspace (by omega) (by rw [hb]; omega)
    simp only [if_pos hp]
    refine ⟨Holds.write (b := (b₁.back isspace pre.length (pre.length + (c :: s).length - 1)).2) hk
      (stripSpaces_prefix_self _) (by rw [hq, hlen]), by rw [Buffer.length_write, Buffer.back_bytes, hb], ?_⟩
    rw [Buffer.inRange_write_iff, hq, hlen, Buffer.back_bytes, hb]
    refine iff_of_true ⟨hrb, by omega, by omega⟩ (.inl (by simp))

end Holds

section Steps

variable {b : Buffer} {head rest pre s tail : CString} {n : Nat}

theorem rdropWhile_cons (q : Char → Bool) (c : Char) (s : CString) :
    max ((c :: s).rdropWhile q).length 1 = 1 + (s.rdropWhile q).length := by
  induction s using List.reverseRecOn
  case nil              => cases hc : q c <;> simp [List.rdropWhile_singleton, hc]
  case append_singleton s d hi =>
    rw [← List.cons_append, List.rdropWhile_concat, List.rdropWhile_concat]
    split
    case isTrue  => exact hi
    case isFalse => simp; omega

theorem stripKey_spec (hb : b.bytes = head ++ '=' :: tail) (hr : b.InRange) :
    (stripKey b head.length).bytes =
      (head ++ '=' :: tail).set (max (head.rdropWhile isblank).length (min 1 head.length)) nul ∧
    (stripKey b head.length).InRange := by
  have hl : head.length + 1 ≤ b.bytes.length := by
    rw [hb, List.length_append, List.length_cons]
    omega
  have hq : (b.back isblank 0 (head.length - 1)).1 + 1 =
      (max (head.rdropWhile isblank).length (min 1 head.length) : Nat) := by
    cases head
    case nil      => simp [Buffer.back, Buffer.backLoop]
    case cons c s =>
      have hu : b.bytes = [c] ++ s ++ '=' :: tail := by rw [hb]; rfl
      have := Buffer.back_eq isblank 0 ((c :: s).length - 1) hu (by simp) (by simp; omega)
      rw [this]
      have := rdropWhile_cons isblank c s
      simp only [List.length_cons, List.length_nil] at this ⊢
      omega
  have hrb : (b.back isblank 0 (head.length - 1)).2.InRange := hr.back isblank (Int.le_refl 0) (by omega)
  have hle : (head.rdropWhile isblank).length ≤ head.length := (List.rdropWhile_prefix ..).length_le
  have he : stripKey b head.length =
      (b.back isblank 0 (head.length - 1)).2.write ((b.back isblank 0 (head.length - 1)).1 + 1) nul := rfl
  rw [he]
  constructor
  case left  => rw [Buffer.write_bytes hq, Buffer.back_bytes, hb]
  case right =>
    rw [Buffer.inRange_write_iff, hq, Buffer.back_bytes]
    exact ⟨hrb, by omega, by omega⟩

theorem makeParam_spec (hs : Holds b pre s) (hn : n ≤ pre.length) :
    (makeParam b n pre.length).1 =
      (if (ofBuffer (b.bytes.drop n)).length < 1 ∨ (ofBuffer (b.bytes.drop n)).length ≥ CONFIG_KEY_MAX then none
      else if s.length < 1 ∨ s.length ≥ CONFIG_VAL_MAX then none
      else some ⟨ofBuffer (b.bytes.drop n), s⟩) ∧
    ((makeParam b n pre.length).2.InRange ↔ b.InRange) := by
  have ⟨tail, hd⟩ := hs.drop
  have hk : (b.scan text n).1 = ofBuffer (b.bytes.drop n) := text_eq ..
  have hv : ((b.scan text n).2.scan text pre.length).1 = s := by
    rw [Buffer.scan, text_eq, Int.toNat_natCast, Buffer.scan_bytes, hd, ofBuffer_append_nul, ofBuffer_eq_self hs.1]
  have hr₁ := Buffer.inRange_text_iff (hs.mem hn)
  have hr₂ : ((b.scan text n).2.scan text pre.length).2.InRange ↔ _ :=
    Buffer.inRange_text_iff (b := (b.scan text n).2) (hs.mem (Nat.le_refl _))
  have he : makeParam b n pre.length =
      if (b.scan text n).1.length < 1 ∨ (b.scan text n).1.length ≥ CONFIG_KEY_MAX then (none, (b.scan text n).2)
      else if ((b.scan text n).2.scan text pre.length).1.length < 1 ∨
          ((b.scan text n).2.scan text pre.length).1.length ≥ CONFIG_VAL_MAX then
        (none, ((b.scan text n).2.scan text pre.length).2)
      else (some ⟨(b.scan text n).1, ((b.scan text n).2.scan text pre.length).1⟩,
        ((b.scan text n).2.scan text pre.length).2) := rfl
  rw [he, hv, hk]
  by_cases hkey : (ofBuffer (b.bytes.drop n)).length < 1 ∨ (ofBuffer (b.bytes.drop n)).length ≥ CONFIG_KEY_MAX
  case pos =>
    rw [if_pos hkey, if_pos hkey]
    exact ⟨rfl, hr₁⟩
  case neg =>
    rw [if_neg hkey, if_neg hkey]
    by_cases hval : s.length < 1 ∨ s.length ≥ CONFIG_VAL_MAX
    case pos =>
      rw [if_pos hval, if_pos hval]
      exact ⟨rfl, hr₂.trans hr₁⟩
    case neg =>
      rw [if_neg hval, if_neg hval]
      exact ⟨rfl, hr₂.trans hr₁⟩

theorem exists_tail (src : CString) :
    ∃ tail, (lineBuffer src).bytes = src.strlcpy CONFIG_LINE_MAX ++ nul :: tail ∧
      (lineBuffer src).bytes.length = CONFIG_LINE_MAX := by
  have hl := length_strlcpy_lt src (show 0 < CONFIG_LINE_MAX by decide)
  have ⟨k, hk⟩ := Nat.exists_eq_add_of_lt hl
  refine ⟨List.replicate k nul, ?_, ?_⟩
  case refine_1 =>
    rw [lineBuffer, show CONFIG_LINE_MAX - (src.strlcpy CONFIG_LINE_MAX).length = k + 1 by omega, List.replicate_succ]
  case refine_2 =>
    rw [lineBuffer, List.length_append, List.length_replicate]
    omega

theorem takeWhile_append_nul (s tail : CString) : (s ++ nul :: tail).takeWhile isblank = s.takeWhile isblank := by
  induction s
  case nil         => rfl
  case cons c s hi => cases hc : isblank c <;> simp [hc, hi]

theorem scan_blanks (hb : b.bytes = pre ++ s ++ nul :: tail) (hr : b.InRange) :
    ∃ b₁, b.scan (skip isblank) pre.length = (((pre ++ s.takeWhile isblank).length : Int), b₁) ∧
      b₁.bytes = b.bytes ∧ b₁.InRange := by
  have hd : b.bytes.drop pre.length = s ++ nul :: tail := by rw [hb, List.append_assoc, List.drop_left]
  have hm : nul ∈ b.bytes.drop pre.length := by rw [hd]; simp
  have hl : pre.length ≤ b.bytes.length := by
    rw [hb, List.append_assoc, List.length_append]
    omega
  refine ⟨_, Prod.ext ?_ rfl, rfl, hr.scan rfl hl (skip_inside (by decide) hm _)⟩
  have := skip_eq hm (show ¬isblank nul by decide) pre.length
  rw [hd, takeWhile_append_nul] at this
  rw [Buffer.scan, Int.toNat_natCast, hd, this, List.length_append, Nat.cast_add]

theorem scan_start {src : CString} (hb : (lineBuffer src).bytes = s ++ nul :: tail) :
    ∃ b, (lineBuffer src).scan (skip isblank) 0 = (((s.takeWhile isblank).length : Int), b) ∧
      b.bytes = (lineBuffer src).bytes ∧ b.InRange :=
  scan_blanks (show (lineBuffer src).bytes = [] ++ s ++ nul :: tail from hb) (List.forall_mem_nil _)

theorem paramCreateAt_none {src : CString} (h : '=' ∉ src.strlcpy CONFIG_LINE_MAX) :
    (paramCreateAt src).1 = none ∧ (paramCreateAt src).2.InRange := by
  have ⟨tail, hb, hl⟩ := exists_tail src
  obtain ⟨b, hs, hbb, hr⟩ := scan_start hb
  rw [paramCreateAt, hs]
  generalize hline : src.strlcpy CONFIG_LINE_MAX = line at *
  have hk : (line.takeWhile isblank).length ≤ line.length := (List.takeWhile_sublist _).length_le
  have hd : b.bytes.drop (line.takeWhile isblank).length =
      line.drop (line.takeWhile isblank).length ++ nul :: tail := by
    rw [hbb, hb, List.drop_append_of_le_length hk]
  have hf : b.scan (findChar '=') (line.takeWhile isblank).length =
      (none, (b.scan (findChar '=') (line.takeWhile isblank).length).2) := by
    refine Prod.ext ?_ rfl
    rw [Buffer.scan, Int.toNat_natCast, hd]
    exact findChar_eq_none (fun hm => h ((List.drop_sublist ..).subset hm)) (by decide) _ _
  have hm : nul ∈ b.bytes.drop (line.takeWhile isblank).length := by rw [hd]; simp
  simp only []
  rw [hf]
  refine ⟨rfl, hr.scan rfl ?_ (findChar_inside '=' hm _)⟩
  rw [hbb, hb, List.length_append]
  omega

def markers : List CString :=
  [" #".toList, "\t#".toList, " ;".toList, "\t;".toList]

def signed (head : CString) : CString :=
  (head ++ ['=']).set (max (head.rdropWhile isblank).length (min 1 head.length)) nul

theorem length_signed (head : CString) : (signed head).length = head.length + 1 := by simp [signed]

theorem set_eq_signed (head s : CString) :
    (head ++ '=' :: s).set (max (head.rdropWhile isblank).length (min 1 head.length)) nul = signed head ++ s := by
  have hle : (head.rdropWhile isblank).length ≤ head.length := (List.rdropWhile_prefix ..).length_le
  have hs : head ++ '=' :: s = (head ++ ['=']) ++ s := by simp
  rw [hs, signed, List.set_append_left]
  simp only [List.length_append, List.length_cons, List.length_nil]
  omega

theorem scan_sign (hb : b.bytes = head ++ '=' :: s ++ nul :: tail) (h0 : nul ∉ head) (hn : '=' ∉ head)
    (hk : n ≤ head.length) (hr : b.InRange) :
    ∃ b₁, b.scan (findChar '=') n = (some (head.length : Int), b₁) ∧ b₁.bytes = b.bytes ∧ b₁.InRange := by
  have hd : b.bytes.drop n = head.drop n ++ '=' :: (s ++ nul :: tail) := by
    rw [hb, List.append_assoc, List.drop_append_of_le_length hk]
    rfl
  have hm : nul ∈ b.bytes.drop n := by rw [hd]; simp
  have hs : ∀ c, c ∉ head → c ∉ head.drop n := fun c hc h => hc ((List.drop_sublist ..).subset h)
  have hl : n ≤ b.bytes.length := by
    rw [hb, List.append_assoc, List.length_append]
    omega
  refine ⟨_, Prod.ext ?_ rfl, rfl, hr.scan rfl hl (findChar_inside '=' hm _)⟩
  have := findChar_eq_some (hs _ hn) (hs _ h0) (s ++ nul :: tail) n
  rw [Buffer.scan, Int.toNat_natCast, hd, this, List.length_drop]
  congr 1
  omega

theorem length_blanks_le (head rest : CString) :
    ((head ++ '=' :: rest).takeWhile isblank).length ≤ head.length := by
  rw [List.takeWhile_append]
  split
  case isFalse => exact (List.takeWhile_sublist _).length_le
  case isTrue  => simp [show isblank '=' = false by decide]

theorem paramCreateAt_eq {src : CString} (h0 : nul ∉ head ++ '=' :: rest) (hn : '=' ∉ head)
    (h : src.strlcpy CONFIG_LINE_MAX = head ++ '=' :: rest) :
    ∃ (b : Buffer) (tail : CString), b.bytes = signed head ++ rest ++ nul :: tail ∧ b.InRange ∧
      b.bytes.length = CONFIG_LINE_MAX ∧
      paramCreateAt src =
        let (value, b) := b.scan (skip isblank) (head.length + 1)
        makeParam (stripValue (markers.foldl (cutAt value) b) value)
          ((head ++ '=' :: rest).takeWhile isblank).length value := by
  have ⟨tail, hb, hl⟩ := exists_tail src
  rw [h] at hb
  obtain ⟨b₁, hs₁, hb₁, hr₁⟩ := scan_start hb
  obtain ⟨b₂, hs₂, hb₂, hr₂⟩ := scan_sign (hb₁.trans hb) (fun hm => h0 (List.mem_append_left _ hm)) hn
    (length_blanks_le head rest) hr₁
  have hb₂ : b₂.bytes = head ++ '=' :: (rest ++ nul :: tail) := by rw [hb₂, hb₁, hb, List.append_assoc]; rfl
  have ⟨hb₃, hr₃⟩ := stripKey_spec hb₂ hr₂
  rw [set_eq_signed, ← List.append_assoc] at hb₃
  refine ⟨stripKey b₂ head.length, tail, hb₃, hr₃, ?_, ?_⟩
  case refine_1 =>
    rw [hb₃, ← hl, hb]
    simp only [List.length_append, List.length_cons, length_signed]
    omega
  case refine_2 =>
    rw [paramCreateAt, hs₁]
    simp only [hs₂, markers]

theorem scan_value (hb : b.bytes = signed head ++ rest ++ nul :: tail) (h0 : nul ∉ rest) (hr : b.InRange)
    (hp : signed head ++ rest.takeWhile isblank = pre) :
    ∃ b₁, b.scan (skip isblank) (head.length + 1) = (↑pre.length, b₁) ∧ Holds b₁ pre (rest.dropWhile isblank) ∧
      b₁.bytes.length = b.bytes.length ∧ b₁.InRange := by
  obtain ⟨b₁, hs, hb₁, hr₁⟩ := scan_blanks hb hr
  rw [length_signed, Nat.cast_add, Nat.cast_one, hp] at hs
  refine ⟨b₁, hs, ⟨fun hm => h0 ((List.dropWhile_sublist _).subset hm), tail, ?_⟩, by rw [hb₁], hr₁⟩
  rw [hb₁, hb, ← hp, List.append_assoc _ (rest.takeWhile isblank), List.takeWhile_append_dropWhile]

-- Without its comment and the spaces at its end, it is the value of the other model.
theorem Holds.value (h : Holds b pre (rest.dropWhile isblank)) (hr : b.InRange) :
    Holds (Config.stripValue (markers.foldl (Config.cutAt pre.length) b) pre.length) pre (valueIn rest) ∧
    ((Config.stripValue (markers.foldl (Config.cutAt pre.length) b) pre.length).InRange ↔
      ¬rest.all isblank ∨ pre.length + 1 < b.bytes.length) := by
  have ⟨hc, hrc, hl⟩ := h.cuts hr (show ∀ pat ∈ markers, nul ∉ pat ∧ pat ≠ [] by decide)
  have ⟨hv, _, hrv⟩ := hc.stripValue hrc
  refine ⟨valueIn_eq rest ▸ hv, ?_⟩
  have hs : stripComment (rest.dropWhile isblank) = [] ↔ rest.all isblank := by
    rw [← valueIn_eq_nil_iff, ← valueIn_eq, stripSpaces_eq_nil_iff]
  rw [hrv, hl]
  exact or_congr_left (not_congr hs)

theorem paramCreateAt_some {src : CString} (h0 : nul ∉ src) (hn : '=' ∉ head)
    (h : src.strlcpy CONFIG_LINE_MAX = head ++ '=' :: rest) :
    (paramCreateAt src).1 = paramOf (head ++ '=' :: rest) ∧
    ((paramCreateAt src).2.InRange ↔
      ¬rest.all isblank ∨ head.length + 1 + rest.length + 1 < CONFIG_LINE_MAX) := by
  have hz : nul ∉ head ++ '=' :: rest := h ▸ fun hm => h0 ((List.take_sublist ..).subset hm)
  have hzr : nul ∉ rest := fun hm => hz (List.mem_append_right _ (List.mem_cons_of_mem _ hm))
  obtain ⟨b, tail, hb, hr, hl, he⟩ := paramCreateAt_eq hz hn h
  generalize hp : signed head ++ rest.takeWhile isblank = pre
  obtain ⟨b₁, hs, hh, hl₁, hr₁⟩ := scan_value hb hzr hr hp
  have ⟨hv, hrv⟩ := hh.value hr₁
  have hpl : pre.length = head.length + 1 + (rest.takeWhile isblank).length := by
    rw [← hp, List.length_append, length_signed]
  have hk := length_blanks_le head rest
  have hk : ((head ++ '=' :: rest).takeWhile isblank).length ≤ pre.length := by omega
  have ⟨hm, hrm⟩ := makeParam_spec hv hk
  rw [hs] at he
  rw [he]
  constructor
  case left  =>
    have hkey : keyBuffer head rest = pre ++ valueIn rest := by
      rw [keyBuffer, set_eq_signed, ← List.append_assoc, hp]
    have ho := hv.ofBuffer_drop (hk.trans (by rw [List.length_append]; omega))
    rw [← hkey] at ho
    rw [paramOf_split hn, ← ho]
    exact hm
  case right =>
    refine (hrm.trans hrv).trans ?_
    rw [hl₁, hl, hpl]
    by_cases hall : rest.all isblank
    case neg => simp [hall]
    case pos => rw [List.takeWhile_eq_self_iff.mpr (List.all_eq_true.mp hall)]

end Steps

section Positions

variable {src : CString}

-- The line fills the buffer, and behind its first sign there are only blanks.
def FillsWithBlanks (src : CString) : Prop :=
  CONFIG_LINE_MAX ≤ src.length + 1 ∧
  ∃ head rest, src.strlcpy CONFIG_LINE_MAX = head ++ '=' :: rest ∧ '=' ∉ head ∧ rest.all isblank

theorem length_stripKey (b : Buffer) (value : Int) : (stripKey b value).bytes.length = b.bytes.length :=
  Buffer.length_write ..

theorem length_cutAt (value : Int) (b : Buffer) (pat : CString) :
    (cutAt value b pat).bytes.length = b.bytes.length := by
  rw [cutAt]
  split
  case h_1 h => rw [Buffer.bytes_of_scan h]
  case h_2 h => rw [Buffer.length_write, Buffer.bytes_of_scan h]

theorem length_cuts (value : Int) (pats : List CString) (b : Buffer) :
    (pats.foldl (cutAt value) b).bytes.length = b.bytes.length := by
  induction pats generalizing b
  case nil            => rfl
  case cons pat ps hi => exact (hi _).trans (length_cutAt value b pat)

theorem length_stripValue (b : Buffer) (value : Int) : (stripValue b value).bytes.length = b.bytes.length :=
  Buffer.length_write ..

theorem makeParam_bytes (b : Buffer) (key value : Int) : (makeParam b key value).2.bytes = b.bytes := by
  simp only [makeParam]
  split_ifs <;> rfl

theorem length_paramCreateAt (src : CString) : (paramCreateAt src).2.bytes.length = CONFIG_LINE_MAX := by
  have ⟨_, _, hl⟩ := exists_tail src
  simp only [paramCreateAt]
  split
  case h_1 h => rw [Buffer.bytes_of_scan h, Buffer.scan_bytes, hl]
  case h_2 h =>
    rw [makeParam_bytes, length_stripValue, length_cuts, Buffer.scan_bytes, length_stripKey, Buffer.bytes_of_scan h,
      Buffer.scan_bytes, hl]

theorem paramCreateAt_spec (h0 : nul ∉ src) :
    (paramCreateAt src).1 = paramCreate src ∧ ((paramCreateAt src).2.InRange ↔ ¬FillsWithBlanks src) := by
  by_cases h : '=' ∈ src.strlcpy CONFIG_LINE_MAX
  case neg =>
    obtain ⟨hs, hr⟩ := paramCreateAt_none h
    have hc : strchr (src.strlcpy CONFIG_LINE_MAX) '=' = none := strchr_eq_none_iff.mpr h
    refine ⟨by rw [hs, paramCreate, paramOf, hc], iff_of_true hr ?_⟩
    rintro ⟨_, head, rest, he, _⟩
    exact h (he ▸ List.mem_append_right _ List.mem_cons_self)
  case pos =>
    obtain ⟨head, rest, he, hn⟩ := List.eq_append_cons_of_mem h
    obtain ⟨hs, hr⟩ := paramCreateAt_some h0 hn he
    refine ⟨by rw [hs, paramCreate, he], hr.trans ?_⟩
    have hl : head.length + 1 + rest.length = min (CONFIG_LINE_MAX - 1) src.length := by
      have := congrArg List.length he
      rw [strlcpy, List.length_take, List.length_append, List.length_cons] at this
      omega
    constructor
    case mp  =>
      rintro hr ⟨hf, head', rest', he', hn', hall⟩
      have hs  : strchr (src.strlcpy CONFIG_LINE_MAX) '=' = some head.length :=
        strchr_eq_some_iff.mpr ⟨head, rest, he, hn, rfl⟩
      have hs' : strchr (src.strlcpy CONFIG_LINE_MAX) '=' = some head'.length :=
        strchr_eq_some_iff.mpr ⟨head', rest', he', hn', rfl⟩
      have ht := List.append_inj_right (he.symm.trans he') (Option.some.inj (hs.symm.trans hs'))
      obtain rfl := (List.cons.inj ht).2
      obtain hr | hr := hr
      case inl => exact hr hall
      case inr => omega
    case mpr =>
      intro hf
      by_contra hr
      simp only [not_or, not_not] at hr
      exact hf ⟨by omega, head, rest, he, hn, hr.1⟩

-- The code stays in its buffer on all lines but those.
theorem positions_iff (h0 : nul ∉ src) :
    (∀ p ∈ (paramCreateAt src).2.log, 0 ≤ p ∧ p < CONFIG_LINE_MAX) ↔ ¬FillsWithBlanks src := by
  rw [← length_paramCreateAt src]
  exact (paramCreateAt_spec h0).2

theorem positions_iff_option :
    (∀ p ∈ (paramCreateAt "key = value # text".toList).2.log, 0 ≤ p ∧ p < CONFIG_LINE_MAX) ↔
      ¬FillsWithBlanks "key = value # text".toList :=
  positions_iff (by decide)

-- A key of one byte and 253 blanks behind the sign.
theorem not_always_positions :
    ¬∀ src : CString, nul ∉ src → ∀ p ∈ (paramCreateAt src).2.log, 0 ≤ p ∧ p < CONFIG_LINE_MAX := by
  intro h
  have := h ("a=".toList ++ List.replicate 253 ' ') (by decide +kernel) 256 (by decide +kernel)
  exact absurd this.2 (by decide)

end Positions
end F2b.Config
