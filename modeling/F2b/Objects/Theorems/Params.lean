import F2b.Lib.Trim
import F2b.Objects.ConfigFile

-- What lines are options, and of which keys and values.

namespace F2b.Config

open CString Trim

section Definitions

-- A text up to its first comment marker, a blank with a sign behind it.
def cutComment : CString → CString
  | []     => []
  | c :: s =>
    if isblank c ∧ (s.head? = some '#' ∨ s.head? = some ';') then [] else c :: cutComment s

-- The key and the value on a line, if there are both and they are not too long.
def optionOf (line : CString) : Option Param :=
  match line.strchr '=' with
  | none    => none
  | some eq =>
    let key   := trim isblank isblank (line.take eq)
    let value := trim isspace isspace (cutComment (line.drop (eq + 1)))
    if 1 ≤ key.length ∧ key.length < CONFIG_KEY_MAX ∧ 1 ≤ value.length ∧ value.length < CONFIG_VAL_MAX then
      some ⟨key, value⟩
    else
      none

def valueIn (rest : CString) : CString :=
  stripSpaces (cutComment (rest.dropWhile isblank))

-- The value stands right behind the blanks after the sign, and it ends in the buffer.
def Within (line value : CString) : Prop :=
  ∃ eq, line.strchr '=' = some eq ∧
    value <+: (line.drop (eq + 1)).dropWhile isblank ∧
    eq + 1 + ((line.drop (eq + 1)).takeWhile isblank).length + value.length < CONFIG_LINE_MAX

-- The buffer has nothing behind the sign, no key and at most one blank before it, or too long a key or value.
-- If there are more blanks and no key, the sign and what follows it count as the key.
def Refused (buf : CString) : Prop :=
  ∀ eq, buf.strchr '=' = some eq →
    let key  := trim isblank isblank (buf.take eq)
    let rest := buf.drop (eq + 1)
    rest.all isblank ∨
    if key = [] then eq < 2 ∨ CONFIG_KEY_MAX ≤ 1 + (rest.takeWhile isblank).length + (valueIn rest).length
    else CONFIG_KEY_MAX ≤ key.length ∨ CONFIG_VAL_MAX ≤ (valueIn rest).length

end Definitions

section Spaces

variable {s t w : CString}

theorem stripSpaces_prefix_self (s : CString) : stripSpaces s <+: s := by
  cases s
  case nil      => exact List.prefix_refl _
  case cons c s => exact (List.prefix_cons_inj c).mpr (List.rdropWhile_prefix ..)

theorem stripSpaces_append (hn : t ≠ []) (hl : ¬isspace (t.getLast hn)) (hw : ∀ c ∈ w, isspace c) :
    stripSpaces (t ++ w) = t := by
  obtain ⟨a, s, rfl⟩ := List.exists_cons_of_ne_nil hn
  rw [List.cons_append, stripSpaces, rdropWhile_append hw]
  refine congrArg (a :: ·) (List.rdropWhile_eq_self_iff.mpr fun hs => ?_)
  rwa [List.getLast_cons hs] at hl

theorem stripSpaces_eq_nil_iff : stripSpaces s = [] ↔ s = [] := by
  cases s <;> simp [stripSpaces]

end Spaces

section Comments

variable {x y m c : Char} {s : CString}

theorem cut_pair (x y c : Char) (s : CString) :
    cut [x, y] (c :: s) = if c = x ∧ s.head? = some y then [] else c :: cut [x, y] s := by
  have hp : [x, y].isPrefixOf (c :: s) = true ↔ c = x ∧ s.head? = some y := by
    cases s <;> simp [List.isPrefixOf, @eq_comm _ x, @eq_comm _ y]
  by_cases h : c = x ∧ s.head? = some y
  case pos => rw [cut, if_pos (hp.mpr h), if_pos h]
  case neg => rw [cut, if_neg (fun h' => h (hp.mp h')), if_neg h]

theorem head_cut_pair (hm : m ≠ x) : (cut [x, y] s).head? = some m ↔ s.head? = some m := by
  cases s
  case nil      => rfl
  case cons c s =>
    rw [cut_pair]
    split_ifs with h
    case pos => simp [h.1, Ne.symm hm]
    case neg => rfl

theorem stripComment_cons (c : Char) (s : CString) :
    stripComment (c :: s) =
    if isblank c ∧ (s.head? = some '#' ∨ s.head? = some ';') then [] else c :: stripComment s := by
  have hs : ∀ s, stripComment s = cut ['\t', ';'] (cut [' ', ';'] (cut ['\t', '#'] (cut [' ', '#'] s))) :=
    fun _ => rfl
  have hb : isblank c ↔ c = ' ' ∨ c = '\t' := by simp [isblank]
  have h₂ : (cut [' ', '#'] s).head? = some '#' ↔ s.head? = some '#' := head_cut_pair (by decide)
  have h₃ : (cut ['\t', '#'] (cut [' ', '#'] s)).head? = some ';' ↔ s.head? = some ';' :=
    (head_cut_pair (by decide)).trans (head_cut_pair (by decide))
  have h₄ : (cut [' ', ';'] (cut ['\t', '#'] (cut [' ', '#'] s))).head? = some ';' ↔ s.head? = some ';' :=
    (head_cut_pair (by decide)).trans h₃
  have hn : some ';' ≠ some '#' := by decide
  rw [hs, hs, cut_pair]
  by_cases hc : isblank c ∧ (s.head? = some '#' ∨ s.head? = some ';')
  case pos =>
    rw [if_pos hc]
    obtain ⟨hc, hm⟩ := hc
    obtain rfl | rfl := hb.mp hc <;> obtain hm | hm := hm
    case inl.inl => rw [if_pos ⟨rfl, hm⟩]; rfl
    case inr.inl =>
      rw [if_neg fun h => absurd h.1 (by decide), cut_pair, if_pos ⟨rfl, h₂.mpr hm⟩]
      rfl
    case inl.inr =>
      rw [if_neg fun h => hn (hm.symm.trans h.2), cut_pair, if_neg fun h => absurd h.1 (by decide), cut_pair,
        if_pos ⟨rfl, h₃.mpr hm⟩]
      rfl
    case inr.inr =>
      rw [if_neg fun h => absurd h.1 (by decide), cut_pair, if_neg fun h => hn (hm.symm.trans (h₂.mp h.2)), cut_pair,
        if_neg fun h => absurd h.1 (by decide), cut_pair, if_pos ⟨rfl, h₄.mpr hm⟩]
  case neg =>
    rw [if_neg hc, if_neg fun h => hc ⟨hb.mpr (.inl h.1), .inl h.2⟩, cut_pair,
      if_neg fun h => hc ⟨hb.mpr (.inr h.1), .inl (h₂.mp h.2)⟩, cut_pair,
      if_neg fun h => hc ⟨hb.mpr (.inl h.1), .inr (h₃.mp h.2)⟩, cut_pair,
      if_neg fun h => hc ⟨hb.mpr (.inr h.1), .inr (h₄.mp h.2)⟩]

theorem stripComment_eq (s : CString) : stripComment s = cutComment s := by
  induction s
  case nil         => rfl
  case cons c s hi => rw [stripComment_cons, cutComment, hi]

-- Blanks before a text stay, unless its first byte makes the last of them a marker.
theorem cutComment_append {b : CString} (hb : ∀ c ∈ b, isblank c) (t : CString) :
    cutComment (b ++ t) = b ++ cutComment t ∨ ∀ c ∈ cutComment (b ++ t), isblank c := by
  induction b
  case nil         => exact .inl rfl
  case cons c b hi =>
    have ⟨hc, hb⟩ := List.forall_mem_cons.mp hb
    rw [List.cons_append, cutComment]
    split
    case isTrue  => exact .inr (List.forall_mem_nil _)
    case isFalse =>
      obtain h | h := hi hb
      case inl => exact .inl (congrArg (c :: ·) h)
      case inr => exact .inr (List.forall_mem_cons.mpr ⟨hc, h⟩)

theorem cutComment_take (s : CString) (n : Nat) :
    ∃ x, cutComment (s.take n) = (cutComment s).take n ++ x ∧ ∀ c ∈ x, isblank c := by
  induction s generalizing n
  case nil         => exact ⟨[], by simp [cutComment], List.forall_mem_nil _⟩
  case cons c s hi =>
    cases n
    case zero   => exact ⟨[], rfl, List.forall_mem_nil _⟩
    case succ n =>
      rw [List.take_succ_cons, cutComment, cutComment]
      by_cases h : isblank c ∧ (s.head? = some '#' ∨ s.head? = some ';')
      case neg =>
        have h' : ¬(isblank c ∧ ((s.take n).head? = some '#' ∨ (s.take n).head? = some ';')) := by
          intro h'
          refine h ⟨h'.1, ?_⟩
          cases s <;> cases n <;> simp_all
        have ⟨x, hx, hb⟩ := hi n
        exact ⟨x, by rw [if_neg h, if_neg h', hx]; rfl, hb⟩
      case pos =>
        rw [if_pos h]
        cases n
        case zero   => exact ⟨[c], by simp [cutComment], by simp [h.1]⟩
        case succ n =>
          have h' : isblank c ∧ ((s.take (n + 1)).head? = some '#' ∨ (s.take (n + 1)).head? = some ';') := by
            cases s <;> simp_all
          exact ⟨[], by rw [if_pos h']; rfl, List.forall_mem_nil _⟩

theorem cutComment_prefix_self (s : CString) : cutComment s <+: s := by
  induction s
  case nil         => exact List.prefix_refl _
  case cons c s hi =>
    rw [cutComment]
    split
    case isTrue  => exact List.nil_prefix
    case isFalse => exact (List.prefix_cons_inj c).mpr hi

end Comments

section Buffer

variable {head rest : CString}

def keyIn (head rest : CString) : CString :=
  if head.all isblank then
    if head.length < 2 then [] else '=' :: (rest.takeWhile isblank ++ valueIn rest)
  else
    trim isblank isblank head

theorem valueIn_prefix (rest : CString) : valueIn rest <+: rest.dropWhile isblank :=
  (stripSpaces_prefix_self _).trans (cutComment_prefix_self _)

-- With nothing but blanks before the sign, the terminator is written behind the first of them.
theorem key_of_blank (hb : head.all isblank) {tail : CString} (h0 : nul ∉ tail) :
    ofBuffer (((head ++ '=' :: tail).set (min 1 head.length) nul).drop head.length) =
    if head.length < 2 then [] else '=' :: tail := by
  match head with
  | []          => rfl
  | [c]         => rfl
  | c :: d :: s =>
    have hs : (c :: d :: s ++ '=' :: tail).set (min 1 (c :: d :: s).length) nul = c :: nul :: s ++ '=' :: tail := by
      simp
    have hz : nul ∉ '=' :: tail := by
      simp only [List.mem_cons, not_or]
      exact ⟨by decide, h0⟩
    rw [hs, show (c :: d :: s).length = (c :: nul :: s).length from rfl, List.drop_left, ofBuffer_eq_self hz,
      if_neg (by simp)]

theorem key_of_text {b k w tail : CString} (h0 : nul ∉ k) :
    ofBuffer (((b ++ k ++ w ++ '=' :: tail).set (b ++ k).length nul).drop b.length) = k := by
  have ⟨x, y, hx⟩ : ∃ x y, w ++ '=' :: tail = x :: y := by
    cases w
    case nil       => exact ⟨_, _, rfl⟩
    case cons x w' => exact ⟨_, _, rfl⟩
  rw [List.append_assoc, hx, List.set_append_right _ _ (Nat.le_refl _), Nat.sub_self, List.set_cons_zero,
    List.append_assoc, List.drop_left, ofBuffer_append_nul, ofBuffer_eq_self h0]

theorem key_eq (tail s : CString) (h0 : nul ∉ head) (ht : nul ∉ tail) :
    ofBuffer (((head ++ '=' :: tail).set (max (head.rdropWhile isblank).length (min 1 head.length)) nul).drop
      ((head ++ '=' :: s).takeWhile isblank).length) =
    if head.all isblank then if head.length < 2 then [] else '=' :: tail
    else trim isblank isblank head := by
  by_cases hb : head.all isblank
  case pos =>
    have hall : ∀ c ∈ head, isblank c := List.all_eq_true.mp hb
    have hw : (head ++ '=' :: s).takeWhile isblank = head := by
      rw [List.takeWhile_append_of_pos hall]
      simp [isblank]
    rw [hw, List.rdropWhile_eq_nil_iff.mpr hall, if_pos hb, ← key_of_blank hb ht]
    simp
  case neg =>
    have hn : trim isblank isblank head ≠ [] := fun h =>
      hb (List.all_eq_true.mpr (trim_self_eq_nil_iff.mp h))
    obtain ⟨b, w, he, hbl, hwl, ht⟩ := trim_spec hn
    generalize trim isblank isblank head = k at *
    subst he
    obtain ⟨a, k, rfl⟩ := List.exists_cons_of_ne_nil ht.ne_nil
    have ha : isblank a = false := ht.head
    have htw : (b ++ a :: k ++ w ++ '=' :: s).takeWhile isblank = b := by
      rw [List.append_assoc, List.append_assoc, List.takeWhile_append_of_pos hbl]
      simp [ha]
    have hr : (b ++ a :: k ++ w).rdropWhile isblank = b ++ a :: k := ht.rdropWhile_append b hwl
    have hm : max (b ++ a :: k).length (min 1 (b ++ a :: k ++ w).length) = (b ++ a :: k).length := by
      simp only [List.length_append, List.length_cons]
      omega
    rw [htw, hr, hm, if_neg hb]
    exact key_of_text fun h => h0 (by simp_all)

theorem valueIn_eq (rest : CString) : stripSpaces (stripComment (rest.dropWhile isblank)) = valueIn rest := by
  rw [stripComment_eq]
  rfl

def keyBuffer (head rest : CString) : CString :=
  (head ++ '=' :: (rest.takeWhile isblank ++ valueIn rest)).set
    (max (head.rdropWhile isblank).length (min 1 head.length)) nul

theorem paramOf_split (hn : '=' ∉ head) (rest : CString) :
    paramOf (head ++ '=' :: rest) =
    let key := ofBuffer ((keyBuffer head rest).drop ((head ++ '=' :: rest).takeWhile isblank).length)
    if key.length < 1 ∨ key.length ≥ CONFIG_KEY_MAX then none
    else if (valueIn rest).length < 1 ∨ (valueIn rest).length ≥ CONFIG_VAL_MAX then none
    else some ⟨key, valueIn rest⟩ := by
  have hs : strchr (head ++ '=' :: rest) '=' = some head.length := strchr_eq_some_iff.mpr ⟨head, rest, rfl, hn, rfl⟩
  have hd : (head ++ '=' :: rest).drop (head.length + 1) = rest := by simp
  have hr : rest.takeWhile isblank ++ rest.dropWhile isblank = rest := List.takeWhile_append_dropWhile
  have ht : (head ++ '=' :: rest).drop (head.length + 1 + (rest.takeWhile isblank).length) =
      rest.dropWhile isblank := by
    have : (rest.takeWhile isblank ++ rest.dropWhile isblank).drop (rest.takeWhile isblank).length = _ := List.drop_left
    rw [hr] at this
    rw [← List.drop_drop, hd, this]
  obtain ⟨z, hz⟩ := valueIn_prefix rest
  have hb : (head ++ '=' :: rest).take (head.length + 1 + (rest.takeWhile isblank).length + (valueIn rest).length) =
      head ++ '=' :: (rest.takeWhile isblank ++ valueIn rest) := by
    have hl : head ++ '=' :: rest = head ++ '=' :: (rest.takeWhile isblank ++ valueIn rest) ++ z := by
      conv_lhs => rw [← hr, ← hz]
      simp
    rw [hl]
    refine List.take_left' ?_
    simp only [List.length_append, List.length_cons]
    omega
  rw [paramOf, hs]
  simp only [hd, ht, valueIn_eq, hb, List.take_left]
  rfl

theorem paramOf_append (hn : '=' ∉ head) (h0 : nul ∉ head ++ '=' :: rest) :
    paramOf (head ++ '=' :: rest) =
    if (keyIn head rest).length < 1 ∨ (keyIn head rest).length ≥ CONFIG_KEY_MAX then none
    else if (valueIn rest).length < 1 ∨ (valueIn rest).length ≥ CONFIG_VAL_MAX then none
    else some ⟨keyIn head rest, valueIn rest⟩ := by
  have ht : nul ∉ rest.takeWhile isblank ++ valueIn rest := by
    obtain ⟨z, hz⟩ := valueIn_prefix rest
    rw [← List.takeWhile_append_dropWhile (p := isblank) (l := rest), ← hz] at h0
    simp only [List.mem_append, List.mem_cons, not_or] at h0 ⊢
    exact ⟨h0.2.2.1, h0.2.2.2.1⟩
  have hk : ofBuffer ((keyBuffer head rest).drop ((head ++ '=' :: rest).takeWhile isblank).length) = keyIn head rest :=
    key_eq _ rest (fun h => h0 (List.mem_append_left _ h)) ht
  rw [paramOf_split hn, hk]

end Buffer

section Compare

variable {src head rest value : CString} {p : Param}

theorem valueIn_eq_nil_iff : valueIn rest = [] ↔ rest.all isblank := by
  rw [valueIn, stripSpaces_eq_nil_iff, List.all_eq_true, ← List.dropWhile_eq_nil_iff]
  cases h : rest.dropWhile isblank
  case nil      => simp [cutComment]
  case cons c s =>
    have hn : rest.dropWhile isblank ≠ [] := by simp [h]
    have hc : isblank c = false := by
      have := List.head_dropWhile_not isblank hn
      simpa [h] using this
    simp [cutComment, hc]

theorem dropWhile_take (rest : CString) (n : Nat) :
    (rest.take n).dropWhile isblank = (rest.dropWhile isblank).take (n - (rest.takeWhile isblank).length) := by
  induction rest generalizing n
  case nil            => simp
  case cons c rest hi =>
    cases n
    case zero   => simp
    case succ n =>
      cases hc : isblank c
      case false => simp [hc]
      case true  => simp [hc, hi]

theorem valueIn_take_iff (hv : value = trim isspace isspace (cutComment rest)) (hn : value ≠ []) (n : Nat) :
    valueIn (rest.take n) = value ↔
    value <+: rest.dropWhile isblank ∧ (rest.takeWhile isblank).length + value.length ≤ n := by
  have hd := dropWhile_take rest n
  constructor
  case mp  =>
    intro h
    have hp : value <+: (rest.dropWhile isblank).take (n - (rest.takeWhile isblank).length) :=
      h ▸ hd ▸ valueIn_prefix _
    have hl := hp.length_le
    have := List.length_pos_of_ne_nil hn
    rw [List.length_take] at hl
    exact ⟨hp.trans (List.take_prefix ..), by omega⟩
  case mpr =>
    rintro ⟨hp, hl⟩
    have hb : ∀ c ∈ rest.takeWhile isblank, isblank c := fun c hc => List.mem_takeWhile_imp hc
    have hs : ∀ c, isblank c → isspace c := fun c hc => by simp [isspace, hc]
    -- There is no marker before the value, so that it is what is left of the text behind the blanks.
    have hc : cutComment rest = rest.takeWhile isblank ++ cutComment (rest.dropWhile isblank) := by
      have h := cutComment_append hb (rest.dropWhile isblank)
      rw [List.takeWhile_append_dropWhile] at h
      refine h.resolve_right fun h => hn ?_
      rw [hv]
      exact trim_self_eq_nil_iff.mpr fun c hc => hs c (h c hc)
    have ht : value = trim isspace isspace (cutComment (rest.dropWhile isblank)) := by
      rw [hv, hc, trim, trim, List.dropWhile_append_of_pos fun c hc => hs c (hb c hc)]
    obtain ⟨s, w, hu, hs₀, hw, hm⟩ := trim_spec (ht ▸ hn)
    rw [← ht] at hu hm
    have h0 : s = [] := by
      cases s
      case nil      => rfl
      case cons c s =>
        obtain ⟨a, v, rfl⟩ := List.exists_cons_of_ne_nil hn
        obtain ⟨z, hz⟩ := hp
        obtain ⟨z', hz'⟩ := cutComment_prefix_self (rest.dropWhile isblank)
        rw [hu, ← hz] at hz'
        obtain ⟨rfl, _⟩ := List.cons.inj hz'
        have ha : isspace c = false := hm.head
        exact absurd (hs₀ c List.mem_cons_self) (by simp [ha])
    subst h0
    rw [List.nil_append] at hu
    obtain ⟨x, hx, hxb⟩ := cutComment_take (rest.dropWhile isblank) (n - (rest.takeWhile isblank).length)
    have hvl : value.length ≤ n - (rest.takeWhile isblank).length := by omega
    rw [valueIn, hd, hx, hu, List.take_append, List.take_of_length_le hvl, List.append_assoc]
    refine stripSpaces_append hn hm.last (List.forall_mem_append.mpr ⟨fun c hc => ?_, fun c hc => hs c (hxb c hc)⟩)
    exact hw c ((List.take_sublist ..).subset hc)

-- With blanks only before the sign, the sign itself may start a key.
theorem length_keyIn (h : trim isblank isblank head = []) (rest : CString) :
    (keyIn head rest).length =
    if head.length < 2 then 0 else 1 + (rest.takeWhile isblank).length + (valueIn rest).length := by
  rw [keyIn, if_pos (List.all_eq_true.mpr (trim_self_eq_nil_iff.mp h))]
  split
  case isTrue  => rfl
  case isFalse => simp only [List.length_cons, List.length_append]; omega

theorem keyIn_of_text (h : trim isblank isblank head ≠ []) (rest : CString) :
    keyIn head rest = trim isblank isblank head := by
  rw [keyIn, if_neg]
  exact fun hb => h (trim_self_eq_nil_iff.mpr (List.all_eq_true.mp hb))

theorem paramOf_eq_none_iff (h0 : nul ∉ src) : paramOf src = none ↔ Refused src := by
  cases hs : strchr src '='
  case none    => simp [paramOf, Refused, hs]
  case some eq =>
    obtain ⟨head, rest, rfl, hn, rfl⟩ := strchr_eq_some_iff.mp hs
    have hd : (head ++ '=' :: rest).drop (head.length + 1) = rest := by simp
    simp only [Refused, hs, Option.some.injEq, forall_eq', List.take_left, hd]
    have hp : paramOf (head ++ '=' :: rest) = none ↔
        ((keyIn head rest).length < 1 ∨ (keyIn head rest).length ≥ CONFIG_KEY_MAX) ∨
        (valueIn rest).length < 1 ∨ (valueIn rest).length ≥ CONFIG_VAL_MAX := by
      rw [paramOf_append hn h0]
      split_ifs with hk hv
      case pos => exact iff_of_true rfl (.inl hk)
      case pos => exact iff_of_true rfl (.inr hv)
      case neg => exact iff_of_false nofun (not_or.mpr ⟨hk, hv⟩)
    rw [hp]
    by_cases hv : rest.all isblank
    case pos =>
      have : (valueIn rest).length < 1 := by simp [valueIn_eq_nil_iff.mpr hv]
      exact iff_of_true (.inr (.inl this)) (.inl hv)
    case neg =>
      have := List.length_pos_of_ne_nil (mt valueIn_eq_nil_iff.mp hv)
      by_cases hk : trim isblank isblank head = []
      case pos =>
        have hl := length_keyIn hk rest
        have hm : CONFIG_KEY_MAX < CONFIG_VAL_MAX := by decide
        simp only [hv, hk, if_true, false_or, Bool.false_eq_true]
        split at hl <;> omega
      case neg =>
        have := List.length_pos_of_ne_nil hk
        simp only [hv, hk, if_false, false_or, Bool.false_eq_true, keyIn_of_text hk]
        omega

theorem paramCreate_eq_some_iff (h0 : nul ∉ src) (h : optionOf src = some p) :
    paramCreate src = some p ↔ Within src p.value := by
  cases hs : strchr src '='
  case none    => simp [optionOf, hs] at h
  case some eq =>
    obtain ⟨head, rest, rfl, hn, rfl⟩ := strchr_eq_some_iff.mp hs
    have hd : (head ++ '=' :: rest).drop (head.length + 1) = rest := by simp
    simp only [Within, hs, Option.some.injEq, exists_eq_left', hd]
    simp only [optionOf, hs, List.take_left, hd] at h
    split_ifs at h with hb
    obtain rfl := Option.some.inj h
    obtain ⟨hk₁, hk₂, hv₁, hv₂⟩ := hb
    have hk : trim isblank isblank head ≠ [] := List.ne_nil_of_length_pos hk₁
    have hv := List.ne_nil_of_length_pos hv₁
    generalize hval : trim isspace isspace (cutComment rest) = value at *
    have hb := List.length_pos_of_ne_nil hv
    by_cases hl : head.length < CONFIG_LINE_MAX - 1
    case neg =>
      have ht : strchr (strlcpy (head ++ '=' :: rest) CONFIG_LINE_MAX) '=' = none := by
        rw [strlcpy, List.take_append_of_le_length (Nat.not_lt.mp hl), strchr_eq_none_iff]
        exact fun hm => hn ((List.take_sublist ..).subset hm)
      have hc : paramCreate (head ++ '=' :: rest) = none := by rw [paramCreate, paramOf, ht]
      exact iff_of_false (by simp [hc]) fun h => by omega
    case pos =>
      have ht : strlcpy (head ++ '=' :: rest) CONFIG_LINE_MAX =
          head ++ '=' :: rest.take (CONFIG_LINE_MAX - 2 - head.length) := by
        rw [strlcpy, List.take_append, List.take_of_length_le (Nat.le_of_lt hl),
          show CONFIG_LINE_MAX - 1 - head.length = CONFIG_LINE_MAX - 2 - head.length + 1 by omega]
        rfl
      have h0 : nul ∉ head ++ '=' :: rest.take (CONFIG_LINE_MAX - 2 - head.length) :=
        ht ▸ fun hm => h0 ((List.take_sublist ..).subset hm)
      have hv' := valueIn_take_iff hval.symm hv (CONFIG_LINE_MAX - 2 - head.length)
      rw [paramCreate, ht, paramOf_append hn h0, keyIn_of_text hk, if_neg (by omega)]
      show _ ↔ value <+: rest.dropWhile isblank ∧
        head.length + 1 + (rest.takeWhile isblank).length + value.length < CONFIG_LINE_MAX
      constructor
      case mp  =>
        intro h
        split at h
        case isTrue  => cases h
        case isFalse =>
          obtain ⟨hp, hl'⟩ := hv'.mp (congrArg Param.value (Option.some.inj h))
          exact ⟨hp, by omega⟩
      case mpr =>
        rintro ⟨hp, hl'⟩
        rw [hv'.mpr ⟨hp, by omega⟩, if_neg (by omega)]

-- A line is read as the option that it is, or as none, if and only if the value is found where it is and
-- what should be refused is.
theorem paramCreate_eq_iff (h0 : nul ∉ src) :
    paramCreate src = optionOf src ↔
    match optionOf src with
    | some p => Within src p.value
    | none   => Refused (src.strlcpy CONFIG_LINE_MAX) := by
  cases h : optionOf src
  case some p => exact paramCreate_eq_some_iff h0 h
  case none   => exact paramOf_eq_none_iff fun hm => h0 ((List.take_sublist ..).subset hm)

-- With blanks before it, a sign without a key becomes one.
example : paramCreate "  = v".toList = some ⟨"= v".toList, "v".toList⟩ := by decide

-- A comment right behind the sign is taken for a value.
theorem paramCreate_eq_iff_comment :
    paramCreate "key = #c".toList = optionOf "key = #c".toList ↔
    match optionOf "key = #c".toList with
    | some p => Within "key = #c".toList p.value
    | none   => Refused (strlcpy "key = #c".toList CONFIG_LINE_MAX) :=
  paramCreate_eq_iff (by decide)

theorem not_always_paramCreate_eq : ¬∀ src : CString, nul ∉ src → paramCreate src = optionOf src := by
  intro h
  have := h "key = #c".toList (by decide)
  revert this
  decide

end Compare
end F2b.Config
