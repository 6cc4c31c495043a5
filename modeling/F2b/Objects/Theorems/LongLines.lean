import F2b.Lib.Lines
import F2b.Objects.Theorems.Headers

-- The lines of a config file, compared with the chunks in which they are read.

namespace F2b.Config

open CString Header

namespace Item

def ofLine (line : CString) : Option Item :=
  itemOf (fun h => sectionOf (h.drop 1)) paramOf (strip (ofBuffer line))

-- Without a current section, options are not looked at.
def counts (skip : Bool) : Item → Bool
  | header _ => true
  | pair _   => !skip

def skips (skip : Bool) : Item → Bool
  | header sec => sec.isNone
  | pair _     => skip

end Item

section Definitions

def chunks (l : CString) : List CString :=
  fgetsLoop CONFIG_LINE_MAX [] (CONFIG_LINE_MAX - 1) l

def indent (line : CString) : Nat :=
  (line.takeWhile isblank).length

def blank (line : CString) : Bool :=
  line.all isblank

def seen (skip : Bool) (chunk : CString) : Option Item :=
  (classify (ofBuffer chunk)).filter (Item.counts skip)

def skipAfter (skip : Bool) (chunk : CString) : Bool :=
  (seen skip chunk).elim skip (Item.skips skip)

-- What it makes of successive chunks, and where in the text that starts.
def trace (skip : Bool) : Nat → List CString → List (Nat × Item)
  | _,   []               => []
  | off, chunk :: chunks =>
    (seen skip chunk).toList.map (off + indent chunk, ·) ++
    trace (skipAfter skip chunk) (off + chunk.length) chunks

-- A line as a whole, and a line that is rejected. A header that is rejected is an unknown one.
def whole (skip : Bool) (l : CString) : Option Item :=
  (Item.ofLine l).filter (Item.counts skip)

def rejected (l : CString) : Option Item :=
  if (strip (ofBuffer l)).head? = some '[' then some (.header none) else none

-- The line is handled whole. If it does not fit the buffer, it may also be rejected whole.
def Treated (skip : Bool) (l : CString) : Prop :=
  trace skip 0 (chunks l) = (whole skip l).toList.map (indent l, ·) ∨
  CONFIG_LINE_MAX ≤ l.length ∧ trace skip 0 (chunks l) = (rejected l).toList.map (indent l, ·)

def AllTreated : Bool → List CString → Prop
  | _,    []      => True
  | skip, l :: ls =>
    Treated skip l ∧ AllTreated ((trace skip 0 (chunks l)).foldl (fun skip e => e.2.skips skip) skip) ls

instance (skip : Bool) (l : CString) : Decidable (Treated skip l) :=
  inferInstanceAs (Decidable (_ ∨ _))

instance decidableAllTreated (skip : Bool) : (ls : List CString) → Decidable (AllTreated skip ls)
  | []      => .isTrue trivial
  | l :: ls => @instDecidableAnd (Treated skip l) _ _ (decidableAllTreated _ ls)

-- From the first chunk that is not blank, the line is read as a whole or not at all, and nothing is read
-- from the chunks after it.
def Contained (skip : Bool) (l : CString) : Prop :=
  match (chunks l).dropWhile blank with
  | []            => True
  | first :: rest =>
    (∀ p, seen skip first = some (.pair p) → Item.ofLine l = some (.pair p)) ∧
    ∀ chunk ∈ rest, seen (skipAfter skip first) chunk = none

def skipNext (skip : Bool) (l : CString) : Bool :=
  match (chunks l).dropWhile blank with
  | []         => skip
  | first :: _ => skipAfter skip first

def AllContained : Bool → List CString → Prop
  | _,    []      => True
  | skip, l :: ls => (CONFIG_LINE_MAX ≤ l.length → Contained skip l) ∧ AllContained (skipNext skip l) ls

-- Processing the lines of a text, each one with the decision to handle it or to reject it.
def Loader.skip (st : Loader) : Bool :=
  st.current.isNone

def Loader.handle (st : Loader) (p : CString × Bool) : Loader :=
  (if p.2 then whole st.skip p.1 else rejected p.1).elim st st.act

structure LineByLine (c : Config) (text : CString) : Prop where
  treated : AllTreated true (physical text)
  config  : ∃ ls : List (CString × Bool), ls.map Prod.fst = physical text ∧
    (∀ p ∈ ls, p.1.length < CONFIG_LINE_MAX → p.2) ∧ c.loadText text = (ls.foldl Loader.handle ⟨c, none⟩).config

end Definitions

section Strip

variable {b : Char} {s t u : CString}

theorem ofBuffer_append_blank (h : blank u) : ofBuffer (u ++ s) = u ++ ofBuffer s := by
  apply List.takeWhile_append_of_pos
  intro a ha
  have : isblank a := List.all_eq_true.mp h a ha
  have : a ≠ nul := by rintro rfl; revert this; decide
  simpa

theorem strip_append_blank (h : blank u) : strip (u ++ s) = strip s := by
  have hb := List.all_eq_true.mp h
  have hr : ∀ c, ¬isblank c → ∀ a ∈ u, a ≠ c := fun c hc a ha he => hc (he ▸ hb a ha)
  have h₁ := hr '\r' (by decide)
  have h₂ := hr '\n' (by decide)
  rw [strip, List.takeWhile_append_of_pos (by simpa using h₁), List.takeWhile_append_of_pos (by simpa using h₂),
    List.dropWhile_append_of_pos hb]
  rfl

theorem strip_of_blank (h : blank u) : strip (ofBuffer u) = [] := by
  have ho := ofBuffer_append_blank (s := []) h
  have hs := strip_append_blank (s := []) h
  rw [List.append_nil] at ho hs
  rw [ho, ofBuffer, List.takeWhile_nil, List.append_nil, hs]
  rfl

def body (s : CString) : CString :=
  ((ofBuffer s).takeWhile (· ≠ '\r')).takeWhile (· ≠ '\n')

theorem takeWhile_mono {q : Char → Bool} (h : s <+: t) : s.takeWhile q <+: t.takeWhile q := by
  obtain ⟨u, rfl⟩ := h
  rw [List.takeWhile_append]
  split
  case isTrue h  =>
    have hp : s.takeWhile q <+: s := List.takeWhile_prefix q
    rw [hp.eq_of_length h]
    exact List.prefix_append ..
  case isFalse => exact List.prefix_refl _

theorem body_mono (s t : CString) : body s <+: body (s ++ t) :=
  takeWhile_mono (takeWhile_mono (takeWhile_mono (List.prefix_append s t)))

theorem strip_cons (hb : ¬isblank b) :
    (∀ s, strip (ofBuffer (b :: s)) = []) ∨ ∀ s, strip (ofBuffer (b :: s)) = b :: body s := by
  by_cases h : b = nul ∨ b = '\r' ∨ b = '\n'
  case pos =>
    refine .inl fun s => ?_
    obtain rfl | rfl | rfl := h
    all_goals simp [ofBuffer, strip, nul]
  case neg =>
    push Not at h
    obtain ⟨h₁, h₂, h₃⟩ := h
    refine .inr fun s => ?_
    simp [ofBuffer, strip, body, h₁, h₂, h₃, hb]

theorem length_strip_le (s : CString) : (strip (ofBuffer s)).length ≤ s.length := by
  calc (strip (ofBuffer s)).length
    _ ≤ (((ofBuffer s).takeWhile (· ≠ '\r')).takeWhile (· ≠ '\n')).length := (List.dropWhile_sublist _).length_le
    _ ≤ s.length := (((List.takeWhile_sublist _).trans (List.takeWhile_sublist _)).trans
        (List.takeWhile_sublist _)).length_le

end Strip

section Chunks

variable {s t line first l : CString} {skip : Bool}

theorem classify_of_lt (h : line.length < CONFIG_LINE_MAX) : classify (ofBuffer line) = Item.ofLine line := by
  have hs : (strip (ofBuffer line)).length < CONFIG_LINE_MAX := Nat.lt_of_le_of_lt (length_strip_le line) h
  have hp : paramCreate (strip (ofBuffer line)) = paramOf (strip (ofBuffer line)) := by
    rw [paramCreate, strlcpy_of_lt hs]
  have hd : ((strip (ofBuffer line)).drop 1).length < CONFIG_LINE_MAX := by
    rw [List.length_drop]
    omega
  have hc : sectionCreate (strip (ofBuffer line)) = sectionOf ((strip (ofBuffer line)).drop 1) := by
    rw [sectionCreate, strlcpy_of_lt hd]
  rw [classify, Item.ofLine]
  cases hl : strip (ofBuffer line)
  case nil      => rfl
  case cons c s => rw [hl] at hp hc; simp only [itemOf, hp, hc]

theorem sectionOf_mono (h : s <+: t) : sectionOf s = sectionOf t ∨ sectionOf s = none := by
  obtain ⟨u, rfl⟩ := h
  rw [sectionOf_eq, sectionOf_eq]
  cases hs : CString.strchr s ']'
  case none   => exact .inr rfl
  case some i =>
    have hi : CString.strchr (s ++ u) ']' = some i := by
      simp only [strchr] at hs ⊢
      simp [List.findIdx?_append, hs]
    obtain ⟨hl, _⟩ := List.findIdx?_eq_some_iff_getElem.mp hs
    rw [hi, Option.map_some, Option.map_some, List.take_append_of_le_length (Nat.le_of_lt hl)]
    exact .inl rfl

-- What a chunk that starts a line shares with the line: the chunk is a header if the line is one, and
-- then the same or none, or they are both not headers.
theorem first_cases (hb : ¬blank first) (t : CString) :
    (∃ sec₁ sec₂, Item.ofLine first = some (.header sec₁) ∧ Item.ofLine (first ++ t) = some (.header sec₂) ∧
      (sec₁ = sec₂ ∨ sec₁ = none) ∧ rejected (first ++ t) = some (.header none)) ∨
    (∃ o₁ o₂ : Option Param, Item.ofLine first = o₁.map .pair ∧ Item.ofLine (first ++ t) = o₂.map .pair ∧
      rejected (first ++ t) = none) := by
  have ⟨u, b, s, hf, hu, hn⟩ : ∃ u b s, first = u ++ b :: s ∧ blank u ∧ ¬isblank b := by
    refine ⟨first.takeWhile isblank, ?_⟩
    have hd : first.dropWhile isblank ≠ [] := fun h =>
      hb (List.all_eq_true.mpr (List.dropWhile_eq_nil_iff.mp h))
    obtain ⟨b, s, hs⟩ := List.exists_cons_of_ne_nil hd
    refine ⟨b, s, ?_, List.all_eq_true.mpr fun _ h => List.mem_takeWhile_imp h, ?_⟩
    case refine_1 => rw [← hs, List.takeWhile_append_dropWhile]
    case refine_2 =>
      have := List.head_dropWhile_not isblank hd
      simpa [hs] using this
  have hs : ∀ z, strip (ofBuffer (u ++ z)) = strip (ofBuffer z) := fun z => by
    rw [ofBuffer_append_blank hu, strip_append_blank hu]
  subst hf
  rw [Item.ofLine, Item.ofLine, rejected, List.append_assoc, hs, hs]
  obtain he | he := strip_cons hn
  case inl => exact .inr ⟨none, none, by rw [he]; rfl, by rw [List.cons_append, he]; rfl, by simp [he]⟩
  case inr =>
    rw [List.cons_append, he, he]
    by_cases hh : b = '['
    case pos =>
      subst hh
      exact .inl ⟨_, _, rfl, rfl, sectionOf_mono (body_mono s t), rfl⟩
    case neg =>
      by_cases hc : b = ';' ∨ b = '#'
      case pos => exact .inr ⟨none, none, by simp [itemOf, hc], by simp [itemOf, hc], by simp [hh]⟩
      case neg => exact .inr ⟨_, _, by simp [itemOf, hc, hh]; rfl, by simp [itemOf, hc, hh]; rfl, by simp [hh]⟩

theorem first_iff (skip : Bool) (hb : ¬blank first) (hl : first.length < CONFIG_LINE_MAX) (t : CString) :
    seen skip first = whole skip (first ++ t) ∨ seen skip first = rejected (first ++ t) ↔
    ∀ p, seen skip first = some (.pair p) → Item.ofLine (first ++ t) = some (.pair p) := by
  rw [seen, classify_of_lt hl, whole]
  obtain ⟨sec₁, sec₂, h₁, h₂, h, hr⟩ | ⟨o₁, o₂, h₁, h₂, hr⟩ := first_cases hb t <;> rw [h₁, h₂, hr]
  case inl =>
    refine iff_of_true ?_ (by simp [Option.filter, Item.counts])
    obtain rfl | rfl := h
    case inl => exact .inl rfl
    case inr => exact .inr rfl
  case inr => cases skip <;> cases o₁ <;> cases o₂ <;> simp [Option.filter, Item.counts, eq_comm]

end Chunks

section Trace

variable {skip : Bool} {off : Nat} {raws bs rest : List CString} {chunk first l : CString}

theorem seen_of_blank (h : blank chunk) : seen skip chunk = none := by
  rw [seen, classify, strip_of_blank h]
  rfl

theorem trace_append_blank (h : ∀ b ∈ bs, blank b) :
    trace skip off (bs ++ raws) = trace skip (off + bs.flatten.length) raws := by
  induction bs generalizing off
  case nil          => rfl
  case cons b bs hi =>
    have ⟨hb, h⟩ := List.forall_mem_cons.mp h
    have hs : skipAfter skip b = skip := by
      rw [skipAfter, seen_of_blank hb]
      rfl
    rw [List.cons_append, trace, hs, seen_of_blank hb, hi h, List.flatten_cons, List.length_append,
      Nat.add_assoc]
    rfl

theorem trace_eq_nil_iff : trace skip off raws = [] ↔ ∀ chunk ∈ raws, seen skip chunk = none := by
  induction raws generalizing off
  case nil          => simp [trace]
  case cons b bs hi =>
    rw [trace, List.append_eq_nil_iff, List.forall_mem_cons]
    cases hs : seen skip b
    case none => simp [skipAfter, hs, hi]
    case some => simp

theorem le_of_mem_trace {e : Nat × Item} (h : e ∈ trace skip off raws) : off ≤ e.1 := by
  induction raws generalizing off skip
  case nil          => simp [trace] at h
  case cons b bs hi =>
    obtain h | h := List.mem_append.mp (trace.eq_2 .. ▸ h)
    case inl =>
      obtain ⟨_, _, rfl⟩ := List.mem_map.mp h
      exact Nat.le_add_right ..
    case inr => exact Nat.le_trans (Nat.le_add_right ..) (hi h)

theorem append_eq_iff {pos : Nat} {o o' : Option Item} {tail : List (Nat × Item)}
    (h : ∀ e ∈ tail, pos < e.1) :
    o.toList.map (pos, ·) ++ tail = o'.toList.map (pos, ·) ↔ o = o' ∧ tail = [] := by
  have hn : ∀ item, tail ≠ [(pos, item)] := by
    rintro item rfl
    exact Nat.lt_irrefl _ (h _ List.mem_cons_self)
  cases o <;> cases o' <;> simp [hn]

theorem flatten_chunks (l : CString) : (chunks l).flatten = l :=
  flatten_fgetsLoop ..

theorem length_lt_of_mem_chunks (h : chunk ∈ chunks l) : chunk.length < CONFIG_LINE_MAX :=
  length_lt_of_mem_fgetsLoop (show 0 < CONFIG_LINE_MAX - 1 by decide) (by decide) h

theorem chunks_cases (l : CString) :
    (blank l ∧ (chunks l).dropWhile blank = [] ∧ ∀ chunk ∈ chunks l, blank chunk) ∨
    ∃ bs first rest, (∀ b ∈ bs, blank b) ∧ ¬blank first ∧ chunks l = bs ++ first :: rest ∧
      (chunks l).dropWhile blank = first :: rest := by
  cases hd : (chunks l).dropWhile blank
  case nil =>
    have hb := List.dropWhile_eq_nil_iff.mp hd
    refine .inl ⟨?_, rfl, hb⟩
    rw [← flatten_chunks l, blank, List.all_flatten]
    exact List.all_eq_true.mpr hb
  case cons first rest =>
    refine .inr ⟨(chunks l).takeWhile blank, first, rest, fun _ h => List.mem_takeWhile_imp h, ?_, ?_, rfl⟩
    case refine_1 =>
      have hn : (chunks l).dropWhile blank ≠ [] := by simp [hd]
      have := List.head_dropWhile_not blank hn
      simpa [hd] using this
    case refine_2 => rw [← hd, List.takeWhile_append_dropWhile]

theorem indent_append (hb : ∀ b ∈ bs, blank b) (hf : ¬blank first) (t : CString) :
    indent (bs.flatten ++ (first ++ t)) = bs.flatten.length + indent first ∧ indent first < first.length := by
  have hu : ∀ c ∈ bs.flatten, isblank c := by
    intro c hc
    obtain ⟨b, hm, hc⟩ := List.mem_flatten.mp hc
    exact List.all_eq_true.mp (hb b hm) c hc
  have hp : first.takeWhile isblank <+: first := List.takeWhile_prefix isblank
  have hl : indent first < first.length := by
    refine Nat.lt_of_le_of_ne (List.takeWhile_sublist _).length_le fun he => hf (List.all_eq_true.mpr ?_)
    exact List.takeWhile_eq_self_iff.mp (hp.eq_of_length he)
  refine ⟨?_, hl⟩
  have hn : (first.takeWhile isblank).length ≠ first.length := Nat.ne_of_lt hl
  rw [indent, List.takeWhile_append_of_pos hu, List.length_append, List.takeWhile_append, if_neg hn]
  rfl

-- What the loader makes of a line with something on it: of the first chunk that is not blank, and then of
-- the others.
theorem trace_line (skip : Bool) (hb : ∀ b ∈ bs, blank b) (hf : ¬blank first) (hc : chunks l = bs ++ first :: rest) :
    ∃ off, trace skip 0 (chunks l) =
      (seen skip first).toList.map (indent l, ·) ++ trace (skipAfter skip first) off rest ∧
      indent l < off := by
  have hl : l = bs.flatten ++ (first ++ rest.flatten) := by
    rw [← flatten_chunks l, hc, List.flatten_append, List.flatten_cons]
  have ⟨hi, hlt⟩ := indent_append hb hf rest.flatten
  refine ⟨bs.flatten.length + first.length, ?_, ?_⟩
  case refine_1 => rw [hc, trace_append_blank hb, trace, hl, hi, Nat.zero_add]
  case refine_2 => rw [hl, hi]; omega

theorem trace_eq_iff (hb : ∀ b ∈ bs, blank b) (hf : ¬blank first) (hc : chunks l = bs ++ first :: rest)
    (o : Option Item) :
    trace skip 0 (chunks l) = o.toList.map (indent l, ·) ↔
    seen skip first = o ∧ ∀ chunk ∈ rest, seen (skipAfter skip first) chunk = none := by
  have ⟨off, ht, hl⟩ := trace_line skip hb hf hc
  rw [ht, append_eq_iff fun e he => Nat.lt_of_lt_of_le hl (le_of_mem_trace he), trace_eq_nil_iff]

end Trace

section Lines

variable {skip : Bool} {l : CString}

theorem chunks_of_lt (hl : l ≠ []) (hn : '\n' ∉ l.dropLast) (h : l.length < CONFIG_LINE_MAX) : chunks l = [l] :=
  fgetsLoop_fits hn (by simp only [CONFIG_LINE_MAX] at *; omega) hl

theorem trace_of_lt (hl : l ≠ []) (hn : '\n' ∉ l.dropLast) (h : l.length < CONFIG_LINE_MAX) :
    trace skip 0 (chunks l) = (whole skip l).toList.map (indent l, ·) := by
  rw [chunks_of_lt hl hn h, trace, seen, classify_of_lt h, whole, Nat.zero_add]
  exact List.append_nil _

theorem first_of_line {bs rest : List CString} {first : CString} (hb : ∀ b ∈ bs, blank b)
    (hc : chunks l = bs ++ first :: rest) :
    Item.ofLine l = Item.ofLine (first ++ rest.flatten) ∧ rejected l = rejected (first ++ rest.flatten) := by
  have hl : l = bs.flatten ++ (first ++ rest.flatten) := by
    rw [← flatten_chunks l, hc, List.flatten_append, List.flatten_cons]
  have hu : blank bs.flatten := by
    rw [blank, List.all_flatten]
    exact List.all_eq_true.mpr hb
  rw [hl, Item.ofLine, Item.ofLine, rejected, rejected, ofBuffer_append_blank hu, strip_append_blank hu]
  exact ⟨rfl, rfl⟩

theorem treated_iff (skip : Bool) (hl : l ≠ []) (hn : '\n' ∉ l.dropLast) :
    Treated skip l ↔ (CONFIG_LINE_MAX ≤ l.length → Contained skip l) := by
  by_cases h : CONFIG_LINE_MAX ≤ l.length
  case neg => exact iff_of_true (.inl (trace_of_lt hl hn (Nat.lt_of_not_le h))) fun h' => absurd h' h
  case pos =>
    simp only [Treated, h, true_and, true_imp_iff, Contained]
    obtain ⟨hb, hd, ha⟩ | ⟨bs, first, rest, hb, hf, hc, hd⟩ := chunks_cases l <;> rw [hd]
    case inl =>
      have hw : whole skip l = none := by
        rw [whole, Item.ofLine, strip_of_blank hb]
        rfl
      refine iff_of_true (.inl ?_) trivial
      rw [hw, trace_eq_nil_iff.mpr fun chunk hm => seen_of_blank (ha chunk hm)]
      rfl
    case inr =>
      have hm : first ∈ chunks l := hc ▸ List.mem_append_right _ List.mem_cons_self
      have ⟨hi, hr⟩ := first_of_line hb hc
      have hs := first_iff skip hf (length_lt_of_mem_chunks hm) rest.flatten
      rw [trace_eq_iff hb hf hc, trace_eq_iff hb hf hc, ← or_and_right, whole, hi, hr]
      exact and_congr_left' hs

theorem foldl_skips (ht : Treated skip l) :
    (trace skip 0 (chunks l)).foldl (fun skip e => e.2.skips skip) skip = skipNext skip l := by
  obtain ⟨hb, hd, ha⟩ | ⟨bs, first, rest, hb, hf, hc, hd⟩ := chunks_cases l <;> rw [skipNext, hd]
  case inl => rw [trace_eq_nil_iff.mpr fun chunk hm => seen_of_blank (ha chunk hm)]; rfl
  case inr =>
    have ⟨o, ho⟩ : ∃ o : Option Item, trace skip 0 (chunks l) = o.toList.map (indent l, ·) := by
      obtain h | ⟨_, h⟩ := ht
      case inl => exact ⟨_, h⟩
      case inr => exact ⟨_, h⟩
    have ⟨hs, _⟩ := (trace_eq_iff hb hf hc o).mp ho
    have he : skipAfter skip first = o.elim skip (Item.skips skip) := by rw [skipAfter, hs]
    rw [ho]
    refine Eq.trans ?_ he.symm
    cases o <;> rfl

theorem allTreated_iff {ls : List CString} (h : ∀ l ∈ ls, l ≠ [] ∧ '\n' ∉ l.dropLast) :
    AllTreated skip ls ↔ AllContained skip ls := by
  induction ls generalizing skip
  case nil          => exact Iff.rfl
  case cons l ls hi =>
    have ⟨⟨hl, hn⟩, h⟩ := List.forall_mem_cons.mp h
    have ht := treated_iff skip hl hn
    constructor
    case mp  => exact fun ⟨ha, hs⟩ => ⟨ht.mp ha, (hi h).mp (foldl_skips ha ▸ hs)⟩
    case mpr =>
      intro ⟨hc, hs⟩
      have ha := ht.mpr hc
      exact ⟨ha, foldl_skips ha ▸ (hi h).mpr hs⟩

end Lines

namespace Loader

variable {st : Loader} {item : Item}

theorem read_eq (st : Loader) (chunk : CString) :
    st.read (ofBuffer chunk) = (seen st.skip chunk).elim st st.act := by
  rw [read, seen]
  cases classify (ofBuffer chunk)
  case none      => rfl
  case some item =>
    cases item
    case header     => rfl
    case pair param =>
      cases hc : st.current
      case none   => simp [Option.filter, Item.counts, skip, hc, act_pair_none hc]
      case some r => simp [Option.filter, Item.counts, skip, hc]

theorem skip_act (st : Loader) (item : Item) : (st.act item).skip = item.skips st.skip := by
  cases item
  case header sec => cases sec <;> rfl
  case pair param =>
    cases hc : st.current
    case none   => rw [act_pair_none hc]; rfl
    case some r => rw [act_pair_some hc]; rfl

theorem skip_foldl (es : List (Nat × Item)) (st : Loader) :
    ((es.map Prod.snd).foldl act st).skip = es.foldl (fun skip e => e.2.skips skip) st.skip := by
  induction es generalizing st
  case nil          => rfl
  case cons e es hi => rw [List.map_cons, List.foldl_cons, hi, skip_act, List.foldl_cons]

theorem foldl_read_eq (raws : List CString) (st : Loader) (off : Nat) :
    (raws.map ofBuffer).foldl read st = ((trace st.skip off raws).map Prod.snd).foldl act st := by
  induction raws generalizing st off
  case nil              => rfl
  case cons raw raws hi =>
    rw [List.map_cons, List.foldl_cons, read_eq, trace, List.map_append, List.foldl_append]
    cases hs : seen st.skip raw
    case none      =>
      have hn : skipAfter st.skip raw = st.skip := by rw [skipAfter, hs]; rfl
      rw [hn]
      exact hi st _
    case some item =>
      have hn : skipAfter st.skip raw = (st.act item).skip := by rw [skipAfter, hs, skip_act]; rfl
      rw [hn]
      exact hi (st.act item) _

theorem foldl_trace {o : Option Item} {l : CString}
    (h : trace st.skip 0 (chunks l) = o.toList.map (indent l, ·)) :
    ((chunks l).map ofBuffer).foldl read st = o.elim st st.act := by
  rw [foldl_read_eq _ _ 0, h]
  cases o <;> rfl

-- If all lines are treated as they should be, each of them is handled or rejected whole.
theorem exists_handled {ls : List CString} (h : AllTreated st.skip ls) :
    ∃ hs : List (CString × Bool), hs.map Prod.fst = ls ∧ (∀ p ∈ hs, p.1.length < CONFIG_LINE_MAX → p.2) ∧
    ((ls.flatMap chunks).map ofBuffer).foldl read st = hs.foldl handle st := by
  induction ls generalizing st
  case nil          => exact ⟨[], rfl, List.forall_mem_nil _, rfl⟩
  case cons l ls hi =>
    have ⟨hl, h⟩ := h
    have ⟨ok, hok, hr⟩ : ∃ ok : Bool, (l.length < CONFIG_LINE_MAX → ok) ∧
        ((chunks l).map ofBuffer).foldl read st = st.handle (l, ok) := by
      obtain hl | ⟨hn, hl⟩ := hl
      case inl => exact ⟨true, fun _ => rfl, foldl_trace hl⟩
      case inr => exact ⟨false, fun hs => absurd hs (Nat.not_lt.mpr hn), foldl_trace hl⟩
    rw [← skip_foldl, ← foldl_read_eq, hr] at h
    have ⟨hs, hm, hp, he⟩ := hi h
    refine ⟨(l, ok) :: hs, congrArg (l :: ·) hm, List.forall_mem_cons.mpr ⟨hok, hp⟩, ?_⟩
    rw [List.flatMap_cons, List.map_append, List.foldl_append, hr, he, List.foldl_cons]

end Loader

variable {c : Config} {text : CString}

theorem loadText_eq (c : Config) (text : CString) :
    c.loadText text = ((((physical text).flatMap chunks).map ofBuffer).foldl Loader.read ⟨c, none⟩).config := by
  rw [loadText, fgets, fgetsLoop_physical]
  rfl

-- A config file is read line by line if and only if no line that is longer than the buffer goes on, after
-- the chunk in which it starts, with what looks like a header or an option.
theorem lineByLine_iff (c : Config) (text : CString) :
    LineByLine c text ↔ AllContained true (physical text) := by
  rw [← allTreated_iff fun l => physical_spec]
  constructor
  case mp  => exact LineByLine.treated
  case mpr =>
    intro h
    let st : Loader := ⟨c, none⟩
    have ⟨hs, hm, hp, he⟩ := Loader.exists_handled (show AllTreated st.skip (physical text) from h)
    exact ⟨h, hs, hm, hp, by rw [loadText_eq, he]⟩

section Example

-- The end of a long comment is read as an option.
def longComment : CString :=
  "[main]\n#".toList ++ List.replicate 254 '-' ++ "nice = 5\n".toList

theorem not_lineByLine : ¬LineByLine empty longComment := by
  intro h
  exact absurd h.treated (by decide +kernel)

end Example
end F2b.Config
