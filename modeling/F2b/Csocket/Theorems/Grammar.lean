import F2b.Csocket.Commands
import F2b.Lib.Words
import Mathlib.Data.List.Forall2

-- The commands that are accepted, and those of the table that the help text is made of.

namespace F2b.Cmd

open CString Words

section Definitions

def isPlaceholder (token : CString) : Bool :=
  token.head? = some '<'

def Meet (tokens args : List CString) : Prop :=
  List.Forall₂ (fun token arg => isPlaceholder token ∨ token = arg) tokens args

-- Tokens as in a row of the table. There are two types of authorization.
structure Fits (d : Desc) (args : List CString) : Prop where
  tokens : Meet d.tokens args
  auth   : d.type = .auth → args[1]? = some "plain".toList ∨ args[1]? = some "challenge".toList

def Matches (type : CmdType) (args : List CString) : Prop :=
  ∃ d ∈ commands, d.type = type ∧ Fits d args

-- The result for a line is the one for its tokens.
structure Grammatical (line : CString) : Prop where
  type : ∀ type, (create line).map Cmd.type = some type ↔ Matches type (tokens line)
  args : ∀ cmd, create line = some cmd → cmd.args = tokens line

-- A command of one token, with blanks behind it.
def Trailing (line : CString) : Prop :=
  (∃ type w, tokens line = [w] ∧ Matches type [w]) ∧ ∃ c ∈ line.getLast?, isblank c

-- There are only blanks before the tokens, and no blanks behind a command of one token. Otherwise, with other
-- spaces before it, it is no command.
def Clean (line : CString) : Prop :=
  if (line.takeWhile isspace).all isblank then ¬Trailing line
  else Trailing (line.dropWhile isspace) ∨ ∀ type, ¬Matches type (tokens (line.dropWhile isspace))

end Definitions

section Table

variable {type : CmdType} {args ts : List CString} {t w : CString}

theorem meet_nil_iff : Meet [] args ↔ args = [] :=
  List.forall₂_nil_left_iff

theorem matches_row (i : Nat) (hi : i < commands.length) (hf : Fits commands[i] args) :
    Matches commands[i].type args :=
  ⟨_, List.getElem_mem hi, rfl, hf⟩

theorem matches_of_typeOf (h : typeOf args = some type) : Matches type args := by
  rcases args with _ | ⟨a, _ | ⟨b, _ | ⟨c, _ | ⟨d, _ | ⟨e, _ | ⟨f, args⟩⟩⟩⟩⟩⟩
  case nil => exact nomatch h
  all_goals simp only [typeOf, List.getD_cons_zero, List.getD_cons_succ, List.length_cons, List.length_nil,
    Nat.reduceAdd, Nat.reduceEqDiff, false_and, if_false, gt_iff_lt, Nat.reduceLT, and_true, true_and, and_false,
    Nat.lt_irrefl, reduceCtorEq, ite_self] at h
  all_goals split_ifs at h
  all_goals obtain rfl := Option.some.inj h
  all_goals try casesm _ ∧ _
  all_goals subst_vars
  -- The rows in the order of the comparisons, by the number of tokens.
  exacts [
    matches_row 5 (by decide) ⟨.cons (.inr rfl) (.cons (.inr rfl) .nil), nofun⟩,
    matches_row 8 (by decide) ⟨.cons (.inr rfl) (.cons (.inl rfl) (.cons (.inr rfl) .nil)), nofun⟩,
    matches_row 1 (by decide) ⟨.cons (.inr rfl) (.cons (.inl rfl) (.cons (.inl rfl) .nil)), fun _ => .inl rfl⟩,
    matches_row 1 (by decide) ⟨.cons (.inr rfl) (.cons (.inl rfl) (.cons (.inl rfl) .nil)), fun _ => .inr rfl⟩,
    matches_row 6 (by decide) ⟨.cons (.inr rfl) (.cons (.inr rfl) (.cons (.inl rfl) .nil)), nofun⟩,
    matches_row 7 (by decide) ⟨.cons (.inr rfl) (.cons (.inr rfl) (.cons (.inl rfl) .nil)), nofun⟩,
    matches_row 13 (by decide)
      ⟨.cons (.inr rfl) (.cons (.inl rfl) (.cons (.inr rfl) (.cons (.inr rfl) .nil))), nofun⟩,
    matches_row 14 (by decide)
      ⟨.cons (.inr rfl) (.cons (.inl rfl) (.cons (.inr rfl) (.cons (.inr rfl) .nil))), nofun⟩,
    matches_row 15 (by decide)
      ⟨.cons (.inr rfl) (.cons (.inl rfl) (.cons (.inr rfl) (.cons (.inr rfl) .nil))), nofun⟩,
    matches_row 9 (by decide)
      ⟨.cons (.inr rfl) (.cons (.inl rfl) (.cons (.inr rfl) (.cons (.inl rfl) (.cons (.inl rfl) .nil)))), nofun⟩,
    matches_row 10 (by decide)
      ⟨.cons (.inr rfl) (.cons (.inl rfl) (.cons (.inr rfl) (.cons (.inr rfl) (.cons (.inl rfl) .nil)))), nofun⟩,
    matches_row 11 (by decide)
      ⟨.cons (.inr rfl) (.cons (.inl rfl) (.cons (.inr rfl) (.cons (.inr rfl) (.cons (.inl rfl) .nil)))), nofun⟩,
    matches_row 12 (by decide)
      ⟨.cons (.inr rfl) (.cons (.inl rfl) (.cons (.inr rfl) (.cons (.inr rfl) (.cons (.inl rfl) .nil)))), nofun⟩]

theorem literal_iff (h : isPlaceholder t = false) : Meet (t :: ts) args ↔ ∃ as, Meet ts as ∧ args = t :: as := by
  simp [Meet, List.forall₂_cons_left_iff, h]

theorem placeholder_iff (h : isPlaceholder t) : Meet (t :: ts) args ↔ ∃ as, Meet ts as ∧ ∃ a, args = a :: as := by
  simp [Meet, List.forall₂_cons_left_iff, h]
  aesop

theorem typeOf_of_matches (h : Matches type args) (hn : args.length ≠ 1) : typeOf args = some type := by
  obtain ⟨d, hd, rfl, hf, ha⟩ := h
  simp only [commands, List.mem_cons, List.not_mem_nil, or_false] at hd
  rcases hd with rfl | rfl | rfl | rfl | rfl | rfl | rfl | rfl | rfl | rfl | rfl | rfl | rfl | rfl | rfl | rfl
  all_goals simp (disch := decide) only [literal_iff, placeholder_iff, meet_nil_iff, exists_eq_left] at hf
  case inr.inl =>
    obtain ⟨_, ⟨_, ⟨_, rfl⟩, _, rfl⟩, rfl⟩ := hf
    obtain h | h := ha rfl
    all_goals
      obtain rfl := Option.some.inj h
      rfl
  all_goals try casesm* (∃ _, _), _ ∧ _
  all_goals subst_vars
  all_goals first
  | exact absurd rfl hn
  | rfl

-- The commands that are compared with the whole line.
def simple : List (CString × CmdType) :=
  [("help".toList, .help), ("status".toList, .status), ("reload".toList, .reload), ("shutdown".toList, .shutdown)]

theorem lookup_iff : simple.lookup w = some type ↔ Matches type [w] := by
  constructor
  case mp  =>
    intro h
    have ⟨_, _, h, _⟩ := List.lookup_eq_some_iff.mp h
    have hm : (w, type) ∈ simple := by simp [h]
    have hs : ∀ e ∈ simple, ∃ d ∈ commands, d.type = e.2 ∧ d.tokens = [e.1] ∧ d.type ≠ .auth := by decide
    have ⟨d, hd, ht, he, ha⟩ := hs _ hm
    refine ⟨d, hd, ht, ?_, fun h => absurd h ha⟩
    rw [he]
    exact .cons (.inr rfl) .nil
  case mpr =>
    rintro ⟨d, hd, rfl, hf, _⟩
    have hs : ∀ d ∈ commands, d.tokens.length = 1 →
        isPlaceholder (d.tokens.getD 0 []) = false ∧ simple.lookup (d.tokens.getD 0 []) = some d.type := by
      decide
    have ⟨hp, hl⟩ := hs d hd (List.Forall₂.length_eq hf)
    obtain ⟨t, ts, h, _, he⟩ := List.forall₂_cons_right_iff.mp hf
    rw [he] at hp hl
    have hw : t = w := h.resolve_left (by simpa using hp)
    exact hw ▸ hl

theorem length_of_matches (h : Matches type args) : 1 ≤ args.length ∧ args.length ≤ 5 := by
  obtain ⟨d, hd, _, hf, _⟩ := h
  have hl : ∀ d ∈ commands, 1 ≤ d.tokens.length ∧ d.tokens.length ≤ 5 := by decide
  rw [← List.Forall₂.length_eq hf]
  exact hl d hd

theorem typeOf_eq_some_iff : typeOf args = some type ↔ Matches type args ∧ args.length ≠ 1 := by
  constructor
  case mp  =>
    intro h
    refine ⟨matches_of_typeOf h, fun hl => ?_⟩
    obtain ⟨a, rfl⟩ := List.length_eq_one_iff.mp hl
    simp [typeOf] at h
  case mpr => exact fun ⟨h, hn⟩ => typeOf_of_matches h hn

-- Of more tokens than a row has, the first are enough to see that there is no such command.
theorem typeOf_take (args : List CString) :
    (typeOf (args.take CMD_TOKENS_MAXCOUNT)).map (Cmd.mk · (args.take CMD_TOKENS_MAXCOUNT)) =
    (typeOf args).map (Cmd.mk · args) := by
  by_cases h : args.length ≤ CMD_TOKENS_MAXCOUNT
  case pos => rw [List.take_of_length_le h]
  case neg =>
    have hn : ∀ args : List CString, CMD_TOKENS_MAXCOUNT ≤ args.length → typeOf args = none := by
      intro args hl
      rw [Option.eq_none_iff_forall_ne_some]
      intro type ht
      have := (length_of_matches (matches_of_typeOf ht)).2
      exact absurd (hl.trans this) (by decide)
    rw [hn args (by omega), hn _ (by rw [List.length_take]; omega)]
    rfl

theorem parse_eq (src : CString) (h : src.dropWhile isblank = src) :
    parse src =
    if src = [] then none
    else match simple.lookup src with
    | some type => some ⟨type, [src]⟩
    | none      => (typeOf (tokens src)).map (Cmd.mk · (tokens src)) := by
  rw [← typeOf_take]
  simp only [parse, h, simple]
  split_ifs with h0 h₁ h₂ h₃ h₄
  case pos => rfl
  case pos => rw [h₁]; rfl
  case pos => rw [h₂]; rfl
  case pos => rw [h₃]; rfl
  case pos => rw [h₄]; rfl
  case neg =>
    simp only [List.lookup_cons, List.lookup_nil, beq_eq_false_iff_ne.mpr, h₁, h₂, h₃, h₄, ne_eq, not_false_eq_true]

end Table

section Lines

variable {line src : CString} {cmd : Cmd} {type : CmdType} {w : CString}

theorem not_isblank_of_matches (h : Matches type [w]) : w ≠ [] ∧ ∀ c ∈ w, isblank c = false := by
  have ⟨_, _, h, _⟩ := List.lookup_eq_some_iff.mp (lookup_iff.mpr h)
  have hm : (w, type) ∈ simple := by simp [h]
  have hs : ∀ e ∈ simple, e.1 ≠ [] ∧ e.1.all (!isblank ·) := by decide
  have ⟨hn, hb⟩ := hs _ hm
  exact ⟨hn, fun c hc => by simpa using List.all_eq_true.mp hb c hc⟩

theorem tokens_of_matches (h : Matches type [w]) : tokens w = [w] := by
  have ⟨hn, hw⟩ := not_isblank_of_matches h
  have := words_append_word hn hw (show Ends isblank [] from nofun)
  rwa [List.append_nil, words_nil] at this

theorem not_trailing_of_matches (h : Matches type [w]) : ¬Trailing w := by
  rintro ⟨_, c, hc, hb⟩
  have := (not_isblank_of_matches h).2 c (List.mem_of_getLast? hc)
  simp [this] at hb

theorem trailing_iff (hs : ∀ c ∈ src.head?, isblank c = false) (hl : simple.lookup src = none)
    (hm : Matches type (tokens src)) : Trailing src ↔ (tokens src).length = 1 := by
  constructor
  case mp  =>
    rintro ⟨⟨_, w, h, _⟩, _⟩
    rw [h, List.length_singleton]
  case mpr =>
    intro h
    obtain ⟨w, hw⟩ := List.length_eq_one_iff.mp h
    rw [hw] at hm
    obtain ⟨t, rfl, ht⟩ := eq_append_of_words hw hs
    refine ⟨⟨type, w, hw, hm⟩, ?_⟩
    have hn : t ≠ [] := by
      rintro rfl
      rw [List.append_nil, lookup_iff.mpr hm] at hl
      cases hl
    exact ⟨t.getLast hn, by rw [List.getLast?_append_of_ne_nil _ hn, List.getLast?_eq_some_getLast hn]; rfl,
      ht _ (List.getLast_mem hn)⟩

theorem create_eq_some_iff :
    create line = some cmd ↔
    Matches cmd.type (tokens (line.dropWhile isspace)) ∧ cmd.args = tokens (line.dropWhile isspace) ∧
    ¬Trailing (line.dropWhile isspace) := by
  have hs : ∀ c ∈ (line.dropWhile isspace).head?, isblank c = false := by
    intro c hc
    have := head_dropWhile isspace line c hc
    simp only [isspace, Bool.or_eq_false_iff] at this
    exact this.1.1.1.1
  rw [create]
  generalize line.dropWhile isspace = src at *
  have hd : src.dropWhile isblank = src := by
    cases src
    case nil      => rfl
    case cons c s => exact List.dropWhile_cons_of_neg (by simp [hs c rfl])
  rw [parse_eq src hd]
  by_cases h0 : src = []
  case pos =>
    rw [if_pos h0]
    refine iff_of_false (by simp) fun h => ?_
    have hm := h.1
    have := (length_of_matches hm).1
    simp [h0, tokens] at this
  case neg =>
    rw [if_neg h0, if_neg h0]
    cases hl : simple.lookup src
    case some type =>
      have hm := lookup_iff.mp hl
      rw [tokens_of_matches hm]
      constructor
      case mp  =>
        rintro ⟨⟩
        exact ⟨hm, rfl, not_trailing_of_matches hm⟩
      case mpr =>
        rintro ⟨h, ha, _⟩
        have ht := Option.some.inj (hl.symm.trans (lookup_iff.mpr h))
        rw [ht, ← ha]
    case none      =>
      have ht : (typeOf (tokens src)).map (Cmd.mk · (tokens src)) = some cmd ↔
          typeOf (tokens src) = some cmd.type ∧ cmd.args = tokens src := by
        rw [Option.map_eq_some_iff]
        constructor
        case mp  => rintro ⟨_, h, rfl⟩; exact ⟨h, rfl⟩
        case mpr => rintro ⟨h, ha⟩; exact ⟨_, h, by rw [← ha]⟩
      rw [ht, typeOf_eq_some_iff, and_right_comm, and_assoc]
      refine and_congr_right fun hm => and_congr_right' ?_
      rw [trailing_iff hs hl hm]

theorem type_eq_some_iff :
    (create line).map Cmd.type = some type ↔
    Matches type (tokens (line.dropWhile isspace)) ∧ ¬Trailing (line.dropWhile isspace) := by
  rw [Option.map_eq_some_iff]
  constructor
  case mp  =>
    rintro ⟨cmd, hc, rfl⟩
    have ⟨hm, _, ht⟩ := create_eq_some_iff.mp hc
    exact ⟨hm, ht⟩
  case mpr => exact fun ⟨hm, ht⟩ => ⟨⟨type, _⟩, create_eq_some_iff.mpr ⟨hm, rfl, ht⟩, rfl⟩

theorem args_of_create (h : create line = some cmd) : cmd.args = tokens (line.dropWhile isspace) :=
  (create_eq_some_iff.mp h).2.1

end Lines

section Spaces

variable {line line' : CString} {cmd : Cmd} {type : CmdType}

-- The first token does not begin with a space if and only if there are only blanks before it.
theorem blanks_iff :
    (∀ c ∈ line.takeWhile isspace, isblank c) ↔ ∀ w ∈ (tokens line).head?, ∀ c ∈ w.head?, isspace c = false :=
  takeWhile_iff (fun _ h => by simp [isspace, h]) line

theorem tokens_of_blanks (h : ∀ c ∈ line.takeWhile isspace, isblank c) :
    tokens (line.dropWhile isspace) = tokens line := by
  have := words_append h (line.dropWhile isspace)
  rw [List.takeWhile_append_dropWhile] at this
  exact this.symm

theorem trailing_of_blanks (h : ∀ c ∈ line.takeWhile isspace, isblank c) :
    Trailing (line.dropWhile isspace) ↔ Trailing line := by
  rw [Trailing, Trailing, tokens_of_blanks h]
  refine and_congr_right fun ⟨_, w, hw, _⟩ => ?_
  have hn : line.dropWhile isspace ≠ [] := by
    intro hd
    have := tokens_of_blanks h
    rw [hd, hw] at this
    cases this
  conv_rhs => rw [← List.takeWhile_append_dropWhile (p := isspace) (l := line), List.getLast?_append_of_ne_nil _ hn]

theorem not_matches_of_spaces (h : ¬∀ c ∈ line.takeWhile isspace, isblank c) : ¬Matches type (tokens line) := by
  rintro ⟨d, hd, _, hf, _⟩
  refine h (blanks_iff.mpr fun w hw c hc => ?_)
  have hs : ∀ d ∈ commands, d.tokens.head?.all fun t => !isPlaceholder t && t.head?.all (!isspace ·) := by
    decide
  obtain ⟨args, ha⟩ := List.head?_eq_some_iff.mp hw
  rw [ha] at hf
  obtain ⟨t, ts, ht, _, he⟩ := List.forall₂_cons_right_iff.mp hf
  have := hs d hd
  simp only [he, List.head?_cons, Option.all_some, Bool.and_eq_true, Bool.not_eq_true'] at this
  obtain rfl := ht.resolve_left (by simp [this.1])
  rw [Option.mem_def.mp hc] at this
  simpa using this.2

theorem clean_of_blanks (h : ∀ c ∈ line.takeWhile isspace, isblank c) : Clean line ↔ ¬Trailing line := by
  rw [Clean, if_pos (List.all_eq_true.mpr h)]

theorem clean_of_spaces (h : ¬∀ c ∈ line.takeWhile isspace, isblank c) :
    Clean line ↔
    Trailing (line.dropWhile isspace) ∨ ∀ type, ¬Matches type (tokens (line.dropWhile isspace)) := by
  rw [Clean, if_neg (mt List.all_eq_true.mp h)]

theorem grammatical_iff : Grammatical line ↔ Clean line := by
  by_cases h : ∀ c ∈ line.takeWhile isspace, isblank c
  case pos =>
    rw [clean_of_blanks h, ← trailing_of_blanks h]
    constructor
    case mp  =>
      intro hg ht
      have ⟨type, w, hw, hm⟩ := ht.1
      rw [← hw, tokens_of_blanks h] at hm
      exact (type_eq_some_iff.mp ((hg.type type).mpr hm)).2 ht
    case mpr =>
      intro ht
      refine ⟨fun type => ?_, fun cmd hc => ?_⟩
      case refine_1 => rw [type_eq_some_iff, and_iff_left ht, tokens_of_blanks h]
      case refine_2 => rw [args_of_create hc, tokens_of_blanks h]
  case neg =>
    rw [clean_of_spaces h]
    constructor
    case mp  =>
      intro hg
      by_contra hc
      simp only [not_or, not_forall, not_not] at hc
      have ⟨ht, type, hm⟩ := hc
      exact not_matches_of_spaces h ((hg.type type).mp (type_eq_some_iff.mpr ⟨hm, ht⟩))
    case mpr =>
      intro hc
      have hn : ∀ cmd, create line ≠ some cmd := by
        intro cmd hs
        have ⟨hm, _, ht⟩ := create_eq_some_iff.mp hs
        exact hc.elim ht fun h => h _ hm
      refine ⟨fun type => iff_of_false ?_ (not_matches_of_spaces h), fun cmd hs => absurd hs (hn cmd)⟩
      rw [Option.map_eq_some_iff]
      exact fun ⟨cmd, hs, _⟩ => hn cmd hs

theorem trailing_of_create_eq (h : tokens (line.dropWhile isspace) = tokens (line'.dropWhile isspace))
    (he : create line = create line') (ht : Trailing (line.dropWhile isspace)) :
    Trailing (line'.dropWhile isspace) := by
  by_contra ht'
  have ⟨type, w, hw, hm⟩ := ht.1
  rw [← hw, h] at hm
  have hc := type_eq_some_iff.mpr ⟨hm, ht'⟩
  rw [← he] at hc
  exact (type_eq_some_iff.mp hc).2 ht

theorem clean_iff_clean (h : tokens line = tokens line')
    (hd : tokens (line.dropWhile isspace) = tokens (line'.dropWhile isspace)) :
    (Clean line ↔ Clean line') ↔ (Trailing (line.dropWhile isspace) ↔ Trailing (line'.dropWhile isspace)) := by
  have hb : (∀ c ∈ line.takeWhile isspace, isblank c) ↔ ∀ c ∈ line'.takeWhile isspace, isblank c := by
    rw [blanks_iff, blanks_iff, h]
  by_cases hs : ∀ c ∈ line.takeWhile isspace, isblank c
  case pos =>
    have hs' := hb.mp hs
    rw [clean_of_blanks hs, clean_of_blanks hs', ← trailing_of_blanks hs, ← trailing_of_blanks hs', not_iff_not]
  case neg =>
    have hs' := mt hb.mpr hs
    have hn : ∀ {s}, Trailing s → ¬∀ type, ¬Matches type (tokens s) :=
      fun ⟨⟨type, _, hw, hm⟩, _⟩ hn => hn type (hw ▸ hm)
    have h₁ := @hn (line.dropWhile isspace)
    have h₂ := @hn (line'.dropWhile isspace)
    rw [clean_of_spaces hs, clean_of_spaces hs']
    rw [hd] at h₁ ⊢
    tauto

-- Of two lines with the same tokens, the results agree if both are clean or none is.
theorem create_eq_create_iff (h : tokens line = tokens line') :
    create line = create line' ↔ (Clean line ↔ Clean line') := by
  have hd : tokens (line.dropWhile isspace) = tokens (line'.dropWhile isspace) := by
    have hw (s : CString) : tokens (s.dropWhile isspace) = dropWords isspace (tokens s) :=
      words_dropWhile (fun _ h => by simp [isspace, h]) s
    rw [hw, hw, h]
  rw [clean_iff_clean h hd]
  constructor
  case mp  => exact fun he => ⟨trailing_of_create_eq hd he, trailing_of_create_eq hd.symm he.symm⟩
  case mpr =>
    intro ht
    refine Option.ext fun cmd => ?_
    rw [create_eq_some_iff, create_eq_some_iff, hd, ht]

theorem grammar_iff (line : CString) :
    (Grammatical line ↔ Clean line) ∧
    ∀ line', tokens line = tokens line' → (create line = create line' ↔ (Clean line ↔ Clean line')) :=
  ⟨grammatical_iff, fun _ h => create_eq_create_iff h⟩

-- A blank behind it makes 'help' an unknown command.
theorem not_grammar :
    ¬((∀ line, Grammatical line) ∧ ∀ line line', tokens line = tokens line' → create line = create line') := by
  rintro ⟨h, _⟩
  have := ((h "help ".toList).type .help).mpr ⟨_, List.getElem_mem (show 0 < commands.length by decide), rfl,
    .cons (.inr rfl) .nil, nofun⟩
  revert this
  decide

end Spaces
end F2b.Cmd
